import Innodb.DumpSound
import Innodb.SpaceSound

/-!
# What the text of a tablespace tells

`dump_space` prints the contents of a tablespace: the page that is its header,
the next four pages, and what is on its lists. Two tablespaces are printed
alike exactly if these are the same, as far as the dumps show them; only which
inode entry of its page a list of extents belongs to is not told.
-/

namespace Innodb
open Loop Printing Text Relator

/-! ## Contents -/

structure Extent where
  addr : Addr
  entry : XdesE
  decoded : entry.decoded = entry

/-- One of the two lists of an inode entry that are printed. -/
structure EntryList where
  full : Bool
  listLength : UInt32
  extents : List Extent

structure InodePageLists where
  addr : Addr
  lists : List EntryList

inductive ListContent where
  | extents (l : List Extent)
  | inodes (l : List InodePageLists)

structure Content where
  header : FilHeader × PageBody
  pages : List (FilHeader × PageBody)
  lists : List ListContent

theorem xdesOf_decoded (file : Option File) (a : Addr) : (xdesOf file a).decoded = xdesOf file a := by
  unfold xdesOf
  cases image file a.pageNumber <;> rfl

section
variable (file : Option File)

/-- What there is along a list, to the end of its addresses. -/
def OnList {γ : Type} (next : Addr → Addr) (C : Addr → γ → Prop) (l : ListBaseNode) (cs : List γ) : Prop :=
  if l.listLength = 0 then cs = []
  else ∃ as, Spells Addr.valid next l.firstAddr as ∧ List.Forall₂ C as cs

def Extent.At (a : Addr) (c : Extent) : Prop := XdesGood file a ∧ c = ⟨a, xdesOf file a, xdesOf_decoded file a⟩

def ExtentsOn : XDesEntryList → List Extent → Prop := OnList (xdesNext file) (Extent.At file)

def EntryList.Of (full : Bool) (l : XDesEntryList) (ts : List EntryList) : Prop :=
  if l.listLength = 0 then ts = [] else ∃ cs, ExtentsOn file l cs ∧ ts = [⟨full, l.listLength, cs⟩]

def EntryList.OfEntry (e : INodeE) (ts : List EntryList) : Prop :=
  ∃ ts₁ ts₂, EntryList.Of file true e.fullListBaseNode ts₁ ∧ EntryList.Of file false e.notFullListBaseNode ts₂ ∧
    ts = ts₁ ++ ts₂

def InodePageLists.At (a : Addr) (c : InodePageLists) : Prop :=
  InodeGood file a ∧ ∃ tss, List.Forall₂ (EntryList.OfEntry file) (inodePageOf file a).inodeArr tss ∧ c = ⟨a, tss.flatten⟩

inductive ListContent.Of (h : FspHeader) : DumpSpace.SpaceList → ListContent → Prop
  | extents {title baseNode behind cs} : ExtentsOn file (baseNode h) cs →
      ListContent.Of h (.extents title baseNode behind) (.extents cs)
  | inodes {title baseNode cs} : OnList (inodeNext file) (InodePageLists.At file) (baseNode h) cs →
      ListContent.Of h (.inodes title baseNode) (.inodes cs)

def ShownAt (i : UInt32) (v : FilHeader × PageBody) : Prop :=
  ∃ buf pg, image file i = some buf ∧ initPage buf = .ok (some pg) ∧ v = pg.shown

/-- The contents of the tablespace in the file. -/
def Content.Of (c : Content) : Prop :=
  ∃ buf pg h arr, image file 0 = some buf ∧ initPage buf = .ok (some pg) ∧ pg.body = .fspHeaderPage h arr ∧
    c.header = pg.shown ∧ List.Forall₂ (ShownAt file) [1, 2, 3, 4] c.pages ∧
    List.Forall₂ (ListContent.Of file h) DumpSpace.spaceLists c.lists

/-! ## There is but one content -/

variable {file}

theorem OnList.unique {γ : Type} {next : Addr → Addr} {C : Addr → γ → Prop} (hC : RightUnique C) :
    RightUnique (OnList next C) := by
  intro l cs cs' h h'
  unfold OnList at h h'
  split at h
  · rename_i h0
    rw [if_pos h0] at h'
    rw [h, h']
  · rename_i h0
    rw [if_neg h0] at h'
    obtain ⟨as, has, hcs⟩ := h
    obtain ⟨as', has', hcs'⟩ := h'
    obtain rfl := has.unique has'
    exact hC.forall₂ hcs hcs'

theorem ExtentsOn.unique : RightUnique (ExtentsOn file) :=
  OnList.unique fun _ _ _ h h' => h.2.trans h'.2.symm

theorem EntryList.Of.unique (full : Bool) : RightUnique (EntryList.Of file full) := by
  intro l ts ts' h h'
  unfold EntryList.Of at h h'
  split at h
  · rename_i h0
    rw [if_pos h0] at h'
    rw [h, h']
  · rename_i h0
    rw [if_neg h0] at h'
    obtain ⟨cs, hcs, rfl⟩ := h
    obtain ⟨cs', hcs', rfl⟩ := h'
    rw [ExtentsOn.unique hcs hcs']

theorem EntryList.OfEntry.unique : RightUnique (EntryList.OfEntry file) := by
  intro e ts ts' h h'
  obtain ⟨ts₁, ts₂, h₁, h₂, rfl⟩ := h
  obtain ⟨ts₁', ts₂', h₁', h₂', rfl⟩ := h'
  rw [EntryList.Of.unique true h₁ h₁', EntryList.Of.unique false h₂ h₂']

theorem InodePageLists.At.unique : RightUnique (InodePageLists.At file) := by
  intro a c c' h h'
  obtain ⟨-, tss, htss, rfl⟩ := h
  obtain ⟨-, tss', htss', rfl⟩ := h'
  rw [EntryList.OfEntry.unique.forall₂ htss htss']

theorem ListContent.Of.unique (h : FspHeader) : RightUnique (ListContent.Of file h) := by
  intro l c c' hc hc'
  cases hc with
  | extents hcs =>
    cases hc' with
    | extents hcs' => rw [ExtentsOn.unique hcs hcs']
  | inodes hcs =>
    cases hc' with
    | inodes hcs' => rw [OnList.unique InodePageLists.At.unique hcs hcs']

theorem ShownAt.unique : RightUnique (ShownAt file) := by
  intro i v v' h h'
  obtain ⟨buf, pg, hi, hinit, rfl⟩ := h
  obtain ⟨buf', pg', hi', hinit', rfl⟩ := h'
  rw [hi] at hi'
  cases hi'
  rw [hinit] at hinit'
  cases hinit'
  rfl

theorem Content.Of.unique {c c' : Content} (h : Content.Of file c) (h' : Content.Of file c') : c = c' := by
  obtain ⟨buf, pg, hd, arr, hi, hinit, hb, hheader, hpages, hlists⟩ := h
  obtain ⟨buf', pg', hd', arr', hi', hinit', hb', hheader', hpages', hlists'⟩ := h'
  rw [hi] at hi'
  cases hi'
  rw [hinit] at hinit'
  cases hinit'
  rw [hb] at hb'
  cases hb'
  obtain ⟨header, pages, lists⟩ := c
  obtain ⟨header', pages', lists'⟩ := c'
  simp only [Content.mk.injEq]
  exact ⟨hheader.trans hheader'.symm, ShownAt.unique.forall₂ hpages hpages',
    (ListContent.Of.unique hd).forall₂ hlists hlists'⟩

end

/-! ## Their texts -/

def Extent.text (c : Extent) : String := c.entry.dump c.addr

def EntryList.text (t : EntryList) : String :=
  (if t.full then "xdes full list with size: "
    else "------------------------------------------------------" ++ endl ++ "xdes not full list with size: ") ++
    (num t.listLength.toNat ++ ": " ++ run Extent.text t.extents ++ endl)

def InodePageLists.text (c : InodePageLists) : String :=
  "inode page at: " ++ c.addr.dump ++ endl ++ run EntryList.text c.lists

def listContentText : DumpSpace.SpaceList → ListContent → String
  | .extents title _ behind, .extents cs => title ++ run Extent.text cs ++ behind
  | .inodes title _, .inodes cs => title ++ run InodePageLists.text cs
  | _, _ => ""

def pageText (i : UInt32) (pg : { pg : Page // pg.Coherent }) : String :=
  "page: " ++ num i.toNat ++ endl ++ pg.val.dump ++ endl

section
variable {file : Option File}

theorem listText_iff {γ : Type} {next : Addr → Addr} {item : Addr → String → Prop} {C : Addr → γ → Prop} {f : γ → String}
    (h : ∀ a x, item a x ↔ ∃ c, C a c ∧ x = f c) (l : ListBaseNode) (x : String) :
    ListText next item l x ↔ ∃ cs, OnList next C l cs ∧ x = run f cs := by
  unfold ListText OnList
  by_cases h0 : l.listLength = 0
  · simp only [if_pos h0, exists_eq_left, run]
  · simp only [if_neg h0]
    rw [eachAlong_iff h]
    refine ⟨fun hx => ?_, fun hx => ?_⟩
    · obtain ⟨as, cs, has, hcs, rfl⟩ := hx
      exact ⟨cs, ⟨as, has, hcs⟩, rfl⟩
    · obtain ⟨cs, ⟨as, has, hcs⟩, rfl⟩ := hx
      exact ⟨as, cs, has, hcs, rfl⟩

theorem extentsText_iff (l : XDesEntryList) (x : String) :
    ListText (xdesNext file) (XdesText file) l x ↔ ∃ cs, ExtentsOn file l cs ∧ x = run Extent.text cs := by
  refine listText_iff (fun a y => ⟨fun hy => ?_, fun hy => ?_⟩) l x
  · obtain ⟨hg, rfl⟩ := hy
    exact ⟨_, ⟨hg, rfl⟩, rfl⟩
  · obtain ⟨c, ⟨hg, rfl⟩, rfl⟩ := hy
    exact ⟨hg, rfl⟩

theorem entryListText_iff (full : Bool) (title : String) (l : XDesEntryList)
    (htitle : ∀ cs, title ++ run Extent.text cs ++ endl = EntryList.text ⟨full, l.listLength, cs⟩) (x : String) :
    EntryListText file title l x ↔ ∃ ts, EntryList.Of file full l ts ∧ x = run EntryList.text ts := by
  unfold EntryListText EntryList.Of
  by_cases h0 : l.listLength = 0
  · simp only [if_pos h0, exists_eq_left, run]
  · simp only [if_neg h0]
    refine ⟨fun hx => ?_, fun hx => ?_⟩
    · obtain ⟨y, hy, rfl⟩ := hx
      obtain ⟨cs, hcs, rfl⟩ := (extentsText_iff l y).mp hy
      refine ⟨_, ⟨cs, hcs, rfl⟩, ?_⟩
      rw [htitle, run, run, String.append_empty]
    · obtain ⟨ts, ⟨cs, hcs, rfl⟩, rfl⟩ := hx
      refine ⟨_, (extentsText_iff l _).mpr ⟨cs, hcs, rfl⟩, ?_⟩
      rw [htitle, run, run, String.append_empty]

theorem entryText_iff (e : INodeE) (x : String) :
    EntryText file e x ↔ ∃ ts, EntryList.OfEntry file e ts ∧ x = run EntryList.text ts := by
  have hfull : ∀ x, EntryListText file (DumpSpace.fullListTitle e) e.fullListBaseNode x ↔ _ :=
    entryListText_iff true _ _ fun cs => by
      unfold DumpSpace.fullListTitle EntryList.text
      simp only [String.append_assoc, if_true]
  have hnot : ∀ x, EntryListText file (DumpSpace.notFullListTitle e) e.notFullListBaseNode x ↔ _ :=
    entryListText_iff false _ _ fun cs => by
      unfold DumpSpace.notFullListTitle EntryList.text
      simp only [String.append_assoc, Bool.false_eq_true, if_false]
  refine ⟨fun hx => ?_, fun hx => ?_⟩
  · obtain ⟨y, z, hy, hz, rfl⟩ := hx
    obtain ⟨ts₁, h₁, rfl⟩ := (hfull y).mp hy
    obtain ⟨ts₂, h₂, rfl⟩ := (hnot z).mp hz
    exact ⟨_, ⟨ts₁, ts₂, h₁, h₂, rfl⟩, (run_append _ _ _).symm⟩
  · obtain ⟨ts, ⟨ts₁, ts₂, h₁, h₂, rfl⟩, rfl⟩ := hx
    exact ⟨_, _, (hfull _).mpr ⟨ts₁, h₁, rfl⟩, (hnot _).mpr ⟨ts₂, h₂, rfl⟩, run_append _ _ _⟩

theorem inodePageText_iff (a : Addr) (x : String) :
    InodePageText file a x ↔ ∃ c, InodePageLists.At file a c ∧ x = c.text := by
  have heach : ∀ {arr : List INodeE} {y : String}, Each (EntryText file) arr y ↔
      ∃ tss, List.Forall₂ (EntryList.OfEntry file) arr tss ∧ y = run EntryList.text tss.flatten := by
    intro arr y
    rw [each_iff (f := fun _ => run EntryList.text) entryText_iff]
    refine exists_congr fun tss => and_congr_right fun h => ?_
    rw [runs_const _ h.length_eq, run_flatten]
  refine ⟨fun hx => ?_, fun hx => ?_⟩
  · obtain ⟨hg, y, hy, rfl⟩ := hx
    obtain ⟨tss, htss, rfl⟩ := heach.mp hy
    exact ⟨_, ⟨hg, tss, htss, rfl⟩, rfl⟩
  · obtain ⟨c, ⟨hg, tss, htss, rfl⟩, rfl⟩ := hx
    exact ⟨hg, _, heach.mpr ⟨tss, htss, rfl⟩, rfl⟩

theorem spaceListText_iff (h : FspHeader) (l : DumpSpace.SpaceList) (x : String) :
    SpaceListText file h l x ↔ ∃ c, ListContent.Of file h l c ∧ x = listContentText l c := by
  cases l with
  | extents title baseNode behind =>
    refine ⟨fun hx => ?_, fun hx => ?_⟩
    · obtain ⟨y, hy, rfl⟩ := hx
      obtain ⟨cs, hcs, rfl⟩ := (extentsText_iff _ y).mp hy
      exact ⟨_, .extents hcs, rfl⟩
    · obtain ⟨c, hc, rfl⟩ := hx
      cases hc with
      | extents hcs => exact ⟨_, (extentsText_iff _ _).mpr ⟨_, hcs, rfl⟩, rfl⟩
  | inodes title baseNode =>
    refine ⟨fun hx => ?_, fun hx => ?_⟩
    · obtain ⟨y, hy, rfl⟩ := hx
      obtain ⟨cs, hcs, rfl⟩ := (listText_iff inodePageText_iff _ y).mp hy
      exact ⟨_, .inodes hcs, rfl⟩
    · obtain ⟨c, hc, rfl⟩ := hx
      cases hc with
      | inodes hcs => exact ⟨_, (listText_iff inodePageText_iff _ _).mpr ⟨_, hcs, rfl⟩, rfl⟩

def MadeAt (file : Option File) (i : UInt32) (pg : { pg : Page // pg.Coherent }) : Prop :=
  ∃ buf, image file i = some buf ∧ initPage buf = .ok (some pg.val)

theorem pageText_content (i : UInt32) (x : String) :
    PageText file i x ↔ ∃ pg, MadeAt file i pg ∧ x = pageText i pg := by
  refine ⟨fun hx => ?_, fun hx => ?_⟩
  · obtain ⟨buf, pg, hi, hinit, rfl⟩ := hx
    exact ⟨⟨pg, (initPage_made hinit).2⟩, ⟨buf, hi, hinit⟩, rfl⟩
  · obtain ⟨pg, ⟨buf, hi, hinit⟩, rfl⟩ := hx
    exact ⟨buf, pg, hi, hinit, rfl⟩

end

/-! ## Reading them -/

section
variable {x y : String}

theorem Extent.text_append {c c' : Extent} : c.text ++ x = c'.text ++ y ↔ c = c' ∧ x = y := by
  obtain ⟨a, e, he⟩ := c
  obtain ⟨a', e', he'⟩ := c'
  unfold Extent.text
  rw [XdesE.dump_append, he, he', Extent.mk.injEq]

theorem extents_append {l l' : List Extent} (hx : ¬ Begins 'X' x) (hy : ¬ Begins 'X' y) :
    run Extent.text l ++ x = run Extent.text l' ++ y ↔ l = l' ∧ x = y := by
  have hbegins : ∀ (c : Extent) (x : String), Begins 'X' (c.text ++ x) := by
    intro c x
    unfold Extent.text XdesE.dump
    simp only [String.append_assoc]
    exact Begins.append (by decide) _
  rw [run_append_over (E := fun x => ¬ Begins 'X' x) (fun _ _ _ _ _ _ => Extent.text_append)
    (fun c x => ⟨trivial, fun h => h (hbegins c x)⟩) (fun _ _ => trivial) hx hy, List.map_id', List.map_id']

theorem EntryList.text_append {t t' : EntryList} : t.text ++ x = t'.text ++ y ↔ t = t' ∧ x = y := by
  -- every extent begins with an `X`, and what is printed behind them does not
  have hend : ∀ x, ¬ Begins 'X' ("\n" ++ x) := by
    intro x h
    have hnewline : Begins '\n' ("\n" ++ x) := Begins.append (by decide) x
    exact absurd (h.unique hnewline) (by decide)
  obtain ⟨full, n, cs⟩ := t
  obtain ⟨full', n', cs'⟩ := t'
  have hrest : num n.toNat ++ (": " ++ (run Extent.text cs ++ ("\n" ++ x))) =
      num n'.toNat ++ (": " ++ (run Extent.text cs' ++ ("\n" ++ y))) ↔ (n = n' ∧ cs = cs') ∧ x = y := by
    rw [num_append (by decide), extents_append (hend x) (hend y), String.append_right_inj, UInt32.toNat_inj, and_assoc]
  unfold EntryList.text endl
  simp only [String.append_assoc, EntryList.mk.injEq]
  cases full
  · cases full'
    · simp only [Bool.false_eq_true, if_false, String.append_assoc, String.append_right_inj, true_and]
      exact hrest
    · simp only [Bool.false_eq_true, if_false, if_true, String.append_assoc, false_and]
      exact iff_of_false (append_ne (c := '-') (d := 'x') (by decide) (by decide) (by decide) _ _) id
  · cases full'
    · simp only [Bool.false_eq_true, if_false, if_true, String.append_assoc, false_and, Bool.true_eq_false]
      exact iff_of_false (append_ne (c := 'x') (d := '-') (by decide) (by decide) (by decide) _ _) id
    · simp only [if_true, String.append_right_inj, true_and]
      exact hrest

theorem entryLists_append {l l' : List EntryList} (hx : ¬ Begins 'x' x ∧ ¬ Begins '-' x)
    (hy : ¬ Begins 'x' y ∧ ¬ Begins '-' y) :
    run EntryList.text l ++ x = run EntryList.text l' ++ y ↔ l = l' ∧ x = y := by
  have hbegins : ∀ (t : EntryList) (x : String), Begins 'x' (t.text ++ x) ∨ Begins '-' (t.text ++ x) := by
    intro t x
    unfold EntryList.text endl
    simp only [String.append_assoc]
    cases t.full
    · exact .inr (by simp only [Bool.false_eq_true, if_false, String.append_assoc]; exact Begins.append (by decide) _)
    · exact .inl (by simp only [if_true]; exact Begins.append (by decide) _)
  rw [run_append_over (E := fun x => ¬ Begins 'x' x ∧ ¬ Begins '-' x) (fun _ _ _ _ _ _ => EntryList.text_append)
    (fun t x => ⟨trivial, fun h => (hbegins t x).elim h.1 h.2⟩) (fun _ _ => trivial) hx hy, List.map_id', List.map_id']

/-- The text is over, or a new line begins. -/
def Ends (x : String) : Prop := x = "" ∨ Begins '\n' x

theorem Ends.not_begins {c : Char} (hx : Ends x) (hc : c ≠ '\n') : ¬ Begins c x := by
  intro h
  rcases hx with rfl | hx
  · exact absurd h nofun
  · exact hc (h.unique hx)

theorem Ends.not_item (hx : Ends x) : ¬ Begins 'x' x ∧ ¬ Begins '-' x :=
  ⟨hx.not_begins (by decide), hx.not_begins (by decide)⟩

theorem inodePages_append {l l' : List InodePageLists} (hx : Ends x) (hy : Ends y) :
    run InodePageLists.text l ++ x = run InodePageLists.text l' ++ y ↔ l = l' ∧ x = y := by
  have hitem : ∀ (c c' : InodePageLists) (x y : String), ¬ Begins 'x' x ∧ ¬ Begins '-' x → ¬ Begins 'x' y ∧ ¬ Begins '-' y →
      (c.text ++ x = c'.text ++ y ↔ c = c' ∧ x = y) := by
    intro c c' x y hx hy
    obtain ⟨a, ts⟩ := c
    obtain ⟨a', ts'⟩ := c'
    unfold InodePageLists.text
    simp only [String.append_assoc, InodePageLists.mk.injEq]
    rw [String.append_right_inj, Addr.dump_append, String.append_right_inj, entryLists_append hx hy, and_assoc]
  have hbegins : ∀ (c : InodePageLists) (x : String), Begins 'i' (c.text ++ x) := by
    intro c x
    unfold InodePageLists.text
    simp only [String.append_assoc]
    exact Begins.append (by decide) _
  rw [run_append_over hitem (fun c x => ⟨⟨fun h => absurd (h.unique (hbegins c x)) (by decide),
    fun h => absurd (h.unique (hbegins c x)) (by decide)⟩, fun h => h.not_begins (by decide) (hbegins c x)⟩)
    (fun _ => Ends.not_item) hx hy, List.map_id', List.map_id']

/-- Each list begins on a new line, and so does what is printed behind it, if anything. -/
def Separate : DumpSpace.SpaceList → Prop
  | .extents title _ behind => Begins '\n' title ∧ Ends behind
  | .inodes title _ => Begins '\n' title

theorem spaceLists_separate : ∀ l ∈ DumpSpace.spaceLists, Separate l := by
  have hbegins : ∀ u v : String, Begins '\n' u → Begins '\n' (u ++ v) := fun _ v h => h.append v
  simp only [DumpSpace.spaceLists, List.forall_mem_cons, Separate]
  refine ⟨⟨hbegins _ _ (by decide), .inl rfl⟩, ⟨hbegins _ _ (by decide), .inl rfl⟩,
    ⟨hbegins _ _ (by decide), .inr (by decide)⟩, hbegins _ _ (by decide), hbegins _ _ (by decide), List.forall_mem_nil _⟩

variable {file file' : Option File} {h h' : FspHeader}

theorem listContent_ends {l : DumpSpace.SpaceList} {c : ListContent} (hl : Separate l) (hc : ListContent.Of file h l c)
    (x : String) : Ends (listContentText l c ++ x) := by
  cases hc with
  | extents =>
    unfold listContentText
    simp only [String.append_assoc]
    exact .inr (hl.1.append _)
  | inodes =>
    unfold listContentText
    rw [String.append_assoc]
    exact .inr (Begins.append hl _)

theorem listContent_append {l : DumpSpace.SpaceList} {c c' : ListContent} (hl : Separate l)
    (hc : ListContent.Of file h l c) (hc' : ListContent.Of file' h' l c') (hx : Ends x) (hy : Ends y) :
    listContentText l c ++ x = listContentText l c' ++ y ↔ c = c' ∧ x = y := by
  cases hc with
  | @extents title baseNode behind cs _ =>
    cases hc' with
    | @extents _ _ _ cs' _ =>
      have hbehind : ∀ {x}, Ends x → ¬ Begins 'X' (behind ++ x) := by
        intro x hx
        rcases hl.2 with h | h
        · rw [h, String.empty_append]
          exact hx.not_begins (by decide)
        · exact Ends.not_begins (.inr (h.append x)) (by decide)
      unfold listContentText
      simp only [String.append_assoc, ListContent.extents.injEq]
      rw [String.append_right_inj, extents_append (hbehind hx) (hbehind hy), String.append_right_inj]
  | @inodes title baseNode cs _ =>
    cases hc' with
    | @inodes _ _ cs' _ =>
      unfold listContentText
      simp only [String.append_assoc, ListContent.inodes.injEq]
      rw [String.append_right_inj, inodePages_append hx hy]

end

/-! ## The whole text -/

def contentText (fileName : String) (pg : Page) (pages : List { pg : Page // pg.Coherent }) (lists : List ListContent) :
    String :=
  "space file: " ++ fileName ++ endl ++ ("fsp header page: " ++ "\n" ++ pg.dump) ++ runs pageText [1, 2, 3, 4] pages ++
    "============================================" ++ endl ++ runs listContentText DumpSpace.spaceLists lists

section
variable {file file' : Option File} {fileName x x' : String}

theorem spaceText_iff : SpaceText file fileName x ↔
    ∃ buf pg h arr pages lists, image file 0 = some buf ∧ initPage buf = .ok (some pg) ∧ pg.body = .fspHeaderPage h arr ∧
      List.Forall₂ (MadeAt file) [1, 2, 3, 4] pages ∧ List.Forall₂ (ListContent.Of file h) DumpSpace.spaceLists lists ∧
      x = contentText fileName pg pages lists := by
  refine ⟨fun hx => ?_, fun hx => ?_⟩
  · obtain ⟨buf, pg, h, arr, y, z, hi, hinit, hb, hy, hz, rfl⟩ := hx
    obtain ⟨pages, hpages, rfl⟩ := (each_iff pageText_content).mp hy
    obtain ⟨lists, hlists, rfl⟩ := (each_iff (spaceListText_iff h)).mp hz
    exact ⟨buf, pg, h, arr, pages, lists, hi, hinit, hb, hpages, hlists, rfl⟩
  · obtain ⟨buf, pg, h, arr, pages, lists, hi, hinit, hb, hpages, hlists, rfl⟩ := hx
    exact ⟨buf, pg, h, arr, _, _, hi, hinit, hb, (each_iff pageText_content).mpr ⟨pages, hpages, rfl⟩,
      (each_iff (spaceListText_iff h)).mpr ⟨lists, hlists, rfl⟩, rfl⟩

theorem pages_append {pages pages' : List { pg : Page // pg.Coherent }} {y y' : String}
    (h : List.Forall₂ (MadeAt file) [1, 2, 3, 4] pages) (h' : List.Forall₂ (MadeAt file') [1, 2, 3, 4] pages') :
    runs pageText [1, 2, 3, 4] pages ++ y = runs pageText [1, 2, 3, 4] pages' ++ y' ↔
      (pages.map fun pg => pg.val.shown) = (pages'.map fun pg => pg.val.shown) ∧ y = y' := by
  refine runs_append (Q := fun _ => True) h h' (fun _ _ _ _ _ _ => trivial) (fun i _ pg pg' y y' _ _ _ _ => ?_)
    trivial trivial
  unfold pageText
  simp only [String.append_assoc]
  rw [String.append_right_inj, String.append_right_inj, String.append_right_inj, pg.2.dump_append pg'.2,
    String.append_right_inj]

theorem lists_inj {h h' : FspHeader} {lists lists' : List ListContent}
    (hl : List.Forall₂ (ListContent.Of file h) DumpSpace.spaceLists lists)
    (hl' : List.Forall₂ (ListContent.Of file' h') DumpSpace.spaceLists lists') :
    runs listContentText DumpSpace.spaceLists lists = runs listContentText DumpSpace.spaceLists lists' ↔
      lists = lists' := by
  have hends : Ends "" := .inl rfl
  have hread := runs_append (v := id) (Q := Ends) hl hl'
    (fun l hm c x hc _ => hc.elim (fun hc => listContent_ends (spaceLists_separate l hm) hc x)
      fun hc => listContent_ends (spaceLists_separate l hm) hc x)
    (fun l hm c c' x y hc hc' hx hy => listContent_append (spaceLists_separate l hm) hc hc' hx hy) hends hends
  rwa [String.append_empty, String.append_empty, List.map_id, List.map_id, and_iff_left rfl] at hread

/-- The pages made for the indexes are shown as there. -/
theorem shownAt_iff {l : List UInt32} {vs : List (FilHeader × PageBody)} : List.Forall₂ (ShownAt file) l vs ↔
    ∃ pages, List.Forall₂ (MadeAt file) l pages ∧ vs = pages.map fun pg => pg.val.shown := by
  refine ⟨fun h => ?_, fun h => ?_⟩
  · induction h with
    | nil => exact ⟨[], .nil, rfl⟩
    | cons hv _ ih =>
      obtain ⟨buf, pg, hi, hinit, rfl⟩ := hv
      obtain ⟨pages, hpages, rfl⟩ := ih
      exact ⟨⟨pg, (initPage_made hinit).2⟩ :: pages, .cons ⟨buf, hi, hinit⟩ hpages, rfl⟩
  · obtain ⟨pages, hpages, rfl⟩ := h
    rw [List.forall₂_map_right_iff]
    refine hpages.imp fun i pg hpg => ?_
    obtain ⟨buf, hi, hinit⟩ := hpg
    exact ⟨buf, pg.val, hi, hinit, rfl⟩

theorem spaceText_eq_iff (hx : SpaceText file fileName x) (hx' : SpaceText file' fileName x') :
    x = x' ↔ ∃ c, Content.Of file c ∧ Content.Of file' c := by
  obtain ⟨buf, pg, h, arr, pages, lists, hi, hinit, hb, hpages, hlists, rfl⟩ := spaceText_iff.mp hx
  obtain ⟨buf', pg', h', arr', pages', lists', hi', hinit', hb', hpages', hlists', rfl⟩ := spaceText_iff.mp hx'
  have hcontent : Content.Of file ⟨pg.shown, pages.map fun pg => pg.val.shown, lists⟩ :=
    ⟨buf, pg, h, arr, hi, hinit, hb, rfl, shownAt_iff.mpr ⟨pages, hpages, rfl⟩, hlists⟩
  have hcontent' : Content.Of file' ⟨pg'.shown, pages'.map fun pg => pg.val.shown, lists'⟩ :=
    ⟨buf', pg', h', arr', hi', hinit', hb', rfl, shownAt_iff.mpr ⟨pages', hpages', rfl⟩, hlists'⟩
  have hread : contentText fileName pg pages lists = contentText fileName pg' pages' lists' ↔
      pg.shown = pg'.shown ∧ ((pages.map fun pg => pg.val.shown) = pages'.map fun pg => pg.val.shown) ∧ lists = lists' := by
    unfold contentText
    simp only [String.append_assoc, String.append_right_inj]
    rw [(initPage_made hinit).2.dump_append (initPage_made hinit').2, pages_append hpages hpages',
      String.append_right_inj, String.append_right_inj, lists_inj hlists hlists']
  rw [hread]
  refine ⟨fun heq => ?_, fun hc => ?_⟩
  · obtain ⟨h₁, h₂, h₃⟩ := heq
    rw [h₁, h₂, h₃] at hcontent
    exact ⟨_, hcontent, hcontent'⟩
  -- a tablespace has one content only
  · obtain ⟨c, hc, hc'⟩ := hc
    have heq := (hcontent.unique hc).trans (hcontent'.unique hc').symm
    simp only [Content.mk.injEq] at heq
    exact heq

end

/-- **What a dump tells.** Two dumps under the same name, from whatever
reachable states, are the same text exactly if the tablespaces have the same
content: no text can be read in two ways. -/
theorem dumpSpace_same_iff {file file' : Option File} {s s' r r' : FileSpaceReader} (hs : Reachable file s)
    (hs' : Reachable file' s') {fileName text text' : String} {n n' : Nat}
    (h : dumpSpace file fileName n s = .ok (some text, r)) (h' : dumpSpace file' fileName n' s' = .ok (some text', r')) :
    text = text' ↔ ∃ c, Content.Of file c ∧ Content.Of file' c :=
  spaceText_eq_iff (dumpSpace_sound hs h) (dumpSpace_sound hs' h')

theorem dumpSpace_same_free : ∃ text r c, dumpSpace (some freeExtentFile) "a.ibd" 67108864 .new = .ok (some text, r) ∧
    Content.Of (some freeExtentFile) c := by
  obtain ⟨text, htext⟩ := freeExtentFile_text
  obtain ⟨r, hr⟩ := dumpSpace_complete .refl htext (Nat.le_refl _)
  obtain ⟨c, hc, -⟩ := (dumpSpace_same_iff .refl .refl hr hr).mp rfl
  exact ⟨text, r, c, hr, hc⟩

end Innodb
