import Innodb.SpaceSound

/-!
# Where `dump_space` fails

By the file alone: `dump_space` ends in undefined behaviour exactly where the
first pages are not of the classes it uses them as, or where one of its loops
comes to an address at which there is no descriptor or no inode page, and
everything printed before has come to an end.
-/

namespace Innodb
open Loop Agree Printing BigEndian

/-! ## The failures -/

section
variable (file : Option File)

def ListBreaks (next : Addr → Addr) (fine bad : Addr → Prop) (l : ListBaseNode) : Prop :=
  l.listLength ≠ 0 ∧ BreaksAlong Addr.valid next fine bad l.firstAddr

def XdesListBreaks (l : XDesEntryList) : Prop :=
  ListBreaks (xdesNext file) (XdesGood file) (fun a => ¬ XdesGood file a) l

/-- The list of full extents comes first. -/
def EntryBreaks (e : INodeE) : Prop :=
  XdesListBreaks file e.fullListBaseNode ∨
    (∃ x, EntryListText file (DumpSpace.fullListTitle e) e.fullListBaseNode x) ∧ XdesListBreaks file e.notFullListBaseNode

def InodePageBreaks (a : Addr) : Prop :=
  ¬ InodeGood file a ∨ Breaks (fun e => ∃ x, EntryText file e x) (EntryBreaks file) (inodePageOf file a).inodeArr

def SpaceListBreaks (h : FspHeader) (l : DumpSpace.SpaceList) : Prop :=
  match l with
  | .extents _ baseNode _ => XdesListBreaks file (baseNode h)
  | .inodes _ baseNode =>
    ListBreaks (inodeNext file) (fun a => ∃ x, InodePageText file a x) (InodePageBreaks file) (baseNode h)

end

/-- Something on the way through the tablespace in the file is not what it is
used as. -/
def SpaceBreaks (f : File) : Prop :=
  ¬ FirstPagesHaveClass f ∨
    Breaks (fun l => ∃ x, SpaceListText (some f) (FspHeader.init (bytes (f.block 0)) 0) l x)
      (SpaceListBreaks (some f) (FspHeader.init (bytes (f.block 0)) 0)) DumpSpace.spaceLists

/-! ## Lists -/

section
variable (file : Option File)

/-- Up to a failure there is one round more than a list can have nodes. -/
abbrev failRounds : Nat := maxRounds + 1

theorem maxRounds_le : maxRounds ≤ failRounds := Nat.le_succ _

theorem list_fails {τ : Type} {cond : τ → Bool} {body : Nat → τ → Except Fault τ} {next : Addr → Addr}
    {item : Addr → String → Prop} {bad : Addr → Prop} {pos : τ → Addr} {out : τ → Option String}
    (L : PrintsAlong maxRounds cond body Addr.valid next item pos out)
    (B : FailsAlong failRounds body Addr.valid bad pos out) (hbad : ∀ a, bad a → ¬ ∃ x, item a x) (l : ListBaseNode)
    {k : String → τ} (hk : ∀ o, pos (k o) = l.firstAddr ∧ out (k o) = some o)
    (hN : ∀ (fine : Addr → Bool) (as : List Addr), Spells fine next l.firstAddr as → (∀ b ∈ as, ∃ x, item b x) →
      as.length < failRounds) :
    Fails failRounds (listPrinter cond body pos out l k) (ListBreaks next (fun a => ∃ x, item a x) bad l) := by
  by_cases h0 : l.listLength = 0
  · refine ⟨fun n o e h => ?_, fun h => absurd h0 h.1⟩
    rw [listPrinter, h0] at h; cases h
  · have hpos : l.listLength > 0 := UInt32.pos_iff_ne_zero.mpr h0
    unfold listPrinter
    simp only [if_pos hpos]
    exact (L.fails B maxRounds_le hbad hk hN).iff (and_iff_right h0).symm

theorem xdesText_iff (a : Addr) : (∃ x, XdesText file a x) ↔ XdesGood file a :=
  ⟨fun h => h.elim fun _ h => h.1, fun h => ⟨_, h, rfl⟩⟩

theorem xdesRound_fails : FailsAlong failRounds (fun _ => Decoder.xdesRound file Decoder.dumpXdesEntry) Addr.valid
    (fun a => ¬ XdesGood file a) (·.cur) (fun t => some t.user) where
  sound _ t e _ _ hv h hg := by
    rw [decoder_xdesRound_good hv hg] at h
    cases h
  complete _ _ _ _ _ hv hb := decoder_xdesRound_bad hv hb

theorem xdesList_fails (l : XDesEntryList) : Fails failRounds (xdesListPrinter file l) (XdesListBreaks file l) := by
  have hfine : (fun a => ∃ x, XdesText file a x) = XdesGood file := funext fun a => propext (xdesText_iff file a)
  have hfails : Fails failRounds (xdesListPrinter file l)
      (ListBreaks (xdesNext file) (fun a => ∃ x, XdesText file a x) (fun a => ¬ XdesGood file a) l) :=
    list_fails (xdesRound_prints file) (xdesRound_fails file) (fun a hb hx => hb ((xdesText_iff file a).mp hx)) l
      (fun _ => ⟨rfl, rfl⟩) fun _ _ h hg =>
        Nat.lt_succ_of_le (xdes_length_le h fun b hb => (xdesText_iff file b).mp (hg b hb))
  rwa [hfine] at hfails

theorem dumpXdesList_fails (title : String) (l : XDesEntryList) (behind : String) :
    Fails failRounds (printer fun n oss => Decoder.dumpXdesList file n title l behind oss) (XdesListBreaks file l) :=
  ((xdesList_fails file l).between title behind).congr (dumpXdesList_eq file title l behind)

theorem dumpEntryList_fails (title : String) (l : XDesEntryList) :
    Fails failRounds (fun n => Decoder.dumpEntryList file n title l) (XdesListBreaks file l) := by
  by_cases h0 : l.listLength = 0
  · refine ⟨fun n o e h => ?_, fun h => absurd h0 h.1⟩
    simp only [Decoder.dumpEntryList, h0] at h
    cases h
  · have hpos : l.listLength > 0 := UInt32.pos_iff_ne_zero.mpr h0
    refine (dumpXdesList_fails file title l endl).congr fun n o => ?_
    cases o with
    | none => rfl
    | some oss => exact if_pos hpos

theorem dumpInodeEntry_fails (e : INodeE) :
    Fails failRounds (fun n o => Decoder.dumpInodeEntry file n o e) (EntryBreaks file e) :=
  Fails.bind maxRounds_le (dumpEntryList_prints file _ _) (dumpEntryList_prints file _ _) (dumpEntryList_fails file _ _)
    (dumpEntryList_fails file _ _)

theorem entries_fail (arr : List INodeE) : Fails failRounds (fun n o => arr.foldlM (Decoder.dumpInodeEntry file n) o)
    (Breaks (fun e => ∃ x, EntryText file e x) (EntryBreaks file) arr) :=
  Fails.each maxRounds_le (dumpInodeEntry_prints file) (dumpInodeEntry_fails file) arr

theorem inodeRound_fails : FailsAlong failRounds (fun n => Decoder.inodeRound file (Decoder.dumpInodeEntries file n))
    Addr.valid (InodePageBreaks file) (·.cur) (·.user) where
  sound n t e o ho hv h := by
    by_cases hg : InodeGood file t.cur
    · rw [decoder_inodeRound_good hv hg] at h
      rcases bind_error h with h | ⟨_, _, h⟩
      -- the page is one, so it is one of its entries
      · rw [Decoder.dumpInodeEntries, ho, Option.map_some] at h
        exact .inr ((entries_fail file _).sound n _ e h)
      · cases h
    · exact .inl hg
  complete n t o hn ho hv hb := by
    by_cases hg : InodeGood file t.cur
    · obtain ⟨e, he⟩ := (entries_fail file _).complete (hb.resolve_left fun hng => hng hg) n hn _
      refine ⟨e, ?_⟩
      rw [decoder_inodeRound_good hv hg, Decoder.dumpInodeEntries, ho, Option.map_some, he, error_bind]
    · exact decoder_inodeRound_bad hv hg

/-- A page with a text for each of its entries does not break. -/
theorem inodePage_exclusive (a : Addr) (hb : InodePageBreaks file a) : ¬ ∃ x, InodePageText file a x := by
  rintro ⟨_, hg, y, hy, rfl⟩
  obtain ⟨e, he⟩ := (entries_fail file _).complete (hb.resolve_left fun hng => hng hg) failRounds (Nat.le_refl _) ""
  have hok := (Prints.each (dumpInodeEntry_prints file) _).complete y hy failRounds maxRounds_le ""
  rw [hok] at he; cases he

theorem inodeList_fails (l : INodeEntryList) : Fails failRounds (inodeListPrinter file l)
    (ListBreaks (inodeNext file) (fun a => ∃ x, InodePageText file a x) (InodePageBreaks file) l) :=
  list_fails (inodeRound_prints file) (inodeRound_fails file) (inodePage_exclusive file) l (fun _ => ⟨rfl, rfl⟩)
    fun _ _ h hg => (inode_length_le h fun b hb => (hg b hb).elim fun _ hy => hy.1).trans_lt (by decide)

theorem dumpList_fails (h : FspHeader) (l : DumpSpace.SpaceList) :
    Fails failRounds (fun n o => Decoder.dumpList file n h o l) (SpaceListBreaks file h l) := by
  cases l with
  | extents title baseNode behind =>
    refine (dumpXdesList_fails file title (baseNode h) behind).congr fun n o => ?_
    cases o <;> rfl
  | inodes title baseNode =>
    refine (((inodeList_fails file (baseNode h)).between title "").congr
      (dumpInodeList_eq file title (baseNode h))).congr fun n o => ?_
    cases o <;> rfl

end

/-! ## The tablespace -/

section
variable {f : File} {s : FileSpaceReader}

theorem decoder_dumpSpace_ok {fileName : String} {n : Nat} {o : Printed}
    (h : Decoder.dumpSpace (some f) fileName n = .ok o) : FirstPagesHaveClass f := by
  obtain ⟨r, hr, hrest⟩ := bind_ok h
  obtain ⟨p, hp, hpages⟩ := bind_ok hrest
  obtain rfl : r = some p := by
    cases r with
    | none => cases hp
    | some r => cases hp; rfl
  obtain ⟨o₁, ho, -⟩ := bind_ok hpages
  obtain ⟨x, hx, -⟩ := (decoder_dumpPages_iff (Option.some_ne_none f) firstPages_valid _ _).mp ho
  exact ⟨fspHeaderPage_iff.mp ⟨p, hr⟩, pagesText_iff.mp ⟨x, hx⟩⟩

theorem decoder_dumpSpace_unclassed (h : ¬ FirstPagesHaveClass f) (fileName : String) (n : Nat) :
    ∃ e, Decoder.dumpSpace (some f) fileName n = .error e := by
  cases hx : Decoder.dumpSpace (some f) fileName n with
  | error e => exact ⟨e, rfl⟩
  | ok o => exact absurd (decoder_dumpSpace_ok hx) h

/-- With such first pages only the lists can fail. -/
theorem decoder_dumpSpace_lists (h : FirstPagesHaveClass f) (fileName : String) :
    ∃ oss, ∀ n, Decoder.dumpSpace (some f) fileName n =
      DumpSpace.spaceLists.foldlM (Decoder.dumpList (some f) n (FspHeader.init (bytes (f.block 0)) 0)) (some oss) := by
  obtain ⟨⟨pg, hd⟩, hp⟩ := fspHeaderPage_iff.mpr h.1
  obtain ⟨x, hx⟩ := pagesText_iff.mpr h.2
  obtain ⟨buf, arr, himg, hinit, hb⟩ := (decoder_fspHeaderPage_iff pg hd).mp hp
  rw [image_low (by decide)] at himg
  cases himg
  have hheader : hd = FspHeader.init (bytes (f.block 0)) 0 := fspHeader_eq hinit hb
  refine ⟨"space file: " ++ fileName ++ endl ++ ("fsp header page: " ++ "\n" ++ pg.dump) ++ x ++
    "============================================" ++ endl, fun n => ?_⟩
  simp only [Decoder.dumpSpace, hp, ok_bind, deref,
    (decoder_dumpPages_iff (Option.some_ne_none f) firstPages_valid _ _).mpr ⟨x, hx, rfl⟩, hheader]

theorem decoder_dumpSpace_fails (fileName : String) :
    (∀ n e, Decoder.dumpSpace (some f) fileName n = .error e → SpaceBreaks f) ∧
    (SpaceBreaks f → ∀ n ≥ failRounds, ∃ e, Decoder.dumpSpace (some f) fileName n = .error e) := by
  by_cases hc : FirstPagesHaveClass f
  · obtain ⟨oss, hoss⟩ := decoder_dumpSpace_lists hc fileName
    have hlists := Fails.each maxRounds_le (dumpList_prints (some f) (FspHeader.init (bytes (f.block 0)) 0))
      (dumpList_fails (some f) (FspHeader.init (bytes (f.block 0)) 0)) DumpSpace.spaceLists
    refine ⟨fun n e h => ?_, fun h n hn => ?_⟩
    · rw [hoss] at h
      exact .inr (hlists.sound n oss e h)
    · obtain ⟨e, he⟩ := hlists.complete (h.resolve_left fun hnc => hnc hc) n hn oss
      exact ⟨e, (hoss n).trans he⟩
  · exact ⟨fun _ _ _ => .inl hc, fun _ n _ => decoder_dumpSpace_unclassed hc fileName n⟩

/-- The type of a page has a low byte that is not zero. -/
theorem type_in_file {i : Nat} (h : pageTypeOf (f.block (i * pageSize)) ∈ constructedTypes) :
    i * pageSize + 25 < f.size := by
  refine Nat.lt_of_not_le fun hle => ?_
  have hmod : (pageTypeOf (f.block (i * pageSize))).toNat % 256 = 0 := by
    have hlow : bytes (f.block (i * pageSize)) 25 = 0 := if_neg (Nat.not_lt_of_le hle)
    rw [show pageTypeOf _ = machReadFrom2 _ 24 from rfl, machReadFrom2_toNat, beNat, hlow]
    exact Nat.mul_add_mod_self_right _ 256 0
  have hall : ∀ t ∈ constructedTypes, t.toNat % 256 ≠ 0 := by
    simp only [constructedTypes, List.mem_cons, List.not_mem_nil, or_false, forall_eq_or_imp, forall_eq]
    decide
  exact hall _ h hmod

theorem dumpSpace_error_iff (hs : Reachable (some f) s) (fileName : String) (n : Nat) :
    (∃ e, dumpSpace (some f) fileName n s = .error e) ↔ ∃ e, Decoder.dumpSpace (some f) fileName n = .error e := by
  have hagree := dumpSpace_agrees hs fileName n
  refine ⟨fun h => ?_, fun h => ?_⟩
  · obtain ⟨e, he⟩ := h
    rw [he] at hagree
    exact ⟨e, hagree.of_error⟩
  · obtain ⟨e, he⟩ := h
    rw [he] at hagree
    cases hx : dumpSpace (some f) fileName n s with
    | error e' => exact ⟨e', rfl⟩
    | ok r =>
      rw [hx] at hagree
      cases hagree

theorem dumpSpace_breaks (hs : Reachable (some f) s) {fileName : String} {n : Nat}
    (h : ∃ e, dumpSpace (some f) fileName n s = .error e) : SpaceBreaks f :=
  ((dumpSpace_error_iff hs fileName n).mp h).elim ((decoder_dumpSpace_fails fileName).1 n)

theorem dumpSpace_fails (hs : Reachable (some f) s) (fileName : String) (h : SpaceBreaks f) {n : Nat} (hn : n > 67108864) :
    ∃ e, dumpSpace (some f) fileName n s = .error e :=
  (dumpSpace_error_iff hs fileName n).mpr ((decoder_dumpSpace_fails fileName).2 h n hn)

theorem dumpSpace_endless_iff (hs : Reachable (some f) s) (fileName : String) :
    (∀ n, ∃ s', dumpSpace (some f) fileName n s = .ok (none, s')) ↔
      ¬ SpaceBreaks f ∧ ∀ text, ¬ SpaceText (some f) fileName text := by
  refine ⟨fun h => ⟨fun hb => ?_, fun text htext => ?_⟩, fun h n => ?_⟩
  · obtain ⟨e, he⟩ := dumpSpace_fails hs fileName hb (n := failRounds) (by decide)
    obtain ⟨s', hs'⟩ := h failRounds
    rw [he] at hs'; cases hs'
  · obtain ⟨s', ht⟩ := dumpSpace_complete hs htext (Nat.le_refl _)
    obtain ⟨s'', hs''⟩ := h maxRounds
    rw [ht] at hs''; cases hs''
  · obtain ⟨hb, htext⟩ := h
    cases hx : dumpSpace (some f) fileName n s with
    | error e => exact absurd (dumpSpace_breaks hs ⟨e, hx⟩) hb
    | ok r =>
      obtain ⟨o, s'⟩ := r
      cases o with
      | none => exact ⟨s', rfl⟩
      | some text => exact absurd (dumpSpace_sound hs hx) (htext text)

theorem short_file_unclassed (h : f.size < 65562) : ¬ FirstPagesHaveClass f := by
  intro hc
  have hlt := type_in_file (hc.2 4 (by decide))
  simp only [pageSize] at hlt
  omega

/-- **Where `dump_space` fails**, whatever the reader did before: exactly on
the files that break, and there no loop takes more than 2^26 + 1 rounds. Where
it neither fails nor has a text to print, and only there, it never ends. A
file that lacks a class in its first pages breaks before any loop, and so does
every file that ends before the type of page 4. -/
theorem dumpSpace_faults_iff (hs : Reachable (some f) s) (fileName : String) :
    ((∃ n e, dumpSpace (some f) fileName n s = .error e) ↔ SpaceBreaks f) ∧
    (SpaceBreaks f → ∀ n > 67108864, ∃ e, dumpSpace (some f) fileName n s = .error e) ∧
    ((∀ n, ∃ s', dumpSpace (some f) fileName n s = .ok (none, s')) ↔
      ¬ SpaceBreaks f ∧ ∀ text, ¬ SpaceText (some f) fileName text) ∧
    (¬ FirstPagesHaveClass f → ∀ n, ∃ e, dumpSpace (some f) fileName n s = .error e) ∧
    (f.size < 65562 → ¬ FirstPagesHaveClass f) := by
  refine ⟨⟨fun h => ?_, fun h => ⟨_, dumpSpace_fails hs fileName h (Nat.lt_succ_self _)⟩⟩, fun h n hn => ?_,
    dumpSpace_endless_iff hs fileName, fun hc n => ?_, short_file_unclassed⟩
  · obtain ⟨n, hn⟩ := h
    exact dumpSpace_breaks hs hn
  · exact dumpSpace_fails hs fileName h hn
  · exact (dumpSpace_error_iff hs fileName n).mpr (decoder_dumpSpace_unclassed hc fileName n)

end

/-- Five pages of tablespace headers, the first with a free extent at the very
start of page 1, where no descriptor is. -/
def brokenListFile : File := ⟨81920, fun k => if k % 16384 = 25 then 8 else sparse [(65, 1), (69, 1)] k⟩

theorem brokenListFile_breaks : SpaceBreaks brokenListFile := by
  have hfirst : (FspHeader.init (bytes (brokenListFile.block 0)) 0).freeListBaseNode.firstAddr = ⟨1, 0⟩ := by decide
  have hbad : ¬ XdesGood (some brokenListFile) ⟨1, 0⟩ := by
    intro h
    obtain ⟨_, _, _, hlo, _⟩ := h
    exact absurd hlo (by decide)
  refine .inr (.later ⟨_, "", listText_empty (by decide), rfl⟩ (.later ⟨_, "", listText_empty (by decide), rfl⟩
    (.here ⟨by decide, ?_⟩)))
  rw [hfirst]
  exact .here rfl hbad

theorem dumpSpace_faults_broken : FirstPagesHaveClass brokenListFile ∧
    ∃ e, dumpSpace (some brokenListFile) "a.ibd" 67108865 .new = .error e :=
  ⟨⟨by decide, by decide⟩, (dumpSpace_faults_iff .refl "a.ibd").2.1 brokenListFile_breaks 67108865 (by decide)⟩

end Innodb
