import Innodb.BoundSound
import Innodb.DecoderSound
import Innodb.Printing

/-!
# What `dump_space` prints

The text of a tablespace, by the file alone: its header, its first pages, and
for each list what there is along the chain of its addresses. `dump_space`
returns exactly when there is such a text, with that text printed.
-/

namespace Innodb
open Loop Agree Printing Text BigEndian

/-! ## The texts -/

section
variable (file : Option File)

def ListText (next : Addr → Addr) (item : Addr → String → Prop) (l : ListBaseNode) (x : String) : Prop :=
  if l.listLength = 0 then x = "" else EachAlong Addr.valid next item l.firstAddr x

def XdesText (a : Addr) (x : String) : Prop := XdesGood file a ∧ x = (xdesOf file a).dump a

/-- A list of an inode entry: nothing if it is empty. -/
def EntryListText (title : String) (l : XDesEntryList) (x : String) : Prop :=
  if l.listLength = 0 then x = "" else ∃ y, ListText (xdesNext file) (XdesText file) l y ∧ x = title ++ y ++ endl

def EntryText (e : INodeE) : String → Prop :=
  Then (EntryListText file (DumpSpace.fullListTitle e) e.fullListBaseNode)
    (EntryListText file (DumpSpace.notFullListTitle e) e.notFullListBaseNode)

def InodePageText (a : Addr) (x : String) : Prop :=
  InodeGood file a ∧ ∃ y, Each (EntryText file) (inodePageOf file a).inodeArr y ∧
    x = "inode page at: " ++ a.dump ++ endl ++ y

def SpaceListText (h : FspHeader) (l : DumpSpace.SpaceList) (x : String) : Prop :=
  match l with
  | .extents title baseNode behind =>
    ∃ y, ListText (xdesNext file) (XdesText file) (baseNode h) y ∧ x = title ++ y ++ behind
  | .inodes title baseNode => ∃ y, ListText (inodeNext file) (InodePageText file) (baseNode h) y ∧ x = title ++ y

def PageText (i : UInt32) (x : String) : Prop :=
  ∃ buf pg, image file i = some buf ∧ initPage buf = .ok (some pg) ∧
    x = "page: " ++ num i.toNat ++ endl ++ pg.dump ++ endl

/-- The text of the tablespace in the file. -/
def SpaceText (fileName : String) (x : String) : Prop :=
  ∃ buf pg h arr pages lists, image file 0 = some buf ∧ initPage buf = .ok (some pg) ∧ pg.body = .fspHeaderPage h arr ∧
    Each (PageText file) [1, 2, 3, 4] pages ∧ Each (SpaceListText file h) DumpSpace.spaceLists lists ∧
    x = "space file: " ++ fileName ++ endl ++ ("fsp header page: " ++ "\n" ++ pg.dump) ++ pages ++
      "============================================" ++ endl ++ lists

end

/-! ## One round, decoded -/

section
variable {file : Option File} {σ : Type}

theorem decoder_page_ok {buf : PageBuf} {i : UInt32} (hi : image file i = some buf)
    (ht : pageTypeOf buf ∈ constructedTypes) (hm : i ≠ 0xFFFFFFFF) :
    ∃ pg, initPage buf = .ok (some pg) ∧ pg.buf = buf ∧ pg.Coherent ∧ Decoder.page file i = .ok (some pg) := by
  obtain ⟨pg, hinit, hbuf, C⟩ := initPage_ok ht
  refine ⟨pg, hinit, hbuf, C, ?_⟩
  rw [page_eq hi, hinit, ok_bind, deref, ok_bind, if_neg hm]

theorem decoder_page_fault {buf : PageBuf} {i : UInt32} (hi : image file i = some buf)
    (ht : pageTypeOf buf ∉ constructedTypes) : Decoder.page file i = .error .nullPage := by
  rw [page_eq hi, initPage_fault ht, error_bind]

theorem decoder_page_none {i : UInt32} (hi : image file i = none) : Decoder.page file i = .ok none := by
  unfold Decoder.page
  rw [hi]

theorem decoder_xdesRound_good {g : Decoder.Func σ XdesE} {t : Decoder.Visit σ XdesE} (hv : t.cur.valid = true)
    (hg : XdesGood file t.cur) : Decoder.xdesRound file g t = (do
      let u ← g (xdesOf file t.cur) t.cur t.user
      .ok ⟨xdesNext file t.cur, t.calls ++ [(xdesOf file t.cur, t.cur)], u⟩) := by
  obtain ⟨buf, hi, ht, hlo, hhi⟩ := hg
  obtain ⟨pg, -, rfl, C, hpg⟩ := decoder_page_ok hi (by rw [ht]; decide) ((valid_iff _).mp hv)
  obtain ⟨h, arr, hb⟩ := C.isFsp ht
  have hx : xdesOf file t.cur = xdesAt pg.buf (entryNum t.cur).toNat := by
    rw [xdesOf, hi, Option.elim_some, entryNum_toNat hlo]
  simp only [Decoder.xdesRound, hpg, ok_bind, deref, Decoder.xdesEntry, hb, if_pos ((entryNum_lt_iff _).mpr ⟨hlo, hhi⟩),
    xdesNext, hx]

theorem decoder_xdesRound_bad {g : Decoder.Func σ XdesE} {t : Decoder.Visit σ XdesE} (hv : t.cur.valid = true)
    (hg : ¬ XdesGood file t.cur) : ∃ e, Decoder.xdesRound file g t = .error e := by
  unfold Decoder.xdesRound
  cases hi : image file t.cur.pageNumber with
  | none => exact ⟨.nullPage, by rw [decoder_page_none hi, ok_bind, deref, error_bind]⟩
  | some buf =>
    by_cases ht : pageTypeOf buf ∈ constructedTypes
    · obtain ⟨pg, -, rfl, C, hpg⟩ := decoder_page_ok hi ht ((valid_iff _).mp hv)
      rw [hpg, ok_bind, deref, ok_bind]
      cases hb : pg.body with
      | fspHeaderPage h arr =>
        have hrange : ¬ (entryNum t.cur).toNat < 256 := fun hlt =>
          hg ⟨pg.buf, hi, C.fsp_type hb, (entryNum_lt_iff _).mp hlt⟩
        exact ⟨.outOfRange, by simp only [Decoder.xdesEntry, hb, if_neg hrange, error_bind]⟩
      | _ => exact ⟨.nullEntry, by simp only [Decoder.xdesEntry, hb, ok_bind, deref, error_bind]⟩
    · exact ⟨.nullPage, by rw [decoder_page_fault hi ht, error_bind]⟩

theorem decoder_inodeRound_good {g : Decoder.Func σ Page} {t : Decoder.Visit σ Page} (hv : t.cur.valid = true)
    (hg : InodeGood file t.cur) : Decoder.inodeRound file g t = (do
      let u ← g (inodePageOf file t.cur) t.cur t.user
      .ok ⟨inodeNext file t.cur, t.calls ++ [(inodePageOf file t.cur, t.cur)], u⟩) := by
  obtain ⟨buf, hi, ht⟩ := hg
  obtain ⟨pg, hinit, rfl, C, hpg⟩ := decoder_page_ok hi (by rw [ht]; decide) ((valid_iff _).mp hv)
  have hmade : pg = inodePageOf file t.cur := by
    rw [initPage_inode ht] at hinit
    rw [inodePageOf, hi, Option.elim_some]
    exact (Option.some.inj (Except.ok.inj hinit)).symm
  obtain ⟨node, arr, hb, -, hnext⟩ := C.inode_decoded ht
  have hn : inodeNext file t.cur = node.nextAddr := by rw [inodeNext, hi, Option.elim_some, hnext]
  simp only [Decoder.inodeRound, hpg, ok_bind, deref, Decoder.asInodePage, hb, ← hmade, hn]

theorem decoder_inodeRound_bad {g : Decoder.Func σ Page} {t : Decoder.Visit σ Page} (hv : t.cur.valid = true)
    (hg : ¬ InodeGood file t.cur) : ∃ e, Decoder.inodeRound file g t = .error e := by
  unfold Decoder.inodeRound
  cases hi : image file t.cur.pageNumber with
  | none => exact ⟨.nullPage, by rw [decoder_page_none hi, ok_bind, deref, error_bind]⟩
  | some buf =>
    by_cases ht : pageTypeOf buf ∈ constructedTypes
    · obtain ⟨pg, -, rfl, C, hpg⟩ := decoder_page_ok hi ht ((valid_iff _).mp hv)
      rw [hpg, ok_bind, deref, ok_bind]
      cases hb : pg.body with
      | inodePage node arr => exact absurd ⟨pg.buf, hi, C.inode_type hb⟩ hg
      | _ => exact ⟨.badCast, by simp only [Decoder.asInodePage, hb, error_bind]⟩
    · exact ⟨.nullPage, by rw [decoder_page_fault hi ht, error_bind]⟩

/-! ## Lists -/

variable (file)

/-- No list is longer than this: 256 descriptors on each of 2^18 pages. -/
abbrev maxRounds : Nat := 67108864

theorem xdesRound_prints : PrintsAlong maxRounds (fun t : Decoder.Visit String XdesE => t.cur.valid)
    (fun _ => Decoder.xdesRound file Decoder.dumpXdesEntry) Addr.valid (xdesNext file) (XdesText file) (·.cur)
    (fun t => some t.user) where
  cond_eq t := by rw [Option.isSome_some, Bool.and_true]
  sound n t t' o ho hv h := by
    by_cases hg : XdesGood file t.cur
    · rw [decoder_xdesRound_good hv hg] at h
      cases h
      refine ⟨rfl, fun o' ho' => ⟨_, ⟨hg, rfl⟩, ?_⟩⟩
      rw [← Option.some.inj ho, ← Option.some.inj ho']
    · obtain ⟨e, he⟩ := decoder_xdesRound_bad (g := Decoder.dumpXdesEntry) hv hg
      rw [he] at h; cases h
  complete x n t o _ ho hv hx := by
    obtain ⟨hg, rfl⟩ := hx
    refine ⟨_, decoder_xdesRound_good hv hg, rfl, ?_⟩
    rw [← Option.some.inj ho]

/-- The loop over a list, from a text; an empty list leaves it as it is. -/
def listPrinter {τ : Type} (cond : τ → Bool) (body : Nat → τ → Except Fault τ) (pos : τ → Addr) (out : τ → Option String)
    (l : ListBaseNode) (k : String → τ) : Printer Fault :=
  printer fun n oss => if l.listLength > 0 then
    rounds cond (body n) n (k oss) >>= fun t => .ok (if (pos t).valid then none else out t)
    else .ok (some oss)

theorem list_prints {τ : Type} {cond : τ → Bool} {body : Nat → τ → Except Fault τ} {next : Addr → Addr}
    {item : Addr → String → Prop} {pos : τ → Addr} {out : τ → Option String}
    (L : PrintsAlong maxRounds cond body Addr.valid next item pos out) (l : ListBaseNode) {k : String → τ}
    (hk : ∀ o, pos (k o) = l.firstAddr ∧ out (k o) = some o)
    (hN : ∀ as, Spells Addr.valid next l.firstAddr as → (∀ b ∈ as, ∃ y, item b y) → as.length ≤ maxRounds) :
    Prints maxRounds (listPrinter cond body pos out l k) (ListText next item l) := by
  by_cases h0 : l.listLength = 0
  · refine ⟨fun _ => rfl, fun n o o' h => ?_, fun x hx n _ o => ?_⟩
    · rw [listPrinter, h0] at h
      cases h
      exact ⟨"", by rw [ListText, if_pos h0], String.append_empty.symm⟩
    · rw [ListText, if_pos h0] at hx
      rw [listPrinter, hx, String.append_empty, h0]; rfl
  · have hpos : l.listLength > 0 := UInt32.pos_iff_ne_zero.mpr h0
    unfold listPrinter
    simp only [if_pos hpos]
    exact (L.prints hk hN).texts fun x => by rw [ListText, if_neg h0]

def xdesListPrinter (l : XDesEntryList) : Printer Fault :=
  listPrinter (fun t : Decoder.Visit String XdesE => t.cur.valid) (fun _ => Decoder.xdesRound file Decoder.dumpXdesEntry)
    (·.cur) (fun t => some t.user) l fun oss => ⟨l.firstAddr, [], oss⟩

theorem dumpXdesList_eq (title : String) (l : XDesEntryList) (behind : String) (n : Nat) (o : Printed) :
    printer (fun n oss => Decoder.dumpXdesList file n title l behind oss) n o =
      (xdesListPrinter file l n (o.map (· ++ title)) >>= fun o => .ok (o.map (· ++ behind))) := by
  cases o with
  | none => rfl
  | some oss =>
    unfold printer Decoder.dumpXdesList Decoder.traverse Decoder.returned xdesListPrinter listPrinter printer
    by_cases h0 : l.listLength = 0
    · simp only [h0]; rfl
    · have hpos : l.listLength > 0 := UInt32.pos_iff_ne_zero.mpr h0
      simp only [Option.elim_some, Option.map_some, if_pos hpos, beq_eq_false_iff_ne.mpr h0, Bool.false_or]
      cases rounds (fun t : Decoder.Visit String XdesE => t.cur.valid) (Decoder.xdesRound file Decoder.dumpXdesEntry) n
          ⟨l.firstAddr, [], oss ++ title⟩ with
      | error e => rfl
      | ok t =>
        simp only [ok_bind]
        cases t.cur.valid <;> rfl

theorem xdesList_prints (l : XDesEntryList) :
    Prints maxRounds (xdesListPrinter file l) (ListText (xdesNext file) (XdesText file) l) :=
  list_prints (xdesRound_prints file) l (fun _ => ⟨rfl, rfl⟩) fun _ h hg =>
    xdes_length_le h fun b hb => (hg b hb).elim fun _ hy => hy.1

theorem dumpXdesList_prints (title : String) (l : XDesEntryList) (behind : String) :
    Prints maxRounds (printer fun n oss => Decoder.dumpXdesList file n title l behind oss)
      fun x => ∃ y, ListText (xdesNext file) (XdesText file) l y ∧ x = title ++ y ++ behind :=
  ((xdesList_prints file l).between title behind).congr (dumpXdesList_eq file title l behind)

theorem dumpEntryList_prints (title : String) (l : XDesEntryList) :
    Prints maxRounds (fun n => Decoder.dumpEntryList file n title l) (EntryListText file title l) := by
  by_cases h0 : l.listLength = 0
  · refine ⟨fun _ => rfl, fun n o o' h => ?_, fun x hx n _ o => ?_⟩
    · simp only [Decoder.dumpEntryList, h0] at h
      cases h
      exact ⟨"", by rw [EntryListText, if_pos h0], String.append_empty.symm⟩
    · rw [EntryListText, if_pos h0] at hx
      simp only [Decoder.dumpEntryList, h0, hx, String.append_empty]; rfl
  · have hpos : l.listLength > 0 := UInt32.pos_iff_ne_zero.mpr h0
    refine ((dumpXdesList_prints file title l endl).texts fun x => ?_).congr fun n o => ?_
    · rw [EntryListText, if_neg h0]
    · cases o with
      | none => rfl
      | some oss => exact if_pos hpos

theorem dumpInodeEntry_prints (e : INodeE) :
    Prints maxRounds (fun n o => Decoder.dumpInodeEntry file n o e) (EntryText file e) :=
  (dumpEntryList_prints file (DumpSpace.fullListTitle e) e.fullListBaseNode).bind
    (dumpEntryList_prints file (DumpSpace.notFullListTitle e) e.notFullListBaseNode)

theorem inodeRound_prints : PrintsAlong maxRounds (fun t : Decoder.Visit Printed Page => t.cur.valid && t.user.isSome)
    (fun n => Decoder.inodeRound file (Decoder.dumpInodeEntries file n)) Addr.valid (inodeNext file) (InodePageText file)
    (·.cur) (·.user) where
  cond_eq _ := rfl
  sound n t t' o ho hv h := by
    by_cases hg : InodeGood file t.cur
    · rw [decoder_inodeRound_good hv hg] at h
      obtain ⟨u, hu, h⟩ := bind_ok h
      cases h
      refine ⟨rfl, fun o' ho' => ?_⟩
      obtain rfl : u = some o' := ho'
      rw [Decoder.dumpInodeEntries, ho, Option.map_some] at hu
      obtain ⟨y, hy, rfl⟩ := (Prints.each (dumpInodeEntry_prints file) _).sound n _ o' hu
      exact ⟨_, ⟨hg, y, hy, rfl⟩, by simp only [String.append_assoc]⟩
    · obtain ⟨e, he⟩ := decoder_inodeRound_bad (g := Decoder.dumpInodeEntries file n) hv hg
      rw [he] at h; cases h
  complete x n t o hn ho hv hx := by
    obtain ⟨hg, y, hy, rfl⟩ := hx
    refine ⟨⟨inodeNext file t.cur, t.calls ++ [(inodePageOf file t.cur, t.cur)], _⟩, ?_, rfl, rfl⟩
    rw [decoder_inodeRound_good hv hg, Decoder.dumpInodeEntries, ho, Option.map_some,
      (Prints.each (dumpInodeEntry_prints file) _).complete y hy n hn, ok_bind]
    simp only [String.append_assoc]

def inodeListPrinter (l : INodeEntryList) : Printer Fault :=
  listPrinter (fun t : Decoder.Visit Printed Page => t.cur.valid && t.user.isSome)
    (fun n => Decoder.inodeRound file (Decoder.dumpInodeEntries file n)) (·.cur) (·.user) l
    fun oss => ⟨l.firstAddr, [], some oss⟩

theorem dumpInodeList_eq (title : String) (l : INodeEntryList) (n : Nat) (o : Printed) :
    printer (fun n oss => Decoder.dumpInodeList file n title l oss) n o =
      (inodeListPrinter file l n (o.map (· ++ title)) >>= fun o => .ok (o.map (· ++ ""))) := by
  cases o with
  | none => rfl
  | some oss =>
    unfold printer Decoder.dumpInodeList inodeListPrinter listPrinter printer
    by_cases h0 : l.listLength > 0
    · simp only [Option.elim_some, Option.map_some, if_pos h0]
      cases rounds (fun t : Decoder.Visit Printed Page => t.cur.valid && t.user.isSome)
          (Decoder.inodeRound file (Decoder.dumpInodeEntries file n)) n ⟨l.firstAddr, [], some (oss ++ title)⟩ with
      | error e => rfl
      | ok t =>
        simp only [ok_bind]
        cases t.cur.valid
        · cases t.user with
          | none => rfl
          | some o => simp only [Bool.false_eq_true, if_false, Option.map_some, String.append_empty]
        · rfl
    · simp only [Option.elim_some, Option.map_some, if_neg h0, ok_bind, String.append_empty]

theorem inodeList_prints (l : INodeEntryList) :
    Prints maxRounds (inodeListPrinter file l) (ListText (inodeNext file) (InodePageText file) l) :=
  list_prints (inodeRound_prints file) l (fun _ => ⟨rfl, rfl⟩) fun _ h hg =>
    (inode_length_le h fun b hb => (hg b hb).elim fun _ hy => hy.1).trans (by decide)

theorem dumpInodeList_prints (title : String) (l : INodeEntryList) :
    Prints maxRounds (printer fun n oss => Decoder.dumpInodeList file n title l oss)
      fun x => ∃ y, ListText (inodeNext file) (InodePageText file) l y ∧ x = title ++ y := by
  refine (((inodeList_prints file l).between title "").texts fun x => ?_).congr (dumpInodeList_eq file title l)
  simp only [String.append_empty]

theorem dumpList_prints (h : FspHeader) (l : DumpSpace.SpaceList) :
    Prints maxRounds (fun n o => Decoder.dumpList file n h o l) (SpaceListText file h l) := by
  cases l with
  | extents title baseNode behind =>
    refine (dumpXdesList_prints file title (baseNode h) behind).congr fun n o => ?_
    cases o <;> rfl
  | inodes title baseNode =>
    refine (dumpInodeList_prints file title (baseNode h)).congr fun n o => ?_
    cases o <;> rfl

/-! ## The tablespace -/

variable {file}

theorem initPage_made {buf : PageBuf} {pg : Page} (h : initPage buf = .ok (some pg)) : pg.buf = buf ∧ pg.Coherent := by
  by_cases ht : pageTypeOf buf ∈ constructedTypes
  · obtain ⟨pg', h', hbuf, C⟩ := initPage_ok ht
    rw [h] at h'
    cases h'
    exact ⟨hbuf, C⟩
  · rw [initPage_fault ht] at h
    cases h

theorem fspHeader_eq {buf : PageBuf} {pg : Page} {h : FspHeader} {arr : Vector XdesE 256}
    (hinit : initPage buf = .ok (some pg)) (hb : pg.body = .fspHeaderPage h arr) : h = FspHeader.init (bytes buf) 0 := by
  obtain ⟨hbuf, C⟩ := initPage_made hinit
  have hparsed := C.parsed.2
  rw [hb, hbuf] at hparsed
  exact hparsed

theorem decoder_page_present {i : UInt32} {buf : PageBuf} {r : Option Page} (hm : i ≠ 0xFFFFFFFF)
    (hi : image file i = some buf) (h : Decoder.page file i = .ok r) : ∃ pg, r = some pg ∧ initPage buf = .ok (some pg) := by
  by_cases ht : pageTypeOf buf ∈ constructedTypes
  · obtain ⟨pg, hinit, -, -, hpg⟩ := decoder_page_ok hi ht hm
    rw [h] at hpg
    exact ⟨pg, Except.ok.inj hpg, hinit⟩
  · rw [decoder_page_fault hi ht] at h; cases h

theorem decoder_page_some_iff {i : UInt32} (hm : i ≠ 0xFFFFFFFF) (pg : Page) :
    Decoder.page file i = .ok (some pg) ↔ ∃ buf, image file i = some buf ∧ initPage buf = .ok (some pg) := by
  constructor
  · intro h
    cases hi : image file i with
    | none => rw [decoder_page_none hi] at h; cases h
    | some buf =>
      obtain ⟨pg', hpg, hinit⟩ := decoder_page_present hm hi h
      cases hpg
      exact ⟨buf, rfl, hinit⟩
  · rintro ⟨buf, hi, hinit⟩
    rw [page_eq hi, hinit, ok_bind, deref, ok_bind, if_neg hm]

theorem decoder_dumpPage_iff {i : UInt32} (hm : i ≠ 0xFFFFFFFF) (hf : file ≠ none) (o o' : String) :
    Decoder.dumpPage file o i = .ok o' ↔ ∃ x, PageText file i x ∧ o' = o ++ x := by
  constructor
  · intro h
    obtain ⟨r, hr, h⟩ := bind_ok h
    cases r with
    | none =>
      obtain ⟨buf, hi⟩ := image_some (i := i) hf
      obtain ⟨pg, hpg, -⟩ := decoder_page_present hm hi hr
      cases hpg
    | some pg =>
      obtain ⟨buf, hi, hinit⟩ := (decoder_page_some_iff hm pg).mp hr
      cases h
      exact ⟨_, ⟨buf, pg, hi, hinit, rfl⟩, by simp only [String.append_assoc]⟩
  · rintro ⟨x, ⟨buf, pg, hi, hinit, rfl⟩, rfl⟩
    simp only [Decoder.dumpPage, (decoder_page_some_iff hm pg).mpr ⟨buf, hi, hinit⟩, ok_bind, String.append_assoc]

theorem firstPages_valid : ∀ i ∈ ([1, 2, 3, 4] : List UInt32), i ≠ 0xFFFFFFFF := by simp

theorem decoder_dumpPages_iff (hf : file ≠ none) : ∀ {l : List UInt32}, (∀ i ∈ l, i ≠ 0xFFFFFFFF) → ∀ o o' : String,
    l.foldlM (Decoder.dumpPage file) o = .ok o' ↔ ∃ x, Each (PageText file) l x ∧ o' = o ++ x
  | [], _, o, o' => by
    refine ⟨fun h => ?_, fun h => ?_⟩
    · cases h
      exact ⟨"", .nil, String.append_empty.symm⟩
    · obtain ⟨x, hx, rfl⟩ := h
      cases hx
      rw [String.append_empty]; rfl
  | i :: l, hm, o, o' => by
    have hi := hm i List.mem_cons_self
    have ih := decoder_dumpPages_iff hf fun j hj => hm j (List.mem_cons_of_mem i hj)
    rw [List.foldlM_cons]
    refine ⟨fun h => ?_, fun h => ?_⟩
    · obtain ⟨o₁, h₁, h⟩ := bind_ok h
      obtain ⟨x, hx, rfl⟩ := (decoder_dumpPage_iff hi hf o o₁).mp h₁
      obtain ⟨y, hy, rfl⟩ := (ih _ o').mp h
      exact ⟨x ++ y, .cons hx hy, String.append_assoc⟩
    · obtain ⟨z, hz, rfl⟩ := h
      cases hz with
      | cons hx hy =>
        rw [(decoder_dumpPage_iff hi hf o _).mpr ⟨_, hx, rfl⟩, ok_bind]
        exact (ih _ _).mpr ⟨_, hy, String.append_assoc.symm⟩

theorem decoder_fspHeaderPage_iff (pg : Page) (h : FspHeader) : Decoder.fspHeaderPage file = .ok (some (pg, h)) ↔
    ∃ buf arr, image file 0 = some buf ∧ initPage buf = .ok (some pg) ∧ pg.body = .fspHeaderPage h arr := by
  unfold Decoder.fspHeaderPage
  refine ⟨fun hx => ?_, fun hx => ?_⟩
  · obtain ⟨r, hr, hx⟩ := bind_ok hx
    cases r with
    | none => cases hx
    | some pg' =>
      obtain ⟨h', hh, hx⟩ := bind_ok hx
      cases hx
      obtain ⟨buf, hi, hinit⟩ := (decoder_page_some_iff (by decide) pg).mp hr
      unfold Decoder.asFspHeaderPage at hh
      split at hh
      · rename_i arr hb
        cases hh
        exact ⟨buf, arr, hi, hinit, hb⟩
      · cases hh
  · obtain ⟨buf, arr, hi, hinit, hb⟩ := hx
    simp only [(decoder_page_some_iff (by decide) pg).mpr ⟨buf, hi, hinit⟩, ok_bind, Decoder.asFspHeaderPage, hb]

theorem decoder_dumpSpace_sound {fileName text : String} {n : Nat}
    (h : Decoder.dumpSpace file fileName n = .ok (some text)) : SpaceText file fileName text := by
  obtain ⟨r, hr, h⟩ := bind_ok h
  obtain ⟨⟨pg, hd⟩, hp, hrest⟩ := bind_ok h
  obtain rfl : r = some (pg, hd) := by
    cases r with
    | none => cases hp
    | some r => cases hp; rfl
  obtain ⟨buf, arr, hi, hinit, hb⟩ := (decoder_fspHeaderPage_iff pg hd).mp hr
  have hf : file ≠ none := by
    rintro rfl; cases hi
  obtain ⟨o, ho, hlast⟩ := bind_ok hrest
  obtain ⟨pages, hpages, rfl⟩ := (decoder_dumpPages_iff hf firstPages_valid _ _).mp ho
  obtain ⟨lists, hlists, rfl⟩ := (Prints.each (dumpList_prints file hd) DumpSpace.spaceLists).sound n _ _ hlast
  exact ⟨buf, pg, hd, arr, pages, lists, hi, hinit, hb, hpages, hlists, rfl⟩

theorem decoder_dumpSpace_complete {fileName text : String} (h : SpaceText file fileName text) {n : Nat}
    (hn : maxRounds ≤ n) : Decoder.dumpSpace file fileName n = .ok (some text) := by
  obtain ⟨buf, pg, hd, arr, pages, lists, hi, hinit, hb, hpages, hlists, rfl⟩ := h
  have hf : file ≠ none := by
    rintro rfl; cases hi
  simp only [Decoder.dumpSpace, (decoder_fspHeaderPage_iff pg hd).mpr ⟨buf, arr, hi, hinit, hb⟩, ok_bind, deref,
    (decoder_dumpPages_iff hf firstPages_valid _ _).mpr ⟨pages, hpages, rfl⟩]
  exact (Prints.each (dumpList_prints file hd) DumpSpace.spaceLists).complete lists hlists n hn _

end

/-! ## The first pages -/

/-- Page 0 is a tablespace header, and the next four have a class. -/
def FirstPagesHaveClass (f : File) : Prop :=
  pageTypeOf (f.block 0) = filPageTypeFspHdr ∧
    ∀ i ∈ [1, 2, 3, 4], pageTypeOf (f.block (i * pageSize)) ∈ constructedTypes

section
variable {f : File}

theorem image_low {i : UInt32} (hi : i.toNat < 262144) : image (some f) i = some (f.block (i.toNat * pageSize)) := by
  unfold image
  rw [Option.map_some, offset_toNat, Nat.mod_eq_of_lt hi]

theorem pageText_iff {i : UInt32} (hi : i.toNat < 262144) :
    (∃ x, PageText (some f) i x) ↔ pageTypeOf (f.block (i.toNat * pageSize)) ∈ constructedTypes := by
  refine ⟨fun h => ?_, fun ht => ?_⟩
  · obtain ⟨x, buf, pg, himg, hinit, -⟩ := h
    rw [image_low hi] at himg
    cases himg
    refine Classical.byContradiction fun ht => ?_
    rw [initPage_fault ht] at hinit
    cases hinit
  · obtain ⟨pg, hinit, -, -⟩ := initPage_ok ht
    exact ⟨_, _, pg, image_low hi, hinit, rfl⟩

theorem fspHeaderPage_iff : (∃ p, Decoder.fspHeaderPage (some f) = .ok (some p)) ↔
    pageTypeOf (f.block 0) = filPageTypeFspHdr := by
  have himg : image (some f) 0 = some (f.block 0) := image_low (by decide)
  refine ⟨fun h => ?_, fun ht => ?_⟩
  · obtain ⟨⟨pg, h⟩, hp⟩ := h
    obtain ⟨buf, arr, hi, hinit, hb⟩ := (decoder_fspHeaderPage_iff pg h).mp hp
    rw [himg] at hi
    cases hi
    obtain ⟨hbuf, C⟩ := initPage_made hinit
    rw [← hbuf]
    exact C.fsp_type hb
  · obtain ⟨pg, hinit, hbuf, C⟩ := initPage_ok (show pageTypeOf (f.block 0) ∈ constructedTypes by rw [ht]; decide)
    obtain ⟨h, arr, hb⟩ := C.isFsp (by rw [hbuf, ht])
    exact ⟨(pg, h), (decoder_fspHeaderPage_iff pg h).mpr ⟨_, arr, himg, hinit, hb⟩⟩

theorem pagesText_iff : (∃ x, Each (PageText (some f)) [1, 2, 3, 4] x) ↔
    ∀ i ∈ [1, 2, 3, 4], pageTypeOf (f.block (i * pageSize)) ∈ constructedTypes := by
  rw [exists_each_iff]
  simp only [List.forall_mem_cons, List.not_mem_nil, false_implies, implies_true, and_true,
    pageText_iff (f := f) (show (1 : UInt32).toNat < 262144 by decide),
    pageText_iff (f := f) (show (2 : UInt32).toNat < 262144 by decide),
    pageText_iff (f := f) (show (3 : UInt32).toNat < 262144 by decide),
    pageText_iff (f := f) (show (4 : UInt32).toNat < 262144 by decide), UInt32.reduceToNat]

end

/-! ## `dump_space` -/

section
variable {file : Option File} {s : FileSpaceReader} {fileName text : String}

theorem dumpSpace_sound {s' : FileSpaceReader} {n : Nat} (hs : Reachable file s)
    (h : dumpSpace file fileName n s = .ok (some text, s')) : SpaceText file fileName text := by
  have hagree := dumpSpace_agrees hs fileName n
  rw [h] at hagree
  obtain ⟨o, ho, -, hsame⟩ := hagree.of_ok
  exact decoder_dumpSpace_sound (ho.trans (congrArg Except.ok hsame.symm))

theorem dumpSpace_complete (hs : Reachable file s) (h : SpaceText file fileName text) {n : Nat} (hn : maxRounds ≤ n) :
    ∃ s', dumpSpace file fileName n s = .ok (some text, s') := by
  have hagree := dumpSpace_agrees hs fileName n
  rw [decoder_dumpSpace_complete h hn] at hagree
  obtain ⟨⟨o, s'⟩, ho, -, hsame⟩ := hagree.to_ok
  obtain rfl : o = some text := hsame
  exact ⟨s', ho⟩

end

/-- **What `dump_space` prints.** From every reachable state it returns, with
this text, exactly if the file has it; and then no loop takes more than 2^26
rounds. -/
theorem dumpSpace_text_iff {file : Option File} {s : FileSpaceReader} (hs : Reachable file s) (fileName text : String) :
    ((∃ n s', dumpSpace file fileName n s = .ok (some text, s')) ↔ SpaceText file fileName text) ∧
    (SpaceText file fileName text → ∀ n ≥ 67108864, ∃ s', dumpSpace file fileName n s = .ok (some text, s')) := by
  have hcomplete : SpaceText file fileName text → ∀ n ≥ 67108864,
      ∃ s', dumpSpace file fileName n s = .ok (some text, s') := fun h _ hn => dumpSpace_complete hs h hn
  refine ⟨⟨fun hx => ?_, fun h => ⟨_, hcomplete h _ (Nat.le_refl _)⟩⟩, hcomplete⟩
  obtain ⟨n, s', h⟩ := hx
  exact dumpSpace_sound hs h

def freeExtentFile : File := ⟨81920, fun k => if k % 16384 = 25 then 8 else
  sparse [(65, 1), (71, 158), (164, 0xFF), (165, 0xFF), (166, 0xFF), (167, 0xFF)] k⟩

theorem freeExtentFile_pages : FirstPagesHaveClass freeExtentFile := by
  refine ⟨by decide, ?_⟩
  decide

theorem listText_empty {next : Addr → Addr} {item : Addr → String → Prop} {l : ListBaseNode} (h : l.listLength = 0) :
    ListText next item l "" := by
  rw [ListText, if_pos h]

theorem freeExtentFile_text : ∃ x, SpaceText (some freeExtentFile) "a.ibd" x := by
  obtain ⟨⟨pg, h⟩, hp⟩ := fspHeaderPage_iff.mpr freeExtentFile_pages.1
  obtain ⟨buf, arr, himg, hinit, hb⟩ := (decoder_fspHeaderPage_iff pg h).mp hp
  obtain ⟨pages, hpages⟩ := pagesText_iff.mpr freeExtentFile_pages.2
  have hh : h = FspHeader.init (bytes (freeExtentFile.block 0)) 0 := by
    rw [image_low (by decide)] at himg
    cases himg
    exact fspHeader_eq hinit hb
  have hgood : XdesGood (some freeExtentFile) ⟨0, 158⟩ := ⟨_, rfl, by decide, by decide, by decide⟩
  have hend : (xdesNext (some freeExtentFile) ⟨0, 158⟩).valid = false := by decide
  have hfree : ∃ y, ListText (xdesNext (some freeExtentFile)) (XdesText (some freeExtentFile)) h.freeListBaseNode y := by
    have hfirst : h.freeListBaseNode.firstAddr = ⟨0, 158⟩ := by rw [hh]; decide
    have hlen : h.freeListBaseNode.listLength ≠ 0 := by rw [hh]; decide
    have hchain : EachAlong Addr.valid (xdesNext (some freeExtentFile)) (XdesText (some freeExtentFile)) ⟨0, 158⟩ _ :=
      .node rfl ⟨hgood, rfl⟩ (.done hend)
    rw [← hfirst] at hchain
    exact ⟨_, (if_neg hlen).mpr hchain⟩
  obtain ⟨lists, hlists⟩ : ∃ y, Each (SpaceListText (some freeExtentFile) h) DumpSpace.spaceLists y := by
    rw [exists_each_iff]
    intro l hl
    simp only [DumpSpace.spaceLists, List.mem_cons, List.not_mem_nil, or_false] at hl
    rcases hl with rfl | rfl | rfl | rfl | rfl
    · exact ⟨_, "", listText_empty (by rw [hh]; decide), rfl⟩
    · exact ⟨_, "", listText_empty (by rw [hh]; decide), rfl⟩
    · obtain ⟨y, hy⟩ := hfree
      exact ⟨_, y, hy, rfl⟩
    · exact ⟨_, "", listText_empty (by rw [hh]; decide), rfl⟩
    · exact ⟨_, "", listText_empty (by rw [hh]; decide), rfl⟩
  exact ⟨_, buf, pg, h, arr, pages, lists, himg, hinit, hb, hpages, hlists, rfl⟩

theorem dumpSpace_text_free : ∃ text s', dumpSpace (some freeExtentFile) "a.ibd" 67108864 .new = .ok (some text, s') := by
  obtain ⟨text, h⟩ := freeExtentFile_text
  obtain ⟨s', hs'⟩ := (dumpSpace_text_iff .refl "a.ibd" text).2 h 67108864 (Nat.le_refl _)
  exact ⟨text, s', hs'⟩

/-! ## The system tablespace -/

section
variable {file : Option File} {s : FileSpaceReader}

theorem initSystem_agrees (hs : Reachable file s) :
    Agrees (Same file s) (Ibdata1Reader.init file s) (Decoder.initSystem file) := by
  refine after_bind hs (fspHeaderPage_agrees hs) fun r b s₁ hst₁ hs₁ h => ?_
  cases h with
  | none => exact .ok ⟨hst₁, rfl⟩
  | some _ =>
    refine after_bind hs₁ (getPage_agrees hs₁ _) fun r b s₂ hst₂ hs₂ hpg => ?_
    cases hpg with
    | none => exact .ok ⟨hst₁.trans hst₂, rfl⟩
    | some hp =>
      obtain ⟨pg, hpg, rfl⟩ := hp.read
      simp only [hpg, ok_bind, pg.dump_asMade]
      exact .ok ⟨hst₁.trans hst₂, rfl⟩

theorem decoder_initSystem_iff (out : LogLine ⊕ String) : Decoder.initSystem file = .ok out ↔
    file = none ∧ out = .inl (.error "Failed to get FSP header page from ibdata1 file.") ∨
    ∃ f pg, file = some f ∧ pageTypeOf (f.block 0) = filPageTypeFspHdr ∧
      initPage (f.block (7 * pageSize)) = .ok (some pg) ∧ out = .inr ("Dictionary Header Page:\n" ++ pg.dump ++ endl) := by
  cases file with
  | none =>
    refine ⟨fun h => ?_, fun h => ?_⟩
    · cases h
      exact .inl ⟨rfl, rfl⟩
    · rcases h with ⟨-, rfl⟩ | ⟨f, pg, hf, -⟩
      · rfl
      · cases hf
  | some f =>
    have h0 : image (some f) 0 = some (f.block 0) := image_low (by decide)
    have h7 : image (some f) 7 = some (f.block (7 * pageSize)) := image_low (by decide)
    refine ⟨fun h => ?_, fun h => ?_⟩
    · obtain ⟨r, hr, h⟩ := bind_ok h
      cases r with
      | none =>
        obtain ⟨r, hpage, hr⟩ := bind_ok hr
        obtain ⟨pg, rfl, -⟩ := decoder_page_present (by decide) h0 hpage
        obtain ⟨hd, -, hr⟩ := bind_ok hr
        cases hr
      | some p =>
        obtain ⟨r, hpage, h⟩ := bind_ok h
        obtain ⟨pg, rfl, hinit⟩ := decoder_page_present (by decide) h7 hpage
        cases h
        exact .inr ⟨f, pg, rfl, fspHeaderPage_iff.mp ⟨p, hr⟩, hinit, rfl⟩
    · rcases h with ⟨hf, -⟩ | ⟨f', pg, hf, ht, hinit, rfl⟩
      · cases hf
      · cases hf
        obtain ⟨p, hp⟩ := fspHeaderPage_iff.mpr ht
        have hpage := (decoder_page_some_iff (i := Ibdata1Reader.fspDictHdrPageNo) (by decide) pg).mpr ⟨_, h7, hinit⟩
        simp only [Decoder.initSystem, hp, hpage, ok_bind]

/-- **Starting on the system tablespace.** Only for a missing file there is a
line in the log, and it is the first one; otherwise the dictionary page is
printed if page 0 is a tablespace header and page 7 has a class, and nothing
is defined if not. -/
theorem initSystem_iff (hs : Reachable file s) (out : LogLine ⊕ String) :
    (∃ s', Ibdata1Reader.init file s = .ok (out, s')) ↔
      file = none ∧ out = .inl (.error "Failed to get FSP header page from ibdata1 file.") ∨
      ∃ f pg, file = some f ∧ pageTypeOf (f.block 0) = filPageTypeFspHdr ∧
        initPage (f.block (7 * pageSize)) = .ok (some pg) ∧ out = .inr ("Dictionary Header Page:\n" ++ pg.dump ++ endl) := by
  rw [← decoder_initSystem_iff]
  have hagree := initSystem_agrees hs
  refine ⟨fun hx => ?_, fun h => ?_⟩
  · obtain ⟨s', h⟩ := hx
    rw [h] at hagree
    obtain ⟨o, ho, -, hsame⟩ := hagree.of_ok
    exact ho.trans (congrArg Except.ok hsame.symm)
  · rw [h] at hagree
    obtain ⟨⟨o, s'⟩, ho, -, hsame⟩ := hagree.to_ok
    obtain rfl : o = out := hsame
    exact ⟨s', ho⟩

end

def eightPageFile : File := ⟨131072, fun k => if k % 16384 = 25 then 8 else 0⟩

theorem initSystem_eight : ∃ text s', Ibdata1Reader.init (some eightPageFile) .new = .ok (.inr text, s') := by
  obtain ⟨pg, hinit, -, -⟩ := initPage_ok (show pageTypeOf (eightPageFile.block (7 * pageSize)) ∈ constructedTypes by decide)
  exact ⟨_, (initSystem_iff .refl _).mpr (.inr ⟨_, pg, rfl, by decide, hinit, rfl⟩)⟩

end Innodb
