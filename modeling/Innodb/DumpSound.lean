import Innodb.Dump
import Innodb.PageSound

/-!
# What the dumps tell

Each dump can be read off the front of a text. It tells every field it prints,
and what it leaves out is: the lsn of the last change, the ends of an empty
list, everything about an inode entry that is taken to be empty, and a few
fields of the tablespace and the index header.
-/

namespace Innodb
open Text

section
variable {x y : String}

/-! ## Lists -/

theorem ListNode.dump_append {l l' : ListNode} : l.dump ++ x = l'.dump ++ y ↔ l = l' ∧ x = y := by
  obtain ⟨a, b, c, d⟩ := l
  obtain ⟨a', b', c', d'⟩ := l'
  unfold ListNode.dump endl
  simp only [String.append_assoc]
  simp (disch := decide) only [String.append_right_inj, num_append]
  simp only [ListNode.mk.injEq, UInt32.toNat_inj, UInt16.toNat_inj, and_assoc]

theorem Addr.dump_append {a a' : Addr} : a.dump ++ x = a'.dump ++ y ↔ a = a' ∧ x = y := by
  obtain ⟨p, o⟩ := a
  obtain ⟨p', o'⟩ := a'
  unfold Addr.dump
  simp only [String.append_assoc]
  simp (disch := decide) only [String.append_right_inj, num_append]
  simp only [Addr.mk.injEq, UInt32.toNat_inj, UInt16.toNat_inj, and_assoc]

/-- As it is printed. -/
def ListBaseNode.shown (l : ListBaseNode) : ListBaseNode := if l.listLength > 0 then l else default

theorem ListBaseNode.dump_append {l l' : ListBaseNode} : l.dump ++ x = l'.dump ++ y ↔ l.shown = l'.shown ∧ x = y := by
  have hne : ∀ {l : ListBaseNode}, l.listLength > 0 → l ≠ default := by
    rintro l hl rfl
    exact absurd hl (by decide)
  unfold ListBaseNode.shown ListBaseNode.dump
  by_cases hl : l.listLength > 0
  · by_cases hl' : l'.listLength > 0
    · rw [if_pos hl, if_pos hl', if_pos hl, if_pos hl']
      simp only [String.append_assoc]
      simp (disch := decide) only [String.append_right_inj, num_append]
      obtain ⟨a, b, c, d, e⟩ := l
      obtain ⟨a', b', c', d', e'⟩ := l'
      simp only [ListBaseNode.mk.injEq, UInt32.toNat_inj, UInt16.toNat_inj, and_assoc]
    · rw [if_pos hl, if_neg hl', if_pos hl, if_neg hl']
      simp only [String.append_assoc]
      exact iff_of_false (append_ne (c := '\n') (d := '(') (by decide) (by decide) (by decide) _ _) fun h => hne hl h.1
  · by_cases hl' : l'.listLength > 0
    · rw [if_neg hl, if_pos hl', if_neg hl, if_pos hl']
      simp only [String.append_assoc]
      exact iff_of_false (append_ne (c := '(') (d := '\n') (by decide) (by decide) (by decide) _ _)
        fun h => hne hl' h.1.symm
    · rw [if_neg hl, if_neg hl', if_neg hl, if_neg hl', String.append_right_inj]
      exact (and_iff_right rfl).symm

/-- Both kinds of list are printed behind the name of the kind. -/
theorem XDesEntryList.dump_append {l l' : XDesEntryList} :
    XDesEntryList.dump l ++ x = XDesEntryList.dump l' ++ y ↔ l.shown = l'.shown ∧ x = y := by
  unfold XDesEntryList.dump
  rw [String.append_assoc, String.append_assoc, String.append_right_inj]
  exact ListBaseNode.dump_append

theorem INodeEntryList.dump_append {l l' : INodeEntryList} :
    INodeEntryList.dump l ++ x = INodeEntryList.dump l' ++ y ↔ l.shown = l'.shown ∧ x = y := by
  unfold INodeEntryList.dump
  rw [String.append_assoc, String.append_assoc, String.append_right_inj]
  exact ListBaseNode.dump_append

/-! ## Headers -/

/-- A type that is in the table is printed by its name, any other by its number. -/
theorem getPageTypeStr_cases (t : UInt16) : (t, getPageTypeStr t) ∈ pageTypeStrings ∨
    getPageTypeStr t = "not found type: " ++ num t.toNat := by
  unfold getPageTypeStr
  cases h : pageTypeStrings.lookup t with
  | none => exact .inr rfl
  | some str =>
    obtain ⟨l₁, l₂, hl, -⟩ := List.lookup_eq_some_iff.mp h
    exact .inl (by rw [hl]; exact List.mem_append_right _ List.mem_cons_self)

theorem pageTypeStrings_distinct : ∀ p ∈ pageTypeStrings, ∀ q ∈ pageTypeStrings, p.2 = q.2 → p.1 = q.1 := by
  decide +kernel

theorem pageTypeStrings_names : ∀ p ∈ pageTypeStrings, Begins 'F' p.2 ∧ '\t' ∉ p.2.toList := by
  decide +kernel

theorem getPageTypeStr_inj {t t' : UInt16} (h : getPageTypeStr t = getPageTypeStr t') : t = t' := by
  have hunknown : ∀ n, Begins 'n' ("not found type: " ++ num n) := fun n => Begins.append (by decide) _
  rcases getPageTypeStr_cases t with ht | ht
  · rcases getPageTypeStr_cases t' with ht' | ht'
    · exact pageTypeStrings_distinct _ ht _ ht' h
    · have hF := (pageTypeStrings_names _ ht).1
      rw [h, ht'] at hF
      exact absurd (hF.unique (hunknown _)) (by decide)
  · rcases getPageTypeStr_cases t' with ht' | ht'
    · have hF := (pageTypeStrings_names _ ht').1
      rw [← h, ht] at hF
      exact absurd (hF.unique (hunknown _)) (by decide)
    · rw [ht, ht', String.append_right_inj, num_inj] at h
      exact UInt16.toNat_inj.mp h

theorem getPageTypeStr_append {t t' : UInt16} :
    getPageTypeStr t ++ ("\t\t" ++ x) = getPageTypeStr t' ++ ("\t\t" ++ y) ↔ t = t' ∧ x = y := by
  have hbefore : ∀ t, Before (getPageTypeStr t) "\t\t" := by
    intro t
    refine ⟨'\t', rfl, fun hmem => ?_⟩
    rcases getPageTypeStr_cases t with ht | ht
    · exact (pageTypeStrings_names _ ht).2 hmem
    · rw [ht, String.toList_append] at hmem
      rcases List.mem_append.mp hmem with hmem | hmem
      · exact absurd hmem (by decide)
      · exact absurd (num_isDigit hmem) (by decide)
  rw [before_append (hbefore t) (hbefore t')]
  exact and_congr_left fun _ => ⟨getPageTypeStr_inj, fun h => by rw [h]⟩

def FilHeader.shown (h : FilHeader) : FilHeader := { h with lastModPageLsn := 0 }

theorem FilHeader.dump_append {h h' : FilHeader} : h.dump ++ x = h'.dump ++ y ↔ h.shown = h'.shown ∧ x = y := by
  obtain ⟨a, b, c, d, e, f, g, i⟩ := h
  obtain ⟨a', b', c', d', e', f', g', i'⟩ := h'
  unfold FilHeader.dump FilHeader.shown endl
  simp only [String.append_assoc]
  simp (disch := decide) only [String.append_right_inj, num_append, getPageTypeStr_append]
  simp only [FilHeader.mk.injEq, UInt32.toNat_inj, UInt64.toNat_inj, true_and, and_assoc]

def FspHeader.shown (h : FspHeader) : FspHeader :=
  { h with
    unused := 0
    freeListBaseNode := h.freeListBaseNode.shown
    freeFragListBaseNode := h.freeFragListBaseNode.shown
    fullFragListBaseNode := h.fullFragListBaseNode.shown
    fullInodesListBaseNode := h.fullInodesListBaseNode.shown
    freeInodesListBaseNode := h.freeInodesListBaseNode.shown }

theorem FspHeader.dump_append {h h' : FspHeader} : h.dump ++ x = h'.dump ++ y ↔ h.shown = h'.shown ∧ x = y := by
  obtain ⟨a, b, c, d, e, f, g, i, j, k, l, m⟩ := h
  obtain ⟨a', b', c', d', e', f', g', i', j', k', l', m'⟩ := h'
  unfold FspHeader.dump FspHeader.shown endl
  simp only [String.append_assoc]
  simp (disch := decide) only [String.append_right_inj, num_append, XDesEntryList.dump_append, INodeEntryList.dump_append]
  simp only [FspHeader.mk.injEq, UInt32.toNat_inj, UInt64.toNat_inj, true_and, and_assoc]
  -- the free inode pages are printed before the full ones
  rw [and_left_comm (a := m.shown = m'.shown)]

def IndexHeader.shown (h : IndexHeader) : IndexHeader :=
  { h with firstGarbageRecOffset := 0, nOfInsertsInPgDirection := 0 }

theorem IndexHeader.dump_append {h h' : IndexHeader} : h.dump ++ x = h'.dump ++ y ↔ h.shown = h'.shown ∧ x = y := by
  obtain ⟨a, b, c, d, e, f, g, i, j, k⟩ := h
  obtain ⟨a', b', c', d', e', f', g', i', j', k'⟩ := h'
  unfold IndexHeader.dump IndexHeader.shown endl
  simp only [String.append_assoc]
  simp (disch := decide) only [String.append_right_inj, num_append, char_append]
  simp only [IndexHeader.mk.injEq, UInt16.toNat_inj, UInt64.toNat_inj, true_and, and_assoc]

theorem FsegHeader.dump_append {h h' : FsegHeader} : h.dump ++ x = h'.dump ++ y ↔ h = h' ∧ x = y := by
  obtain ⟨a, b, c, d⟩ := h
  obtain ⟨a', b', c', d'⟩ := h'
  unfold FsegHeader.dump
  simp only [String.append_assoc]
  simp (disch := decide) only [String.append_right_inj, num_append, Addr.dump_append]
  simp only [FsegHeader.mk.injEq, UInt32.toNat_inj, and_assoc]

/-! ## Descriptors -/

theorem pageState_append {v v' : Vector UInt8 16} :
    run (fun b => bits b.toNat 8 ++ " ") v.toList ++ ("\n" ++ x) =
      run (fun b => bits b.toNat 8 ++ " ") v'.toList ++ ("\n" ++ y) ↔ v = v' ∧ x = y := by
  have hbits : ∀ (b c : UInt8) (x y : String),
      bits b.toNat 8 ++ " " ++ x = bits c.toNat 8 ++ " " ++ y ↔ b = c ∧ x = y := by
    intro b c x y
    rw [String.append_assoc, String.append_assoc, bits_append, String.append_right_inj]
    refine and_congr_left fun _ => ⟨fun h => UInt8.toNat_inj.mp (Nat.eq_of_testBit_eq fun k => ?_), fun h _ _ => by rw [h]⟩
    by_cases hk : k < 8
    · exact h k hk
    · have hpow : 2 ^ 8 ≤ 2 ^ k := Nat.pow_le_pow_right (by decide) (Nat.le_of_not_lt hk)
      rw [Nat.testBit_lt_two_pow (Nat.lt_of_lt_of_le b.toNat_lt hpow),
        Nat.testBit_lt_two_pow (Nat.lt_of_lt_of_le c.toNat_lt hpow)]
  rw [run_append_length hbits (by rw [Vector.length_toList, Vector.length_toList]), List.map_id', List.map_id',
    Vector.toList_inj, String.append_right_inj]

theorem XdesE.dump_append {e e' : XdesE} {a a' : Addr} :
    e.dump a ++ x = e'.dump a' ++ y ↔ (a = a' ∧ e.decoded = e'.decoded) ∧ x = y := by
  obtain ⟨s, ⟨l, b⟩, t, v⟩ := e
  obtain ⟨s', ⟨l', b'⟩, t', v'⟩ := e'
  unfold XdesE.dump XdesE.dumpPageStateBitmap XDesEntryListNode.dump XdesE.decoded XdesE.stamp endl
  simp only [String.append_assoc]
  simp (disch := decide) only [String.append_right_inj, num_append, Addr.dump_append, ListNode.dump_append,
    pageState_append]
  simp only [XdesE.mk.injEq, XDesEntryListNode.mk.injEq, UInt32.toNat_inj, UInt64.toNat_inj, and_true, and_assoc]
  rw [and_left_comm (a := t = t')]

/-! ## Inode entries -/

theorem fragArray_append {l l' : List Int32} :
    run (fun frag => int frag.toInt ++ " ") l ++ ("\n" ++ x) = run (fun frag => int frag.toInt ++ " ") l' ++ ("\n" ++ y) ↔
      l = l' ∧ x = y := by
  have hint : ∀ (i j : Int32) (x y : String), True → True →
      (int i.toInt ++ " " ++ x = int j.toInt ++ " " ++ y ↔ i = j ∧ x = y) := by
    intro i j x y _ _
    rw [String.append_assoc, String.append_assoc, int_append (by decide), Int32.toInt_inj]
  have hover : ∀ x, NonDigit ("\n" ++ x) := fun x => ⟨'\n', by rw [String.toList_append]; rfl, by decide, by decide⟩
  rw [run_append_over (E := NonDigit) hint
    (fun i x => ⟨trivial, by rw [String.append_assoc]; exact int_not_nonDigit _ _⟩) (fun _ _ => trivial) (hover x) (hover y),
    List.map_id', List.map_id', String.append_right_inj]

abbrev INodeE.Empty (e : INodeE) : Prop := e.fullListBaseNode.listLength = 0 ∧ e.nOfUsedPgsInNotFullList = 0

def INodeE.shown (e : INodeE) : INodeE :=
  if e.Empty then default
  else { e with
    freeListBaseNode := e.freeListBaseNode.shown
    notFullListBaseNode := e.notFullListBaseNode.shown
    fullListBaseNode := e.fullListBaseNode.shown }

theorem ListBaseNode.shown_listLength (l : ListBaseNode) : l.shown.listLength = l.listLength := by
  unfold ListBaseNode.shown
  split
  · rfl
  · rename_i h
    exact (UInt32.le_zero_iff.mp (UInt32.not_lt.mp h)).symm

theorem INodeE.shown_ne {e : INodeE} (h : ¬ e.Empty) : e.shown ≠ default := by
  intro hx
  rw [INodeE.shown, if_neg h] at hx
  have hfull := congrArg (·.fullListBaseNode.listLength) hx
  have hused := congrArg (·.nOfUsedPgsInNotFullList) hx
  rw [ListBaseNode.shown_listLength] at hfull
  exact h ⟨hfull, hused⟩

theorem INodeE.dump_append {e e' : INodeE} {a a' : Addr} :
    e.dump a ++ x = e'.dump a' ++ y ↔ (a = a' ∧ e.shown = e'.shown) ∧ x = y := by
  unfold INodeE.dump endl
  simp only [String.append_assoc]
  simp only [String.append_right_inj, Addr.dump_append, and_assoc]
  refine and_congr_right fun _ => ?_
  change ((if e.Empty then _ else _) ++ _ = (if e'.Empty then _ else _) ++ _) ↔ _
  by_cases he : e.Empty
  · by_cases he' : e'.Empty
    · rw [if_pos he, if_pos he', INodeE.shown, INodeE.shown, if_pos he, if_pos he', String.append_right_inj,
        String.append_right_inj]
      exact (and_iff_right rfl).symm
    · rw [if_pos he, if_neg he']
      refine iff_of_false (append_ne (c := ' ') (d := '\n') (by decide) (Begins.append (by decide) _) (by decide) _ _)
        fun h => INodeE.shown_ne he' ?_
      rw [← h.1, INodeE.shown, if_pos he]
  · by_cases he' : e'.Empty
    · rw [if_neg he, if_pos he']
      refine iff_of_false (append_ne (c := '\n') (d := ' ') (Begins.append (by decide) _) (by decide) (by decide) _ _)
        fun h => INodeE.shown_ne he ?_
      rw [h.1, INodeE.shown, if_pos he']
    · rw [if_neg he, if_neg he', INodeE.shown, INodeE.shown, if_neg he, if_neg he']
      simp only [String.append_assoc]
      simp (disch := decide) only [String.append_right_inj, num_append, XDesEntryList.dump_append, fragArray_append]
      obtain ⟨s, n, l₁, l₂, l₃, m, fr⟩ := e
      obtain ⟨s', n', l₁', l₂', l₃', m', fr'⟩ := e'
      simp only [INodeE.mk.injEq, UInt32.toNat_inj, UInt64.toNat_inj, and_assoc]
      -- the magic number is printed before the lists
      tauto

/-! ## Pages -/

theorem mapIdx_addr {α β γ : Type} {shown : α → γ} {addr : Nat → β} {l l' : List α} :
    (l.mapIdx fun i e => (e, addr i)).map (fun c => (c.2, shown c.1)) =
      (l'.mapIdx fun i e => (e, addr i)).map (fun c => (c.2, shown c.1)) ↔ l.map shown = l'.map shown := by
  rw [List.ext_getElem?_iff, List.ext_getElem?_iff]
  refine forall_congr' fun i => ?_
  simp only [List.getElem?_map, List.getElem?_mapIdx]
  cases l[i]? with
  | none => cases l'[i]? <;> simp
  | some a => cases l'[i]? <;> simp

/-- The entries, printed with their number; their addresses follow from the page's number. -/
theorem Page.dumpInodeEntriesText_append {pg pg' : Page}
    (h : pg.filHeader.pageNumberOffset = pg'.filHeader.pageNumberOffset) :
    pg.dumpInodeEntriesText ++ x = pg'.dumpInodeEntriesText ++ y ↔
      pg.inodeArr.map INodeE.shown = pg'.inodeArr.map INodeE.shown ∧ x = y := by
  unfold Page.dumpInodeEntriesText
  simp only [String.append_assoc]
  simp (disch := decide) only [String.append_right_inj, num_append]
  have hdump : ∀ (c d : INodeE × Addr) (x y : String),
      c.1.dump c.2 ++ x = d.1.dump d.2 ++ y ↔ (c.2, c.1.shown) = (d.2, d.1.shown) ∧ x = y := by
    intro c d x y
    rw [INodeE.dump_append, Prod.mk.injEq]
  refine ⟨fun hx => ?_, fun hx => ?_⟩
  · obtain ⟨hlen, hrun⟩ := hx
    rw [run_append_length hdump (by simp only [Page.dumpInodeEntries, List.length_mapIdx, hlen])] at hrun
    unfold Page.dumpInodeEntries at hrun
    rw [h, mapIdx_addr] at hrun
    exact hrun
  · obtain ⟨hmap, rfl⟩ := hx
    have hlen : pg.inodeArr.length = pg'.inodeArr.length := by
      rw [← List.length_map INodeE.shown, hmap, List.length_map]
    refine ⟨hlen, ?_⟩
    rw [run_append_length hdump (by simp only [Page.dumpInodeEntries, List.length_mapIdx, hlen])]
    unfold Page.dumpInodeEntries
    rw [h, mapIdx_addr]
    exact ⟨hmap, rfl⟩

def PageBody.shown : PageBody → PageBody
  | .fspHeaderPage h _ => .fspHeaderPage h.shown (Vector.replicate 256 XdesE.new)
  | .inodePage node arr => .inodePage { node with addr := default } (arr.map INodeE.shown)
  | .indexPage h f => .indexPage h.shown f
  | .sysPage _ => .sysPage default
  | body => body

def Page.shown (pg : Page) : FilHeader × PageBody := (pg.filHeader.shown, pg.body.shown)

theorem Page.Coherent.dump_append {pg pg' : Page} (C : pg.Coherent) (C' : pg'.Coherent) :
    pg.dump ++ x = pg'.dump ++ y ↔ pg.shown = pg'.shown ∧ x = y := by
  unfold Page.dump Page.shown
  simp only [String.append_assoc]
  rw [String.append_right_inj, FilHeader.dump_append, Prod.mk.injEq, and_assoc]
  refine and_congr_right fun hfil => ?_
  have htype : pg.body.pageType = pg'.body.pageType := by
    rw [C.cls, C'.cls]
    have hread : ∀ {pg : Page}, pg.Coherent → pageTypeOf pg.buf = pg.filHeader.shown.pageType := fun C => by
      rw [C.parsed.1]; rfl
    rw [hread C, hread C', hfil]
  have hnumber : pg.filHeader.pageNumberOffset = pg'.filHeader.pageNumberOffset :=
    congrArg (·.pageNumberOffset) hfil
  obtain ⟨buf, fil, body⟩ := pg
  obtain ⟨buf', fil', body'⟩ := pg'
  cases body with
  | fspHeaderPage h arr =>
    cases body' with
    | fspHeaderPage h' arr' =>
      simp only [PageBody.shown, PageBody.fspHeaderPage.injEq, and_true, FspHeader.dump_append]
    | _ => exact absurd htype (by simp only [PageBody.pageType]; decide)
  | inodePage node arr =>
    cases body' with
    | inodePage node' arr' =>
      obtain ⟨l, a⟩ := node
      obtain ⟨l', a'⟩ := node'
      unfold INodeEntryListNode.dump
      simp only [String.append_assoc]
      simp only [String.append_right_inj, ListNode.dump_append, Page.dumpInodeEntriesText_append hnumber]
      simp only [PageBody.shown, PageBody.inodePage.injEq, INodeEntryListNode.mk.injEq, and_true, and_assoc, Page.inodeArr]
    | _ => exact absurd htype (by simp only [PageBody.pageType]; decide)
  | indexPage h f =>
    cases body' with
    | indexPage h' f' =>
      simp only [String.append_assoc, IndexHeader.dump_append, FsegHeader.dump_append, String.append_right_inj]
      simp only [PageBody.shown, PageBody.indexPage.injEq, and_assoc]
    | _ => exact absurd htype (by simp only [PageBody.pageType]; decide)
  | ibufBitMapPage =>
    cases body' with
    | ibufBitMapPage => exact ⟨fun h => ⟨rfl, h⟩, fun h => h.2⟩
    | _ => exact absurd htype (by simp only [PageBody.pageType]; decide)
  | sdiPage =>
    cases body' with
    | sdiPage => exact ⟨fun h => ⟨rfl, h⟩, fun h => h.2⟩
    | _ => exact absurd htype (by simp only [PageBody.pageType]; decide)
  | sysPage d =>
    cases body' with
    | sysPage d' => exact ⟨fun h => ⟨rfl, h⟩, fun h => h.2⟩
    | _ => exact absurd htype (by simp only [PageBody.pageType]; decide)

end

end Innodb
