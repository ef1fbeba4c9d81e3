import Innodb.DumpSound
import Innodb.DirectorySound

/-!
# What the dumps of an index page tell

The text of a record dump tells the whole chain and, of every record on it,
the header: the next field is there as the record it leads to. Only the
supremum, which is printed whatever its status, may keep some of it back.
-/

namespace Innodb
open BigEndian Loop Text RecordHeader Records

/-! ## One record -/

namespace RecordHeader

/-- The statuses that have no name are printed alike. -/
def shownStatus (status : UInt8) : UInt8 := if status < 4 then status else 4

def shownNext (b : Bytes) (rec : UInt64) : Int :=
  match recStatus b rec with
  | 2 | 3 | 0 => (nextOffs b rec).toNat
  | 1 => ((nextPtr b rec).getD 0 - alignDown rec 16384).toInt64.toInt
  | _ => 0

@[ext] structure Shown where
  off : UInt64
  infoBits : UInt8
  nOwned : UInt8
  heapNo : UInt16
  status : UInt8
  next : Int
  deriving DecidableEq

def shown (b : Bytes) (rec : UInt64) : Shown :=
  ⟨rec - alignDown rec 16384, infoBits b rec, numOfRecsOwned b rec, heapNoNew b rec, shownStatus (recStatus b rec),
    shownNext b rec⟩

theorem status_cases (s : UInt8) : s = 0 ∨ s = 1 ∨ s = 2 ∨ s = 3 ∨ ¬ s < 4 := by
  simp only [← UInt8.toNat_inj, UInt8.lt_iff_toNat_lt, UInt8.reduceToNat]
  omega

theorem shownStatus_unknown {s : UInt8} (h : ¬ s < 4) : shownStatus s = 4 := if_neg h

theorem getRecType_unknown {s : UInt8} (h : ¬ s < 4) : getRecType s = "unknown rec type" := by
  unfold getRecType
  split
  · exact absurd (by decide) h
  · exact absurd (by decide) h
  · exact absurd (by decide) h
  · exact absurd (by decide) h
  · rfl

theorem getRecType_shown (s : UInt8) : getRecType s = getRecType (shownStatus s) := by
  by_cases h : s < 4
  · rw [shownStatus, if_pos h]
  · rw [shownStatus_unknown h, getRecType_unknown h]
    rfl

theorem shownStatus_mem (s : UInt8) : shownStatus s ∈ [0, 1, 2, 3, 4] := by
  rcases status_cases s with rfl | rfl | rfl | rfl | h
  · decide
  · decide
  · decide
  · decide
  · rw [shownStatus_unknown h]; decide

theorem getRecType_append {s s' : UInt8} {x y : String} :
    getRecType s ++ ("\t" ++ x) = getRecType s' ++ ("\t" ++ y) ↔ shownStatus s = shownStatus s' ∧ x = y := by
  have hnames : ∀ t ∈ ([0, 1, 2, 3, 4] : List UInt8), '\t' ∉ (getRecType t).toList ∧
      ∀ t' ∈ ([0, 1, 2, 3, 4] : List UInt8), getRecType t = getRecType t' → t = t' := by decide +kernel
  rw [getRecType_shown s, getRecType_shown s',
    before_append ⟨'\t', rfl, (hnames _ (shownStatus_mem s)).1⟩ ⟨'\t', rfl, (hnames _ (shownStatus_mem s')).1⟩]
  refine and_congr_left fun _ => ⟨(hnames _ (shownStatus_mem s)).2 _ (shownStatus_mem s'), fun h => by rw [h]⟩

section
variable {b b' : Bytes} {rec rec' : UInt64} {x y : String}

def nextText (status : UInt8) (next : Int) : String :=
  match status with
  | 2 | 3 | 0 => "next_offs: " ++ int next ++ "\t"
  | 1 => "next_ptr: " ++ int next ++ "\t"
  | _ => ""

theorem dumpNext_unknown (h : ¬ recStatus b rec < 4) : RecordHeader.dumpNext b rec = "" := by
  unfold RecordHeader.dumpNext
  split
  · rename_i hs; exact absurd (hs ▸ by decide) h
  · rename_i hs; exact absurd (hs ▸ by decide) h
  · rename_i hs; exact absurd (hs ▸ by decide) h
  · rename_i hs; exact absurd (hs ▸ by decide) h
  · rfl

theorem shownNext_unknown (h : ¬ recStatus b rec < 4) : shownNext b rec = 0 := by
  unfold shownNext
  split
  · rename_i hs; exact absurd (hs ▸ by decide) h
  · rename_i hs; exact absurd (hs ▸ by decide) h
  · rename_i hs; exact absurd (hs ▸ by decide) h
  · rename_i hs; exact absurd (hs ▸ by decide) h
  · rfl

theorem dumpNext_eq (b : Bytes) (rec : UInt64) :
    RecordHeader.dumpNext b rec = nextText (shownStatus (recStatus b rec)) (shownNext b rec) := by
  rcases status_cases (recStatus b rec) with h | h | h | h | h
  · unfold RecordHeader.dumpNext shownNext; rw [h]; rfl
  · unfold RecordHeader.dumpNext shownNext; rw [h]; rfl
  · unfold RecordHeader.dumpNext shownNext; rw [h]; rfl
  · unfold RecordHeader.dumpNext shownNext; rw [h]; rfl
  · rw [dumpNext_unknown h, shownStatus_unknown h]; rfl

theorem shownNext_four (h : shownStatus (recStatus b rec) = 4) : shownNext b rec = 0 := by
  refine shownNext_unknown fun hlt => ?_
  rw [shownStatus, if_pos hlt] at h
  rw [h] at hlt
  exact absurd hlt (by decide)

theorem nextText_append {s : UInt8} (hs : s ∈ [0, 1, 2, 3, 4]) {i j : Int} (hi : s = 4 → i = 0) (hj : s = 4 → j = 0) :
    nextText s i ++ x = nextText s j ++ y ↔ i = j ∧ x = y := by
  have hread : ∀ title : String, title ++ int i ++ "\t" ++ x = title ++ int j ++ "\t" ++ y ↔ i = j ∧ x = y := by
    intro title
    simp only [String.append_assoc]
    rw [String.append_right_inj, int_append (by decide)]
  simp only [List.mem_cons, List.not_mem_nil, or_false] at hs
  rcases hs with rfl | rfl | rfl | rfl | rfl
  · exact hread _
  · exact hread _
  · exact hread _
  · exact hread _
  · rw [hi rfl, hj rfl, show nextText 4 0 = "" from rfl, String.empty_append, String.empty_append]
    exact (and_iff_right rfl).symm

theorem dump_append : RecordHeader.dump b rec ++ x = RecordHeader.dump b' rec' ++ y ↔
    shown b rec = shown b' rec' ∧ x = y := by
  have hnext : shownStatus (recStatus b rec) = shownStatus (recStatus b' rec') →
      (RecordHeader.dumpNext b rec ++ ("\n" ++ x) = RecordHeader.dumpNext b' rec' ++ ("\n" ++ y) ↔
        shownNext b rec = shownNext b' rec' ∧ x = y) := by
    intro hs
    rw [dumpNext_eq, dumpNext_eq, hs, nextText_append (shownStatus_mem _) (fun h => shownNext_four (hs.trans h))
      shownNext_four, String.append_right_inj]
  unfold RecordHeader.dump shown endl
  simp only [String.append_assoc, Shown.mk.injEq]
  rw [String.append_right_inj, num_append (by decide)]
  simp (disch := decide) only [String.append_right_inj, num_append, getRecType_append]
  simp only [UInt64.toNat_inj, UInt8.toNat_inj, UInt16.toNat_inj, and_assoc]
  exact and_congr_right fun _ => and_congr_right fun _ => and_congr_right fun _ => and_congr_right fun _ =>
    and_congr_right hnext

end

end RecordHeader

/-! ## By offsets -/

section
variable {c : PageBuf} {p : Placement} {r : Nat}

theorem toInt64_toInt {w : UInt64} (h : w.toNat < 2 ^ 63) : w.toInt64.toInt = w.toNat := by
  have hbits : w.toInt64.toBitVec.toNat = w.toNat := rfl
  rw [Int64.toInt, BitVec.toInt_eq_toNat_of_lt (by rw [hbits]; omega), hbits]

variable (hp : p.base.toNat % pageSize = 0) (hr : r < pageSize)
include hp hr

theorem shown_off : (shown (p.mem c) (p.at r)).off.toNat = r := by
  rw [shown, alignDown_at hp hr, at_sub p hr]

theorem shownNext_at (hg : RecordGood c r) (hf : nextField c r ≠ 0) : shownNext (p.mem c) (p.at r) = nextRecord c r := by
  obtain ⟨h5, hst⟩ := hg
  have hoffs := nextOffs_toNat (c := c) hp hr h5
  rw [← recStatus_at (p := p) hr h5] at hst
  unfold shownNext
  rcases status_cases (recStatus (p.mem c) (p.at r)) with h | h | h | h | h
  · rw [h, ← hoffs]; rfl
  · have hlt := nextRecord_lt c r
    rw [h, nextPtr_at hp hr h5, if_neg hf, alignDown_at hp hr]
    rw [Option.getD_some, toInt64_toInt (by rw [at_sub p hlt]; simp only [pageSize] at hlt; omega), at_sub p hlt]
    rfl
  · rw [h, ← hoffs]; rfl
  · rw [h] at hst; exact absurd hst (by decide)
  · rw [UInt8.not_lt, UInt8.le_iff_toNat_le] at h
    exact absurd (Nat.le_trans h hst) (by decide)

end

section
variable {c c' : PageBuf} {p p' : Placement} {r : Nat}

/-- The bit fields are all of the first three bytes. -/
theorem fields_iff (hr : r < pageSize) (h5 : 5 ≤ r) :
    (infoBits (p.mem c) (p.at r) = infoBits (p'.mem c') (p'.at r) ∧
      numOfRecsOwned (p.mem c) (p.at r) = numOfRecsOwned (p'.mem c') (p'.at r) ∧
      heapNoNew (p.mem c) (p.at r) = heapNoNew (p'.mem c') (p'.at r) ∧
      recStatus (p.mem c) (p.at r) = recStatus (p'.mem c') (p'.at r)) ↔
      SameRun (bytes c) (bytes c') (r - 5) (r - 5) 3 := by
  have hread : ∀ (c : PageBuf) (p : Placement), (infoBits (p.mem c) (p.at r)).toNat = (bytes c (r - 5)).toNat / 16 * 16 ∧
      (numOfRecsOwned (p.mem c) (p.at r)).toNat = (bytes c (r - 5)).toNat % 16 ∧
      (heapNoNew (p.mem c) (p.at r)).toNat = beNat (bytes c) (r - 4) 2 / 8 ∧
      (recStatus (p.mem c) (p.at r)).toNat = (bytes c (r - 3)).toNat % 8 := by
    intro c p
    have h5' : (p.at r - 5).toNat = p.base.toNat + (r - 5) := at_back p (k := 5) hr h5
    have h4' : (p.at r - 4).toNat = p.base.toNat + (r - 4) := at_back p (k := 4) hr (by omega)
    have hmem : ∀ k < 2 ^ 64, p.mem c (p.base.toNat + k) = bytes c k := fun k hk => p.mem_add c hk
    simp only [pageSize] at hr
    refine ⟨?_, ?_, ?_, recStatus_at hr h5⟩
    · rw [infoBits_toNat, h5', hmem _ (by omega)]
    · rw [numOfRecsOwned_toNat, h5', hmem _ (by omega)]
    · rw [heapNoNew_toNat, h4', machReadFrom2_toNat]
      refine congrArg (· / 8) (beNat_congr fun k hk => ?_)
      rw [Nat.add_assoc, hmem _ (by omega)]
  obtain ⟨h₁, h₂, h₃, h₄⟩ := hread c p
  obtain ⟨h₁', h₂', h₃', h₄'⟩ := hread c' p'
  rw [← UInt8.toNat_inj, ← UInt8.toNat_inj, ← UInt8.toNat_inj, ← UInt16.toNat_inj, h₁, h₂, h₃, h₄, h₁', h₂', h₃', h₄']
  obtain ⟨q, rfl⟩ : ∃ q, r = q + 5 := ⟨r - 5, (Nat.sub_add_cancel h5).symm⟩
  rw [← beNat_inj, show q + 5 - 4 = q + 1 from rfl, show q + 5 - 3 = q + 2 from rfl, Nat.add_sub_cancel]
  have hlt : ∀ c k, (bytes c k).toNat < 256 := fun c k => UInt8.toNat_lt _
  have hc := hlt c
  have hc' := hlt c'
  simp only [beNat, Nat.add_assoc, Nat.zero_mul, Nat.zero_add, Nat.add_zero, Nat.reduceAdd]
  have h₀ := hc q; have h₁ := hc (q + 1); have h₂ := hc (q + 2)
  have h₀' := hc' q; have h₁' := hc' (q + 1); have h₂' := hc' (q + 2)
  omega

end

/-! ## The whole chain -/

section
variable {c c' : PageBuf} {p p' : Placement}

/-- The dump that ends has printed a chain of good records, and the supremum. -/
theorem dumpText_ok (hp : p.base.toNat % pageSize = 0) {n : Nat} {x : String}
    (h : Records.dumpText c p n = .ok (some x)) : ∃ l, Spells beforeSupremum (nextRecord c) 99 l ∧
      (∀ r ∈ l, RecordGood c r ∧ r < pageSize) ∧ x = run (RecordHeader.dump (p.mem c)) ((l ++ [112]).map p.at) := by
  obtain ⟨t, ht, hx⟩ := bind_ok h
  have hs : atSupremum p t = true := by
    refine Classical.byContradiction fun hs => ?_
    rw [if_neg hs] at hx; cases hx
  rw [if_pos hs] at hx
  cases hx
  have hgood : ∀ r ∈ walk beforeSupremum (nextRecord c) n 99, RecordGood c r := by
    intro r hr
    -- a dump that comes to a bad record does not return
    refine Classical.byContradiction fun hbad => ?_
    have hstart := start_pos (p := p) []
    obtain ⟨e, he⟩ := (dump_follows c hp).fail n ⟨some (p.base + pageNewInfimum), []⟩ (by rw [hstart]; decide)
      ⟨r, by rwa [hstart], hbad⟩
    rw [Records.dump, he] at ht; cases ht
  obtain ⟨t', ht', hend, hl⟩ := dump_run c hp n hgood
  rw [ht] at ht'; cases ht'
  rw [if_pos hs] at hl
  have hlt : ∀ r ∈ walk beforeSupremum (nextRecord c) n 99, r < pageSize :=
    Along.induct (P := (· < pageSize)) (by decide) (fun r _ => nextRecord_lt c r) n
  exact ⟨_, spells_walk (hend.mp hs), fun r hr => ⟨hgood r hr, hlt r hr⟩, by rw [hl]⟩

theorem dumpText_spells (hp : p.base.toNat % pageSize = 0) {l : List Nat}
    (hl : Spells beforeSupremum (nextRecord c) 99 l) (hg : ∀ r ∈ l, RecordGood c r) :
    Records.dumpText c p l.length = .ok (some (run (RecordHeader.dump (p.mem c)) ((l ++ [112]).map p.at))) := by
  obtain ⟨t, ht, hend, hlog⟩ := dump_run c hp l.length (by rwa [hl.walk_eq])
  have hs : atSupremum p t = true := hend.mpr hl.after_dead
  rw [if_pos hs, hl.walk_eq] at hlog
  rw [Records.dumpText, ht, ok_bind, if_pos hs, hlog]

/-- The next field of a record before the supremum is not zero: the header at
the start of the page is not in it. -/
theorem nextField_ne {l : List Nat} (hl : Spells beforeSupremum (nextRecord c) 99 l) (hg : ∀ r ∈ l, RecordGood c r ∧ r < pageSize)
    {r : Nat} (hr : r ∈ l) : nextField c r ≠ 0 := by
  intro h0
  have hzero : nextRecord c r = 0 := if_pos h0
  have hnext := hl.next_mem r hr
  rw [hzero] at hnext
  rcases hnext with hmem | hout
  · exact absurd (hg 0 hmem).1.1 (by decide)
  · exact absurd hout (by decide)

theorem dump_eq_iff {b b' : Bytes} {l l' : List UInt64} :
    run (RecordHeader.dump b) l = run (RecordHeader.dump b') l' ↔ l.map (shown b) = l'.map (shown b') := by
  have hbegins : ∀ (a : Bytes × UInt64) (x : String), Begins 'r' (RecordHeader.dump a.1 a.2 ++ x) := by
    intro a x
    unfold RecordHeader.dump
    simp only [String.append_assoc]
    exact Begins.append (by decide) _
  have hruns : ∀ l l' : List (Bytes × UInt64), run (fun a => RecordHeader.dump a.1 a.2) l ++ "" =
      run (fun a => RecordHeader.dump a.1 a.2) l' ++ "" ↔
        l.map (fun a => shown a.1 a.2) = l'.map (fun a => shown a.1 a.2) ∧ "" = "" := fun _ _ =>
    run_append_over (E := fun x => ¬ Begins 'r' x) (Q := fun _ => True) (fun _ _ _ _ _ _ => dump_append)
      (fun a x => ⟨trivial, fun h => h (hbegins a x)⟩) (fun _ _ => trivial) (by decide) (by decide)
  have hread := hruns (l.map fun a => (b, a)) (l'.map fun a => (b', a))
  rwa [run_map, run_map, List.map_map, List.map_map, String.append_empty, String.append_empty, and_iff_left rfl] at hread

/-- A good record shows the first three bytes of its header and where it leads. -/
theorem shown_iff (hp : p.base.toNat % pageSize = 0) (hp' : p'.base.toNat % pageSize = 0) {r : Nat} (hr : r < pageSize)
    (hg : RecordGood c r) (hg' : RecordGood c' r) (hf : nextField c r ≠ 0) (hf' : nextField c' r ≠ 0) :
    shown (p.mem c) (p.at r) = shown (p'.mem c') (p'.at r) ↔
      SameRun (bytes c) (bytes c') (r - 5) (r - 5) 3 ∧ nextRecord c r = nextRecord c' r := by
  have hstatus : ∀ {c : PageBuf} {p : Placement}, RecordGood c r →
      shownStatus (recStatus (p.mem c) (p.at r)) = recStatus (p.mem c) (p.at r) := by
    intro c p hg
    refine if_pos (UInt8.lt_iff_toNat_lt.mpr ?_)
    rw [recStatus_at hr hg.1]
    exact Nat.lt_of_le_of_lt hg.2 (by decide)
  have hoff : (shown (p.mem c) (p.at r)).off = (shown (p'.mem c') (p'.at r)).off := by
    rw [← UInt64.toNat_inj, shown_off hp hr, shown_off hp' hr]
  have hnext : shownNext (p.mem c) (p.at r) = shownNext (p'.mem c') (p'.at r) ↔ nextRecord c r = nextRecord c' r := by
    rw [shownNext_at hp hr hg hf, shownNext_at hp' hr hg' hf', Int.ofNat_inj]
  rw [← @fields_iff c c' p p' r hr hg.1, Shown.ext_iff, and_iff_right hoff]
  simp only [shown, hstatus hg, hstatus hg', hnext, and_assoc]

/-- **What a record dump tells.** Two dumps that end, of pages at any multiples
of the page size in memory, print the same text exactly if the pages have the
same chain, with the same first three bytes in every header on it, and show
the same supremum. -/
theorem recordsDump_same_iff (hp : p.base.toNat % pageSize = 0) (hp' : p'.base.toNat % pageSize = 0) {n n' : Nat}
    {x x' : String} (h : Records.dumpText c p n = .ok (some x)) (h' : Records.dumpText c' p' n' = .ok (some x')) :
    x = x' ↔ (∃ l, Spells beforeSupremum (nextRecord c) 99 l ∧ Spells beforeSupremum (nextRecord c') 99 l ∧
      ∀ r ∈ l, SameRun (bytes c) (bytes c') (r - 5) (r - 5) 3) ∧
      shown (p.mem c) (p.at 112) = shown (p'.mem c') (p'.at 112) := by
  obtain ⟨l, hl, hg, rfl⟩ := dumpText_ok hp h
  obtain ⟨l', hl', hg', rfl⟩ := dumpText_ok hp' h'
  have hiff : ∀ r ∈ l, r ∈ l' → (shown (p.mem c) (p.at r) = shown (p'.mem c') (p'.at r) ↔
      SameRun (bytes c) (bytes c') (r - 5) (r - 5) 3 ∧ nextRecord c r = nextRecord c' r) := fun r hr hr' =>
    shown_iff hp hp' (hg r hr).2 (hg r hr).1 (hg' r hr').1 (nextField_ne hl hg hr) (nextField_ne hl' hg' hr')
  rw [dump_eq_iff, List.map_map, List.map_map]
  refine ⟨fun heq => ?_, fun hx => ?_⟩
  · have hoffs : ∀ {c : PageBuf} {p : Placement} {l : List Nat}, p.base.toNat % pageSize = 0 → (∀ r ∈ l, r < pageSize) →
        ((l ++ [112]).map (shown (p.mem c) ∘ p.at)).map (fun h : Shown => h.off.toNat) = l ++ [112] := by
      intro c p l hp hlt
      rw [List.map_map]
      refine (List.map_congr_left fun r hr => ?_).trans (List.map_id _)
      rcases List.mem_append.mp hr with hr | hr
      · exact shown_off hp (hlt r hr)
      · rw [List.mem_singleton.mp hr]
        exact shown_off hp (show 112 < pageSize by decide)
    -- the offsets are printed, so the two chains are one
    have hsame := congrArg (List.map fun h : Shown => h.off.toNat) heq
    rw [hoffs hp fun r hr => (hg r hr).2, hoffs hp' fun r hr => (hg' r hr).2] at hsame
    obtain rfl := List.append_cancel_right hsame
    rw [List.map_inj_left] at heq
    exact ⟨⟨l, hl, hl', fun r hr => ((hiff r hr hr).mp (heq r (List.mem_append_left _ hr))).1⟩,
      heq 112 (List.mem_append_right _ List.mem_cons_self)⟩
  · obtain ⟨⟨m, hm, hm', hbytes⟩, hsup⟩ := hx
    obtain rfl := hl.unique hm
    obtain rfl := hl'.unique hm'
    -- which record comes next is not in the three bytes; the chain tells it
    have hout : ∀ r s, beforeSupremum r = false → beforeSupremum s = false → r = s := fun r s hr hs =>
      (bne_eq_false_iff_eq.mp hr).trans (bne_eq_false_iff_eq.mp hs).symm
    rw [List.map_inj_left]
    intro r hr
    rcases List.mem_append.mp hr with hr | hr
    · exact (hiff r hr hr).mpr ⟨hbytes r hr, hl.next_eq hout hl' r hr⟩
    · rw [List.mem_singleton.mp hr]
      exact hsup

end

def farPlacement : Placement := ⟨0x20000, by decide, by decide, by decide⟩

/-- The same chain in a page with other bytes behind its records. -/
def writtenPage : PageBuf := fun k => if k = 5000 then 1 else backwardPage k

theorem writtenPage_stored : StoresRecords writtenPage 2 fun j => [99, 200, 150, 112].getD j 0 := by
  constructor <;> decide

theorem StoresRecords.text {c : PageBuf} {k : Nat} {r : Nat → Nat} (h : StoresRecords c k r) {p : Placement}
    (hp : p.base.toNat % pageSize = 0) : ∃ x, Records.dumpText c p ((List.range (k + 1)).map r).length = .ok (some x) := by
  refine ⟨_, dumpText_spells hp h.spells fun x hx => ?_⟩
  obtain ⟨j, hj, rfl⟩ := List.mem_map.mp hx
  exact h.good (Nat.le_of_lt_succ (List.mem_range.mp hj))

theorem recordsDump_same_moved : ∃ n x, Records.dumpText backwardPage alignedPlacement n = .ok (some x) ∧
    Records.dumpText writtenPage farPlacement n = .ok (some x) := by
  obtain ⟨x, hx⟩ := backwardPage_stored.text (p := alignedPlacement) (by decide)
  obtain ⟨y, hy⟩ := writtenPage_stored.text (p := farPlacement) (by decide)
  have hbytes : ∀ r ∈ (List.range 3).map fun j => [99, 200, 150, 112].getD j 0,
      SameRun (bytes backwardPage) (bytes writtenPage) (r - 5) (r - 5) 3 := by decide
  have hsup : shown (alignedPlacement.mem backwardPage) (alignedPlacement.at 112) =
      shown (farPlacement.mem writtenPage) (farPlacement.at 112) := by decide
  obtain rfl := (recordsDump_same_iff (by decide) (by decide) hx hy).mpr
    ⟨⟨_, backwardPage_stored.spells, writtenPage_stored.spells, hbytes⟩, hsup⟩
  exact ⟨_, x, hx, hy⟩

/-! ## The directory -/

namespace IndexPageDirectory

section
variable {c c' : PageBuf} {p p' : Placement} {x x' y : String}

/-- The slot after all that fit is in front of the page. -/
theorem dumpSlot_front (p : Placement) : dumpSlot c p 8188 = .error .outOfPage := by
  have hout : slotInPage p (getNthSlot p.base (UInt64.ofNat 8188)) = false := by
    have hslot : getNthSlot p.base (UInt64.ofNat 8188) - p.base = UInt64.ofNat (2 ^ 64 - 2) := by
      rw [getNthSlot]
      grind
    rw [slotInPage, hslot]
    decide
  rw [dumpSlot, hout]
  rfl

theorem directoryText_slots (h : dumpText c p = .ok x) : slots c p ≤ 8188 := by
  obtain ⟨l, hl, -⟩ := bind_ok h
  refine Nat.le_of_not_lt fun hlt => ?_
  have hslots : (IndexHeader.Raw.nOfDirSlots (p.mem c) p.base.toNat).toUInt64.toNat = slots c p := UInt16.toNat_toUInt64 _
  rw [dumpSlots, hslots] at hl
  obtain ⟨b, hb⟩ := mapM_ok_mem hl 8188 (List.mem_range.mpr hlt)
  rw [dumpSlot_front] at hb
  cases hb

def slotValues (c : PageBuf) (n : Nat) : List Nat := (List.range n).map fun i => beNat (bytes c) (slotOffset i) 2

def slotText (v : Nat) : String := num v ++ "\t"

theorem dumpText_eq (hp : p.base.toNat % pageSize = 0) (h : dumpText c p = .ok x) :
    slots c p ≤ 8188 ∧ x = "page directory: n of slots: " ++ num (slots c p) ++ "\t" ++
      run slotText (slotValues c (slots c p)) ++ endl := by
  have hn := directoryText_slots h
  have hdump := dump_ok c p hp hn
  unfold dump at hdump
  unfold dumpText at h
  simp only [hdump, ok_bind] at h
  cases h
  refine ⟨hn, ?_⟩
  rw [slotValues, run_map, run_map]
  simp only [printed_toInt, machReadFrom2_toNat]
  rfl

theorem slots_sameRun {n : Nat} (hn : n ≤ 8188) : (∀ i < n, SameRun (bytes c) (bytes c') (slotOffset i) (slotOffset i) 2) ↔
    SameRun (bytes c) (bytes c') (16376 - 2 * n) (16376 - 2 * n) (2 * n) := by
  unfold slotOffset
  refine ⟨fun h k hk => ?_, fun h i hi k hk => ?_⟩
  · have hslot := h (n - 1 - k / 2) (by omega) (k % 2) (by omega)
    rwa [show 16384 - 8 - 2 * (n - 1 - k / 2 + 1) + k % 2 = 16376 - 2 * n + k by omega] at hslot
  · have hslot := h (2 * (n - 1 - i) + k) (by omega)
    rwa [show 16376 - 2 * n + (2 * (n - 1 - i) + k) = 16384 - 8 - 2 * (i + 1) + k by omega] at hslot

/-- **What a directory dump tells.** Two dumps that return, of pages at any
multiples of the page size in memory, print the same text exactly if the pages
declare the same number of slots and have the same bytes in them. -/
theorem directoryDump_same_iff (hp : p.base.toNat % pageSize = 0) (hp' : p'.base.toNat % pageSize = 0)
    (h : dumpText c p = .ok x) (h' : dumpText c' p' = .ok x') : x = x' ↔ ∃ n, n ≤ 8188 ∧
      beNat (bytes c) 38 2 = n ∧ beNat (bytes c') 38 2 = n ∧
      SameRun (bytes c) (bytes c') (16376 - 2 * n) (16376 - 2 * n) (2 * n) := by
  obtain ⟨hn, rfl⟩ := dumpText_eq hp h
  obtain ⟨hn', rfl⟩ := dumpText_eq hp' h'
  have hslot : ∀ (v w : Nat) (x y : String), slotText v ++ x = slotText w ++ y ↔ id v = id w ∧ x = y := by
    intro v w x y
    unfold slotText
    rw [String.append_assoc, String.append_assoc, num_append (by decide)]
    rfl
  have hrun : ∀ n ≤ 8188, run slotText (slotValues c n) ++ endl = run slotText (slotValues c' n) ++ endl ↔
      SameRun (bytes c) (bytes c') (16376 - 2 * n) (16376 - 2 * n) (2 * n) := by
    intro n hn
    unfold slotValues
    rw [run_append_length hslot (by rw [List.length_map, List.length_map]), List.map_id, List.map_id, and_iff_left rfl,
      List.map_inj_left, ← slots_sameRun hn]
    simp only [List.mem_range, beNat_inj]
  simp only [String.append_assoc]
  rw [String.append_right_inj, num_append (by decide), ← slots_eq c p, ← slots_eq c' p']
  refine ⟨fun heq => ?_, fun hx => ?_⟩
  · obtain ⟨hcount, heq⟩ := heq
    rw [← hcount] at heq
    exact ⟨_, hn, rfl, hcount.symm, (hrun _ hn).mp heq⟩
  · obtain ⟨n, hle, hc, hc', hsame⟩ := hx
    rw [hc, hc']
    exact ⟨rfl, (hrun n hle).mpr hsame⟩

theorem directoryDump_same_two : ∃ x, dumpText (slotCountPage 0 2) alignedPlacement = .ok x ∧
    dumpText (slotCountPage 0 2) farPlacement = .ok x := by
  obtain ⟨x, hx⟩ : ∃ x, dumpText (slotCountPage 0 2) alignedPlacement = .ok x := ⟨_, rfl⟩
  obtain ⟨y, hy⟩ : ∃ y, dumpText (slotCountPage 0 2) farPlacement = .ok y := ⟨_, rfl⟩
  obtain rfl := (directoryDump_same_iff (by decide) (by decide) hx hy).mpr ⟨2, by decide, by decide, by decide, by decide⟩
  exact ⟨x, hx, hy⟩

end

end IndexPageDirectory

end Innodb
