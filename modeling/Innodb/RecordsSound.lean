import Innodb.Records

/-!
# Navigation and the placement of the page

Moving a page by a multiple of its size moves every result of the navigation
with it. Any other move changes what the directory's slots lead to, since the
pointers are masked as if pages were aligned to their size.
-/

namespace Innodb
open BigEndian RecordHeader IndexPageDirectory Records

/-! ## Masks and moves -/

theorem add_swap (x y z : UInt64) : x + y + z = x + z + y := by grind

theorem alignDown_eq_sub (x : UInt64) : alignDown x 16384 = x - alignOffset x 16384 := by
  have h := alignDown_add_alignOffset x 16384
  grind

section
variable {d : UInt64} (hd : d.toNat % pageSize = 0)
include hd

theorem alignOffset_add (x : UInt64) : alignOffset (x + d) 16384 = alignOffset x 16384 := by
  have hx := x.toNat_lt
  apply UInt64.toNat_inj.mp
  rw [alignOffset_toNat, alignOffset_toNat, UInt64.toNat_add]
  simp only [pageSize] at *; omega

theorem alignDown_add (x : UInt64) : alignDown (x + d) 16384 = alignDown x 16384 + d := by
  rw [alignDown_eq_sub, alignDown_eq_sub, alignOffset_add hd]; grind

end

/-! ## Moving a page -/

def Placement.to (p q : Placement) : UInt64 := q.base - p.base

namespace Records.DumpState

def move (d : UInt64) (t : DumpState) : DumpState := ⟨t.cur.map (· + d), t.dumped.map (· + d)⟩

def relativeTo (base : UInt64) (t : DumpState) : DumpState := ⟨t.cur.map (· - base), t.dumped.map (· - base)⟩

end Records.DumpState

section
variable (c : PageBuf) {p q : Placement}

theorem move_back (x : UInt64) : x + p.to q - q.base = x - p.base := by
  unfold Placement.to
  grind

theorem move_forth (x : UInt64) : p.base + x + p.to q = q.base + x := by
  unfold Placement.to
  grind

theorem mem_move (x : UInt64) (n : Nat) : SameRun (q.mem c) (p.mem c) (x + p.to q).toNat x.toNat n := by
  intro k _
  have hk : UInt64.ofNat ((x + p.to q).toNat + k) - q.base = UInt64.ofNat (x.toNat + k) - p.base := by
    rw [UInt64.ofNat_add, UInt64.ofNat_add, UInt64.ofNat_toNat, UInt64.ofNat_toNat, Placement.to]; grind
  unfold Placement.mem
  rw [hk]

theorem read2_move (x k : UInt64) :
    machReadFrom2 (q.mem c) (x + p.to q - k).toNat = machReadFrom2 (p.mem c) (x - k).toNat := by
  rw [show x + p.to q - k = x - k + p.to q by grind]
  exact machReadFrom2_congr (mem_move c _ 2)

theorem recStatus_move (x : UInt64) : recStatus (q.mem c) (x + p.to q) = recStatus (p.mem c) x := by
  have hb := mem_move c (p := p) (q := q) (x - 3) 1 0 (Nat.zero_lt_one)
  rw [recStatus, recStatus, recGetBitField1, recGetBitField1, show x + p.to q - 3 = x - 3 + p.to q by grind,
    machReadFrom1, machReadFrom1]
  exact congrArg (fun v : UInt8 => ((v.toUInt64 &&& 0x7) >>> 0).toUInt8) hb

theorem headerInPage_move (x : UInt64) : headerInPage q (x + p.to q) = headerInPage p x := by
  rw [headerInPage, headerInPage, move_back]

variable (hd : (p.to q).toNat % pageSize = 0)
include hd

theorem nextOffs_move (x : UInt64) : nextOffs (q.mem c) (x + p.to q) = nextOffs (p.mem c) x := by
  simp only [nextOffs, read2_move, add_swap x (p.to q), alignOffset_add hd]

theorem nextPtr_move (x : UInt64) : nextPtr (q.mem c) (x + p.to q) = (nextPtr (p.mem c) x).map (· + p.to q) := by
  simp only [nextPtr, read2_move, add_swap x (p.to q), alignOffset_add hd, alignDown_add hd]
  split
  · rfl
  · rw [Option.map_some, add_swap]

theorem getSlotRec_move (x : UInt64) : getSlotRec (q.mem c) (x + p.to q) = getSlotRec (p.mem c) x + p.to q := by
  unfold getSlotRec pageAlign
  rw [alignDown_add hd, machReadFrom2_congr (mem_move c x 2)]
  exact add_swap _ _ _

theorem dumpRound_move (t : DumpState) :
    dumpRound c q (t.move (p.to q)) = (dumpRound c p t).map (DumpState.move (p.to q)) := by
  obtain ⟨cur, dumped⟩ := t
  cases cur with
  | none => rfl
  | some x =>
    simp only [dumpRound, DumpState.move, Option.map_some, deref, Loop.ok_bind, headerInPage_move, recStatus_move,
      nextOffs_move c hd, nextPtr_move c hd]
    split
    · rfl
    split
    · simp only [Except.map, DumpState.move, Option.map_some, List.map_append, List.map_cons, List.map_nil, move_forth]
    split
    · simp only [Except.map, DumpState.move, List.map_append, List.map_cons, List.map_nil]
    · rfl

omit hd in
theorem atSupremum_move (t : DumpState) : atSupremum q (t.move (p.to q)) = atSupremum p t := by
  obtain ⟨cur, dumped⟩ := t
  cases cur with
  | none => rfl
  | some x =>
    have hiff : x + p.to q = q.base + pageNewSupremum ↔ x = p.base + pageNewSupremum := by
      rw [← move_forth, UInt64.add_left_inj]
    simp only [atSupremum, DumpState.move, Option.map_some, beq_eq_decide, Option.some.injEq, hiff]

theorem dump_move (n : Nat) : Records.dump c q n = (Records.dump c p n).map (DumpState.move (p.to q)) := by
  have hstart : (⟨some (q.base + pageNewInfimum), []⟩ : DumpState) =
      DumpState.move (p.to q) ⟨some (p.base + pageNewInfimum), []⟩ := by
    unfold DumpState.move
    rw [Option.map_some, move_forth]; rfl
  have hrun : ∀ t : DumpState, Loop.rounds (!atSupremum q ·) (dumpRound c q) n (t.move (p.to q)) =
      (Loop.rounds (!atSupremum p ·) (dumpRound c p) n t).map (DumpState.move (p.to q)) := by
    intro t
    refine Loop.rounds_map _ _ (f := DumpState.move (p.to q)) ?_ ?_ n t
    · intro t; rw [atSupremum_move]
    · exact dumpRound_move c hd
  unfold Records.dump
  rw [hstart, hrun]
  cases Loop.rounds (!atSupremum p ·) (dumpRound c p) n ⟨some (p.base + pageNewInfimum), []⟩ with
  | error e => rfl
  | ok t =>
    simp only [Except.map, Loop.ok_bind, atSupremum_move]
    split
    · simp only [DumpState.move, List.map_append, List.map_cons, List.map_nil, move_forth]
    · rfl

omit hd in
theorem relativeTo_move (t : DumpState) : (t.move (p.to q)).relativeTo q.base = t.relativeTo p.base := by
  simp only [DumpState.move, DumpState.relativeTo, Option.map_map, List.map_map, Function.comp_def, move_back]

end

/-! ## Which moves change nothing -/

/-- Navigation in the two placements gives the same, in offsets. -/
structure SameNavigation (c : PageBuf) (p q : Placement) : Prop where
  nextOffs : ∀ r, 5 ≤ r → r < pageSize → RecordHeader.nextOffs (p.mem c) (p.base + UInt64.ofNat r) =
    RecordHeader.nextOffs (q.mem c) (q.base + UInt64.ofNat r)
  nextPtr : ∀ r, 5 ≤ r → r < pageSize → (RecordHeader.nextPtr (p.mem c) (p.base + UInt64.ofNat r)).map (· - p.base) =
    (RecordHeader.nextPtr (q.mem c) (q.base + UInt64.ofNat r)).map (· - q.base)
  slotRec : ∀ s, s + 2 ≤ pageSize → getSlotRec (p.mem c) (p.base + UInt64.ofNat s) - p.base =
    getSlotRec (q.mem c) (q.base + UInt64.ofNat s) - q.base
  dump : ∀ n, (Records.dump c p n).map (DumpState.relativeTo p.base) =
    (Records.dump c q n).map (DumpState.relativeTo q.base)

theorem to_mod_iff (p q : Placement) :
    (p.to q).toNat % pageSize = 0 ↔ p.base.toNat % pageSize = q.base.toNat % pageSize := by
  have hp := p.base.toNat_lt
  have hq := q.base.toNat_lt
  unfold Placement.to
  rw [UInt64.toNat_sub]
  simp only [pageSize]; omega

theorem getSlotRec_zero (c : PageBuf) (p : Placement) : getSlotRec (p.mem c) (p.base + UInt64.ofNat 0) - p.base =
    (machReadFrom2 (p.mem c) p.base.toNat).toUInt64 - alignOffset p.base 16384 := by
  rw [show p.base + UInt64.ofNat 0 = p.base by simp, getSlotRec, pageAlign, alignDown_eq_sub]; grind

/-- **Placement.** Navigation in a page is the same from two addresses exactly
when these agree modulo the page size, whatever is in the page. -/
theorem sameNavigation_iff (c : PageBuf) (p q : Placement) :
    SameNavigation c p q ↔ p.base.toNat % pageSize = q.base.toNat % pageSize := by
  refine ⟨fun h => ?_, fun h => ?_⟩
  · have hread : machReadFrom2 (q.mem c) q.base.toNat = machReadFrom2 (p.mem c) p.base.toNat := by
      have hb : p.base + p.to q = q.base := by rw [Placement.to]; grind
      rw [← hb]; exact machReadFrom2_congr (mem_move c p.base 2)
    have hslot := h.slotRec 0 (by decide)
    rw [getSlotRec_zero, getSlotRec_zero, hread] at hslot
    have hoff : alignOffset p.base 16384 = alignOffset q.base 16384 := by grind
    rw [← alignOffset_toNat, hoff, alignOffset_toNat]
  · have hd := (to_mod_iff p q).mpr h
    refine ⟨fun r _ _ => ?_, fun r _ _ => ?_, fun s _ => ?_, fun n => ?_⟩
    · rw [← move_forth (p := p) (q := q), nextOffs_move c hd]
    · rw [← move_forth (p := p) (q := q), nextPtr_move c hd, Option.map_map]
      exact congrArg (Option.map · _) (funext fun x => (move_back x).symm)
    · rw [← move_forth (p := p) (q := q), getSlotRec_move c hd, move_back]
    · rw [dump_move c hd]
      cases Records.dump c p n with
      | error e => rfl
      | ok t => exact congrArg Except.ok (relativeTo_move t).symm

def emptyIndexPage : PageBuf := fun k => sparse [(24, 0x45), (25, 0xBF), (98, 13)] k

/-- Placed 16 bytes past a multiple of the page size, the chain misses the
supremum. -/
theorem navigation_moves : ∃ p q : Placement, p.base = 0x10000 ∧ q.base = 0x10010 ∧
    nextOffs (p.mem emptyIndexPage) (p.base + 99) = 112 ∧ nextOffs (q.mem emptyIndexPage) (q.base + 99) = 128 ∧
    ¬ SameNavigation emptyIndexPage p q := by
  refine ⟨⟨0x10000, by decide, by decide, by decide⟩, ⟨0x10010, by decide, by decide, by decide⟩, rfl, rfl,
    by decide, by decide, fun h => ?_⟩
  exact absurd (h.nextOffs 99 (by decide) (by decide)) (by decide)

end Innodb
