import Innodb.RecordsSound
import Innodb.RecordHeaderSound
import Mathlib.Data.List.Nodup

/-!
# The record chain of an aligned page

In a page that is placed at a multiple of its size, dumping the records
follows the chain that the next fields make of the page's offsets. What is
dumped, whether the dump stays inside the page, and whether it ends are read
off that chain.
-/

namespace Innodb
open BigEndian Loop RecordHeader Records

/-! ## The chain, by offsets -/

section
variable (c : PageBuf)

def statusAt (r : Nat) : Nat := (bytes c (r - 3)).toNat % 8

def nextField (r : Nat) : Nat := beNat (bytes c) (r - 2) 2

/-- Where the next field of `r` leads; a zero field to the start of the page. -/
def nextRecord (r : Nat) : Nat := if nextField c r = 0 then 0 else (r + nextField c r) % pageSize

def beforeSupremum (r : Nat) : Bool := r != 112

/-- The header of `r` is in the page and has a status that the dump accepts. -/
def RecordGood (r : Nat) : Prop := 5 ≤ r ∧ statusAt c r ≤ 2

end

/-! ## One round -/

section
variable {c : PageBuf} {p : Placement} {x : UInt64} {r : Nat}

def Placement.at (p : Placement) (r : Nat) : UInt64 := p.base + UInt64.ofNat r

theorem at_sub (p : Placement) (hr : r < pageSize) : (p.at r - p.base).toNat = r := by
  rw [Placement.at, UInt64.add_comm, UInt64.add_sub_cancel,
    UInt64.toNat_ofNat_of_lt' (Nat.lt_trans hr (by decide))]

theorem at_word (p : Placement) (x : UInt64) : p.at x.toNat = p.base + x := by
  rw [Placement.at, UInt64.ofNat_toNat]

theorem at_of_sub (p : Placement) (x : UInt64) : p.at (x - p.base).toNat = x := by
  rw [at_word, UInt64.add_comm, UInt64.sub_add_cancel]

theorem at_toNat (p : Placement) (hr : r < pageSize) : (p.at r).toNat = p.base.toNat + r := by
  have hfits := p.fits
  rw [Placement.at, UInt64.toNat_add, UInt64.toNat_ofNat_of_lt' (Nat.lt_trans hr (by decide))]
  simp only [pageSize] at *; omega

theorem at_back (p : Placement) {k : Nat} (hr : r < pageSize) (hk : k ≤ r) :
    (p.at r - UInt64.ofNat k).toNat = p.base.toNat + (r - k) := by
  have hfits := p.fits
  have hkn : (UInt64.ofNat k).toNat = k := UInt64.toNat_ofNat_of_lt' (Nat.lt_trans (Nat.lt_of_le_of_lt hk hr) (by decide))
  rw [UInt64.toNat_sub_of_le _ _ (by rw [UInt64.le_iff_toNat_le, hkn, at_toNat p hr]; omega), hkn, at_toNat p hr]
  omega

theorem headerInPage_at (hr : r < pageSize) : headerInPage p (p.at r) = decide (5 ≤ r) := by
  rw [headerInPage, at_sub p hr]
  simp [Nat.le_of_lt hr]

theorem recStatus_at (hr : r < pageSize) (h5 : 5 ≤ r) : (recStatus (p.mem c) (p.at r)).toNat = statusAt c r := by
  have hback : (p.at r - 3).toNat = p.base.toNat + (r - 3) := at_back p (k := 3) hr (by omega)
  rw [recStatus_toNat, hback, p.mem_add c (by simp only [pageSize] at hr; omega), statusAt]

theorem nextField_at (hr : r < pageSize) (h5 : 5 ≤ r) :
    (machReadFrom2 (p.mem c) (p.at r - recNext).toNat).toNat = nextField c r := by
  have hback : (p.at r - recNext).toNat = p.base.toNat + (r - 2) := at_back p (k := 2) hr (by omega)
  rw [hback, machReadFrom2_toNat, nextField]
  refine beNat_congr fun k hk => ?_
  rw [Nat.add_assoc]
  exact p.mem_add c (by simp only [pageSize] at hr; omega)

variable (hp : p.base.toNat % pageSize = 0)
include hp

theorem alignOffset_at (hr : r < pageSize) (v : UInt16) :
    (alignOffset (p.at r + v.toUInt64) 16384).toNat = (r + v.toNat) % pageSize := by
  rw [alignOffset_toNat, UInt64.toNat_add, at_toNat p hr, UInt16.toNat_toUInt64]
  simp only [pageSize] at *; omega

omit hp in
theorem field_zero (v : UInt16) : v.toUInt64 = 0 ↔ v.toNat = 0 := by
  rw [← UInt64.toNat_inj, UInt16.toNat_toUInt64]; rfl

theorem nextOffs_toNat (hr : r < pageSize) (h5 : 5 ≤ r) : (nextOffs (p.mem c) (p.at r)).toNat = nextRecord c r := by
  unfold nextOffs nextRecord
  rw [← nextField_at (p := p) hr h5]
  simp only [field_zero]
  split
  · rfl
  · rw [UInt64.toNat_toUInt16, alignOffset_at hp hr]
    have hlt := Nat.mod_lt (r + (machReadFrom2 (p.mem c) (p.at r - recNext).toNat).toNat) (show 0 < pageSize by decide)
    exact Nat.mod_eq_of_lt (Nat.lt_trans hlt (by decide))

theorem alignDown_at (hr : r < pageSize) : alignDown (p.at r) 16384 = p.base := by
  have hoff : alignOffset (p.at r) 16384 = UInt64.ofNat r := by
    have h := alignOffset_at hp hr 0
    rw [show (0 : UInt16).toUInt64 = 0 from rfl, UInt64.add_zero] at h
    rw [← UInt64.toNat_inj, h, UInt64.toNat_ofNat_of_lt' (Nat.lt_trans hr (by decide))]
    exact Nat.mod_eq_of_lt hr
  rw [alignDown_eq_sub, hoff, Placement.at, UInt64.add_sub_cancel]

theorem nextPtr_at (hr : r < pageSize) (h5 : 5 ≤ r) : nextPtr (p.mem c) (p.at r) =
    if nextField c r = 0 then none else some (p.at (nextRecord c r)) := by
  unfold nextPtr nextRecord
  rw [← nextField_at (p := p) hr h5, alignDown_at hp hr]
  simp only [field_zero]
  split
  · rfl
  · rw [← alignOffset_at hp hr, at_word]

omit hp in
theorem nextRecord_lt (c : PageBuf) (r : Nat) : nextRecord c r < pageSize := by
  unfold nextRecord
  split
  · decide
  · exact Nat.mod_lt _ (by decide)

end

/-! ## Following the chain -/

/-- The offset the dump stands at; a null pointer stands with the start of the
page, whose header is not in the page either. -/
def Records.DumpState.pos (p : Placement) (t : DumpState) : Nat := t.cur.elim 0 fun x => (x - p.base).toNat

section
variable {p : Placement} (c : PageBuf)

theorem atSupremum_pos (t : DumpState) : (!atSupremum p t) = beforeSupremum (t.pos p) := by
  obtain ⟨cur, dumped⟩ := t
  cases cur with
  | none => rfl
  | some x =>
    have hiff : x = p.base + pageNewSupremum ↔ (x - p.base).toNat = 112 := by
      rw [show p.base + pageNewSupremum = p.at 112 from rfl]
      refine ⟨fun e => by rw [e, at_sub p (by decide)], fun e => ?_⟩
      rw [← e, at_of_sub]
    simp only [atSupremum, DumpState.pos, Option.elim_some, beforeSupremum, bne, beq_eq_decide, Option.some.injEq, hiff]

variable (hp : p.base.toNat % pageSize = 0) {r : Nat} (hr : r < pageSize) (l : List UInt64)
include hp hr

theorem nextOffs_pos (h5 : 5 ≤ r) :
    DumpState.pos p ⟨some (p.base + (nextOffs (p.mem c) (p.at r)).toUInt64), l⟩ = nextRecord c r := by
  have hnext := nextOffs_toNat (c := c) hp hr h5
  have hlt := nextRecord_lt c r
  rw [← hnext, ← UInt16.toNat_toUInt64] at hlt
  rw [DumpState.pos, Option.elim_some, ← at_word, at_sub p hlt, UInt16.toNat_toUInt64, hnext]

theorem nextPtr_pos (h5 : 5 ≤ r) : DumpState.pos p ⟨nextPtr (p.mem c) (p.at r), l⟩ = nextRecord c r := by
  rw [DumpState.pos, nextPtr_at hp hr h5]
  by_cases hf : nextField c r = 0
  · rw [if_pos hf, nextRecord, if_pos hf]; rfl
  · rw [if_neg hf, Option.elim_some, at_sub p (nextRecord_lt c r)]

theorem dumpRound_good (hg : RecordGood c r) : ∃ t, dumpRound c p ⟨some (p.at r), l⟩ = .ok t ∧
    t.pos p = nextRecord c r ∧ t.dumped = l ++ [p.at r] := by
  obtain ⟨h5, hst⟩ := hg
  have hin : headerInPage p (p.at r) = true := by rw [headerInPage_at hr]; exact decide_eq_true h5
  rw [← recStatus_at (p := p) hr h5] at hst
  simp only [dumpRound, deref, ok_bind, hin, Bool.not_true, Bool.false_eq_true, if_false]
  by_cases hoffs : recStatus (p.mem c) (p.at r) = recStatusOrdinary ∨ recStatus (p.mem c) (p.at r) = recStatusInfimum
  · exact ⟨_, if_pos hoffs, nextOffs_pos c hp hr _ h5, rfl⟩
  · have hptr : recStatus (p.mem c) (p.at r) = recStatusNodePtr := by
      have hconst : recStatusOrdinary.toNat = 0 ∧ recStatusInfimum.toNat = 2 ∧ recStatusNodePtr.toNat = 1 := by decide
      simp only [← UInt8.toNat_inj] at hoffs ⊢
      omega
    rw [if_neg hoffs, if_pos hptr]
    exact ⟨_, rfl, nextPtr_pos c hp hr _ h5, rfl⟩

omit hp in
theorem dumpRound_bad (hb : ¬ RecordGood c r) : ∃ e, dumpRound c p ⟨some (p.at r), l⟩ = .error e := by
  by_cases h5 : 5 ≤ r
  · have hin : headerInPage p (p.at r) = true := by rw [headerInPage_at hr]; exact decide_eq_true h5
    have hst : ¬ (recStatus (p.mem c) (p.at r)).toNat ≤ 2 := fun h => hb ⟨h5, by rwa [← recStatus_at hr h5]⟩
    have hoffs : ¬ (recStatus (p.mem c) (p.at r) = recStatusOrdinary ∨
        recStatus (p.mem c) (p.at r) = recStatusInfimum) := by
      rintro (h | h) <;> exact hst (by rw [h]; decide)
    have hptr : ¬ recStatus (p.mem c) (p.at r) = recStatusNodePtr := fun h => hst (by rw [h]; decide)
    exact ⟨.failedAssert, by
      simp only [dumpRound, deref, ok_bind, hin, Bool.not_true, Bool.false_eq_true, if_false, hoffs, hptr]⟩
  · have hin : headerInPage p (p.at r) = false := by rw [headerInPage_at hr]; exact decide_eq_false h5
    exact ⟨.outOfPage, by simp only [dumpRound, deref, ok_bind, hin, Bool.not_false, if_true]⟩

omit hr in
theorem dump_follows : Follows (!atSupremum p ·) (dumpRound c p) beforeSupremum (nextRecord c) (RecordGood c) p.at
    (fun t => t.pos p < pageSize) (DumpState.pos p) DumpState.dumped where
  cond_eq t _ := atSupremum_pos t
  move := by
    rintro ⟨cur, l⟩ ht _ hg
    cases cur with
    | none => exact absurd (show 5 ≤ 0 from hg.1) (by decide)
    | some x =>
      obtain ⟨t, hb, hpos, hl⟩ := dumpRound_good c hp ht l hg
      rw [DumpState.pos, Option.elim_some, at_of_sub] at hb
      exact ⟨t, hb, by rw [hpos]; exact nextRecord_lt c _, hpos, hl⟩
  stuck := by
    rintro ⟨cur, l⟩ ht _ hb
    cases cur with
    | none => exact ⟨.outOfPage, rfl⟩
    | some x =>
      obtain ⟨e, he⟩ := dumpRound_bad c ht l hb
      rw [DumpState.pos, Option.elim_some, at_of_sub] at he
      exact ⟨e, he⟩

/-! ## What is dumped -/

omit hr hp in
theorem start_pos (l : List UInt64) : DumpState.pos p ⟨some (p.base + pageNewInfimum), l⟩ = 99 :=
  at_sub p (r := 99) (by decide)

omit hr

theorem dump_run (n : Nat) (hg : ∀ r ∈ walk beforeSupremum (nextRecord c) n 99, RecordGood c r) :
    ∃ t, Records.dump c p n = .ok t ∧
      (atSupremum p t = true ↔ beforeSupremum (after beforeSupremum (nextRecord c) n 99) = false) ∧
      t.dumped = (walk beforeSupremum (nextRecord c) n 99 ++ if atSupremum p t then [112] else []).map p.at := by
  have hstart := start_pos (p := p) []
  obtain ⟨t, ht, _, hpos, hl⟩ := (dump_follows c hp).run n ⟨some (p.base + pageNewInfimum), []⟩
    (by rw [hstart]; decide) (by rwa [hstart])
  rw [hstart] at hpos hl
  have hend : atSupremum p t = true ↔ beforeSupremum (after beforeSupremum (nextRecord c) n 99) = false := by
    rw [← hpos, ← atSupremum_pos, Bool.not_eq_false']
  unfold Records.dump
  rw [ht, ok_bind]
  by_cases hs : atSupremum p t = true
  · rw [if_pos hs]
    refine ⟨_, rfl, hend, ?_⟩
    have hs' : atSupremum p { t with dumped := t.dumped ++ [p.base + pageNewSupremum] } = true := hs
    rw [if_pos hs', List.map_append]
    exact congrArg (· ++ [p.base + pageNewSupremum]) hl
  · rw [if_neg hs]
    refine ⟨t, rfl, hend, ?_⟩
    rw [if_neg hs, List.append_nil]; exact hl

omit hp in
theorem walk_once {n : Nat} (hend : beforeSupremum (after beforeSupremum (nextRecord c) n 99) = false) :
    ((walk beforeSupremum (nextRecord c) n 99 ++ [112]).map p.at).Nodup ∧
      (walk beforeSupremum (nextRecord c) n 99 ++ [112]).length ≤ pageSize := by
  have hspells := spells_walk hend
  have hlt : ∀ r ∈ walk beforeSupremum (nextRecord c) n 99 ++ [112], r < pageSize := by
    intro r hr
    rcases List.mem_append.mp hr with hr | hr
    · exact Along.induct (P := (· < pageSize)) (by decide) (fun r _ => nextRecord_lt c r) n r hr
    · rw [List.mem_singleton.mp hr]; decide
  have hnd : (walk beforeSupremum (nextRecord c) n 99 ++ [112]).Nodup := by
    refine List.nodup_append.mpr ⟨hspells.nodup, List.nodup_singleton _, fun r hr r' hr' e => ?_⟩
    have hlive := hspells.mem_live r hr
    rw [e, List.mem_singleton.mp hr'] at hlive
    exact absurd hlive (by decide)
  refine ⟨hnd.map_on fun r hr r' hr' e => ?_, ?_⟩
  · have hsub := congrArg (fun x => (x - p.base).toNat) e
    simpa only [at_sub p (hlt r hr), at_sub p (hlt r' hr')] using hsub
  · have hsub := (List.subperm_of_subset hnd fun r hr => List.mem_range.mpr (hlt r hr)).length_le
    rwa [List.length_range] at hsub

/-! ## Stored chains -/

end

/-- The page stores a chain of records at these offsets, from the infimum to
the supremum. -/
structure StoresRecords (c : PageBuf) (k : Nat) (r : Nat → Nat) : Prop where
  infimum : r 0 = 99
  supremum : r (k + 1) = 112
  inPage : ∀ j ≤ k + 1, 5 ≤ r j ∧ r j ≤ 16383
  before : ∀ j ≤ k, r j ≠ 112
  differ : ∀ j ≤ k, r (j + 1) ≠ r j
  infimumStatus : statusAt c (r 0) = 2
  status : ∀ j, 1 ≤ j → j ≤ k → statusAt c (r j) = 0 ∨ statusAt c (r j) = 1
  next : ∀ j ≤ k, (nextField c (r j) : Int) = ((r (j + 1) : Int) - r j) % 65536

section
variable {c : PageBuf} {k : Nat} {r : Nat → Nat} (h : StoresRecords c k r)
include h

theorem StoresRecords.good {j : Nat} (hj : j ≤ k) : RecordGood c (r j) := by
  refine ⟨(h.inPage j (by omega)).1, ?_⟩
  by_cases h0 : j = 0
  · rw [h0, h.infimumStatus]
  · rcases h.status j (by omega) hj with hs | hs
    · rw [hs]; decide
    · rw [hs]; decide

/-- The field is the distance modulo 2^16, which the page size divides. -/
theorem StoresRecords.nextRecord {j : Nat} (hj : j ≤ k) : nextRecord c (r j) = r (j + 1) := by
  have hf := h.next j hj
  have hne := h.differ j hj
  have hr := h.inPage j (by omega)
  have hr' := h.inPage (j + 1) (by omega)
  have hnz : nextField c (r j) ≠ 0 := by omega
  unfold Innodb.nextRecord
  rw [if_neg hnz]
  simp only [pageSize]; omega

theorem StoresRecords.spells :
    Spells beforeSupremum (Innodb.nextRecord c) 99 ((List.range (k + 1)).map r) := by
  rw [← h.infimum]
  refine spells_range (fun j hj => bne_iff_ne.mpr (h.before j (by omega))) (fun j hj => h.nextRecord (by omega)) ?_
  rw [h.supremum]; rfl

/-- **A stored chain** is dumped record by record, each once, and the
assertion holds. -/
theorem dump_stored {p : Placement} (hp : p.base.toNat % pageSize = 0) : (∀ n e, Records.dump c p n ≠ .error e) ∧
    ∃ n t, Records.dump c p n = .ok t ∧ atSupremum p t = true ∧
      t.dumped = (List.range (k + 2)).map (fun j => p.base + UInt64.ofNat (r j)) ∧ t.dumped.Nodup := by
  have hgood : ∀ x ∈ (List.range (k + 1)).map r, RecordGood c x := by
    intro x hx
    obtain ⟨j, hj, rfl⟩ := List.mem_map.mp hx
    exact h.good (Nat.le_of_lt_succ (List.mem_range.mp hj))
  have hwalk := h.spells.walk_eq
  have hend := h.spells.after_dead
  rw [List.length_map, List.length_range] at hwalk hend
  refine ⟨fun n e he => ?_, ?_⟩
  · obtain ⟨t, ht, _⟩ := dump_run c hp n (h.spells.along hgood n)
    rw [ht] at he; cases he
  · obtain ⟨t, ht, hsup, hl⟩ := dump_run c hp (k + 1) (by rwa [hwalk])
    have hs : atSupremum p t = true := hsup.mpr hend
    have hnd := (walk_once (p := p) c hend).1
    rw [if_pos hs] at hl
    rw [← hl] at hnd
    refine ⟨k + 1, t, ht, hs, ?_, hnd⟩
    rw [hl, hwalk, List.range_succ (n := k + 1), List.map_append, List.map_append, List.map_map, List.map_singleton,
      List.map_singleton, h.supremum]
    rfl

end

def alignedPlacement : Placement := ⟨0x10000, by decide, by decide, by decide⟩

def backwardPage : PageBuf := fun k => sparse
  [(24, 0x45), (25, 0xBF), (96, 2), (98, 101), (198, 255), (199, 206), (147, 1), (148, 255), (149, 218)] k

theorem backwardPage_stored : StoresRecords backwardPage 2 fun j => [99, 200, 150, 112].getD j 0 := by
  constructor <;> decide

theorem dump_stored_back : (∀ n e, Records.dump backwardPage alignedPlacement n ≠ .error e) ∧
    ∃ n t, Records.dump backwardPage alignedPlacement n = .ok t ∧ atSupremum alignedPlacement t = true ∧
      t.dumped = [0x10063, 0x100C8, 0x10096, 0x10070] ∧ t.dumped.Nodup :=
  dump_stored backwardPage_stored (by decide)

/-! ## Staying in the page -/

section
variable (c : PageBuf) {p : Placement} (hp : p.base.toNat % pageSize = 0)
include hp

/-- **Staying in the page.** No dump reads through a null pointer or a header
that is not in the page, nor fails the assertion, exactly if every offset that
the next fields lead to before the supremum is that of a header in the page
with an accepted status. -/
theorem dump_safe_iff : (∀ n e, Records.dump c p n ≠ .error e) ↔
    Along beforeSupremum (nextRecord c) (RecordGood c) 99 := by
  refine ⟨fun h => ?_, fun h n e he => ?_⟩
  · have hsafe : Safe (!atSupremum p ·) (dumpRound c p) ⟨some (p.base + pageNewInfimum), []⟩ := fun n e he =>
      h n e (by rw [Records.dump, he, error_bind])
    have halong := (dump_follows c hp).safe_iff (by rw [start_pos]; decide) |>.mp hsafe
    rwa [start_pos] at halong
  · obtain ⟨t, ht, _⟩ := dump_run c hp n (h n)
    rw [ht] at he; cases he

end

theorem backwardPage_good : Along beforeSupremum (nextRecord backwardPage) (RecordGood backwardPage) 99 :=
  backwardPage_stored.spells.along fun x hx => by
    obtain ⟨j, hj, rfl⟩ := List.mem_map.mp hx
    exact backwardPage_stored.good (Nat.le_of_lt_succ (List.mem_range.mp hj))

theorem dump_safe_back : Along beforeSupremum (nextRecord backwardPage) (RecordGood backwardPage) 99 ∧
    ∀ n e, Records.dump backwardPage alignedPlacement n ≠ .error e :=
  ⟨backwardPage_good, (dump_safe_iff backwardPage (by decide)).mpr backwardPage_good⟩

/-- The infimum of an index page with this status and next field. -/
def infimumPage (status hi lo : UInt8) : PageBuf := fun k =>
  sparse [(24, 0x45), (25, 0xBF), (96, status), (97, hi), (98, lo)] k

/-- With a zero next field the dump goes on at the start of the page; with the
status of a supremum it fails the assertion. -/
theorem dump_unsafe :
    Records.dump (infimumPage 2 0 0) alignedPlacement 2 = .error .outOfPage ∧
    Records.dump (infimumPage 1 0 0) alignedPlacement 2 = .error .outOfPage ∧
    Records.dump (infimumPage 3 0 13) alignedPlacement 1 = .error .failedAssert :=
  ⟨rfl, rfl, rfl⟩

/-! ## Coming to an end -/

section
variable (c : PageBuf) {p : Placement} (hp : p.base.toNat % pageSize = 0)
  (hg : Along beforeSupremum (nextRecord c) (RecordGood c) 99)
include hp hg

theorem dump_ends :
    (∃ n t, Records.dump c p n = .ok t ∧ atSupremum p t = true) ↔ Ends beforeSupremum (nextRecord c) 99 := by
  rw [ends_iff]
  refine exists_congr fun n => ?_
  obtain ⟨t, ht, h, _⟩ := dump_run c hp n (hg n)
  refine ⟨fun hx => ?_, fun hend => ⟨t, ht, h.mpr hend⟩⟩
  obtain ⟨t', ht', hs⟩ := hx
  rw [ht] at ht'; cases ht'
  exact h.mp hs

theorem dump_once {n : Nat} {t : DumpState} (ht : Records.dump c p n = .ok t) (hs : atSupremum p t = true) :
    t.dumped.Nodup ∧ t.dumped.length ≤ pageSize := by
  obtain ⟨t', ht', hsup, hl⟩ := dump_run c hp n (hg n)
  rw [ht] at ht'; cases ht'
  obtain ⟨hnd, hlen⟩ := walk_once (p := p) c (hsup.mp hs)
  rw [if_pos hs] at hl
  rw [hl, List.length_map]
  exact ⟨hnd, hlen⟩

theorem dump_cycle {i j : Nat} (hij : i < j) (heq : (nextRecord c)^[i] 99 = (nextRecord c)^[j] 99)
    (hne : ∀ k < j, (nextRecord c)^[k] 99 ≠ 112) {n : Nat} {t : DumpState} (ht : Records.dump c p n = .ok t) :
    atSupremum p t = false := by
  have hlive : ∀ k < j, beforeSupremum ((nextRecord c)^[k] 99) = true := fun k hk => bne_iff_ne.mpr (hne k hk)
  refine Bool.eq_false_iff.mpr fun hs => ?_
  exact not_ends_of_revisit hij heq hlive ((dump_ends c hp hg).mp ⟨n, t, ht, hs⟩)

/-- **Ending.** Where no dump fails, one ends exactly if the next fields lead
to the supremum, and then it visits an offset of the page at most once. -/
theorem dump_ends_iff :
    ((∃ n t, Records.dump c p n = .ok t ∧ atSupremum p t = true) ↔ Ends beforeSupremum (nextRecord c) 99) ∧
    (∀ n t, Records.dump c p n = .ok t → atSupremum p t = true → t.dumped.Nodup ∧ t.dumped.length ≤ pageSize) ∧
    (∀ i j, i < j → (nextRecord c)^[i] 99 = (nextRecord c)^[j] 99 → (∀ k < j, (nextRecord c)^[k] 99 ≠ 112) →
      ∀ n t, Records.dump c p n = .ok t → atSupremum p t = false) :=
  ⟨dump_ends c hp hg, fun _ _ ht hs => dump_once c hp hg ht hs,
    fun _ _ hij heq hne _ _ ht => dump_cycle c hp hg hij heq hne ht⟩

end

theorem dump_ends_back : ∃ n t, Records.dump backwardPage alignedPlacement n = .ok t ∧
    atSupremum alignedPlacement t = true := by
  refine (dump_ends_iff backwardPage (by decide) backwardPage_good).1.mpr ((ends_iff _).mpr ⟨3, ?_⟩)
  decide

def selfLinkPage : PageBuf := fun k => sparse [(24, 0x45), (25, 0xBF), (96, 2), (98, 29), (126, 0x40)] k

theorem dump_cycles : Along beforeSupremum (nextRecord selfLinkPage) (RecordGood selfLinkPage) 99 ∧
    ¬ ∃ n t, Records.dump selfLinkPage alignedPlacement n = .ok t ∧ atSupremum alignedPlacement t = true := by
  have hgood : Along beforeSupremum (nextRecord selfLinkPage) (RecordGood selfLinkPage) 99 := by
    refine Along.mono (Along.induct (P := fun r => r = 99 ∨ r = 128) (.inl rfl) ?_) ?_
    · rintro r (rfl | rfl)
      · exact .inr (by decide)
      · exact .inr (by decide)
    · rintro r (rfl | rfl)
      · exact ⟨by decide, by decide⟩
      · exact ⟨by decide, by decide⟩
  refine ⟨hgood, fun hx => ?_⟩
  obtain ⟨n, t, ht, hs⟩ := hx
  have hfalse := dump_cycle (p := alignedPlacement) selfLinkPage (by decide) hgood (i := 1) (j := 2) (by decide)
    (by decide) (by decide) ht
  rw [hs] at hfalse; cases hfalse

end Innodb
