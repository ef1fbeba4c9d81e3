import Innodb.PageSound
import Innodb.RecordsWalkSound

/-!
# The page directory

The slots go down from the trailer. How many there are is taken from the page
as it stands; they stay above the supremum as long as there are no more than
fit between the two.
-/

namespace Innodb
open BigEndian Loop

namespace IndexPageDirectory

def slotOffset (i : Nat) : Nat := 16384 - 8 - 2 * (i + 1)

section
variable {c : PageBuf} {p : Placement} {i : Nat} (hi : i < 8188)
include hi

theorem slotOffset_lt : slotOffset i + 2 < pageSize := by
  simp only [slotOffset, pageSize]; omega

/-- Further slots are in front of the page. -/
theorem getNthSlot_at : getNthSlot p.base (UInt64.ofNat i) = p.at (slotOffset i) := by
  have hfits := p.fits
  have hlt := slotOffset_lt hi
  have hin : (UInt64.ofNat i).toNat = i := UInt64.toNat_ofNat_of_lt' (Nat.lt_trans hi (by decide))
  have hdir : pageDir.toNat = 8 := rfl
  have hsize : pageDirSlotSize.toNat = 2 := rfl
  rw [← UInt64.toNat_inj, at_toNat p (Nat.lt_of_add_right_lt hlt), getNthSlot]
  simp only [UInt64.toNat_sub, UInt64.toNat_add, UInt64.toNat_mul, hin, hdir, hsize, UInt64.reduceToNat, slotOffset,
    pageSize] at *
  omega

theorem slotInPage_at : slotInPage p (p.at (slotOffset i)) = true := by
  have hlt := slotOffset_lt hi
  rw [slotInPage, at_sub p (Nat.lt_of_add_right_lt hlt)]
  exact decide_eq_true (Nat.le_of_lt hlt)

theorem dumpSlot_at (hp : p.base.toNat % pageSize = 0) :
    dumpSlot c p i = .ok (machReadFrom2 (bytes c) (slotOffset i)).toUInt64.toInt64 := by
  have hlt := slotOffset_lt hi
  have hr : slotOffset i < pageSize := Nat.lt_of_add_right_lt hlt
  have hread : machReadFrom2 (p.mem c) (p.at (slotOffset i)).toNat = machReadFrom2 (bytes c) (slotOffset i) := by
    refine machReadFrom2_congr fun k hk => ?_
    rw [at_toNat p hr, Nat.add_assoc]
    exact p.mem_add c (by simp only [pageSize] at hlt; omega)
  rw [dumpSlot, getNthSlot_at hi]
  simp only [slotInPage_at hi, if_true]
  rw [getSlotRec, pageAlign, alignDown_at hp hr, hread, UInt64.add_comm, UInt64.add_sub_cancel]

end

/-! ## The dump -/

section
variable (c : PageBuf) (p : Placement)

def slots : Nat := (IndexHeader.Raw.nOfDirSlots (p.mem c) p.base.toNat).toNat

def slotAddr (i : Nat) : Nat := (getNthSlot p.base (UInt64.ofNat i)).toNat

structure DumpsDirectory : Prop where
  inPage : ∀ i < slots c p, p.base.toNat + pageNewSupremumEnd.toNat ≤ slotAddr p i ∧
    slotAddr p i + 2 ≤ p.base.toNat + (pageSize - FilHeader.filPageDataEnd)
  disjoint : ∀ i < slots c p, ∀ j < slots c p, i ≠ j → slotAddr p i + 2 ≤ slotAddr p j ∨ slotAddr p j + 2 ≤ slotAddr p i
  prints : ∃ l, dump c p = .ok l ∧ l.length = slots c p ∧
    ∀ i (hi : i < l.length), (l.get ⟨i, hi⟩).toInt = beNat (bytes c) (16384 - 8 - 2 * (i + 1)) 2

theorem slots_eq : slots c p = beNat (bytes c) 38 2 := by
  have hrun : SameRun (p.mem c) (bytes c) (p.base.toNat + 38) 38 2 := by
    intro k hk
    rw [Nat.add_assoc]
    exact p.mem_add c (by omega)
  rw [slots, IndexHeader.Raw.nOfDirSlots, machReadFrom2_toNat]
  exact beNat_congr hrun

theorem slotAddr_eq {i : Nat} (hi : i < 8188) : slotAddr p i = p.base.toNat + slotOffset i := by
  rw [slotAddr, getNthSlot_at hi, at_toNat p (Nat.lt_of_add_right_lt (slotOffset_lt hi))]

theorem dump_ok (hp : p.base.toNat % pageSize = 0) (hn : slots c p ≤ 8188) : dump c p =
    .ok ((List.range (slots c p)).map fun i => (machReadFrom2 (bytes c) (slotOffset i)).toUInt64.toInt64) := by
  have hslots : (IndexHeader.Raw.nOfDirSlots (p.mem c) p.base.toNat).toUInt64.toNat = slots c p := UInt16.toNat_toUInt64 _
  rw [dump, dumpSlots, hslots]
  exact mapM_ok fun i hi => dumpSlot_at (by have := List.mem_range.mp hi; omega) hp

theorem printed_toInt (v : UInt16) : v.toUInt64.toInt64.toInt = v.toNat := by
  have hv := v.toNat_lt
  have hbits : v.toUInt64.toInt64.toBitVec.toNat = v.toNat := UInt16.toNat_toUInt64 v
  rw [Int64.toInt, BitVec.toInt_eq_toNat_of_lt (by rw [hbits]; omega), hbits]

variable {p}

/-- **The page directory.** In an aligned page the dump keeps to the directory
exactly if the page does not declare more slots than there is room for. -/
theorem dumpsDirectory_iff (hp : p.base.toNat % pageSize = 0) : DumpsDirectory c p ↔ beNat (bytes c) 38 2 ≤ 8128 := by
  rw [← slots_eq c p]
  refine ⟨fun h => ?_, fun hn => ⟨fun i hi => ?_, fun i hi j hj hij => ?_, ?_⟩⟩
  · refine Nat.le_of_not_lt fun hn => ?_
    have hlow := (h.inPage 8128 hn).1
    rw [slotAddr_eq p (by decide)] at hlow
    exact absurd (Nat.le_of_add_le_add_left hlow) (by decide)
  · have hend : pageNewSupremumEnd.toNat = 120 := rfl
    rw [slotAddr_eq p (by omega), hend]
    simp only [slotOffset, pageSize, FilHeader.filPageDataEnd]; omega
  · rw [slotAddr_eq p (by omega), slotAddr_eq p (by omega)]
    simp only [slotOffset]; omega
  · refine ⟨_, dump_ok c p hp (by omega), by rw [List.length_map, List.length_range], fun i hi => ?_⟩
    rw [List.get_eq_getElem, List.getElem_map, List.getElem_range, printed_toInt, machReadFrom2_toNat, slotOffset]

end

def slotCountPage (hi lo : UInt8) : PageBuf := fun k => sparse [(24, 0x45), (25, 0xBF), (38, hi), (39, lo)] k

theorem dumpsDirectory_two : DumpsDirectory (slotCountPage 0 2) alignedPlacement :=
  (dumpsDirectory_iff _ (by decide)).mpr (by decide)

/-- Slot 8188 of 65535 is in front of the page. -/
theorem dump_leaves_page : pageTypeOf (slotCountPage 0xFF 0xFF) = filPageIndex ∧
    slots (slotCountPage 0xFF 0xFF) alignedPlacement = 65535 ∧
    slotAddr alignedPlacement 8188 + 2 = alignedPlacement.base.toNat ∧
    ¬ DumpsDirectory (slotCountPage 0xFF 0xFF) alignedPlacement := by
  refine ⟨by decide, by decide, by decide, fun h => ?_⟩
  exact absurd (h.inPage 8188 (by decide)).1 (by decide)

end IndexPageDirectory

end Innodb
