import Innodb.Records

/-!
# The header of a record

Five bytes in front of a record hold four bit fields and a pointer. Two of the
fields are read from overlapping bytes, one of them as part of a two-byte word.
Reading and packing undo each other all the same.
-/

namespace Innodb
open BigEndian

namespace RecordHeader
variable {b : Bytes} {rec : UInt64}

/-! ## What the accessors read -/

theorem recGetBitField1_toNat (offs mask shift : UInt64) : (recGetBitField1 b rec offs mask shift).toNat =
    ((b (rec - offs).toNat).toNat &&& mask.toNat) >>> (shift.toNat % 64) := by
  rw [recGetBitField1, machReadFrom1, UInt64.toNat_shiftRight, UInt64.toNat_and, UInt8.toNat_toUInt64]

theorem infoBits_toNat : (infoBits b rec).toNat = (b (rec - 5).toNat).toNat / 16 * 16 := by
  have hb := (b (rec - 5).toNat).toNat_lt
  have hmask : (b (rec - 5).toNat).toNat &&& recInfoBitsMask.toNat = (b (rec - 5).toNat).toNat / 2 ^ 4 % 2 ^ 4 * 2 ^ 4 :=
    and_mask _ rfl rfl
  have hshift : recInfoBitsShift.toNat % 64 = 0 := rfl
  rw [infoBits, UInt64.toNat_toUInt8, recGetBitField1_toNat, hmask, hshift, Nat.shiftRight_zero]
  omega

/-- The low bits are masked out and not shifted. -/
theorem recGetBitField1_low {offs mask : UInt64} {m : Nat} (hm : mask.toNat = 2 ^ m - 1) :
    (recGetBitField1 b rec offs mask 0).toUInt8.toNat = (b (rec - offs).toNat).toNat % 2 ^ m := by
  have hb := (b (rec - offs).toNat).toNat_lt
  have hle := Nat.mod_le (b (rec - offs).toNat).toNat (2 ^ m)
  rw [UInt64.toNat_toUInt8, recGetBitField1_toNat, hm, Nat.and_two_pow_sub_one_eq_mod,
    show (0 : UInt64).toNat % 64 = 0 from rfl, Nat.shiftRight_zero]
  exact Nat.mod_eq_of_lt (Nat.lt_of_le_of_lt hle hb)

theorem numOfRecsOwned_toNat : (numOfRecsOwned b rec).toNat = (b (rec - 5).toNat).toNat % 16 :=
  recGetBitField1_low (m := 4) rfl

theorem recStatus_toNat : (recStatus b rec).toNat = (b (rec - 3).toNat).toNat % 8 :=
  recGetBitField1_low (m := 3) rfl

theorem heapNoNew_toNat : (heapNoNew b rec).toNat = (machReadFrom2 b (rec - 4).toNat).toNat / 8 := by
  have hw := (machReadFrom2 b (rec - 4).toNat).toNat_lt
  have hmask : (machReadFrom2 b (rec - 4).toNat).toNat &&& recHeapNoMask.toNat =
      (machReadFrom2 b (rec - 4).toNat).toNat / 2 ^ 3 % 2 ^ 13 * 2 ^ 3 := and_mask _ rfl rfl
  have hshift : recHeapNoShift.toNat % 64 = 3 := rfl
  rw [heapNoNew, recGetBitField2, UInt64.toNat_toUInt16, UInt64.toNat_shiftRight, UInt64.toNat_and,
    UInt16.toNat_toUInt64, hmask, hshift, Nat.shiftRight_eq_div_pow, Nat.mul_div_cancel _ (by decide)]
  omega

/-! ## The five bytes -/

@[ext] structure Packed where
  infoBits : UInt8
  nOwned : UInt8
  heapNo : UInt16
  status : UInt8
  next : UInt16
  infoBits_high : infoBits.toNat % 16 = 0
  nOwned_lt : nOwned.toNat < 16
  heapNo_lt : heapNo.toNat < 8192
  status_lt : status.toNat < 8

def Packed.pack (h : Packed) : List UInt8 :=
  (h.infoBits ||| h.nOwned) :: (be2 (h.heapNo * 8 + h.status.toUInt16) ++ be2 h.next)

theorem Packed.pack_length (h : Packed) : h.pack.length = 5 := by
  simp [pack]

def decode (b : Bytes) (rec : UInt64) : Packed where
  infoBits := infoBits b rec
  nOwned := numOfRecsOwned b rec
  heapNo := heapNoNew b rec
  status := recStatus b rec
  next := machReadFrom2 b (rec - recNext).toNat
  infoBits_high := by rw [infoBits_toNat, Nat.mul_mod_left]
  nOwned_lt := by rw [numOfRecsOwned_toNat]; exact Nat.mod_lt _ (by decide)
  heapNo_lt := by rw [heapNoNew_toNat]; exact Nat.div_lt_of_lt_mul (UInt16.toNat_lt _)
  status_lt := by rw [recStatus_toNat]; exact Nat.mod_lt _ (by decide)

theorem first_byte (x : UInt8) (h : Packed) :
    x = h.infoBits ||| h.nOwned ↔ x.toNat / 16 * 16 = h.infoBits.toNat ∧ x.toNat % 16 = h.nOwned.toNat := by
  have hhigh := h.infoBits_high
  have hlow := h.nOwned_lt
  have hor : (h.infoBits ||| h.nOwned).toNat = h.infoBits.toNat + h.nOwned.toNat := by
    have hshift : h.infoBits.toNat = (h.infoBits.toNat / 16) <<< 4 := by rw [Nat.shiftLeft_eq]; omega
    rw [UInt8.toNat_or, hshift, ← Nat.shiftLeft_add_eq_or_of_lt hlow]
  rw [← UInt8.toNat_inj, hor]; omega

theorem word_toNat (h : Packed) :
    (h.heapNo * 8 + h.status.toUInt16).toNat = h.heapNo.toNat * 8 + h.status.toNat := by
  have hheap := h.heapNo_lt
  have hstatus := h.status_lt
  rw [UInt16.toNat_add, UInt16.toNat_mul, UInt8.toNat_toUInt16, show (8 : UInt16).toNat = 8 from rfl]
  omega

/-- The status is read from the second byte of the heap number's word. -/
theorem word (b : Bytes) (p : Nat) (h : Packed) : machReadFrom2 b p = h.heapNo * 8 + h.status.toUInt16 ↔
    (machReadFrom2 b p).toNat / 8 = h.heapNo.toNat ∧ (b (p + 1)).toNat % 8 = h.status.toNat := by
  have hstatus := h.status_lt
  have hread : (machReadFrom2 b p).toNat = (b p).toNat * 256 + (b (p + 1)).toNat := by
    rw [machReadFrom2_toNat]; simp [beNat]
  rw [← UInt16.toNat_inj, word_toNat, hread]; omega

theorem stores_pack (hrec : 5 ≤ rec.toNat) {h : Packed} : Stores b (rec.toNat - 5) h.pack ↔ decode b rec = h := by
  have hback : ∀ k : UInt64, k.toNat ≤ 5 → (rec - k).toNat = rec.toNat - k.toNat := fun k hk =>
    UInt64.toNat_sub_of_le _ _ (UInt64.le_iff_toNat_le.mpr (by omega))
  have h5 : (rec - 5).toNat = rec.toNat - 5 := hback 5 (by decide)
  have h4 : (rec - 4).toNat = rec.toNat - 5 + 1 := by rw [hback 4 (by decide)]; simp only [UInt64.reduceToNat]; omega
  have h3 : (rec - 3).toNat = rec.toNat - 5 + 1 + 1 := by
    rw [hback 3 (by decide)]; simp only [UInt64.reduceToNat]; omega
  have h2 : (rec - recNext).toNat = rec.toNat - 5 + 1 + 2 := by
    rw [hback 2 (by decide)]; simp only [UInt64.reduceToNat]; omega
  have hfields : decode b rec = h ↔
      (infoBits b rec).toNat = h.infoBits.toNat ∧ (numOfRecsOwned b rec).toNat = h.nOwned.toNat ∧
      (heapNoNew b rec).toNat = h.heapNo.toNat ∧ (recStatus b rec).toNat = h.status.toNat ∧
      machReadFrom2 b (rec - recNext).toNat = h.next := by
    simp only [Packed.ext_iff, decode, UInt8.toNat_inj, UInt16.toNat_inj]
  rw [hfields, infoBits_toNat, numOfRecsOwned_toNat, heapNoNew_toNat, recStatus_toNat, h5, h4, h3, h2]
  rw [Packed.pack, Stores, stores_append, stores_be2, be2_length, stores_be2, first_byte, word, and_assoc, and_assoc]

/-- **The record header.** Packed fields come out of the five bytes in front of
a record as they went in, and any five bytes are those that the fields read
from them pack to. -/
theorem recordHeader_codec (b : Bytes) (rec : UInt64) (hrec : 5 ≤ rec.toNat) :
    (∀ h : Packed, h.pack.length = 5 ∧ (Stores b (rec.toNat - 5) h.pack → decode b rec = h)) ∧
      Stores b (rec.toNat - 5) (decode b rec).pack :=
  ⟨fun h => ⟨h.pack_length, (stores_pack hrec).mp⟩, (stores_pack hrec).mpr rfl⟩

def samplePacked : Packed :=
  ⟨0x20, 4, 8191, 1, 0xFFCE, by decide, by decide, by decide, by decide⟩

theorem recordHeader_codec_sample :
    decode (sparse [(195, 0x24), (196, 0xFF), (197, 0xF9), (198, 0xFF), (199, 0xCE)]) 200 = samplePacked ∧
      Stores (sparse [(195, 1)]) 195 (decode (sparse [(195, 1)]) 200).pack :=
  ⟨((recordHeader_codec _ 200 (by decide)).1 samplePacked).2 (by decide),
    (recordHeader_codec _ 200 (by decide)).2⟩

end RecordHeader

end Innodb
