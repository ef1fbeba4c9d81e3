import Innodb.BigEndian

/-!
# Byte access (`defines.h`)

A byte pointer is a position in a run of bytes. The readers shift and or the
bytes together in the widths the source computes in.
-/

namespace Innodb
open BigEndian

abbrev Bytes := Nat → UInt8

/-- Bytes that are zero but for the ones listed. -/
def sparse (l : List (Nat × UInt8)) : Bytes := fun k => (l.lookup k).getD 0

abbrev pageSize : Nat := 16384

def machReadFrom4 (b : Bytes) (p : Nat) : UInt32 :=
  (b p).toUInt32 <<< 24 ||| (b (p + 1)).toUInt32 <<< 16 ||| (b (p + 2)).toUInt32 <<< 8 ||| (b (p + 3)).toUInt32

def machReadFrom1 (b : Bytes) (p : Nat) : UInt8 := b p

def machReadFrom2 (b : Bytes) (p : Nat) : UInt16 :=
  ((b p).toUInt64 <<< 8 ||| (b (p + 1)).toUInt64).toUInt16

def machReadFrom8 (b : Bytes) (p : Nat) : UInt64 :=
  let u64 := (machReadFrom4 b p).toUInt64
  let u64 := u64 <<< 32
  u64 ||| (machReadFrom4 b (p + 4)).toUInt64

/-! ## Reversing the bytes of a value -/

/-- The loop of `e<T>`: `d` goes up through `ret` and `s` down through `t`. The
last round leaves `s` in front of the value, where it is not read. -/
def eLoop (t : Bytes) : (left : Nat) → (ret : Bytes) → (d s : Nat) → Bytes
  | 0, ret, _, _ => ret
  | left + 1, ret, d, s => eLoop t left (fun k => if k = d then t s else ret k) (d + 1) (s - 1)

/-- `e<T>` on the bytes of a `T`; `size` is `sizeof(T)`. -/
def eBytes (size : Nat) (t : Bytes) : Bytes := eLoop t size (fun _ => 0) 0 (size - 1)

/-- `e<T>` on an unsigned integer, whose bytes are stored least significant
first. -/
def e (size v : Nat) : Nat := leNat (eBytes size (leBytes v)) 0 size

/-! ## Bit fields and alignment

Here pointers are addresses, of 64 bits. -/

def recGetBitField1 (b : Bytes) (rec offs mask shift : UInt64) : UInt64 :=
  ((machReadFrom1 b (rec - offs).toNat).toUInt64 &&& mask) >>> shift

def recGetBitField2 (b : Bytes) (rec offs mask shift : UInt64) : UInt16 :=
  (((machReadFrom2 b (rec - offs).toNat).toUInt64 &&& mask) >>> shift).toUInt16

def alignOffset (ptr alignNo : UInt64) : UInt64 := ptr &&& (alignNo - 1)

def alignDown (ptr alignNo : UInt64) : UInt64 := ptr &&& ~~~(alignNo - 1)

def pageAlign (ptr : UInt64) : UInt64 := alignDown ptr 16384

theorem alignOffset_toNat (ptr : UInt64) : (alignOffset ptr 16384).toNat = ptr.toNat % pageSize := by
  rw [alignOffset, UInt64.toNat_and]
  exact Nat.and_two_pow_sub_one_eq_mod ptr.toNat 14

theorem alignDown_add_alignOffset (ptr alignNo : UInt64) : alignDown ptr alignNo + alignOffset ptr alignNo = ptr := by
  unfold alignDown alignOffset
  apply UInt64.toBitVec_inj.mp
  rw [UInt64.toBitVec_add, UInt64.toBitVec_and, UInt64.toBitVec_and, UInt64.toBitVec_not,
    BitVec.add_eq_or_of_and_eq_zero]
  · ext i hi
    simp [← Bool.and_or_distrib_left]
  · ext i hi
    simp +contextual

/-! ## The readers against the big-endian number -/

theorem machReadFrom4_toNat (b : Bytes) (p : Nat) : (machReadFrom4 b p).toNat = beNat b p 4 := by
  have h0 := (b p).toNat_lt
  have h1 := (b (p + 1)).toNat_lt
  have h2 := (b (p + 2)).toNat_lt
  have h3 := (b (p + 3)).toNat_lt
  have m0 : (b p).toNat <<< 24 % 2 ^ 32 = (b p).toNat <<< (16 + 8) :=
    Nat.mod_eq_of_lt (by rw [Nat.shiftLeft_eq]; omega)
  have m1 : (b (p + 1)).toNat <<< 16 % 2 ^ 32 = (b (p + 1)).toNat <<< 16 :=
    Nat.mod_eq_of_lt (by rw [Nat.shiftLeft_eq]; omega)
  have m2 : (b (p + 2)).toNat <<< 8 % 2 ^ 32 = (b (p + 2)).toNat <<< 8 :=
    Nat.mod_eq_of_lt (by rw [Nat.shiftLeft_eq]; omega)
  simp only [machReadFrom4, UInt32.toNat_or, UInt32.toNat_shiftLeft, UInt8.toNat_toUInt32,
    UInt32.reduceToNat, Nat.reduceMod]
  rw [m0, m1, m2, shift_or_shift h1, show (16 : Nat) = 8 + 8 from rfl, shift_or_shift h2, shift_or h3]
  simp only [beNat, Nat.add_zero]; omega

theorem machReadFrom1_toNat (b : Bytes) (p : Nat) : (machReadFrom1 b p).toNat = beNat b p 1 := by
  rw [machReadFrom1, beNat, beNat, Nat.zero_mul, Nat.zero_add]; rfl

theorem machReadFrom2_toNat (b : Bytes) (p : Nat) : (machReadFrom2 b p).toNat = beNat b p 2 := by
  have h0 := (b p).toNat_lt
  have h1 := (b (p + 1)).toNat_lt
  have m0 : (b p).toNat <<< 8 % 2 ^ 64 = (b p).toNat <<< 8 :=
    Nat.mod_eq_of_lt (by rw [Nat.shiftLeft_eq]; omega)
  simp only [machReadFrom2, UInt64.toNat_or, UInt64.toNat_shiftLeft, UInt8.toNat_toUInt64,
    UInt64.toNat_toUInt16, UInt64.reduceToNat, Nat.reduceMod]
  rw [m0, shift_or h1]
  simp only [beNat, Nat.add_zero]; omega

theorem machReadFrom8_toNat (b : Bytes) (p : Nat) : (machReadFrom8 b p).toNat = beNat b p 8 := by
  have hlo : (machReadFrom4 b (p + 4)).toNat < 2 ^ 32 := UInt32.toNat_lt _
  have hhi := (machReadFrom4 b p).toNat_lt
  have m : (machReadFrom4 b p).toNat <<< 32 % 2 ^ 64 = (machReadFrom4 b p).toNat <<< 32 :=
    Nat.mod_eq_of_lt (by rw [Nat.shiftLeft_eq]; omega)
  simp only [machReadFrom8, UInt64.toNat_or, UInt64.toNat_shiftLeft, UInt32.toNat_toUInt64, UInt64.reduceToNat,
    Nat.reduceMod]
  rw [m, shift_or hlo, machReadFrom4_toNat, machReadFrom4_toNat, beNat_add b p 4 4]; rfl

section
variable {b b' : Bytes} {p p' : Nat}

theorem machReadFrom4_congr (h : SameRun b b' p p' 4) : machReadFrom4 b p = machReadFrom4 b' p' :=
  UInt32.toNat_inj.mp (by rw [machReadFrom4_toNat, machReadFrom4_toNat, beNat_congr h])

theorem machReadFrom2_congr (h : SameRun b b' p p' 2) : machReadFrom2 b p = machReadFrom2 b' p' :=
  UInt16.toNat_inj.mp (by rw [machReadFrom2_toNat, machReadFrom2_toNat, beNat_congr h])

theorem machReadFrom8_congr (h : SameRun b b' p p' 8) : machReadFrom8 b p = machReadFrom8 b' p' := by
  rw [machReadFrom8, machReadFrom8, machReadFrom4_congr fun k hk => h k (by omega),
    machReadFrom4_congr (h.sub 4 4 (by omega))]

@[simp] theorem stores_be2 {v : UInt16} : Stores b p (be2 v) ↔ machReadFrom2 b p = v := by
  rw [be2, stores_beBytes_lt v.toNat_lt, ← machReadFrom2_toNat, UInt16.toNat_inj]

@[simp] theorem stores_be4 {v : UInt32} : Stores b p (be4 v) ↔ machReadFrom4 b p = v := by
  rw [be4, stores_beBytes_lt v.toNat_lt, ← machReadFrom4_toNat, UInt32.toNat_inj]

@[simp] theorem stores_be8 {v : UInt64} : Stores b p (be8 v) ↔ machReadFrom8 b p = v := by
  rw [be8, stores_beBytes_lt v.toNat_lt, ← machReadFrom8_toNat, UInt64.toNat_inj]

end

end Innodb
