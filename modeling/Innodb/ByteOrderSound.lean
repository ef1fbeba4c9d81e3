import Innodb.Defines

/-!
# Byte order

The four readers and the swap of a value's bytes denote the same numbers: what
a reader makes of a run of bytes is what the swap makes of the value that a
little-endian machine loads from it.
-/

namespace Innodb
open BigEndian

theorem eLoop_eq (t : Bytes) (left : Nat) (ret : Bytes) (d s : Nat) (hs : left ≤ s + 1) (k : Nat) :
    eLoop t left ret d s k = if d ≤ k ∧ k < d + left then t (s - (k - d)) else ret k := by
  induction left generalizing ret d s with
  | zero => rw [if_neg (by omega)]; rfl
  | succ left ih =>
    rw [eLoop, ih _ _ _ (by omega)]
    by_cases hd : k = d
    · subst hd
      rw [if_neg (by omega), if_pos rfl, if_pos (by omega), Nat.sub_self, Nat.sub_zero]
    · rw [if_neg hd]
      by_cases hk : d ≤ k ∧ k < d + (left + 1)
      · rw [if_pos (by omega), if_pos hk, show s - 1 - (k - (d + 1)) = s - (k - d) by omega]
      · rw [if_neg (by omega), if_neg hk]

theorem eBytes_eq {size k : Nat} (t : Bytes) (hk : k < size) : eBytes size t k = t (size - 1 - k) := by
  rw [eBytes, eLoop_eq t size _ 0 (size - 1) (by omega), if_pos (by omega), Nat.sub_zero]

theorem eBytes_eBytes {size k : Nat} (t : Bytes) (hk : k < size) : eBytes size (eBytes size t) k = t k := by
  rw [eBytes_eq _ hk, eBytes_eq t (by omega), show size - 1 - (size - 1 - k) = k by omega]

theorem e_load (size : Nat) (b : Bytes) (p : Nat) : e size (leNat b p size) = beNat b p size := by
  refine leNat_reversed fun k hk => ?_
  have hload := leBytes_leNat b p size (size - 1 - k) (by omega)
  rw [Nat.zero_add] at hload
  rw [Nat.zero_add, eBytes_eq _ hk, hload]

theorem leBytes_e {size k : Nat} (v : Nat) (hk : k < size) : leBytes (e size v) k = leBytes v (size - 1 - k) := by
  have hload := leBytes_leNat (eBytes size (leBytes v)) 0 size k hk
  rw [Nat.zero_add] at hload
  rw [e, hload, eBytes_eq _ hk]

theorem e_e {size v : Nat} (hv : v < 256 ^ size) : e size (e size v) = v := by
  have hback : SameRun (eBytes size (leBytes (e size v))) (leBytes v) 0 0 size := by
    intro k hk
    rw [Nat.zero_add, eBytes_eq _ hk, leBytes_e v (by omega), show size - 1 - (size - 1 - k) = k by omega]
  have hnat : e size (e size v) = leNat (leBytes v) 0 size := leNat_congr hback
  rw [hnat, leNat_leBytes, Nat.pow_zero, Nat.div_one, Nat.mod_eq_of_lt hv]

/-- A reader of `n` bytes into an unsigned type is the big-endian one. -/
structure ReadsBigEndian {α : Type} (n : Nat) (toNat : α → Nat) (read : Bytes → Nat → α) : Prop where
  value : ∀ b p, toNat (read b p) = beNat b p n
  injective : ∀ b b' p p', read b p = read b' p' ↔ SameRun b b' p p' n
  inverts : ∀ b p v, Stores b p (beBytes n (toNat v)) ↔ read b p = v
  swaps : ∀ b p, e n (leNat b p n) = toNat (read b p)

theorem readsBigEndian {α : Type} {n : Nat} {toNat : α → Nat} {read : Bytes → Nat → α}
    (hinj : ∀ v w, toNat v = toNat w ↔ v = w) (hlt : ∀ v, toNat v < 256 ^ n)
    (hval : ∀ b p, toNat (read b p) = beNat b p n) : ReadsBigEndian n toNat read where
  value := hval
  injective b b' p p' := by rw [← hinj, hval, hval, beNat_inj]
  inverts b p v := by rw [stores_beBytes_lt (hlt v), ← hval, hinj]
  swaps b p := by rw [e_load, hval]

/-- What `e<T>` does to the bytes of a value and to the number they denote. -/
structure SwapsBytes (size : Nat) : Prop where
  reverses : ∀ t : Bytes, ∀ k < size, eBytes size t k = t (size - 1 - k)
  involutive : ∀ t : Bytes, ∀ k < size, eBytes size (eBytes size t) k = t k
  numbers : ∀ v < 256 ^ size, e size (e size v) = v

/-- **Byte order.** The readers of 1, 2, 4 and 8 bytes are the big-endian
number, and so is the swap of a loaded value; for a value of any size the swap
reverses its bytes. -/
theorem byteOrder_agree :
    ReadsBigEndian 1 UInt8.toNat machReadFrom1 ∧ ReadsBigEndian 2 UInt16.toNat machReadFrom2 ∧
    ReadsBigEndian 4 UInt32.toNat machReadFrom4 ∧ ReadsBigEndian 8 UInt64.toNat machReadFrom8 ∧
    ∀ size, SwapsBytes size := by
  refine ⟨?_, ?_, ?_, ?_, fun size => ⟨fun t _ => eBytes_eq t, fun t _ => eBytes_eBytes t, fun v => e_e⟩⟩
  · exact readsBigEndian (fun _ _ => UInt8.toNat_inj) UInt8.toNat_lt machReadFrom1_toNat
  · exact readsBigEndian (fun _ _ => UInt16.toNat_inj) UInt16.toNat_lt machReadFrom2_toNat
  · exact readsBigEndian (fun _ _ => UInt32.toNat_inj) UInt32.toNat_lt machReadFrom4_toNat
  · exact readsBigEndian (fun _ _ => UInt64.toNat_inj) UInt64.toNat_lt machReadFrom8_toNat

end Innodb
