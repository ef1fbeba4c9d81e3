import Mathlib.Algebra.Group.Nat.Even

/-!
# Big-endian numbers

The number that a run of bytes spells, most significant byte first, and the
shift-and-or form in which programs compute it. A run *stores* a list of bytes;
that it stores the bytes of a number says which number it spells, so a layout
of several fields is taken apart field by field.
-/

namespace BigEndian

def beNat (b : Nat → UInt8) (p : Nat) : Nat → Nat
  | 0 => 0
  | n + 1 => beNat b p n * 256 + (b (p + n)).toNat

/-- The `n` bytes of `b` from `p` are those of `b'` from `p'`. -/
def SameRun (b b' : Nat → UInt8) (p p' n : Nat) : Prop := ∀ k < n, b (p + k) = b' (p' + k)

instance (b b' : Nat → UInt8) (p p' n : Nat) : Decidable (SameRun b b' p p' n) :=
  inferInstanceAs (Decidable (∀ k < n, b (p + k) = b' (p' + k)))

theorem SameRun.sub {b b' : Nat → UInt8} {p p' n : Nat} (h : SameRun b b' p p' n) (off m : Nat) (hm : off + m ≤ n) :
    SameRun b b' (p + off) (p' + off) m := by
  intro k hk
  rw [Nat.add_assoc, Nat.add_assoc]; exact h _ (by omega)

theorem beNat_congr {b b' : Nat → UInt8} {p p' n : Nat} (h : SameRun b b' p p' n) : beNat b p n = beNat b' p' n := by
  induction n with
  | zero => rfl
  | succ n ih =>
    unfold beNat
    rw [ih fun k hk => h k (by omega), h n (by omega)]

theorem SameRun.symm {b b' : Nat → UInt8} {p p' n : Nat} (h : SameRun b b' p p' n) : SameRun b' b p' p n :=
  fun k hk => (h k hk).symm

theorem beNat_lt (b : Nat → UInt8) (p n : Nat) : beNat b p n < 256 ^ n := by
  induction n with
  | zero => exact Nat.one_pos
  | succ n ih =>
    have hb := (b (p + n)).toNat_lt
    rw [beNat, Nat.pow_succ]; omega

theorem beNat_add (b : Nat → UInt8) (p m n : Nat) :
    beNat b p (m + n) = beNat b p m * 256 ^ n + beNat b (p + m) n := by
  induction n with
  | zero => rw [Nat.add_zero, beNat, Nat.pow_zero, Nat.mul_one, Nat.add_zero]
  | succ n ih =>
    rw [← Nat.add_assoc, beNat, ih, beNat, Nat.pow_succ, Nat.add_mul, Nat.mul_assoc, Nat.add_assoc, Nat.add_assoc p]

theorem beNat_inj {b b' : Nat → UInt8} {p p' n : Nat} : beNat b p n = beNat b' p' n ↔ SameRun b b' p p' n := by
  refine ⟨fun h => ?_, beNat_congr⟩
  induction n with
  | zero => exact fun k hk => absurd hk (Nat.not_lt_zero k)
  | succ n ih =>
    have hb := (b (p + n)).toNat_lt
    have hb' := (b' (p' + n)).toNat_lt
    unfold beNat at h
    have hlast : b (p + n) = b' (p' + n) := UInt8.toNat_inj.mp (by omega)
    intro k hk
    rcases Nat.lt_succ_iff_lt_or_eq.mp hk with hk | rfl
    · exact ih (by omega) k hk
    · exact hlast

theorem shift_or {x y k : Nat} (h : y < 2 ^ k) : x <<< k ||| y = x * 2 ^ k + y := by
  rw [← Nat.shiftLeft_add_eq_or_of_lt h, Nat.shiftLeft_eq]

theorem shift_or_shift {x y k l : Nat} (h : y < 2 ^ l) : x <<< (k + l) ||| y <<< k = (x * 2 ^ l + y) <<< k := by
  rw [Nat.add_comm k l, Nat.shiftLeft_add, ← Nat.shiftLeft_or_distrib, shift_or h]

/-- A mask of `m` bits from bit `k` on keeps these bits in place. -/
theorem and_mask {mask k m : Nat} (x : Nat) (hdiv : mask / 2 ^ k = 2 ^ m - 1) (hmod : mask % 2 ^ k = 0) :
    x &&& mask = x / 2 ^ k % 2 ^ m * 2 ^ k := by
  have hhigh : (x &&& mask) / 2 ^ k = x / 2 ^ k % 2 ^ m := by
    rw [Nat.and_div_two_pow, hdiv, Nat.and_two_pow_sub_one_eq_mod]
  have hlow : (x &&& mask) % 2 ^ k = 0 := by rw [Nat.and_mod_two_pow, hmod, Nat.and_zero]
  rw [← hhigh, Nat.div_mul_cancel (Nat.dvd_of_mod_eq_zero hlow)]

/-! ## Writing -/

def beBytes : Nat → Nat → List UInt8
  | 0, _ => []
  | n + 1, v => beBytes n (v / 256) ++ [UInt8.ofNat v]

@[simp] theorem beBytes_length (n v : Nat) : (beBytes n v).length = n := by
  induction n generalizing v with
  | zero => rfl
  | succ n ih => rw [beBytes, List.length_append, ih, List.length_singleton]

def Stores (b : Nat → UInt8) : Nat → List UInt8 → Prop
  | _, [] => True
  | p, x :: l => b p = x ∧ Stores b (p + 1) l

instance decidableStores (b : Nat → UInt8) : ∀ (p : Nat) (l : List UInt8), Decidable (Stores b p l)
  | _, [] => .isTrue trivial
  | p, x :: l =>
    have := decidableStores b (p + 1) l
    inferInstanceAs (Decidable (b p = x ∧ Stores b (p + 1) l))

section
variable {b b' : Nat → UInt8} {p p' : Nat}

@[simp] theorem stores_append {l l' : List UInt8} :
    Stores b p (l ++ l') ↔ Stores b p l ∧ Stores b (p + l.length) l' := by
  induction l generalizing p with
  | nil => simp [Stores]
  | cons x l ih =>
    rw [List.cons_append, Stores, Stores, ih, and_assoc, List.length_cons, Nat.add_right_comm, Nat.add_assoc]

theorem stores_iff {l : List UInt8} : Stores b p l ↔ ∀ k (hk : k < l.length), b (p + k) = l.get ⟨k, hk⟩ := by
  induction l generalizing p with
  | nil => exact ⟨fun _ _ h => absurd h (Nat.not_lt_zero _), fun _ => trivial⟩
  | cons x l ih =>
    rw [Stores, ih]
    refine ⟨fun h k hk => ?_, fun h => ⟨h 0 (Nat.succ_pos _), fun k hk => ?_⟩⟩
    · cases k with
      | zero => exact h.1
      | succ k =>
        have hb := h.2 k (Nat.lt_of_succ_lt_succ hk)
        rwa [Nat.add_right_comm, Nat.add_assoc] at hb
    · have hb := h (k + 1) (Nat.succ_lt_succ hk)
      rwa [Nat.add_right_comm, Nat.add_assoc]

theorem Stores.sameRun {l : List UInt8} (h : Stores b p l) (h' : Stores b' p' l) : SameRun b b' p p' l.length :=
  fun k hk => (stores_iff.mp h k hk).trans (stores_iff.mp h' k hk).symm

theorem SameRun.stores {l : List UInt8} (h : SameRun b b' p p' l.length) (h' : Stores b' p' l) : Stores b p l :=
  stores_iff.mpr fun k hk => (h k hk).trans (stores_iff.mp h' k hk)

theorem stores_flatMap {α : Type*} {f : α → List UInt8} {n : Nat} (hf : ∀ a, (f a).length = n) {l : List α} :
    Stores b p (l.flatMap f) ↔ ∀ k (hk : k < l.length), Stores b (p + k * n) (f (l.get ⟨k, hk⟩)) := by
  induction l generalizing p with
  | nil => exact ⟨fun _ _ h => absurd h (Nat.not_lt_zero _), fun _ => trivial⟩
  | cons a l ih =>
    rw [List.flatMap_cons, stores_append, ih, hf]
    refine ⟨fun h k hk => ?_, fun h => ⟨?_, fun k hk => ?_⟩⟩
    · cases k with
      | zero => rw [Nat.zero_mul]; exact h.1
      | succ k =>
        have htail := h.2 k (Nat.lt_of_succ_lt_succ hk)
        rwa [Nat.add_assoc, Nat.add_comm n, ← Nat.succ_mul] at htail
    · have hhead := h 0 (Nat.succ_pos _)
      rwa [Nat.zero_mul] at hhead
    · have htail := h (k + 1) (Nat.succ_lt_succ hk)
      rwa [Nat.succ_mul, Nat.add_comm (k * n), ← Nat.add_assoc] at htail

theorem stores_beBytes {n v : Nat} : Stores b p (beBytes n v) ↔ beNat b p n = v % 256 ^ n := by
  induction n generalizing v with
  | zero => simp [beBytes, Stores, beNat, Nat.mod_one]
  | succ n ih =>
    have hb := (b (p + n)).toNat_lt
    have hlast : b (p + n) = UInt8.ofNat v ↔ (b (p + n)).toNat = v % 256 := by
      rw [← UInt8.toNat_inj, UInt8.toNat_ofNat']
    rw [beBytes, stores_append, ih, beBytes_length, Stores, hlast, beNat, Nat.pow_succ, Nat.mul_comm (256 ^ n),
      Nat.mod_mul]
    simp only [Stores, and_true]; omega

theorem stores_beBytes_lt {n v : Nat} (h : v < 256 ^ n) : Stores b p (beBytes n v) ↔ beNat b p n = v := by
  rw [stores_beBytes, Nat.mod_eq_of_lt h]

end

def be2 (v : UInt16) : List UInt8 := beBytes 2 v.toNat
def be4 (v : UInt32) : List UInt8 := beBytes 4 v.toNat
def be8 (v : UInt64) : List UInt8 := beBytes 8 v.toNat

@[simp] theorem be2_length (v : UInt16) : (be2 v).length = 2 := beBytes_length 2 _
@[simp] theorem be4_length (v : UInt32) : (be4 v).length = 4 := beBytes_length 4 _
@[simp] theorem be8_length (v : UInt64) : (be8 v).length = 8 := beBytes_length 8 _

/-! ## The other end first -/

def leNat (b : Nat → UInt8) : (p n : Nat) → Nat
  | _, 0 => 0
  | p, n + 1 => (b p).toNat + 256 * leNat b (p + 1) n

/-- The bytes of `v`, least significant first. -/
def leBytes (v : Nat) : Nat → UInt8 := fun k => UInt8.ofNat (v / 256 ^ k)

theorem leNat_congr {b b' : Nat → UInt8} {p p' n : Nat} (h : SameRun b b' p p' n) : leNat b p n = leNat b' p' n := by
  induction n generalizing p p' with
  | zero => rfl
  | succ n ih =>
    have hhead : b p = b' p' := h 0 (Nat.succ_pos n)
    have htail : SameRun b b' (p + 1) (p' + 1) n := h.sub 1 n (by omega)
    rw [leNat, leNat, ih htail, hhead]

theorem leNat_reversed {b b' : Nat → UInt8} {p p' n : Nat} (h : ∀ k < n, b (p + k) = b' (p' + (n - 1 - k))) :
    leNat b p n = beNat b' p' n := by
  induction n generalizing p with
  | zero => rfl
  | succ n ih =>
    have hhead : b p = b' (p' + n) := h 0 (Nat.succ_pos n)
    have htail : ∀ k < n, b (p + 1 + k) = b' (p' + (n - 1 - k)) := by
      intro k hk
      rw [Nat.add_assoc, h (1 + k) (by omega), show n + 1 - 1 - (1 + k) = n - 1 - k by omega]
    rw [leNat, beNat, ih htail, hhead, Nat.add_comm, Nat.mul_comm]

theorem leNat_leBytes (v p n : Nat) : leNat (leBytes v) p n = v / 256 ^ p % 256 ^ n := by
  induction n generalizing p with
  | zero => rw [leNat, Nat.pow_zero, Nat.mod_one]
  | succ n ih =>
    have hdigit : (leBytes v p).toNat = v / 256 ^ p % 256 := UInt8.toNat_ofNat'
    have hsplit : v / 256 ^ p % 256 ^ (n + 1) = v / 256 ^ p % 256 + 256 * (v / 256 ^ p / 256 % 256 ^ n) := by
      rw [Nat.pow_succ', Nat.mod_mul]
    rw [leNat, ih, hdigit, hsplit, Nat.div_div_eq_div_mul, Nat.pow_succ]

theorem leBytes_leNat (b : Nat → UInt8) (p n : Nat) : SameRun (leBytes (leNat b p n)) b 0 p n := by
  induction n generalizing p with
  | zero => exact fun k hk => absurd hk (Nat.not_lt_zero k)
  | succ n ih =>
    have hb := (b p).toNat_lt
    intro k hk
    unfold leBytes
    cases k with
    | zero =>
      rw [leNat, Nat.zero_add, Nat.pow_zero, Nat.div_one, Nat.add_zero, ← UInt8.toNat_inj, UInt8.toNat_ofNat',
        Nat.add_mul_mod_self_left, Nat.mod_eq_of_lt hb]
      rfl
    | succ k =>
      have htail := ih (p + 1) k (Nat.lt_of_succ_lt_succ hk)
      unfold leBytes at htail
      have hdiv : leNat b p (n + 1) / 256 = leNat b (p + 1) n := by rw [leNat]; omega
      rw [Nat.zero_add, Nat.pow_succ, Nat.mul_comm, ← Nat.div_div_eq_div_mul, hdiv]
      rw [Nat.zero_add] at htail
      rw [htail, Nat.add_right_comm, Nat.add_assoc]

/-! ## Which bytes a number depends on -/

def Influences {α : Type*} (k : Nat) (f : (Nat → UInt8) → α) : Prop :=
  ∃ b b' : Nat → UInt8, (∀ j, j ≠ k → b j = b' j) ∧ f b ≠ f b'

theorem influences_beNat {k p n : Nat} : Influences k (fun b => beNat b p n) ↔ p ≤ k ∧ k < p + n := by
  refine ⟨fun hx => ?_, fun hk => ?_⟩
  · obtain ⟨b, b', hsame, hne⟩ := hx
    refine Classical.byContradiction fun hk => hne (beNat_congr fun j hj => hsame _ ?_)
    omega
  · refine ⟨fun _ => 0, fun j => if j = k then 1 else 0, fun j hj => (if_neg hj).symm, fun h => ?_⟩
    have hb := beNat_inj.mp h (k - p) (by omega)
    rw [Nat.add_sub_cancel' hk.1, if_pos rfl] at hb
    exact absurd hb (by decide)

end BigEndian
