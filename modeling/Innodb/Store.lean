/-!
# Stores of objects

Objects are made at the end of a list and referred to by their index; they
change in place and are never removed. A store *grows* along a relation when
every object of the old one is still there, changed at most along the
relation. The last section is about vectors with empty slots that are resized.
-/

namespace Store

universe u
variable {α : Type u}

/-- Every object of `l` is in `l'` at the same index, up to `R`. -/
def Grows (R : α → α → Prop) (l l' : List α) : Prop :=
  ∀ (i : Nat) (a : α), l[i]? = some a → ∃ b, l'[i]? = some b ∧ R a b

section
variable {R : α → α → Prop}

theorem Grows.refl (hR : ∀ a, R a a) (l : List α) : Grows R l l :=
  fun _ a h => ⟨a, h, hR a⟩

theorem Grows.trans (hR : ∀ a b c, R a b → R b c → R a c) {l₁ l₂ l₃ : List α}
    (h₁ : Grows R l₁ l₂) (h₂ : Grows R l₂ l₃) : Grows R l₁ l₃ := by
  intro i a ha
  obtain ⟨b, hb, hab⟩ := h₁ i a ha
  obtain ⟨c, hc, hbc⟩ := h₂ i b hb
  exact ⟨c, hc, hR a b c hab hbc⟩

theorem Grows.alloc (hR : ∀ a, R a a) (l : List α) (x : α) : Grows R l (l ++ [x]) := by
  intro i a h
  have hi : i < l.length := (List.getElem?_eq_some_iff.mp h).1
  exact ⟨a, by rw [List.getElem?_append_left hi]; exact h, hR a⟩

theorem Grows.set (hR : ∀ a, R a a) {l : List α} {i : Nat} {a x : α} (ha : l[i]? = some a) (hx : R a x) :
    Grows R l (l.set i x) := by
  intro j b hb
  have hi : i < l.length := (List.getElem?_eq_some_iff.mp ha).1
  by_cases hij : i = j
  · subst hij
    obtain rfl : a = b := by rw [ha] at hb; exact Option.some.inj hb
    exact ⟨x, List.getElem?_set_self hi, hx⟩
  · exact ⟨b, by rw [List.getElem?_set_ne hij]; exact hb, hR b⟩

end

theorem alloc_getElem? (l : List α) (x : α) : (l ++ [x])[l.length]? = some x := List.getElem?_concat_length

theorem alloc_cases {l : List α} {x a : α} {i : Nat} (h : (l ++ [x])[i]? = some a) :
    l[i]? = some a ∨ (i = l.length ∧ a = x) := by
  by_cases hi : i < l.length
  · rw [List.getElem?_append_left hi] at h; exact .inl h
  · rw [List.getElem?_append_right (Nat.le_of_not_lt hi)] at h
    obtain ⟨hlt, hget⟩ := List.getElem?_eq_some_iff.mp h
    rw [List.length_singleton] at hlt
    rw [List.getElem_singleton] at hget
    exact .inr ⟨by omega, hget.symm⟩

theorem set_cases {l : List α} {x a : α} {i j : Nat} (h : (l.set i x)[j]? = some a) :
    (i = j ∧ a = x) ∨ (i ≠ j ∧ l[j]? = some a) := by
  by_cases hij : i = j
  · subst hij
    obtain ⟨hlt, hget⟩ := List.getElem?_eq_some_iff.mp h
    rw [List.getElem_set_self] at hget
    exact .inl ⟨rfl, hget.symm⟩
  · rw [List.getElem?_set_ne hij] at h
    exact .inr ⟨hij, h⟩

theorem forall_set {P : α → Prop} {l : List α} {i : Nat} {x : α} (h : ∀ a ∈ l, P a) (hx : P x) :
    ∀ a ∈ l.set i x, P a := by
  intro a ha
  rcases List.mem_or_eq_of_mem_set ha with h' | rfl
  · exact h a h'
  · exact hx

theorem forall_alloc {P : α → Prop} {l : List α} {x : α} (h : ∀ a ∈ l, P a) (hx : P x) :
    ∀ a ∈ l ++ [x], P a := by
  intro a ha
  rcases List.mem_append.mp ha with h' | h'
  · exact h a h'
  · obtain rfl := List.mem_singleton.mp h'; exact hx

/-! ## Vectors with empty slots -/

/-- `std::vector::resize(n, x)`. -/
def resize (l : List α) (n : Nat) (x : α) : List α := l.take n ++ List.replicate (n - l.length) x

@[simp] theorem resize_length (l : List α) (n : Nat) (x : α) : (resize l n x).length = n := by
  simp only [resize, List.length_append, List.length_take, List.length_replicate]; omega

theorem resize_getElem? (l : List α) (n : Nat) (x : α) (i : Nat) :
    (resize l n x)[i]? = if i < n then some (l[i]?.getD x) else none := by
  by_cases hi : i < n
  · rw [if_pos hi, resize]
    by_cases hl : i < l.length
    · rw [List.getElem?_append_left (by rw [List.length_take]; omega), List.getElem?_take_of_lt hi]
      rw [List.getElem?_eq_getElem hl, Option.getD_some]
    · rw [List.getElem?_append_right (by rw [List.length_take]; omega), List.getElem?_replicate]
      rw [if_pos (by rw [List.length_take]; omega), List.getElem?_eq_none (by omega), Option.getD_none]
  · rw [if_neg hi, List.getElem?_eq_none (by rw [resize_length]; omega)]

end Store
