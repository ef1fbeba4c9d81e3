import Mathlib.Algebra.BigOperators.Group.Finset.Basic
import Mathlib.Data.Finset.Sort
import Mathlib.Order.Interval.Finset.Nat

/-!
# Caches that are cut off

A cache over ordered keys that on a miss drops every key behind the one asked
for. What it holds after a sequence of requests is read off the loads: a key
is in it when no smaller one, and itself not again, was loaded after it. Going
through the keys upwards loads each of them once. Going downwards again and
again, each pass keeps but one more.
-/

namespace Truncating

variable {α : Type*} [LinearOrder α]

def touch (c : Finset α) (i : α) : Finset α := if i ∈ c then c else insert i (c.filter (· < i))

def contents (c : Finset α) (l : List α) : Finset α := l.foldl touch c

/-- The requests that are not in the cache, in order. -/
def loads : Finset α → List α → List α
  | _, [] => []
  | c, i :: l => if i ∈ c then loads c l else i :: loads (touch c i) l

section
variable {c : Finset α} {i j : α}

theorem touch_hit (h : i ∈ c) : touch c i = c := if_pos h

theorem mem_touch_miss (h : i ∉ c) : j ∈ touch c i ↔ j = i ∨ j ∈ c ∧ j < i := by
  rw [touch, if_neg h, Finset.mem_insert, Finset.mem_filter]

theorem contents_cons (c : Finset α) (i : α) (l : List α) : contents c (i :: l) = contents (touch c i) l := rfl

theorem contents_append (c : Finset α) (l l' : List α) : contents c (l ++ l') = contents (contents c l) l' :=
  List.foldl_append

theorem loads_hit (h : i ∈ c) (l : List α) : loads c (i :: l) = loads c l := if_pos h

theorem loads_miss (h : i ∉ c) (l : List α) : loads c (i :: l) = i :: loads (touch c i) l := if_neg h

theorem loads_append (c : Finset α) (l l' : List α) : loads c (l ++ l') = loads c l ++ loads (contents c l) l' := by
  induction l generalizing c with
  | nil => rfl
  | cons i l ih =>
    rw [List.cons_append, contents_cons]
    by_cases h : i ∈ c
    · rw [loads_hit h, loads_hit h, ih, touch_hit h]
    · rw [loads_miss h, loads_miss h, ih, List.cons_append]

/-- What is in the cache: what was there and was not cut off, and the loads
with only larger ones behind them. -/
theorem mem_contents_iff {l : List α} : j ∈ contents c l ↔
    (j ∈ c ∧ ∀ k ∈ loads c l, j < k) ∨ ∃ l₁ l₂, loads c l = l₁ ++ j :: l₂ ∧ ∀ k ∈ l₂, j < k := by
  induction l generalizing c with
  | nil => simp [contents, loads]
  | cons i l ih =>
    rw [contents_cons, ih]
    by_cases h : i ∈ c
    · rw [touch_hit h, loads_hit h]
    · rw [loads_miss h, mem_touch_miss h]
      refine ⟨fun hx => ?_, fun hx => ?_⟩
      · rcases hx with ⟨rfl | ⟨hc, hlt⟩, hall⟩ | ⟨l₁, l₂, hl, hall⟩
        · exact .inr ⟨[], _, rfl, hall⟩
        · exact .inl ⟨hc, List.forall_mem_cons.mpr ⟨hlt, hall⟩⟩
        · exact .inr ⟨i :: l₁, l₂, by rw [hl, List.cons_append], hall⟩
      · rcases hx with ⟨hc, hall⟩ | ⟨l₁, l₂, hl, hall⟩
        · obtain ⟨hlt, hall⟩ := List.forall_mem_cons.mp hall
          exact .inl ⟨.inr ⟨hc, hlt⟩, hall⟩
        · cases l₁ with
          | nil =>
            obtain ⟨rfl, rfl⟩ := List.cons.inj hl
            exact .inl ⟨.inl rfl, hall⟩
          | cons k l₁ =>
            obtain ⟨rfl, htail⟩ := List.cons.inj hl
            exact .inr ⟨l₁, l₂, htail, hall⟩

/-! ## Passes -/

theorem pass_hits {l : List α} (h : ∀ i ∈ l, i ∈ c) : loads c l = [] ∧ contents c l = c := by
  induction l with
  | nil => exact ⟨rfl, rfl⟩
  | cons i l ih =>
    have hi := h i List.mem_cons_self
    rw [loads_hit hi, contents_cons, touch_hit hi]
    exact ih fun j hj => h j (List.mem_cons_of_mem i hj)

theorem pass_up {l : List α} (hl : l.Pairwise (· < ·)) (h : ∀ i ∈ l, ∀ j ∈ c, j < i) :
    loads c l = l ∧ contents c l = c ∪ l.toFinset := by
  induction l generalizing c with
  | nil => exact ⟨rfl, by rw [List.toFinset_nil, Finset.union_empty]; rfl⟩
  | cons i l ih =>
    obtain ⟨hi, hl⟩ := List.pairwise_cons.mp hl
    have hnot : i ∉ c := fun hc => lt_irrefl i (h i List.mem_cons_self i hc)
    have htouch : touch c i = insert i c := by
      rw [touch, if_neg hnot, Finset.filter_true_of_mem (h i List.mem_cons_self)]
    have hnext : ∀ k ∈ l, ∀ j ∈ touch c i, j < k := by
      intro k hk j hj
      rcases (mem_touch_miss hnot).mp hj with rfl | ⟨hj, _⟩
      · exact hi k hk
      · exact h k (List.mem_cons_of_mem i hk) j hj
    obtain ⟨hloads, hcontents⟩ := ih hl hnext
    refine ⟨by rw [loads_miss hnot, hloads], ?_⟩
    rw [contents_cons, hcontents, htouch, List.toFinset_cons, Finset.insert_union, Finset.union_insert]

end

/-! ## Going through `0` to `n - 1` again and again -/

open Finset in
theorem sweeps_up (n k : Nat) : (loads ∅ (List.replicate (k + 1) (List.range n)).flatten).length = n := by
  have hup := pass_up (c := ∅) (List.pairwise_lt_range (n := n)) fun _ _ _ hj => absurd hj (notMem_empty _)
  have hrest : ∀ i ∈ (List.replicate k (List.range n)).flatten, i ∈ contents ∅ (List.range n) := by
    intro i hi
    obtain ⟨l, hl, hi⟩ := List.mem_flatten.mp hi
    rw [List.eq_of_mem_replicate hl] at hi
    rw [hup.2, empty_union, List.mem_toFinset]
    exact hi
  rw [List.replicate_succ, List.flatten_cons, loads_append, (pass_hits hrest).1, hup.1, List.append_nil, List.length_range]

/-- Downwards from behind `m`, with all below `j` in the cache, and `m`. -/
theorem pass_down {j : Nat} : ∀ {m : Nat}, j ≤ m →
    (loads (insert m (Finset.range j)) (List.range m).reverse).length = m - j ∧
      contents (insert m (Finset.range j)) (List.range m).reverse = Finset.range (j + 1) := by
  intro m hj
  induction m, hj using Nat.le_induction with
  | base =>
    have hin : ∀ i ∈ (List.range j).reverse, i ∈ insert j (Finset.range j) := fun i hi =>
      Finset.mem_insert_of_mem (Finset.mem_range.mpr (List.mem_range.mp (List.mem_reverse.mp hi)))
    rw [(pass_hits hin).1, (pass_hits hin).2, Nat.sub_self, Finset.range_add_one]
    exact ⟨rfl, rfl⟩
  | succ m hj ih =>
    have hmiss : m ∉ insert (m + 1) (Finset.range j) := by
      rw [Finset.mem_insert, Finset.mem_range]; omega
    have htouch : touch (insert (m + 1) (Finset.range j)) m = insert m (Finset.range j) := by
      ext i
      rw [mem_touch_miss hmiss, Finset.mem_insert, Finset.mem_insert, Finset.mem_range]; omega
    rw [List.range_succ, List.reverse_append, List.reverse_singleton, List.singleton_append, loads_miss hmiss,
      contents_cons, htouch, List.length_cons, ih.1, ih.2]
    exact ⟨by omega, rfl⟩

theorem sweep_down (j n : Nat) : (loads (Finset.range j) (List.range n).reverse).length = n - j ∧
    contents (Finset.range j) (List.range n).reverse = Finset.range (if j < n then j + 1 else j) := by
  by_cases h : j < n
  · obtain ⟨m, rfl⟩ := Nat.exists_eq_succ_of_ne_zero (Nat.ne_of_gt (Nat.zero_lt_of_lt h))
    have hmiss : m ∉ Finset.range j := by
      rw [Finset.mem_range]; omega
    have htouch : touch (Finset.range j) m = insert m (Finset.range j) := by
      ext i
      rw [mem_touch_miss hmiss, Finset.mem_insert, Finset.mem_range]; omega
    obtain ⟨hloads, hcontents⟩ := pass_down (j := j) (m := m) (by omega)
    rw [if_pos h, List.range_succ, List.reverse_append, List.reverse_singleton, List.singleton_append, loads_miss hmiss,
      contents_cons, htouch, List.length_cons, hloads, hcontents]
    exact ⟨by omega, rfl⟩
  · have hin : ∀ i ∈ (List.range n).reverse, i ∈ Finset.range j := fun i hi =>
      Finset.mem_range.mpr (Nat.lt_of_lt_of_le (List.mem_range.mp (List.mem_reverse.mp hi)) (Nat.le_of_not_lt h))
    rw [if_neg h, (pass_hits hin).1, (pass_hits hin).2]
    exact ⟨by rw [List.length_nil]; omega, rfl⟩

theorem sweeps_down (n k : Nat) :
    (loads ∅ (List.replicate k (List.range n).reverse).flatten).length = ∑ j ∈ Finset.range k, (n - j) ∧
      contents ∅ (List.replicate k (List.range n).reverse).flatten = Finset.range (min k n) := by
  induction k with
  | zero => exact ⟨rfl, by rw [Nat.zero_min]; rfl⟩
  | succ k ih =>
    have hsub : n - min k n = n - k := by omega
    have hmin : (if min k n < n then min k n + 1 else min k n) = min (k + 1) n := by split <;> omega
    rw [List.replicate_succ', List.flatten_append, List.flatten_singleton, loads_append, contents_append, ih.2,
      (sweep_down _ n).2, List.length_append, ih.1, (sweep_down _ n).1, Finset.sum_range_succ, hsub, hmin]
    exact ⟨rfl, rfl⟩

end Truncating
