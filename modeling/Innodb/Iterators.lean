import Mathlib.Logic.Relation

/-!
# Iterators over a shared store

Any number of iterators go over chains in one store that changes under them:
each handle stands at a position, and an advance leads from the position to
its successor. If no use of the store moves a handle, an iterator is where it
would be by itself, in whatever order the iterators are advanced.
-/

namespace Iterators

universe u
variable {ε S L H : Type u} {A : Type*}

/-- What can be done: `use` is everything that is done with the store. -/
structure Ops (ε S L H : Type u) where
  first : L → S → Except ε (Option H × S)
  next : H → S → Except ε (Option H × S)
  use : S → S → Prop

/-- An iterator, after so many advances; without a handle it is over. -/
structure Iter (L H : Type u) where
  list : L
  advances : Nat
  handle : Option H

/-- A run from `s₀`: iterators are started and advanced in any order, with other uses in between. -/
inductive Run (O : Ops ε S L H) (s₀ : S) : S → List (Iter L H) → Prop
  | new : Run O s₀ s₀ []
  | use {s s' its} : Run O s₀ s its → O.use s s' → Run O s₀ s' its
  | first {s s' its l q} : Run O s₀ s its → O.first l s = .ok (q, s') → Run O s₀ s' (its ++ [⟨l, 0, q⟩])
  | next {s s' its k l n h q} : Run O s₀ s its → its[k]? = some ⟨l, n, some h⟩ → O.next h s = .ok (q, s') →
      Run O s₀ s' (its.set k ⟨l, n + 1, q⟩)

def position (start : L → Option A) (succ : A → Option A) (l : L) : Nat → Option A
  | 0 => start l
  | n + 1 => (position start succ l n).bind succ

/-- A handle at the position, or none at a position that is not `good`. -/
inductive Arrives (good : A → Prop) (at' : H → A → Prop) : Option H → Option A → Prop
  | here {h a} : at' h a → Arrives good at' (some h) (some a)
  | ended : Arrives good at' none none
  | lost {a} : ¬ good a → Arrives good at' none (some a)

theorem Arrives.mono {good : A → Prop} {P Q : H → A → Prop} (hPQ : ∀ h a, P h a → Q h a) {q : Option H} {x : Option A}
    (h : Arrives good P q x) : Arrives good Q q x := by
  cases h with
  | here h => exact .here (hPQ _ _ h)
  | ended => exact .ended
  | lost h => exact .lost h

/-- What a store and its operations must satisfy. -/
structure Sound (O : Ops ε S L H) (inv : S → Prop) (stands : S → H → A → Prop) (start : L → Option A)
    (succ : A → Option A) (good : A → Prop) : Prop where
  keeps : ∀ s s', inv s → O.use s s' → inv s'
  stays : ∀ s s' h a, inv s → O.use s s' → stands s h a → stands s' h a
  first : ∀ s s' l q, inv s → O.first l s = .ok (q, s') → O.use s s' ∧ Arrives good (stands s') q (start l)
  next : ∀ s s' h a q, inv s → stands s h a → O.next h s = .ok (q, s') →
    O.use s s' ∧ Arrives good (stands s') q (succ a)

variable {O : Ops ε S L H} {inv : S → Prop} {stands : S → H → A → Prop} {start : L → Option A} {succ : A → Option A}
  {good : A → Prop} {s₀ s : S} {its : List (Iter L H)}

theorem Run.arrives (F : Sound O inv stands start succ good) (h₀ : inv s₀) (h : Run O s₀ s its) :
    inv s ∧ ∀ it ∈ its, Arrives good (stands s) it.handle (position start succ it.list it.advances) := by
  induction h with
  | new => exact ⟨h₀, nofun⟩
  | use _ hu ih =>
    obtain ⟨hi, hits⟩ := ih
    exact ⟨F.keeps _ _ hi hu, fun it hit => (hits it hit).mono fun h a => F.stays _ _ h a hi hu⟩
  | first _ hf ih =>
    obtain ⟨hi, hits⟩ := ih
    obtain ⟨hu, harr⟩ := F.first _ _ _ _ hi hf
    refine ⟨F.keeps _ _ hi hu, fun it hit => ?_⟩
    rcases List.mem_append.mp hit with hit | hit
    · exact (hits it hit).mono fun h a => F.stays _ _ h a hi hu
    · rw [List.mem_singleton.mp hit]
      exact harr
  | @next s s' its k l n h q _ hk hn ih =>
    obtain ⟨hi, hits⟩ := ih
    have hat := hits _ (List.mem_of_getElem? hk)
    generalize hx : position start succ l n = x at hat
    cases hat with
    | @here _ a ha =>
      -- for the other iterators the advance is one more use of the store
      obtain ⟨hu, harr⟩ := F.next _ _ _ _ _ hi ha hn
      refine ⟨F.keeps _ _ hi hu, fun it hit => ?_⟩
      rcases List.mem_or_eq_of_mem_set hit with hit | rfl
      · exact (hits it hit).mono fun h a => F.stays _ _ h a hi hu
      · rw [position, hx, Option.bind_some]
        exact harr

/-- An iterator was advanced from good positions only. -/
theorem Run.passes (F : Sound O inv stands start succ good) (hgood : ∀ s h a, stands s h a → good a) (h₀ : inv s₀)
    (h : Run O s₀ s its) : ∀ it ∈ its, ∀ m < it.advances, ∃ a, position start succ it.list m = some a ∧ good a := by
  induction h with
  | new => exact nofun
  | use _ _ ih => exact ih
  | first _ _ ih =>
    intro it hit m hm
    rcases List.mem_append.mp hit with hit | hit
    · exact ih it hit m hm
    · rw [List.mem_singleton.mp hit] at hm
      exact absurd hm (Nat.not_lt_zero m)
  | @next s s' its k l n h q hrun hk hn ih =>
    intro it hit m hm
    rcases List.mem_or_eq_of_mem_set hit with hit | rfl
    · exact ih it hit m hm
    · rcases Nat.lt_succ_iff_lt_or_eq.mp hm with hm | rfl
      · exact ih _ (List.mem_of_getElem? hk) m hm
      · have hat := (hrun.arrives F h₀).2 _ (List.mem_of_getElem? hk)
        generalize position start succ l m = x at hat ⊢
        cases hat with
        | here ha => exact ⟨_, rfl, hgood _ _ _ ha⟩

end Iterators
