import Innodb.Loop

/-!
# Programs that agree

Two programs agree when they fail with the same error or return values that a
relation holds of. A program that passes a state along agrees with one that
has none when the relation says nothing, or little, about the state reached.
-/

namespace Agree
open Loop

universe u v w

inductive Agrees {ε : Type u} {α : Type v} {β : Type w} (R : α → β → Prop) : Except ε α → Except ε β → Prop
  | ok {a b} : R a b → Agrees R (.ok a) (.ok b)
  | error (e) : Agrees R (.error e) (.error e)

namespace Agrees
section
variable {ε : Type u} {α γ : Type v} {β δ : Type w} {R : α → β → Prop} {c : Except ε α} {x : Except ε β}

theorem mono {R' : α → β → Prop} (h : Agrees R c x) (hR : ∀ a b, R a b → R' a b) : Agrees R' c x := by
  cases h with
  | ok h => exact .ok (hR _ _ h)
  | error e => exact .error e

theorem bind_eq {R' : γ → δ → Prop} {k : α → Except ε γ} {g : β → Except ε δ} (h : Agrees R c x)
    (hk : ∀ a b, c = .ok a → x = .ok b → R a b → Agrees R' (k a) (g b)) : Agrees R' (c >>= k) (x >>= g) := by
  cases h with
  | ok h => exact hk _ _ rfl rfl h
  | error e => exact .error e

theorem bind {R' : γ → δ → Prop} {k : α → Except ε γ} {g : β → Except ε δ} (h : Agrees R c x)
    (hk : ∀ a b, R a b → Agrees R' (k a) (g b)) : Agrees R' (c >>= k) (x >>= g) :=
  h.bind_eq fun a b _ _ => hk a b

theorem bind_left {R' : γ → β → Prop} {k : α → Except ε γ} (h : Agrees R c x)
    (hk : ∀ a b, R a b → Agrees R' (k a) (.ok b)) : Agrees R' (c >>= k) x := by
  cases h with
  | ok h => exact hk _ _ h
  | error e => exact .error e

theorem of_ok {a : α} (h : Agrees R (.ok a : Except ε α) x) : ∃ b, x = .ok b ∧ R a b := by
  cases h with
  | ok h => exact ⟨_, rfl, h⟩

theorem to_ok {b : β} (h : Agrees R c (.ok b : Except ε β)) : ∃ a, c = .ok a ∧ R a b := by
  cases h with
  | ok h => exact ⟨_, rfl, h⟩

theorem of_error {e : ε} (h : Agrees R (.error e : Except ε α) x) : x = .error e := by
  cases h with
  | error e => rfl

theorem foldlM {ι : Type*} {f : α → ι → Except ε α} {g : β → ι → Except ε β} : ∀ {l : List ι},
    (∀ i ∈ l, ∀ a b, R a b → Agrees R (f a i) (g b i)) → ∀ a b, R a b → Agrees R (l.foldlM f a) (l.foldlM g b)
  | [], _, _, _, h => .ok h
  | i :: l, hf, a, b, h => by
    rw [List.foldlM_cons, List.foldlM_cons]
    exact (hf i List.mem_cons_self a b h).bind fun a' b' h' =>
      foldlM (fun j hj => hf j (List.mem_cons_of_mem i hj)) a' b' h'

end

theorem rounds {ε : Type u} {σ τ : Type v} {R : σ → τ → Prop} {cond : σ → Bool} {cond' : τ → Bool}
    {body : σ → Except ε σ} {body' : τ → Except ε τ} (hcond : ∀ s t, R s t → cond s = cond' t)
    (hbody : ∀ s t, R s t → cond s = true → Agrees R (body s) (body' t)) :
    ∀ (n : Nat) (s : σ) (t : τ), R s t → Agrees R (Loop.rounds cond body n s) (Loop.rounds cond' body' n t)
  | 0, _, _, h => .ok h
  | n + 1, s, t, h => by
    rw [rounds_succ, rounds_succ, ← hcond s t h]
    by_cases hs : cond s = true
    · rw [if_pos hs, if_pos hs]
      exact (hbody s t h hs).bind (rounds hcond hbody n)
    · rw [if_neg hs, if_neg hs]
      exact .ok h

end Agrees

/-! ## Requests -/

section
variable {ε ι α σ : Type*}

/-- The answers to requests, up to an error or to an answer after which
nothing comes. -/
def answers (ask : ι → σ → Except ε (α × σ)) (last : α → Bool) : List ι → σ → List (Except ε α)
  | [], _ => []
  | r :: rs, s =>
    match ask r s with
    | .error e => [.error e]
    | .ok (a, s) => .ok a :: if last a then [] else answers ask last rs s

/-- Likewise where each request is answered by itself. -/
def afresh (ask : ι → Except ε α) (last : α → Bool) : List ι → List (Except ε α)
  | [] => []
  | r :: rs =>
    match ask r with
    | .error e => [.error e]
    | .ok a => .ok a :: if last a then [] else afresh ask last rs

/-- The state does not show in the answers if it does not in any one of them. -/
theorem answers_eq_afresh {ask : ι → σ → Except ε (α × σ)} {ask' : ι → Except ε α} {Inv : σ → Prop}
    (h : ∀ r s, Inv s → Agrees (fun x a => Inv x.2 ∧ x.1 = a) (ask r s) (ask' r)) (last : α → Bool) :
    ∀ (rs : List ι) (s : σ), Inv s → answers ask last rs s = afresh ask' last rs
  | [], _, _ => rfl
  | r :: rs, s, hs => by
    have hr := h r s hs
    unfold answers afresh
    cases hx : ask r s with
    | error e =>
      rw [hx] at hr
      rw [hr.of_error]
    | ok x =>
      obtain ⟨a, s'⟩ := x
      rw [hx] at hr
      obtain ⟨b, hb, hs', rfl⟩ := hr.of_ok
      rw [hb]
      simp only [answers_eq_afresh h last rs s' hs']

end

end Agree
