import Mathlib.Dynamics.PeriodicPts.Defs

/-!
# Loops that follow a chain

`rounds n` runs at most `n` rounds of a `while` loop whose body may fail. A
loop *follows* a chain when each of its rounds moves from the current node to
the node's successor and logs what it saw. What such a loop does is then read
off the chain: where it stands, what it logged, whether it fails, and whether
it returns.
-/

namespace Loop

universe u v

section
variable {ε : Type u} {σ τ : Type v}

@[simp] theorem ok_bind (a : σ) (f : σ → Except ε τ) : (Except.ok a >>= f) = f a := rfl

@[simp] theorem error_bind (e : ε) (f : σ → Except ε τ) : (Except.error e >>= f) = Except.error e := rfl

theorem bind_ok {x : Except ε σ} {f : σ → Except ε τ} {b : τ} (h : (x >>= f) = .ok b) :
    ∃ a, x = .ok a ∧ f a = .ok b := by
  cases x with
  | error e => cases h
  | ok a => exact ⟨a, rfl, h⟩

theorem bind_error {x : Except ε σ} {f : σ → Except ε τ} {e : ε} (h : (x >>= f) = .error e) :
    x = .error e ∨ ∃ a, x = .ok a ∧ f a = .error e := by
  cases x with
  | error e' => cases h; exact .inl rfl
  | ok a => exact .inr ⟨a, rfl, h⟩

theorem mapM_ok {l : List σ} {f : σ → Except ε τ} {g : σ → τ} (h : ∀ a ∈ l, f a = .ok (g a)) :
    l.mapM f = .ok (l.map g) := by
  induction l with
  | nil => rfl
  | cons a l ih =>
    rw [List.mapM_cons, h a List.mem_cons_self, ok_bind, ih fun b hb => h b (List.mem_cons_of_mem a hb), ok_bind]
    rfl

theorem mapM_ok_mem {f : σ → Except ε τ} : ∀ {l : List σ} {r : List τ}, l.mapM f = .ok r → ∀ a ∈ l, ∃ b, f a = .ok b
  | [], _, _, _, ha => by cases ha
  | a :: l, r, h, c, hc => by
    rw [List.mapM_cons] at h
    obtain ⟨b, hb, h⟩ := bind_ok h
    obtain ⟨s, hs, -⟩ := bind_ok h
    rcases List.mem_cons.mp hc with rfl | hc
    · exact ⟨b, hb⟩
    · exact mapM_ok_mem hs c hc

/-- At most `n` rounds of `while (cond) body`. -/
def rounds (cond : σ → Bool) (body : σ → Except ε σ) : Nat → σ → Except ε σ
  | 0, s => .ok s
  | n + 1, s => if cond s then body s >>= rounds cond body n else .ok s

variable (cond : σ → Bool) (body : σ → Except ε σ)

theorem rounds_succ (n : Nat) (s : σ) :
    rounds cond body (n + 1) s = if cond s then body s >>= rounds cond body n else .ok s := rfl

variable {cond body} in
theorem rounds_dead {s : σ} (h : cond s = false) (n : Nat) : rounds cond body n s = .ok s := by
  cases n with
  | zero => rfl
  | succ n => rw [rounds_succ, h, if_neg Bool.false_ne_true]

variable {cond body} in
/-- More rounds change nothing once the loop is left. -/
theorem rounds_stable : ∀ {k n : Nat} {s t : σ}, rounds cond body k s = .ok t → cond t = false → k ≤ n →
    rounds cond body n s = .ok t
  | 0, n, s, t, h, hd, _ => by
    cases h; exact rounds_dead hd n
  | k + 1, n, s, t, h, hd, hkn => by
    obtain ⟨n, rfl⟩ := Nat.exists_eq_add_one_of_ne_zero (show n ≠ 0 by omega)
    rw [rounds_succ] at h ⊢
    split at h
    · rename_i hs
      obtain ⟨u, hu, h⟩ := bind_ok h
      rw [if_pos hs, hu, ok_bind]
      exact rounds_stable h hd (by omega)
    · rename_i hs
      rw [if_neg hs]; exact h

theorem rounds_map {cond' : τ → Bool} {body' : τ → Except ε τ} {f : σ → τ} (hc : ∀ s, cond' (f s) = cond s)
    (hb : ∀ s, body' (f s) = (body s).map f) (n : Nat) (s : σ) :
    rounds cond' body' n (f s) = (rounds cond body n s).map f := by
  induction n generalizing s with
  | zero => rfl
  | succ n ih =>
    rw [rounds_succ, rounds_succ, hc, hb]
    by_cases hs : cond s = true
    · rw [if_pos hs, if_pos hs]
      cases body s with
      | error e => rfl
      | ok t => exact ih t
    · rw [if_neg hs, if_neg hs]; rfl

theorem rounds_rel {R : σ → σ → Prop} (hrefl : ∀ s, R s s) (htrans : ∀ s t u, R s t → R t u → R s u)
    (hb : ∀ s t, body s = .ok t → R s t) : ∀ (n : Nat) (s t : σ), rounds cond body n s = .ok t → R s t
  | 0, s, t, h => by
    cases h; exact hrefl s
  | n + 1, s, t, h => by
    rw [rounds_succ] at h
    split at h
    · obtain ⟨u, hu, h⟩ := bind_ok h
      exact htrans s u t (hb s u hu) (rounds_rel hrefl htrans hb n u t h)
    · cases h; exact hrefl s

theorem foldlM_rel {α : Type*} {R : σ → σ → Prop} (hrefl : ∀ s, R s s) (htrans : ∀ s t u, R s t → R t u → R s u)
    {f : σ → α → Except ε σ} (hf : ∀ s a t, f s a = .ok t → R s t) :
    ∀ (l : List α) (s t : σ), l.foldlM f s = .ok t → R s t
  | [], s, t, h => by
    cases h; exact hrefl s
  | a :: l, s, t, h => by
    rw [List.foldlM_cons] at h
    obtain ⟨u, hu, h⟩ := bind_ok h
    exact htrans s u t (hf s a u hu) (foldlM_rel hrefl htrans hf l u t h)

theorem foldlM_ok {α : Type*} {P : σ → Prop} {f : σ → α → Except ε σ} : ∀ {l : List α},
    (∀ a ∈ l, ∀ s, P s → ∃ t, f s a = .ok t ∧ P t) → ∀ s, P s → ∃ t, l.foldlM f s = .ok t ∧ P t
  | [], _, s, hs => ⟨s, rfl, hs⟩
  | a :: l, hf, s, hs => by
    obtain ⟨u, hu, hiu⟩ := hf a List.mem_cons_self s hs
    rw [List.foldlM_cons, hu, ok_bind]
    exact foldlM_ok (fun b hb => hf b (List.mem_cons_of_mem a hb)) u hiu

def Safe (s : σ) : Prop := ∀ n e, rounds cond body n s ≠ .error e

end

/-! ## Chains -/

section
variable {α : Type*} (live : α → Bool) (next : α → α)

def walk : Nat → α → List α
  | 0, _ => []
  | n + 1, a => if live a then a :: walk n (next a) else []

def after : Nat → α → α
  | 0, a => a
  | n + 1, a => if live a then after n (next a) else a

def nth : Nat → α → Option α
  | 0, a => if live a then some a else none
  | k + 1, a => (nth k a).bind fun b => if live (next b) then some (next b) else none

def Ends (a : α) : Prop := ∃ n, live (next^[n] a) = false

def Along (good : α → Prop) (a : α) : Prop := ∀ n, ∀ x ∈ walk live next n a, good x

variable {live next}

theorem walk_dead {a : α} (h : live a = false) (n : Nat) : walk live next n a = [] := by
  cases n with
  | zero => rfl
  | succ n => rw [walk, h]; rfl

theorem after_dead {a : α} (h : live a = false) (n : Nat) : after live next n a = a := by
  cases n with
  | zero => rfl
  | succ n => rw [after, h]; rfl

theorem nth_dead {a : α} (h : live a = false) (k : Nat) : nth live next k a = none := by
  induction k with
  | zero => simp [nth, h]
  | succ k ih => simp [nth, ih]

theorem nth_succ {a : α} (h : live a = true) (k : Nat) : nth live next (k + 1) a = nth live next k (next a) := by
  induction k with
  | zero => simp [nth, h]
  | succ k ih => rw [nth, ih]; rfl

theorem nth_live {a b : α} {k : Nat} (h : nth live next k a = some b) : live b = true := by
  cases k with
  | zero =>
    unfold nth at h
    split at h
    · rename_i ha; cases h; exact ha
    · cases h
  | succ k =>
    unfold nth at h
    obtain ⟨c, _, hc⟩ := Option.bind_eq_some_iff.mp h
    split at hc
    · rename_i hl; cases hc; exact hl
    · cases hc

theorem walk_getElem? : ∀ (n k : Nat) (a : α),
    (walk live next n a)[k]? = if k < n then nth live next k a else none
  | 0, k, a => by simp [walk]
  | n + 1, k, a => by
    by_cases ha : live a = true
    · rw [walk, if_pos ha]
      cases k with
      | zero => simp [nth, ha]
      | succ k =>
        rw [List.getElem?_cons_succ, walk_getElem? n k, nth_succ ha]
        simp only [Nat.add_lt_add_iff_right]
    · rw [walk, if_neg ha, List.getElem?_nil, nth_dead (by simpa using ha), ite_self]

theorem after_end : ∀ (n : Nat) (a : α), live (after live next n a) = false ↔ ∃ k ≤ n, live (next^[k] a) = false
  | 0, a => by
    refine ⟨fun h => ?_, fun hx => ?_⟩
    · exact ⟨0, Nat.le_refl _, h⟩
    · obtain ⟨k, hk, h⟩ := hx
      obtain rfl : k = 0 := by omega
      exact h
  | n + 1, a => by
    by_cases ha : live a = true
    · rw [after, if_pos ha, after_end n (next a)]
      refine ⟨fun hx => ?_, fun hx => ?_⟩
      · obtain ⟨k, hk, h⟩ := hx
        exact ⟨k + 1, by omega, h⟩
      · obtain ⟨k, hk, h⟩ := hx
        cases k with
        | zero => rw [Function.iterate_zero_apply, ha] at h; cases h
        | succ k => exact ⟨k, by omega, h⟩
    · rw [after, if_neg ha]
      exact ⟨fun h => ⟨0, Nat.zero_le _, h⟩, fun _ => by simpa using ha⟩

theorem ends_iff (a : α) : Ends live next a ↔ ∃ n, live (after live next n a) = false :=
  ⟨fun ⟨n, h⟩ => ⟨n, (after_end n a).mpr ⟨n, Nat.le_refl _, h⟩⟩,
    fun ⟨n, h⟩ => let ⟨k, _, hk⟩ := (after_end n a).mp h; ⟨k, hk⟩⟩

theorem not_ends_of_revisit {a : α} {i j : Nat} (hij : i < j) (h : next^[i] a = next^[j] a)
    (hl : ∀ k < j, live (next^[k] a) = true) : ¬ Ends live next a := by
  intro hx
  obtain ⟨n, hn⟩ := hx
  have hlive : live (next^[n] a) = true := by
    by_cases hni : n < i
    · exact hl n (by omega)
    · have hper : Function.IsPeriodicPt next (j - i) (next^[i] a) := by
        rw [Function.IsPeriodicPt, Function.IsFixedPt, ← Function.iterate_add_apply, Nat.sub_add_cancel hij.le, h]
      have hmod := hper.iterate_mod_apply (n - i)
      rw [← Function.iterate_add_apply, ← Function.iterate_add_apply, Nat.sub_add_cancel (Nat.le_of_not_lt hni)] at hmod
      have := Nat.mod_lt (n - i) (show 0 < j - i by omega)
      rw [← hmod]; exact hl _ (by omega)
  rw [hlive] at hn; cases hn

/-- The chain from `a` passes the nodes of `l` and ends behind them. -/
def Spells (live : α → Bool) (next : α → α) : α → List α → Prop
  | a, [] => live a = false
  | a, x :: l => a = x ∧ live x = true ∧ Spells live next (next x) l

theorem Spells.walk_eq : ∀ {a : α} {l : List α}, Spells live next a l → walk live next l.length a = l
  | _, [], _ => rfl
  | _, x :: l, ⟨ha, hx, h⟩ => by
    rw [ha, List.length_cons, walk, if_pos hx, h.walk_eq]

theorem Spells.after_dead : ∀ {a : α} {l : List α}, Spells live next a l → live (after live next l.length a) = false
  | _, [], h => h
  | _, x :: l, ⟨ha, hx, h⟩ => by
    rw [ha, List.length_cons, after, if_pos hx]; exact h.after_dead

theorem Spells.along {good : α → Prop} : ∀ {a : α} {l : List α}, Spells live next a l → (∀ x ∈ l, good x) →
    Along live next good a
  | _, [], h, _ => fun n x hx => by rw [walk_dead h] at hx; cases hx
  | _, x :: l, ⟨ha, hx, h⟩, hg => fun n y hy => by
    rw [ha] at hy
    cases n with
    | zero => cases hy
    | succ n =>
      rw [walk, if_pos hx] at hy
      rcases List.mem_cons.mp hy with rfl | hy
      · exact hg _ List.mem_cons_self
      · exact h.along (fun z hz => hg z (List.mem_cons_of_mem _ hz)) n y hy

theorem spells_walk : ∀ {n : Nat} {a : α}, live (after live next n a) = false → Spells live next a (walk live next n a)
  | 0, _, h => h
  | n + 1, a, h => by
    by_cases ha : live a = true
    · rw [after, if_pos ha] at h
      rw [walk, if_pos ha]
      exact ⟨rfl, ha, spells_walk h⟩
    · rw [walk, if_neg ha]; exact Bool.eq_false_iff.mpr ha

theorem Spells.mem_live : ∀ {a : α} {l : List α}, Spells live next a l → ∀ x ∈ l, live x = true
  | _, [], _, _, hx => by cases hx
  | _, _ :: _, ⟨_, hy, h⟩, x, hx => by
    rcases List.mem_cons.mp hx with rfl | hx
    · exact hy
    · exact h.mem_live x hx

theorem Spells.unique : ∀ {a : α} {l l' : List α}, Spells live next a l → Spells live next a l' → l = l'
  | _, [], [], _, _ => rfl
  | _, [], y :: _, h, ⟨ha, hy, _⟩ => by
    rw [← ha] at hy
    exact absurd hy (Bool.eq_false_iff.mp h)
  | _, x :: _, [], ⟨ha, hx, _⟩, h => by
    rw [← ha] at hx
    exact absurd hx (Bool.eq_false_iff.mp h)
  | _, x :: l, y :: l', ⟨ha, _, h⟩, ⟨hb, _, h'⟩ => by
    obtain rfl : x = y := ha.symm.trans hb
    rw [h.unique h']

/-- A chain leads on to one of its nodes, or out. -/
theorem Spells.next_mem : ∀ {a : α} {l : List α}, Spells live next a l → ∀ x ∈ l, next x ∈ l ∨ live (next x) = false
  | _, [], _, _, hx => by cases hx
  | _, y :: l, ⟨_, _, h⟩, x, hx => by
    rcases List.mem_cons.mp hx with rfl | hx
    · cases l with
      | nil => exact .inr h
      | cons z l => exact .inl (List.mem_cons_of_mem _ (h.1 ▸ List.mem_cons_self))
    · exact (h.next_mem x hx).imp_left (List.mem_cons_of_mem _)

/-- Two chains through the same nodes, where there is one way out. -/
theorem Spells.next_eq {next' : α → α} (hout : ∀ x y, live x = false → live y = false → x = y) :
    ∀ {a b : α} {l : List α}, Spells live next a l → Spells live next' b l → ∀ x ∈ l, next x = next' x
  | _, _, [], _, _, _, hx => by cases hx
  | _, _, y :: l, ⟨_, _, h⟩, ⟨_, _, h'⟩, x, hx => by
    rcases List.mem_cons.mp hx with rfl | hx
    · cases l with
      | nil => exact hout _ _ h h'
      | cons z l => exact h.1.trans h'.1.symm
    · exact h.next_eq hout h' x hx

theorem Spells.suffix {x : α} {l₂ : List α} : ∀ {a : α} {l₁ : List α}, Spells live next a (l₁ ++ x :: l₂) →
    Spells live next x (x :: l₂)
  | _, [], ⟨_, hx, h⟩ => ⟨rfl, hx, h⟩
  | _, _ :: _, ⟨_, _, h⟩ => h.suffix

/-- A chain that ends passes no node twice. -/
theorem Spells.nodup : ∀ {a : α} {l : List α}, Spells live next a l → l.Nodup
  | _, [], _ => List.nodup_nil
  | _, x :: l, ⟨ha, hx, h⟩ => by
    refine List.nodup_cons.mpr ⟨fun hmem => ?_, h.nodup⟩
    obtain ⟨l₁, l₂, rfl⟩ := List.append_of_mem hmem
    have heq : x :: (l₁ ++ x :: l₂) = x :: l₂ := Spells.unique (a := x) ⟨rfl, hx, h⟩ h.suffix
    have hlen := congrArg List.length heq
    simp only [List.length_cons, List.length_append] at hlen; omega

/-- If the key of a node tells the next node, a chain that ends passes no key
twice. -/
theorem Spells.nodup_key {β : Type*} {key : α → β} (hkey : ∀ a b, key a = key b → next a = next b) :
    ∀ {a : α} {l : List α}, Spells live next a l → (l.map key).Nodup
  | _, [], _ => List.nodup_nil
  | _, x :: l, ⟨_, _, h⟩ => by
    rw [List.map_cons]
    refine List.nodup_cons.mpr ⟨fun hmem => ?_, h.nodup_key hkey⟩
    obtain ⟨y, hy, hxy⟩ := List.mem_map.mp hmem
    obtain ⟨l₁, l₂, rfl⟩ := List.append_of_mem hy
    obtain ⟨_, _, hrest⟩ := h.suffix
    rw [hkey y x hxy] at hrest
    have hlen := congrArg List.length (h.unique hrest)
    simp only [List.length_append, List.length_cons] at hlen; omega

theorem spells_range {r : Nat → α} : ∀ {n : Nat}, (∀ j < n, live (r j) = true) → (∀ j < n, next (r j) = r (j + 1)) →
    live (r n) = false → Spells live next (r 0) ((List.range n).map r)
  | 0, _, _, hend => hend
  | n + 1, hl, hn, hend => by
    rw [List.range_succ_eq_map, List.map_cons, List.map_map]
    refine ⟨rfl, hl 0 (Nat.succ_pos _), ?_⟩
    rw [hn 0 (Nat.succ_pos _)]
    exact spells_range (r := r ∘ Nat.succ) (fun j hj => hl _ (Nat.succ_lt_succ hj))
      (fun j hj => hn _ (Nat.succ_lt_succ hj)) hend

theorem Along.induct {P : α → Prop} {a : α} (h0 : P a) (hstep : ∀ b, P b → P (next b)) : Along live next P a := by
  intro n
  induction n generalizing a with
  | zero => intro x hx; cases hx
  | succ n ih =>
    intro x hx
    rw [walk] at hx
    split at hx
    · rcases List.mem_cons.mp hx with rfl | hx
      · exact h0
      · exact ih (hstep a h0) x hx
    · cases hx

theorem Along.mono {P Q : α → Prop} {a : α} (h : Along live next P a) (hpq : ∀ b, P b → Q b) :
    Along live next Q a := fun n x hx => hpq x (h n x hx)

theorem Along.nth {good : α → Prop} {a b : α} {k : Nat} (h : Along live next good a)
    (hk : Loop.nth live next k a = some b) : good b := by
  refine h (k + 1) b (List.mem_of_getElem? (i := k) ?_)
  rw [walk_getElem?, if_pos (Nat.lt_succ_self k), hk]

end

/-! ## Following -/

/-- Each round that returns moves `at` along the chain and appends to `log`
what `emit` says of the node. `inv` is kept by every round. -/
structure Tracks {ε : Type u} {σ : Type v} {α β : Type*} (cond : σ → Bool) (body : σ → Except ε σ)
    (live : α → Bool) (next : α → α) (emit : α → β) (inv : σ → Prop) (pos : σ → α) (log : σ → List β) : Prop where
  cond_eq : ∀ s, inv s → cond s = live (pos s)
  move : ∀ s t, inv s → live (pos s) = true → body s = .ok t →
    inv t ∧ pos t = next (pos s) ∧ log t = log s ++ [emit (pos s)]

namespace Tracks
variable {ε : Type u} {σ : Type v} {α β : Type*} {cond : σ → Bool} {body : σ → Except ε σ} {live : α → Bool}
  {next : α → α} {emit : α → β} {inv : σ → Prop} {pos : σ → α} {log : σ → List β}
  (T : Tracks cond body live next emit inv pos log)
include T

theorem run : ∀ (n : Nat) (s t : σ), inv s → rounds cond body n s = .ok t →
    inv t ∧ pos t = after live next n (pos s) ∧ log t = log s ++ (walk live next n (pos s)).map emit
  | 0, s, t, hs, h => by
    cases h
    exact ⟨hs, rfl, by simp [walk]⟩
  | n + 1, s, t, hs, h => by
    rw [rounds_succ, T.cond_eq s hs] at h
    by_cases hl : live (pos s) = true
    · rw [if_pos hl] at h
      obtain ⟨u, hu, h⟩ := bind_ok h
      obtain ⟨hiu, hpu, hlogu⟩ := T.move s u hs hl hu
      obtain ⟨hit, hpt, hlogt⟩ := run n u t hiu h
      refine ⟨hit, ?_, ?_⟩
      · rw [hpt, hpu, after, if_pos hl]
      · rw [hlogt, hlogu, hpu, walk, if_pos hl, List.map_cons, List.append_assoc]; rfl
    · rw [if_neg hl] at h
      cases h
      have hd : live (pos s) = false := by simpa using hl
      exact ⟨hs, (after_dead hd _).symm, by rw [walk_dead hd, List.map_nil, List.append_nil]⟩

theorem returns {P : α → Prop} (hb : ∀ s, inv s → live (pos s) = true → P (pos s) → ∃ t, body s = .ok t) :
    ∀ (n : Nat) (s : σ), inv s → (∀ a ∈ walk live next n (pos s), P a) → ∃ t, rounds cond body n s = .ok t
  | 0, s, _, _ => ⟨s, rfl⟩
  | n + 1, s, hs, hP => by
    rw [rounds_succ, T.cond_eq s hs]
    by_cases hl : live (pos s) = true
    · rw [walk, if_pos hl] at hP
      obtain ⟨u, hu⟩ := hb s hs hl (hP _ List.mem_cons_self)
      obtain ⟨hiu, hpu, _⟩ := T.move s u hs hl hu
      rw [if_pos hl, hu, ok_bind]
      exact returns hb n u hiu fun a ha => hP a (List.mem_cons_of_mem _ (hpu ▸ ha))
    · exact ⟨s, if_neg hl⟩

end Tracks

/-- The loop tracks the chain and returns from the rounds at its `good` nodes
and from no other. -/
structure Follows {ε : Type u} {σ : Type v} {α β : Type*} (cond : σ → Bool) (body : σ → Except ε σ)
    (live : α → Bool) (next : α → α) (good : α → Prop) (emit : α → β)
    (inv : σ → Prop) (pos : σ → α) (log : σ → List β) : Prop where
  cond_eq : ∀ s, inv s → cond s = live (pos s)
  move : ∀ s, inv s → live (pos s) = true → good (pos s) →
    ∃ t, body s = .ok t ∧ inv t ∧ pos t = next (pos s) ∧ log t = log s ++ [emit (pos s)]
  stuck : ∀ s, inv s → live (pos s) = true → ¬ good (pos s) → ∃ e, body s = .error e

namespace Follows
variable {ε : Type u} {σ : Type v} {α β : Type*} {cond : σ → Bool} {body : σ → Except ε σ} {live : α → Bool}
  {next : α → α} {good : α → Prop} {emit : α → β} {inv : σ → Prop} {pos : σ → α} {log : σ → List β}
  (F : Follows cond body live next good emit inv pos log)
include F

theorem tracks : Tracks cond body live next emit inv pos log where
  cond_eq := F.cond_eq
  move s t hs hl h := by
    by_cases hg : good (pos s)
    · obtain ⟨t', ht', hmove⟩ := F.move s hs hl hg
      rw [h] at ht'; cases ht'
      exact hmove
    · obtain ⟨e, he⟩ := F.stuck s hs hl hg
      rw [h] at he; cases he

theorem run (n : Nat) (s : σ) (hs : inv s) (hg : ∀ a ∈ walk live next n (pos s), good a) :
    ∃ t, rounds cond body n s = .ok t ∧ inv t ∧ pos t = after live next n (pos s) ∧
      log t = log s ++ (walk live next n (pos s)).map emit := by
  have hb : ∀ s, inv s → live (pos s) = true → good (pos s) → ∃ t, body s = .ok t := by
    intro s hs hl hgood
    obtain ⟨t, ht, _⟩ := F.move s hs hl hgood
    exact ⟨t, ht⟩
  obtain ⟨t, ht⟩ := F.tracks.returns hb n s hs hg
  exact ⟨t, ht, F.tracks.run n s t hs ht⟩

theorem fail (n : Nat) (s : σ) (hs : inv s) (hg : ∃ a ∈ walk live next n (pos s), ¬ good a) :
    ∃ e, rounds cond body n s = .error e := by
  induction n generalizing s with
  | zero =>
    obtain ⟨a, ha, _⟩ := hg
    cases ha
  | succ n ih =>
    obtain ⟨a, ha, hna⟩ := hg
    by_cases hl : live (pos s) = true
    · rw [walk, if_pos hl] at ha
      by_cases hg : good (pos s)
      · obtain ⟨t, hb, ht, hp, _⟩ := F.move s hs hl hg
        have ha' : a ∈ walk live next n (pos t) := by
          rcases List.mem_cons.mp ha with rfl | h
          · exact absurd hg hna
          · rw [hp]; exact h
        obtain ⟨e, he⟩ := ih t ht ⟨a, ha', hna⟩
        exact ⟨e, by rw [rounds_succ, if_pos (by rw [F.cond_eq s hs, hl]), hb, ok_bind, he]⟩
      · obtain ⟨e, he⟩ := F.stuck s hs hl hg
        exact ⟨e, by rw [rounds_succ, if_pos (by rw [F.cond_eq s hs, hl]), he, error_bind]⟩
    · rw [walk, if_neg hl] at ha; cases ha

theorem safe_iff {s : σ} (hs : inv s) : Safe cond body s ↔ Along live next good (pos s) := by
  refine ⟨fun h n a ha => ?_, fun h n e he => ?_⟩
  · refine Classical.byContradiction fun hna => ?_
    obtain ⟨e, he⟩ := F.fail n s hs ⟨a, ha, hna⟩
    exact h n e he
  · obtain ⟨t, ht, _⟩ := F.run n s hs (h n)
    rw [ht] at he; cases he

end Follows

end Loop
