import Innodb.Loop
import Innodb.Text
import Mathlib.Data.List.Forall2

/-!
# What a program prints

A printer goes on from a text, with a bound on the rounds of its loops, and
comes to `none` where a bound is reached. It *prints* a set of texts when each
result is the text so far with one of them behind it, and each of them is the
result for every bound from `N` on. Printers put together one behind the
other, once for each item of a list, or once for each node of a chain print
the texts put together likewise.

It *fails* under a condition when no bound fails without it and every bound
from `N` on fails with it. Printers put together fail where one of them fails
and all those before it have a text.
-/

namespace Printing
open Loop Text

variable {ε ι : Type*} {N : Nat}

abbrev Printer (ε : Type*) := Nat → Option String → Except ε (Option String)

structure Prints (N : Nat) (f : Printer ε) (P : String → Prop) : Prop where
  stopped : ∀ n, f n none = .ok none
  sound : ∀ n o o', f n (some o) = .ok (some o') → ∃ x, P x ∧ o' = o ++ x
  complete : ∀ x, P x → ∀ n ≥ N, ∀ o, f n (some o) = .ok (some (o ++ x))

/-- A text of `P` and one of `Q` behind it. -/
def Then (P Q : String → Prop) (z : String) : Prop := ∃ x y, P x ∧ Q y ∧ z = x ++ y

/-- A text for each item, one behind the other. -/
inductive Each (item : ι → String → Prop) : List ι → String → Prop
  | nil : Each item [] ""
  | cons {i l x y} : item i x → Each item l y → Each item (i :: l) (x ++ y)

theorem exists_each_iff {item : ι → String → Prop} : ∀ {l : List ι}, (∃ x, Each item l x) ↔ ∀ i ∈ l, ∃ x, item i x
  | [] => ⟨fun _ => nofun, fun _ => ⟨"", .nil⟩⟩
  | i :: l => by
    rw [List.forall_mem_cons, ← exists_each_iff]
    refine ⟨fun h => ?_, fun h => ?_⟩
    · obtain ⟨_, h⟩ := h
      cases h with
      | cons hx hy => exact ⟨⟨_, hx⟩, _, hy⟩
    · obtain ⟨⟨x, hx⟩, y, hy⟩ := h
      exact ⟨x ++ y, .cons hx hy⟩

/-- A text for each node of the chain, to its end. -/
inductive EachAlong {α : Type*} (live : α → Bool) (next : α → α) (item : α → String → Prop) : α → String → Prop
  | done {a} : live a = false → EachAlong live next item a ""
  | node {a x y} : live a = true → item a x → EachAlong live next item (next a) y →
      EachAlong live next item a (x ++ y)

/-! ## Texts of things

A text is one for `i` when it is that of a thing that is there for `i`. -/

theorem each_iff {γ : Type*} {item : ι → String → Prop} {C : ι → γ → Prop} {f : ι → γ → String}
    (h : ∀ i x, item i x ↔ ∃ c, C i c ∧ x = f i c) :
    ∀ {l : List ι} {x : String}, Each item l x ↔ ∃ cs, List.Forall₂ C l cs ∧ x = runs f l cs
  | [], x => by
    refine ⟨fun hx => ?_, fun hx => ?_⟩
    · cases hx; exact ⟨[], .nil, rfl⟩
    · obtain ⟨cs, hcs, rfl⟩ := hx
      cases hcs; exact .nil
  | i :: l, x => by
    refine ⟨fun hx => ?_, fun hx => ?_⟩
    · cases hx with
      | cons hx hy =>
        obtain ⟨c, hc, rfl⟩ := (h _ _).mp hx
        obtain ⟨cs, hcs, rfl⟩ := (each_iff h).mp hy
        exact ⟨c :: cs, .cons hc hcs, rfl⟩
    · obtain ⟨cs, hcs, rfl⟩ := hx
      cases hcs with
      | cons hc hcs => exact .cons ((h _ _).mpr ⟨_, hc, rfl⟩) ((each_iff h).mpr ⟨_, hcs, rfl⟩)

theorem eachAlong_iff {γ : Type*} {item : ι → String → Prop} {C : ι → γ → Prop} {f : γ → String}
    (h : ∀ i x, item i x ↔ ∃ c, C i c ∧ x = f c) {live : ι → Bool} {next : ι → ι} {a : ι} {x : String} :
    EachAlong live next item a x ↔ ∃ as cs, Spells live next a as ∧ List.Forall₂ C as cs ∧ x = run f cs := by
  refine ⟨fun hx => ?_, fun hx => ?_⟩
  · induction hx with
    | done hl => exact ⟨[], [], hl, .nil, rfl⟩
    | node hl hx _ ih =>
      obtain ⟨c, hc, rfl⟩ := (h _ _).mp hx
      obtain ⟨as, cs, has, hcs, rfl⟩ := ih
      exact ⟨_ :: as, c :: cs, ⟨rfl, hl, has⟩, .cons hc hcs, rfl⟩
  · obtain ⟨as, cs, has, hcs, rfl⟩ := hx
    induction hcs generalizing a with
    | nil => exact .done has
    | cons hc _ ih =>
      obtain ⟨rfl, hl, has⟩ := has
      exact .node hl ((h _ _).mpr ⟨_, hc, rfl⟩) (ih has)

def printer (f : Nat → String → Except ε (Option String)) : Printer ε := fun n o => o.elim (.ok none) (f n)

namespace Prints
variable {f g : Printer ε} {P Q : String → Prop}

theorem congr (h : Prints N f P) (hfg : ∀ n o, g n o = f n o) : Prints N g P := by
  obtain rfl : g = f := funext fun n => funext fun o => hfg n o
  exact h

theorem texts (h : Prints N f P) (hPQ : ∀ x, P x ↔ Q x) : Prints N f Q := by
  obtain rfl : P = Q := funext fun x => propext (hPQ x)
  exact h

theorem between (hf : Prints N f P) (front behind : String) :
    Prints N (fun n o => f n (o.map (· ++ front)) >>= fun o => .ok (o.map (· ++ behind)))
      (fun x => ∃ y, P y ∧ x = front ++ y ++ behind) where
  stopped n := by rw [Option.map_none, hf.stopped]; rfl
  sound n o o' h := by
    obtain ⟨o₁, h₁, h⟩ := bind_ok h
    rw [Except.ok.injEq] at h
    obtain ⟨z, rfl, rfl⟩ := Option.map_eq_some_iff.mp h
    obtain ⟨y, hy, rfl⟩ := hf.sound n _ z h₁
    exact ⟨_, ⟨y, hy, rfl⟩, by simp only [String.append_assoc]⟩
  complete x hx n hn o := by
    obtain ⟨y, hy, rfl⟩ := hx
    rw [Option.map_some, hf.complete y hy n hn, ok_bind, Option.map_some]
    simp only [String.append_assoc]

theorem bind (hf : Prints N f P) (hg : Prints N g Q) : Prints N (fun n o => f n o >>= g n) (Then P Q) where
  stopped n := by rw [hf.stopped, ok_bind, hg.stopped]
  sound n o o' h := by
    obtain ⟨o₁, h₁, h₂⟩ := bind_ok h
    cases o₁ with
    | none => rw [hg.stopped] at h₂; cases h₂
    | some o₁ =>
      obtain ⟨x, hx, rfl⟩ := hf.sound n o o₁ h₁
      obtain ⟨y, hy, rfl⟩ := hg.sound n _ o' h₂
      exact ⟨x ++ y, ⟨x, y, hx, hy, rfl⟩, String.append_assoc⟩
  complete z hz n hn o := by
    obtain ⟨x, y, hx, hy, rfl⟩ := hz
    rw [hf.complete x hx n hn, ok_bind, hg.complete y hy n hn, String.append_assoc]

theorem each {f : ι → Printer ε} {item : ι → String → Prop} (hf : ∀ i, Prints N (f i) (item i)) :
    ∀ l : List ι, Prints N (fun n o => l.foldlM (fun o i => f i n o) o) (Each item l)
  | [] => {
      stopped := fun _ => rfl
      sound := fun n o o' h => by
        cases h
        exact ⟨"", .nil, String.append_empty.symm⟩
      complete := fun x hx n _ o => by
        cases hx
        rw [String.append_empty]; rfl }
  | i :: l => by
    refine (((hf i).bind (each hf l)).texts fun z => ⟨fun h => ?_, fun h => ?_⟩).congr fun n o => List.foldlM_cons
    · obtain ⟨x, y, hx, hy, rfl⟩ := h
      exact .cons hx hy
    · cases h with
      | cons hx hy => exact ⟨_, _, hx, hy, rfl⟩

end Prints

/-! ## Failing -/

structure Fails (N : Nat) (f : Printer ε) (F : Prop) : Prop where
  sound : ∀ n o e, f n (some o) = .error e → F
  complete : F → ∀ n ≥ N, ∀ o, ∃ e, f n (some o) = .error e

/-- An item is bad, and all before it are fine. -/
inductive Breaks (fine bad : ι → Prop) : List ι → Prop
  | here {i l} : bad i → Breaks fine bad (i :: l)
  | later {i l} : fine i → Breaks fine bad l → Breaks fine bad (i :: l)

/-- The chain comes to a bad node, and all before it are fine. -/
inductive BreaksAlong {α : Type*} (live : α → Bool) (next : α → α) (fine bad : α → Prop) : α → Prop
  | here {a} : live a = true → bad a → BreaksAlong live next fine bad a
  | later {a} : live a = true → fine a → BreaksAlong live next fine bad (next a) → BreaksAlong live next fine bad a

namespace Fails
variable {M : Nat} {f g : Printer ε} {P Q : String → Prop} {F G : Prop}

theorem congr (h : Fails M f F) (hfg : ∀ n o, g n o = f n o) : Fails M g F := by
  obtain rfl : g = f := funext fun n => funext fun o => hfg n o
  exact h

theorem iff (h : Fails M f F) (hFG : F ↔ G) : Fails M f G := propext hFG ▸ h

theorem between (hf : Fails M f F) (front behind : String) :
    Fails M (fun n o => f n (o.map (· ++ front)) >>= fun o => .ok (o.map (· ++ behind))) F where
  sound n o e h := by
    rcases bind_error h with h | ⟨_, _, h⟩
    · exact hf.sound n _ e h
    · cases h
  complete hF n hn o := by
    obtain ⟨e, he⟩ := hf.complete hF n hn (o ++ front)
    exact ⟨e, by rw [Option.map_some, he, error_bind]⟩

theorem bind (hM : N ≤ M) (hP : Prints N f P) (hQ : Prints N g Q) (hf : Fails M f F) (hg : Fails M g G) :
    Fails M (fun n o => f n o >>= g n) (F ∨ (∃ x, P x) ∧ G) where
  sound n o e h := by
    rcases bind_error h with h | ⟨o₁, h₁, h₂⟩
    · exact .inl (hf.sound n o e h)
    · cases o₁ with
      | none => rw [hQ.stopped] at h₂; cases h₂
      | some o₁ =>
        obtain ⟨x, hx, -⟩ := hP.sound n o o₁ h₁
        exact .inr ⟨⟨x, hx⟩, hg.sound n o₁ e h₂⟩
  complete h n hn o := by
    rcases h with hF | ⟨⟨x, hx⟩, hG⟩
    · obtain ⟨e, he⟩ := hf.complete hF n hn o
      exact ⟨e, by rw [he, error_bind]⟩
    · obtain ⟨e, he⟩ := hg.complete hG n hn (o ++ x)
      exact ⟨e, by rw [hP.complete x hx n (hM.trans hn), ok_bind, he]⟩

theorem each {f : ι → Printer ε} {item : ι → String → Prop} {bad : ι → Prop} (hM : N ≤ M)
    (hf : ∀ i, Prints N (f i) (item i)) (hbad : ∀ i, Fails M (f i) (bad i)) :
    ∀ l : List ι, Fails M (fun n o => l.foldlM (fun o i => f i n o) o) (Breaks (fun i => ∃ x, item i x) bad l)
  | [] => {
      sound := fun _ _ _ h => by cases h
      complete := fun h => by cases h }
  | i :: l => by
    refine ((Fails.bind hM (hf i) (Prints.each hf l) (hbad i) (each hM hf hbad l)).iff
      ⟨fun h => ?_, fun h => ?_⟩).congr fun n o => List.foldlM_cons
    · rcases h with h | ⟨hx, h⟩
      · exact .here h
      · exact .later hx h
    · cases h with
      | here h => exact .inl h
      | later hx h => exact .inr ⟨hx, h⟩

end Fails

/-! ## Loops -/

/-- Each round prints a text of the node it is at and moves on. -/
structure PrintsAlong (N : Nat) {σ : Type} {α : Type*} (cond : σ → Bool) (body : Nat → σ → Except ε σ)
    (live : α → Bool) (next : α → α) (item : α → String → Prop) (pos : σ → α) (out : σ → Option String) : Prop where
  cond_eq : ∀ s, cond s = (live (pos s) && (out s).isSome)
  sound : ∀ n s t o, out s = some o → live (pos s) = true → body n s = .ok t →
    pos t = next (pos s) ∧ ∀ o', out t = some o' → ∃ x, item (pos s) x ∧ o' = o ++ x
  complete : ∀ x n s o, N ≤ n → out s = some o → live (pos s) = true → item (pos s) x →
    ∃ t, body n s = .ok t ∧ pos t = next (pos s) ∧ out t = some (o ++ x)

theorem EachAlong.spells {α : Type*} {live : α → Bool} {next : α → α} {item : α → String → Prop} {a : α} {x : String}
    (h : EachAlong live next item a x) : ∃ as, Spells live next a as ∧ ∀ b ∈ as, ∃ y, item b y := by
  induction h with
  | done hl => exact ⟨[], hl, nofun⟩
  | @node a x y hl hx _ ih =>
    obtain ⟨as, hs, hitem⟩ := ih
    refine ⟨a :: as, ⟨rfl, hl, hs⟩, fun b hb => ?_⟩
    rcases List.mem_cons.mp hb with rfl | hb
    · exact ⟨x, hx⟩
    · exact hitem b hb

namespace PrintsAlong
variable {σ : Type} {α : Type*} {cond : σ → Bool} {body : Nat → σ → Except ε σ} {live : α → Bool} {next : α → α}
  {item : α → String → Prop} {pos : σ → α} {out : σ → Option String}
  (L : PrintsAlong N cond body live next item pos out)
include L

theorem run_sound (n : Nat) : ∀ (m : Nat) (s t : σ) (o o' : String), out s = some o → rounds cond (body n) m s = .ok t →
    live (pos t) = false → out t = some o' → ∃ x, EachAlong live next item (pos s) x ∧ o' = o ++ x
  | 0, s, t, o, o', hs, h, hl, ht => by
    cases h
    obtain rfl : o = o' := Option.some.inj (hs.symm.trans ht)
    exact ⟨"", .done hl, String.append_empty.symm⟩
  | m + 1, s, t, o, o', hs, h, hl, ht => by
    rw [rounds_succ, L.cond_eq, hs, Option.isSome_some, Bool.and_true] at h
    by_cases hlive : live (pos s) = true
    · rw [if_pos hlive] at h
      obtain ⟨u, hu, h⟩ := bind_ok h
      obtain ⟨hpos, hout⟩ := L.sound n s u o hs hlive hu
      cases hu' : out u with
      | none =>
        -- the loop is left here, with nothing printed
        rw [rounds_dead (by rw [L.cond_eq, hu', Option.isSome_none, Bool.and_false])] at h
        cases h
        rw [hu'] at ht; cases ht
      | some o₁ =>
        obtain ⟨x, hx, rfl⟩ := hout o₁ hu'
        obtain ⟨y, hy, rfl⟩ := run_sound n m u t _ o' hu' h hl ht
        exact ⟨x ++ y, .node hlive hx (hpos ▸ hy), String.append_assoc⟩
    · rw [if_neg hlive] at h
      cases h
      obtain rfl : o = o' := Option.some.inj (hs.symm.trans ht)
      exact ⟨"", .done hl, String.append_empty.symm⟩

theorem run_complete {a : α} {x : String} (h : EachAlong live next item a x) : ∀ {as : List α}, Spells live next a as →
    ∀ {n m : Nat}, N ≤ n → as.length ≤ m → ∀ s o, pos s = a → out s = some o →
      ∃ t, rounds cond (body n) m s = .ok t ∧ live (pos t) = false ∧ out t = some (o ++ x) := by
  induction h with
  | @done a hl =>
    intro as _ n m _ _ s o hp ho
    exact ⟨s, rounds_dead (by rw [L.cond_eq, hp, hl, Bool.false_and]) m, by rw [hp, hl], by rw [ho, String.append_empty]⟩
  | @node a x y hl hx _ ih =>
    intro as has n m hn hm s o hp ho
    cases as with
    | nil => rw [show live a = false from has] at hl; cases hl
    | cons b as =>
      obtain ⟨rfl, _, hrest⟩ := has
      -- there is a round left for every node of the chain
      obtain ⟨m, rfl⟩ := Nat.exists_eq_add_one_of_ne_zero (Nat.ne_of_gt (Nat.zero_lt_of_lt hm))
      obtain ⟨u, hu, hpu, hou⟩ := L.complete x n s o hn ho (hp ▸ hl) (hp ▸ hx)
      obtain ⟨t, ht, hlt, hot⟩ := ih hrest hn (Nat.le_of_succ_le_succ hm) u _ (hp ▸ hpu) hou
      refine ⟨t, ?_, hlt, by rw [hot, String.append_assoc]⟩
      rw [rounds_succ, L.cond_eq, hp, hl, ho, Option.isSome_some, Bool.and_true, if_pos rfl, hu, ok_bind, ht]

/-- The loop from the state that `start` makes of the text so far, if no chain
of nodes with texts is longer than `N`. -/
theorem prints {a : α} {start : String → σ} (hstart : ∀ o, pos (start o) = a ∧ out (start o) = some o)
    (hN : ∀ as, Spells live next a as → (∀ b ∈ as, ∃ y, item b y) → as.length ≤ N) :
    Prints N (printer fun n o => rounds cond (body n) n (start o) >>= fun t =>
      .ok (if live (pos t) then none else out t)) (EachAlong live next item a) where
  stopped _ := rfl
  sound n o o' h := by
    obtain ⟨t, ht, h⟩ := bind_ok h
    rw [Except.ok.injEq] at h
    split at h
    · cases h
    · rename_i hl
      obtain ⟨x, hx, ho⟩ := L.run_sound n n _ t o o' (hstart o).2 ht (Bool.eq_false_iff.mpr hl) h
      exact ⟨x, (hstart o).1 ▸ hx, ho⟩
  complete x hx n hn o := by
    obtain ⟨as, has, hitem⟩ := hx.spells
    obtain ⟨t, ht, hl, ho⟩ :=
      L.run_complete hx has hn ((hN as has hitem).trans hn) (start o) o (hstart o).1 (hstart o).2
    show rounds cond (body n) n (start o) >>= _ = _
    rw [ht, ok_bind, if_neg (Bool.eq_false_iff.mp hl), ho]

end PrintsAlong

/-- A round fails at the bad nodes, and at no other. -/
structure FailsAlong (M : Nat) {σ : Type} {α : Type*} (body : Nat → σ → Except ε σ) (live : α → Bool)
    (bad : α → Prop) (pos : σ → α) (out : σ → Option String) : Prop where
  sound : ∀ n s e o, out s = some o → live (pos s) = true → body n s = .error e → bad (pos s)
  complete : ∀ n s o, M ≤ n → out s = some o → live (pos s) = true → bad (pos s) → ∃ e, body n s = .error e

namespace PrintsAlong
variable {M : Nat} {σ : Type} {α : Type*} {cond : σ → Bool} {body : Nat → σ → Except ε σ} {live : α → Bool}
  {next : α → α} {item : α → String → Prop} {bad : α → Prop} {pos : σ → α} {out : σ → Option String}
  (L : PrintsAlong N cond body live next item pos out) (B : FailsAlong M body live bad pos out)
include L B

theorem breaks_of_error (n : Nat) : ∀ (m : Nat) (s : σ) (e : ε) (o : String), out s = some o →
    rounds cond (body n) m s = .error e → BreaksAlong live next (fun a => ∃ x, item a x) bad (pos s)
  | 0, _, _, _, _, h => by cases h
  | m + 1, s, e, o, hs, h => by
    rw [rounds_succ, L.cond_eq, hs, Option.isSome_some, Bool.and_true] at h
    by_cases hlive : live (pos s) = true
    · rw [if_pos hlive] at h
      rcases bind_error h with h | ⟨u, hu, h⟩
      · exact .here hlive (B.sound n s e o hs hlive h)
      · obtain ⟨hpos, hout⟩ := L.sound n s u o hs hlive hu
        cases hu' : out u with
        | none =>
          -- the loop is left here, and nothing fails behind it
          rw [rounds_dead (by rw [L.cond_eq, hu', Option.isSome_none, Bool.and_false])] at h
          cases h
        | some o₁ =>
          obtain ⟨x, hx, -⟩ := hout o₁ hu'
          have ih := breaks_of_error n m u e o₁ hu' h
          rw [hpos] at ih
          exact .later hlive ⟨x, hx⟩ ih
    · rw [if_neg hlive] at h
      cases h

open Classical in
/-- The loop comes to the bad node in one round more than there are nodes
before it. These are spelled by the chain as far as it is fine. -/
theorem error_of_breaks (hM : N ≤ M) (hbad : ∀ a, bad a → ¬ ∃ x, item a x) {a : α}
    (h : BreaksAlong live next (fun a => ∃ x, item a x) bad a) :
    ∃ as, Spells (fun b => decide (∃ x, item b x)) next a as ∧ (∀ b ∈ as, ∃ x, item b x) ∧
      ∀ n m, M ≤ n → as.length < m → ∀ s o, pos s = a → out s = some o → ∃ e, rounds cond (body n) m s = .error e := by
  induction h with
  | @here a hl hb =>
    refine ⟨[], decide_eq_false (hbad a hb), nofun, fun n m hn hm s o hp ho => ?_⟩
    obtain ⟨m, rfl⟩ := Nat.exists_eq_add_one_of_ne_zero (Nat.ne_of_gt hm)
    obtain ⟨e, he⟩ := B.complete n s o hn ho (hp ▸ hl) (hp ▸ hb)
    refine ⟨e, ?_⟩
    rw [rounds_succ, L.cond_eq, hp, hl, ho, Option.isSome_some, Bool.and_true, if_pos rfl, he, error_bind]
  | @later a hl hx _ ih =>
    obtain ⟨as, has, hfine, hrun⟩ := ih
    refine ⟨a :: as, ⟨rfl, decide_eq_true hx, has⟩, fun b hb => ?_, fun n m hn hm s o hp ho => ?_⟩
    · rcases List.mem_cons.mp hb with rfl | hb
      · exact hx
      · exact hfine b hb
    · obtain ⟨m, rfl⟩ := Nat.exists_eq_add_one_of_ne_zero (Nat.ne_of_gt (Nat.zero_lt_of_lt hm))
      obtain ⟨x, hx⟩ := hx
      obtain ⟨u, hu, hpu, hou⟩ := L.complete x n s o (hM.trans hn) ho (hp ▸ hl) (hp ▸ hx)
      obtain ⟨e, he⟩ := hrun n m hn (Nat.lt_of_succ_lt_succ hm) u _ (hp ▸ hpu) hou
      refine ⟨e, ?_⟩
      rw [rounds_succ, L.cond_eq, hp, hl, ho, Option.isSome_some, Bool.and_true, if_pos rfl, hu, ok_bind, he]

/-- The loop fails, if there are fewer than `M` nodes with texts along any chain. -/
theorem fails (hM : N ≤ M) (hbad : ∀ a, bad a → ¬ ∃ x, item a x) {a : α} {start : String → σ}
    (hstart : ∀ o, pos (start o) = a ∧ out (start o) = some o)
    (hN : ∀ (fine : α → Bool) (as : List α), Spells fine next a as → (∀ b ∈ as, ∃ x, item b x) → as.length < M) :
    Fails M (printer fun n o => rounds cond (body n) n (start o) >>= fun t =>
      .ok (if live (pos t) then none else out t)) (BreaksAlong live next (fun a => ∃ x, item a x) bad a) where
  sound n o e h := by
    rcases bind_error h with h | ⟨t, _, h⟩
    · exact (hstart o).1 ▸ L.breaks_of_error B n n _ e o (hstart o).2 h
    · cases h
  complete h n hn o := by
    obtain ⟨as, has, hfine, hrun⟩ := L.error_of_breaks B hM hbad h
    obtain ⟨e, he⟩ := hrun n n hn ((hN _ as has hfine).trans_le hn) (start o) o (hstart o).1 (hstart o).2
    refine ⟨e, ?_⟩
    show rounds cond (body n) n (start o) >>= _ = _
    rw [he, error_bind]

end PrintsAlong

end Printing
