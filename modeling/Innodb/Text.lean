import Mathlib.Data.List.Forall2

/-!
# What a printed text tells

Texts are written piece by piece. A piece can be read off the front of a text
when the text determines it and what follows it: a literal always, a number
when what comes behind it begins with no digit, a run of items when what comes
behind it is not the beginning of an item.
-/

namespace Text

def num (n : Nat) : String := n.repr

def int : Int → String
  | .ofNat n => num n
  | .negSucc n => "-" ++ num (n + 1)

/-- A `char`, as the character with its code. -/
def char (b : UInt8) : String := String.singleton (Char.ofNat b.toNat)

/-- The low `n` bits of `v`, the highest first. -/
def bits (v : Nat) : Nat → String
  | 0 => ""
  | n + 1 => (if v.testBit n then "1" else "0") ++ bits v n

/-- The texts of the items, one behind the other. -/
def run {α : Type*} (f : α → String) : List α → String
  | [] => ""
  | a :: l => f a ++ run f l

theorem run_append {α : Type*} (f : α → String) (l l' : List α) : run f (l ++ l') = run f l ++ run f l' := by
  induction l with
  | nil => rw [run, List.nil_append, String.empty_append]
  | cons a l ih => rw [List.cons_append, run, run, ih, String.append_assoc]

theorem run_map {α β : Type*} (f : β → String) (g : α → β) (l : List α) : run f (l.map g) = run (fun a => f (g a)) l := by
  induction l with
  | nil => rfl
  | cons a l ih => rw [List.map_cons, run, run, ih]

def runs {ι α : Type*} (f : ι → α → String) : List ι → List α → String
  | [], _ => ""
  | _ :: _, [] => ""
  | i :: l, a :: as => f i a ++ runs f l as

theorem runs_const {ι α : Type*} (f : α → String) : ∀ {l : List ι} {as : List α}, l.length = as.length →
    runs (fun _ => f) l as = run f as
  | [], [], _ => rfl
  | _ :: _, _ :: _, h => by rw [runs, run, runs_const f (Nat.succ.inj h)]

theorem run_flatten {α : Type*} (f : α → String) (ls : List (List α)) : run f ls.flatten = run (run f) ls := by
  induction ls with
  | nil => rfl
  | cons l ls ih => rw [List.flatten_cons, run_append, run, ih]

/-! ## How a text begins -/

def Begins (c : Char) (x : String) : Prop := x.toList.head? = some c

instance (c : Char) (x : String) : Decidable (Begins c x) := inferInstanceAs (Decidable (x.toList.head? = some c))

theorem Begins.append {c : Char} {u : String} (h : Begins c u) (x : String) : Begins c (u ++ x) := by
  unfold Begins at *
  rw [String.toList_append, List.head?_append, h, Option.some_or]

theorem Begins.unique {c d : Char} {x : String} (h : Begins c x) (h' : Begins d x) : c = d :=
  Option.some.inj (h.symm.trans h')

theorem append_ne {c d : Char} {u v : String} (hu : Begins c u) (hv : Begins d v) (hcd : c ≠ d) (x y : String) :
    u ++ x ≠ v ++ y :=
  fun h => hcd ((hu.append x).unique (h ▸ hv.append y))

/-! ## Up to a separator -/

/-- The first character of `sep` is none of those in `u`. -/
def Before (u sep : String) : Prop := ∃ c ∈ sep.toList.head?, c ∉ u.toList

theorem cons_split {α : Type*} {c : α} : ∀ {u v x y : List α}, c ∉ u → c ∉ v → u ++ c :: x = v ++ c :: y →
    u = v ∧ x = y
  | [], [], _, _, _, _, h => ⟨rfl, List.tail_eq_of_cons_eq h⟩
  | [], b :: _, _, _, _, hv, h => by
    rw [List.nil_append, List.cons_append] at h
    exact absurd (List.head_eq_of_cons_eq h ▸ List.mem_cons_self) hv
  | a :: _, [], _, _, hu, _, h => by
    rw [List.nil_append, List.cons_append] at h
    exact absurd (List.head_eq_of_cons_eq h ▸ List.mem_cons_self) hu
  | a :: u, b :: v, _, _, hu, hv, h => by
    rw [List.cons_append, List.cons_append, List.cons.injEq] at h
    obtain ⟨rfl, rfl⟩ := cons_split (List.not_mem_of_not_mem_cons hu) (List.not_mem_of_not_mem_cons hv) h.2
    exact ⟨by rw [h.1], rfl⟩

theorem before_append {u v sep x y : String} (hu : Before u sep) (hv : Before v sep) :
    u ++ (sep ++ x) = v ++ (sep ++ y) ↔ u = v ∧ x = y := by
  obtain ⟨c, hc, hcu⟩ := hu
  obtain ⟨c', hc', hcv⟩ := hv
  obtain rfl := Option.mem_unique hc hc'
  obtain ⟨rest, hrest⟩ := List.head?_eq_some_iff.mp hc
  refine ⟨fun h => ?_, fun h => by rw [h.1, h.2]⟩
  have hlist := congrArg String.toList h
  simp only [String.toList_append, hrest, List.cons_append] at hlist
  obtain ⟨huv, hxy⟩ := cons_split hcu hcv hlist
  exact ⟨String.toList_inj.mp huv, String.toList_inj.mp (List.append_cancel_left hxy)⟩

/-! ## Numbers -/

theorem num_inj {m n : Nat} : num m = num n ↔ m = n := by
  refine ⟨fun h => ?_, fun h => by rw [h]⟩
  have hdigits : Nat.toDigits 10 m = Nat.toDigits 10 n := by
    rw [← Nat.toList_repr, ← Nat.toList_repr]
    exact congrArg String.toList h
  rw [← Nat.ofDigitChars_toDigits (b := 10) (n := m) (by decide) (by decide), hdigits,
    Nat.ofDigitChars_toDigits (by decide) (by decide)]

theorem num_isDigit {n : Nat} {c : Char} (h : c ∈ (num n).toList) : c.isDigit = true := by
  rw [num, Nat.toList_repr] at h
  exact Nat.isDigit_of_mem_toDigits (by decide) (by decide) h

theorem int_inj {i j : Int} : int i = int j ↔ i = j := by
  -- a natural number is printed without a sign
  have hsign : ∀ m n : Nat, num m ≠ "-" ++ num n := by
    intro m n h
    have hmem : '-' ∈ (num m).toList := by
      rw [h, String.toList_append]
      exact List.mem_append_left _ (by decide)
    exact absurd (num_isDigit hmem) (by decide)
  cases i with
  | ofNat m =>
    cases j with
    | ofNat n => rw [int, int, num_inj]; exact Int.ofNat_inj.symm
    | negSucc n => exact iff_of_false (hsign m (n + 1)) nofun
  | negSucc m =>
    cases j with
    | ofNat n => exact iff_of_false (fun h => hsign n (m + 1) h.symm) nofun
    | negSucc n => rw [int, int, String.append_right_inj, num_inj, Nat.succ_inj, Int.negSucc_inj]

/-- No number begins where `sep` does. -/
def NonDigit (sep : String) : Prop := ∃ c ∈ sep.toList.head?, c.isDigit = false ∧ c ≠ '-'

instance (sep : String) : Decidable (NonDigit sep) :=
  decidable_of_iff (sep.toList.head?.any fun c => !c.isDigit && c != '-') (by simp [NonDigit, Option.any_eq_true])

theorem before_num {sep : String} (h : NonDigit sep) (n : Nat) : Before (num n) sep := by
  obtain ⟨c, hc, hdigit, _⟩ := h
  exact ⟨c, hc, fun hmem => absurd (num_isDigit hmem) (by rw [hdigit]; decide)⟩

theorem before_int {sep : String} (h : NonDigit sep) (i : Int) : Before (int i) sep := by
  obtain ⟨c, hc, hdigit, hneg⟩ := h
  cases i with
  | ofNat n => exact before_num ⟨c, hc, hdigit, hneg⟩ n
  | negSucc n =>
    refine ⟨c, hc, fun hmem => ?_⟩
    rw [int, String.toList_append] at hmem
    rcases List.mem_append.mp hmem with hmem | hmem
    · exact hneg (List.mem_singleton.mp hmem)
    · exact absurd (num_isDigit hmem) (by rw [hdigit]; decide)

theorem num_not_nonDigit (n : Nat) (x : String) : ¬ NonDigit (num n ++ x) := by
  intro h
  obtain ⟨c, hc, hdigit, _⟩ := h
  cases hn : (num n).toList with
  | nil => exact Nat.repr_ne_empty (String.toList_inj.mp hn)
  | cons d l =>
    rw [String.toList_append, hn, List.cons_append, List.head?_cons, Option.mem_some_iff] at hc
    subst hc
    exact absurd (num_isDigit (hn ▸ List.mem_cons_self)) (by rw [hdigit]; decide)

theorem int_not_nonDigit (i : Int) (x : String) : ¬ NonDigit (int i ++ x) := by
  cases i with
  | ofNat n => exact num_not_nonDigit n x
  | negSucc n =>
    intro h
    obtain ⟨c, hc, _, hneg⟩ := h
    rw [int, String.append_assoc, String.toList_append] at hc
    exact hneg (Option.mem_some_iff.mp hc).symm

section
variable {sep x y : String}

theorem num_append (h : NonDigit sep) {m n : Nat} : num m ++ (sep ++ x) = num n ++ (sep ++ y) ↔ m = n ∧ x = y := by
  rw [before_append (before_num h m) (before_num h n), num_inj]

theorem int_append (h : NonDigit sep) {i j : Int} : int i ++ (sep ++ x) = int j ++ (sep ++ y) ↔ i = j ∧ x = y := by
  rw [before_append (before_int h i) (before_int h j), int_inj]

end

/-! ## Characters and bits -/

theorem char_append {b c : UInt8} {x y : String} : char b ++ x = char c ++ y ↔ b = c ∧ x = y := by
  refine ⟨fun h => ?_, fun h => by rw [h.1, h.2]⟩
  have hlist := congrArg String.toList h
  simp only [char, String.toList_append, String.toList_singleton, List.cons_append, List.nil_append] at hlist
  obtain ⟨hchar, hrest⟩ := List.cons.inj hlist
  have hvalid : ∀ b : UInt8, (Char.ofNat b.toNat).toNat = b.toNat := by
    intro b
    have hlt : b.toNat.isValidChar := .inl (Nat.lt_trans b.toNat_lt (by decide))
    rw [Char.ofNat, dif_pos hlt]; rfl
  refine ⟨UInt8.toNat_inj.mp ?_, String.toList_inj.mp hrest⟩
  rw [← hvalid b, hchar, hvalid c]

theorem bits_append {v w : Nat} {x y : String} : ∀ {n : Nat}, bits v n ++ x = bits w n ++ y ↔
    (∀ k < n, v.testBit k = w.testBit k) ∧ x = y
  | 0 => by simp [bits]
  | n + 1 => by
    have hone : ∀ {b c : Bool} {x y : String}, (if b then "1" else "0") ++ x = (if c then "1" else "0") ++ y ↔
        b = c ∧ x = y := by
      intro b c x y
      have hne : "1" ++ x ≠ "0" ++ y ∧ "0" ++ x ≠ "1" ++ y := by
        refine ⟨fun h => ?_, fun h => ?_⟩
        · have := congrArg String.toList h
          simp at this
        · have := congrArg String.toList h
          simp at this
      cases b <;> cases c <;> simp [hne.1, hne.2]
    rw [bits, bits, String.append_assoc, String.append_assoc, hone, bits_append, ← and_assoc]
    refine and_congr_left fun _ => ⟨fun h k hk => ?_, fun h => ⟨h n n.lt_succ_self, fun k hk => h k (by omega)⟩⟩
    rcases Nat.lt_succ_iff_lt_or_eq.mp hk with hk | rfl
    · exact h.2 k hk
    · exact h.1

/-! ## Runs of items -/

theorem run_append_length {α β : Type*} {f : α → String} {view : α → β}
    (hf : ∀ a b x y, f a ++ x = f b ++ y ↔ view a = view b ∧ x = y) {x y : String} :
    ∀ {l l' : List α}, l.length = l'.length → (run f l ++ x = run f l' ++ y ↔ l.map view = l'.map view ∧ x = y)
  | [], [], _ => by simp [run]
  | a :: l, b :: l', h => by
    rw [run, run, String.append_assoc, String.append_assoc, hf, run_append_length hf (Nat.succ.inj h), List.map_cons,
      List.map_cons, List.cons.injEq, and_assoc]

/-- A run is over where `E` holds of what comes next; an item is read off where
`Q` does. -/
theorem run_append_over {α β : Type*} {f : α → String} {v : α → β} {E Q : String → Prop}
    (hf : ∀ a b x y, Q x → Q y → (f a ++ x = f b ++ y ↔ v a = v b ∧ x = y))
    (hitem : ∀ a x, Q (f a ++ x) ∧ ¬ E (f a ++ x)) (hE : ∀ x, E x → Q x)
    {x y : String} (hx : E x) (hy : E y) : ∀ {l l' : List α},
    run f l ++ x = run f l' ++ y ↔ l.map v = l'.map v ∧ x = y
  | [], [] => by simp [run]
  -- one run is over where the other has an item left
  | [], b :: l' => by
    rw [run, run, String.empty_append, String.append_assoc]
    exact iff_of_false (fun h => (hitem b _).2 (h ▸ hx)) nofun
  | a :: l, [] => by
    rw [run, run, String.empty_append, String.append_assoc]
    exact iff_of_false (fun h => (hitem a _).2 (h ▸ hy)) nofun
  | a :: l, b :: l' => by
    have hQ : ∀ (l : List α) {x : String}, E x → Q (run f l ++ x) := by
      intro l x hx
      cases l with
      | nil => rw [run, String.empty_append]; exact hE x hx
      | cons a l => rw [run, String.append_assoc]; exact (hitem a _).1
    rw [run, run, String.append_assoc, String.append_assoc, hf a b _ _ (hQ l hx) (hQ l' hy),
      run_append_over hf hitem hE hx hy, List.map_cons, List.map_cons, List.cons.injEq, and_assoc]

section
variable {ι α β : Type*} {f : ι → α → String} {Q : String → Prop} {R R' : ι → α → Prop}

theorem runs_next {l : List ι} {as : List α} (h : List.Forall₂ R l as)
    (hQ : ∀ i ∈ l, ∀ a x, R i a → Q x → Q (f i a ++ x)) {x : String} (hx : Q x) :
    Q (runs f l as ++ x) := by
  induction h with
  | nil => rwa [runs, String.empty_append]
  | cons ha _ ih =>
    rw [runs, String.append_assoc]
    exact hQ _ List.mem_cons_self _ _ ha (ih fun j hj => hQ j (List.mem_cons_of_mem _ hj))

theorem runs_append {v : α → β} {l : List ι} {as bs : List α} (has : List.Forall₂ R l as)
    (hbs : List.Forall₂ R' l bs) (hQ : ∀ i ∈ l, ∀ a x, R i a ∨ R' i a → Q x → Q (f i a ++ x))
    (hf : ∀ i ∈ l, ∀ a b x y, R i a → R' i b → Q x → Q y →
      (f i a ++ x = f i b ++ y ↔ v a = v b ∧ x = y)) {x y : String} (hx : Q x) (hy : Q y) :
    runs f l as ++ x = runs f l bs ++ y ↔ as.map v = bs.map v ∧ x = y := by
  induction has generalizing bs with
  | nil =>
    cases hbs
    simp [runs]
  | @cons i a l as ha has ih =>
    cases hbs with
    | cons hb hbs =>
      have hl : ∀ j ∈ l, ∀ a x, R j a ∨ R' j a → Q x → Q (f j a ++ x) := fun j hj =>
        hQ j (List.mem_cons_of_mem i hj)
      rw [runs, runs, String.append_assoc, String.append_assoc, hf i List.mem_cons_self _ _ _ _ ha hb
        (runs_next has (fun j hj a x h => hl j hj a x (.inl h)) hx)
        (runs_next hbs (fun j hj a x h => hl j hj a x (.inr h)) hy),
        ih hbs hl fun j hj => hf j (List.mem_cons_of_mem i hj), List.map_cons, List.map_cons, List.cons.injEq, and_assoc]

end

end Text
