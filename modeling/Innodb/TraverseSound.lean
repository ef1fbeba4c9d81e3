import Innodb.Lists
import Innodb.ReaderSound

/-!
# Traversals follow their chains

Either traversal is a loop that follows the chain of next addresses from the
list's first one, whatever the callback does with the reader in between. What
it does is read off the chain.
-/

namespace Innodb
open Loop

def NoFault {α : Type} (r : Except Fault α) : Prop := ∃ x, r = .ok x

theorem noFault_ok {α : Type} (x : α) : NoFault (.ok x : Except Fault α) := ⟨x, rfl⟩

theorem not_noFault {α : Type} {r : Except Fault α} (h : ∃ e, r = .error e) : ¬ NoFault r := by
  intro hx
  obtain ⟨x, hx⟩ := hx
  obtain ⟨e, he⟩ := h
  rw [hx] at he; cases he

theorem guarded_safe_iff {α : Type} {a : Addr} {v : α} {x : Except Fault α} {Safe : Prop}
    (hx : a.valid = true → (NoFault x ↔ Safe)) (hv : ¬ a.valid = true → Safe) :
    NoFault (if !a.valid then .ok v else x) ↔ Safe := by
  by_cases h : a.valid = true
  · simp only [h, Bool.not_true, Bool.false_eq_true, if_false]; exact hx h
  · simp only [h, Bool.not_false, if_true]; exact ⟨fun _ => hv h, fun _ => noFault_ok _⟩

theorem guarded_ok {α : Type} {a : Addr} {v y : α} {x : Except Fault α}
    (h : (if !a.valid then .ok v else x) = .ok y) : y = v ∨ x = .ok y := by
  split at h
  · cases h; exact .inl rfl
  · exact .inr h

/-- A callback that returns, and uses the reader only through its operations. -/
structure Callback (file : Option File) (σ ρ : Type) where
  run : Func σ ρ
  returns : ∀ x a u s, Reachable file s → ∃ u' s', run x a u s = .ok (u', s') ∧ Steps file s s'

def Callback.ignore (file : Option File) (ρ : Type) : Callback file Unit ρ where
  run _ _ u s := .ok (u, s)
  returns _ _ u s _ := ⟨u, s, rfl, .refl⟩

/-! ## The chain of a list -/

namespace ListBaseNode
variable (l : ListBaseNode) (next : Addr → Addr)

def chain (n : Nat) : List Addr := if l.listLength = 0 then [] else walk Addr.valid next n l.firstAddr

def nth (k : Nat) : Option Addr := if l.listLength = 0 then none else Loop.nth Addr.valid next k l.firstAddr

def All (good : Addr → Prop) : Prop := l.listLength = 0 ∨ Along Addr.valid next good l.firstAddr

def Finite : Prop := l.listLength = 0 ∨ Ends Addr.valid next l.firstAddr

variable {l next}

theorem chain_empty (h : l.listLength = 0) (n : Nat) : l.chain next n = [] := if_pos h

theorem chain_walk (h : l.listLength ≠ 0) (n : Nat) : l.chain next n = walk Addr.valid next n l.firstAddr :=
  if_neg h

theorem All.good {good : Addr → Prop} (h : l.All next good) (n : Nat) : ∀ a ∈ l.chain next n, good a := by
  intro a ha
  rcases h with h | h
  · rw [chain_empty h] at ha; cases ha
  · rw [chain] at ha
    split at ha
    · cases ha
    · exact h n a ha

theorem chain_getElem? (n k : Nat) : (l.chain next n)[k]? = if k < n then l.nth next k else none := by
  unfold chain nth
  split
  · rw [List.getElem?_nil, ite_self]
  · rw [walk_getElem?]

theorem mem_chain {n : Nat} {a : Addr} : a ∈ l.chain next n ↔ ∃ k < n, l.nth next k = some a := by
  rw [List.mem_iff_getElem?]
  refine exists_congr fun k => ?_
  rw [chain_getElem?]
  by_cases hk : k < n
  · rw [if_pos hk, and_iff_right hk]
  · rw [if_neg hk]
    exact iff_of_false nofun fun h => hk h.1

theorem All.nth_good {good : Addr → Prop} (h : l.All next good) {k : Nat} {a : Addr} (hk : l.nth next k = some a) :
    good a := by
  refine h.good (k + 1) a (List.mem_of_getElem? (i := k) ?_)
  rw [chain_getElem?, if_pos (Nat.lt_succ_self k), hk]

theorem nth_valid {k : Nat} {a : Addr} (h : l.nth next k = some a) : a.valid = true := by
  rw [nth] at h
  split at h
  · cases h
  · exact nth_live h

theorem nth_zero : l.nth next 0 =
    if l.listLength = 0 then none else if l.firstAddr.valid then some l.firstAddr else none := rfl

theorem nth_succ (k : Nat) : l.nth next (k + 1) =
    (l.nth next k).bind fun a => if (next a).valid then some (next a) else none := by
  unfold nth
  split <;> rfl

theorem guarded_safe_iff {α : Type} (l : ListBaseNode) {a : Addr} {v : α} {x : Except Fault α} {Safe : Prop}
    (hx : a.valid = true → (NoFault x ↔ Safe)) (hv : ¬ a.valid = true → Safe) :
    NoFault (if l.listLength = 0 then .ok v else if !a.valid then .ok v else x) ↔ (l.listLength ≠ 0 → Safe) := by
  by_cases h0 : l.listLength = 0
  · rw [if_pos h0]; exact ⟨fun _ h => absurd h0 h, fun _ => noFault_ok _⟩
  · rw [if_neg h0, Innodb.guarded_safe_iff hx hv]; exact ⟨fun h _ => h, fun h => h h0⟩

theorem guarded_ok {α : Type} (l : ListBaseNode) {a : Addr} {v y : α} {x : Except Fault α}
    (h : (if l.listLength = 0 then .ok v else if !a.valid then .ok v else x) = .ok y) : y = v ∨ x = .ok y := by
  split at h
  · cases h; exact .inl rfl
  · exact Innodb.guarded_ok h

theorem not_finite_of_revisit (h0 : l.listLength ≠ 0) {i j : Nat} (hij : i < j)
    (h : next^[i] l.firstAddr = next^[j] l.firstAddr) (hl : ∀ k < j, (next^[k] l.firstAddr).valid = true) :
    ¬ l.Finite next := by
  rintro (h' | h')
  · exact h0 h'
  · exact not_ends_of_revisit hij h hl h'

end ListBaseNode

/-! ## Following it -/

section
variable {file : Option File} {σ ρ γ : Type} {round : Traversal σ ρ → Except Fault (Traversal σ ρ)}
  {next : Addr → Addr} {good : Addr → Prop} {node : Addr → γ} {see : ρ → γ}

/-- A round follows the chain. It calls the function with the node at the
address, as far as `see` shows it. -/
abbrev RoundFollows (file : Option File) (round : Traversal σ ρ → Except Fault (Traversal σ ρ)) (next : Addr → Addr)
    (good : Addr → Prop) (node : Addr → γ) (see : ρ → γ) : Prop :=
  Follows (fun t : Traversal σ ρ => t.cur.valid) round Addr.valid next good (fun a => (node a, a))
    (fun t => Reachable file t.reader) (fun t => t.cur) (fun t => t.calls.map fun c => (see c.1, c.2))

variable (F : RoundFollows file round next good node see) {s : FileSpaceReader} (hs : Reachable file s)
  (l : ListBaseNode) (u : σ)
include F hs

theorem traverse_run {n : Nat} (hg : ∀ a ∈ l.chain next n, good a) :
    ∃ t, traverse round l n u s = .ok t ∧ Reachable file t.reader ∧
      t.calls.map (fun c => (see c.1, c.2)) = (l.chain next n).map (fun a => (node a, a)) ∧
      (returned l t = true ↔ l.listLength = 0 ∨ (after Addr.valid next n l.firstAddr).valid = false) := by
  by_cases h0 : l.listLength = 0
  · refine ⟨⟨⟨0, 0⟩, [], u, s⟩, ?_, hs, ?_, ?_⟩
    · unfold traverse
      rw [h0]; rfl
    · rw [ListBaseNode.chain_empty h0]; rfl
    · simp [returned, h0]
  · rw [ListBaseNode.chain_walk h0] at hg ⊢
    obtain ⟨t, ht, hr, hp, hlog⟩ := F.run n ⟨l.firstAddr, [], u, s⟩ hs hg
    refine ⟨t, ?_, hr, hlog, ?_⟩
    · unfold traverse
      rw [if_pos (UInt32.pos_iff_ne_zero.mpr h0)]; exact ht
    · simp [returned, h0, hp]

theorem traverse_safe_iff : (∀ n, NoFault (traverse round l n u s)) ↔ l.All next good := by
  refine ⟨fun h => ?_, fun h n => ?_⟩
  · refine Classical.or_iff_not_imp_left.mpr fun h0 => ?_
    refine (F.safe_iff (s := ⟨l.firstAddr, [], u, s⟩) hs).mp fun n e he => ?_
    obtain ⟨t, ht⟩ := h n
    rw [traverse, if_pos (UInt32.pos_iff_ne_zero.mpr h0), he] at ht; cases ht
  · obtain ⟨t, ht, _⟩ := traverse_run F hs l u (h.good n)
    exact ⟨t, ht⟩

theorem traverse_returns_iff (hg : l.All next good) :
    (∃ n t, traverse round l n u s = .ok t ∧ returned l t = true) ↔ l.Finite next := by
  have hfin : l.Finite next ↔ ∃ n, l.listLength = 0 ∨ (after Addr.valid next n l.firstAddr).valid = false := by
    unfold ListBaseNode.Finite
    rw [ends_iff, exists_or, exists_const]
  rw [hfin]
  refine exists_congr fun n => ?_
  obtain ⟨t, ht, _, _, hret⟩ := traverse_run F hs l u (hg.good n)
  rw [← hret]
  refine ⟨fun hx => ?_, ?_⟩
  · obtain ⟨t', ht', h⟩ := hx
    rw [ht] at ht'; cases ht'; exact h
  · exact fun h => ⟨t, ht, h⟩

theorem traverse_spells {as : List Addr} (h : l.listLength = 0 ∧ as = [] ∨
      l.listLength ≠ 0 ∧ Spells Addr.valid next l.firstAddr as) (hg : ∀ a ∈ as, good a) :
    ∃ n t, traverse round l n u s = .ok t ∧ returned l t = true ∧
      t.calls.map (fun c => (see c.1, c.2)) = as.map fun a => (node a, a) := by
  have hc : l.chain next as.length = as := by
    rcases h with ⟨h0, rfl⟩ | ⟨h0, h⟩
    · exact ListBaseNode.chain_empty h0 _
    · rw [ListBaseNode.chain_walk h0, h.walk_eq]
  obtain ⟨t, ht, _, hlog, hret⟩ := traverse_run F hs l u (n := as.length) (by rwa [hc])
  refine ⟨as.length, t, ht, hret.mpr (h.imp (·.1) fun h => h.2.after_dead), by rw [hlog, hc]⟩

theorem traverse_good {n : Nat} {t : Traversal σ ρ} (h : traverse round l n u s = .ok t) :
    ∀ a ∈ l.chain next n, good a := by
  intro a ha
  refine Classical.byContradiction fun hna => ?_
  by_cases h0 : l.listLength = 0
  · rw [ListBaseNode.chain_empty h0] at ha; cases ha
  · rw [ListBaseNode.chain_walk h0] at ha
    obtain ⟨e, he⟩ := F.fail n ⟨l.firstAddr, [], u, s⟩ hs ⟨a, ha, hna⟩
    rw [traverse, if_pos (UInt32.pos_iff_ne_zero.mpr h0), he] at h; cases h

theorem traverse_call {n : Nat} {t : Traversal σ ρ} (h : traverse round l n u s = .ok t) (k : Nat) :
    t.calls[k]?.map (fun c => (see c.1, c.2)) =
      if k < n then (l.nth next k).map fun a => (node a, a) else none := by
  obtain ⟨t', ht', _, hlog, _⟩ := traverse_run F hs l u (traverse_good F hs l u h)
  rw [h] at ht'; cases ht'
  rw [← List.getElem?_map, hlog, List.getElem?_map, ListBaseNode.chain_getElem?]
  split <;> rfl

/-- A call of the function is reached over good addresses only. -/
theorem traverse_reaches (k : Nat) : (∃ n t, traverse round l n u s = .ok t ∧ k < t.calls.length) ↔
    l.nth next k ≠ none ∧ ∀ a ∈ l.chain next (k + 1), good a := by
  constructor
  · rintro ⟨n, t, ht, hk⟩
    have hcall := traverse_call F hs l u ht k
    rw [List.getElem?_eq_getElem hk, Option.map_some] at hcall
    split at hcall
    · rename_i hkn
      refine ⟨fun hnone => ?_, fun a ha => ?_⟩
      · rw [hnone, Option.map_none] at hcall; cases hcall
      · obtain ⟨m, hm, hma⟩ := ListBaseNode.mem_chain.mp ha
        exact traverse_good F hs l u ht a (ListBaseNode.mem_chain.mpr ⟨m, by omega, hma⟩)
    · cases hcall
  · rintro ⟨hsome, hg⟩
    obtain ⟨t, ht, _⟩ := traverse_run F hs l u hg
    have hcall := traverse_call F hs l u ht k
    refine ⟨k + 1, t, ht, Nat.lt_of_not_le fun hlen => hsome ?_⟩
    rw [List.getElem?_eq_none hlen, if_pos (Nat.lt_succ_self k)] at hcall
    exact Option.map_eq_none_iff.mp hcall.symm

omit F hs in
theorem calls_addr {t : Traversal σ ρ} {as : List Addr}
    (h : t.calls.map (fun c => (see c.1, c.2)) = as.map fun a => (node a, a)) : t.calls.map Prod.snd = as := by
  have h' := congrArg (List.map Prod.snd) h
  rw [List.map_map, List.map_map] at h'
  exact h'.trans (List.map_id as)

end

end Innodb
