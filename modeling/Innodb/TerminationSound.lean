import Innodb.XdesWalkSound
import Innodb.InodeSound

/-!
# When a traversal returns

Neither traversal looks at the length of its list but to see that it is not 0,
nor remembers the addresses it passed. So it goes where the next addresses
lead, and returns when they end.
-/

namespace Innodb
open Loop

/-- A run over a list all of whose addresses resolve: one call for each
address, in order, as long as the chain goes on. -/
structure FollowsList {σ ρ : Type} (l : ListBaseNode) (next : Addr → Addr)
    (run : Nat → Except Fault (Traversal σ ρ)) : Prop where
  calls : ∀ n, ∃ t, run n = .ok t ∧ t.calls.map Prod.snd = l.chain next n
  returns : (∃ n t, run n = .ok t ∧ returned l t = true) ↔ l.Finite next
  cyclic : l.listLength ≠ 0 → ∀ i j, i < j → next^[i] l.firstAddr = next^[j] l.firstAddr →
    (∀ k < j, (next^[k] l.firstAddr).valid = true) → ∀ n t, run n = .ok t → returned l t = false

section
variable {file : Option File} {s : FileSpaceReader} (hs : Reachable file s) (l : ListBaseNode)
include hs

theorem followsList {σ ρ γ : Type} {round : Traversal σ ρ → Except Fault (Traversal σ ρ)} {next : Addr → Addr}
    {good : Addr → Prop} {node : Addr → γ} {see : ρ → γ} (F : RoundFollows file round next good node see)
    (hg : l.All next good) (u : σ) : FollowsList l next fun n => traverse round l n u s where
  calls n := by
    obtain ⟨t, ht, _, hlog, _⟩ := traverse_run F hs l u (hg.good n)
    exact ⟨t, ht, calls_addr hlog⟩
  returns := traverse_returns_iff F hs l u hg
  cyclic h0 i j hij h hl n t ht := by
    refine Bool.eq_false_iff.mpr fun hret => ?_
    exact ListBaseNode.not_finite_of_revisit h0 hij h hl ((traverse_returns_iff F hs l u hg).mp ⟨n, t, ht, hret⟩)

/-- **Termination.** Over a list whose addresses resolve, either traversal
returns exactly when the chain of next addresses ends. -/
theorem traversals_followList :
    (l.All (xdesNext file) (XdesGood file) → ∀ {σ : Type} (f : Callback file σ XdesE) (u : σ),
      FollowsList l (xdesNext file) fun n => traverseXdesList file f.run l n u s) ∧
    (l.All (inodeNext file) (InodeGood file) → ∀ {σ : Type} (f : Callback file σ Page) (u : σ),
      FollowsList l (inodeNext file) fun n => traverseInodeList file f.run l n u s) :=
  ⟨fun hg _ f u => followsList hs l (xdesRound_follows f) hg u,
    fun hg _ f u => followsList hs l (inodeRound_follows f) hg u⟩

end

theorem inodeFile_all : ListBaseNode.All ⟨1, 0, 38, 0, 38⟩ (inodeNext (some inodeFile)) (InodeGood (some inodeFile)) := by
  have hnext : (inodeNext (some inodeFile) ⟨0, 0⟩).pageNumber = 0 := by decide
  have htype : pageTypeOf (inodeFile.block ((0 : UInt32) * UInt32.ofNat pageSize).toNat) = filPageTypeInode := by decide
  refine .inr (Along.mono (Along.induct (P := fun a => a.pageNumber = 0) rfl ?_) ?_)
  · rintro ⟨pg, off⟩ rfl; exact hnext
  · rintro ⟨pg, off⟩ rfl; exact ⟨_, rfl, htype⟩

theorem traversals_followList_two :
    FollowsList (ListBaseNode.init twoNodeFile.get 62) (xdesNext (some twoNodeFile)) (fun n =>
      traverseXdesList (some twoNodeFile) (Callback.ignore (some twoNodeFile) XdesE).run
        (ListBaseNode.init twoNodeFile.get 62) n () .new) ∧
    FollowsList ⟨1, 0, 38, 0, 38⟩ (inodeNext (some inodeFile)) (fun n =>
      traverseInodeList (some inodeFile) (Callback.ignore (some inodeFile) Page).run ⟨1, 0, 38, 0, 38⟩ n () .new) :=
  ⟨(traversals_followList .refl _).1 twoNodeFile_stored.all (Callback.ignore _ XdesE) (),
    (traversals_followList .refl _).2 inodeFile_all (Callback.ignore _ Page) ()⟩

def selfLinkFile : File := ⟨16384, sparse [(25, 8), (65, 1), (71, 158), (169, 158)]⟩

/-- Every address resolves, the list length is 1, and the traversal does not
return. -/
theorem traverseXdesList_cycles :
    (ListBaseNode.init selfLinkFile.get 62).listLength = 1 ∧
    (ListBaseNode.init selfLinkFile.get 62).All (xdesNext (some selfLinkFile)) (XdesGood (some selfLinkFile)) ∧
    ¬ ∃ n t, traverseXdesList (some selfLinkFile) (Callback.ignore (some selfLinkFile) XdesE).run
      (ListBaseNode.init selfLinkFile.get 62) n () .new = .ok t ∧
      returned (ListBaseNode.init selfLinkFile.get 62) t = true := by
  have hfirst : (ListBaseNode.init selfLinkFile.get 62).firstAddr = ⟨0, 158⟩ := by decide
  have hnext : xdesNext (some selfLinkFile) ⟨0, 158⟩ = ⟨0, 158⟩ := by decide
  have hall : (ListBaseNode.init selfLinkFile.get 62).All (xdesNext (some selfLinkFile))
      (XdesGood (some selfLinkFile)) := by
    refine .inr (Along.mono (Along.induct (P := (· = ⟨0, 158⟩)) hfirst ?_) ?_)
    · intro a hx
      subst hx; exact hnext
    · intro a hx
      subst hx; exact ⟨_, rfl, by decide, by decide, by decide⟩
  refine ⟨by decide, hall, ?_⟩
  intro hx
  obtain ⟨n, t, ht, hret⟩ := hx
  have F := followsList .refl _ (xdesRound_follows (Callback.ignore (some selfLinkFile) XdesE)) hall ()
  have hfalse := F.cyclic (by decide) 0 1 (by decide) (by rw [Function.iterate_one, hfirst]; exact hnext.symm)
    (fun k hk => by obtain rfl : k = 0 := by omega
                    decide) n t ht
  rw [hret] at hfalse; cases hfalse

end Innodb
