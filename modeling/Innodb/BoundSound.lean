import Innodb.NodeAddrSound
import Innodb.TerminationSound
import Mathlib.Data.Finset.Prod

/-!
# How long a traversal takes

The next address depends on the page's place in the file and on the slot, and
there are only so many of both. A traversal that returns has come by no
descriptor, and by no inode page, twice.
-/

namespace Innodb
open Loop

/-- The pages that a file of this size has bytes of. -/
def File.pageCount (f : File) : Nat := (f.size + (pageSize - 1)) / pageSize

/-- Where a page number is read: the offset wraps after 4 GiB. -/
def readIndex (a : Addr) : Nat := a.pageNumber.toNat % 262144

section
variable {f : File}

theorem image_readIndex (f : File) (a : Addr) :
    image (some f) a.pageNumber = some (f.block (readIndex a * pageSize)) := by
  unfold image readIndex
  rw [Option.map_some, offset_toNat]

theorem readIndex_lt {a : Addr} {buf : PageBuf} (hi : image (some f) a.pageNumber = some buf) (ht : pageTypeOf buf ≠ 0) :
    readIndex a < min f.pageCount 262144 := by
  refine Nat.lt_min.mpr ⟨?_, Nat.mod_lt _ (by decide)⟩
  rw [image_readIndex] at hi
  cases hi
  refine Nat.lt_of_not_le fun hle => ht ?_
  have hzero : BigEndian.SameRun (bytes (f.block (readIndex a * pageSize))) (fun _ => 0) (0 + FilHeader.filPageType) 0 2 := by
    intro k hk
    unfold bytes File.block File.at
    rw [dif_pos (by simp only [pageSize, FilHeader.filPageType]; omega), if_neg]
    simp only [File.pageCount, pageSize] at *; omega
  exact (machReadFrom2_congr hzero).trans (by decide)

/-! ## Descriptors -/

/-- The place of a descriptor. -/
def xdesKey (a : Addr) : Nat × Nat := (readIndex a, slotOf a)

theorem xdesNext_key {a b : Addr} (h : xdesKey a = xdesKey b) : xdesNext (some f) a = xdesNext (some f) b := by
  obtain ⟨hindex, hslot⟩ := Prod.mk.inj h
  unfold xdesNext xdesOf
  rw [image_readIndex, image_readIndex, hindex, hslot]

theorem XdesGood.key {a : Addr} (h : XdesGood (some f) a) :
    xdesKey a ∈ Finset.range (min f.pageCount 262144) ×ˢ Finset.range 256 := by
  obtain ⟨buf, hi, ht, hlo, hhi⟩ := h
  refine Finset.mem_product.mpr ⟨Finset.mem_range.mpr (readIndex_lt hi (by rw [ht]; decide)), ?_⟩
  refine Finset.mem_range.mpr ?_
  simp only [xdesKey, slotOf]; omega

/-! ## Inode pages -/

theorem inodeNext_key {a b : Addr} (h : readIndex a = readIndex b) : inodeNext (some f) a = inodeNext (some f) b := by
  unfold inodeNext
  rw [image_readIndex, image_readIndex, h]

theorem InodeGood.key {a : Addr} (h : InodeGood (some f) a) : readIndex a ∈ Finset.range (min f.pageCount 262144) := by
  obtain ⟨buf, hi, ht⟩ := h
  exact Finset.mem_range.mpr (readIndex_lt hi (by rw [ht]; decide))

/-! ## Traversals -/

theorem nodup_length_le {α β : Type*} [DecidableEq β] {key : α → β} {l : List α} {K : Finset β} (h : (l.map key).Nodup)
    (hK : ∀ a ∈ l, key a ∈ K) : l.length ≤ K.card := by
  rw [← List.length_map key, ← List.toFinset_card_of_nodup h]
  refine Finset.card_le_card fun k hk => ?_
  obtain ⟨a, ha, rfl⟩ := List.mem_map.mp (List.mem_toFinset.mp hk)
  exact hK a ha

variable {file : Option File}

theorem xdes_length_le {live : Addr → Bool} {a : Addr} {as : List Addr} (h : Spells live (xdesNext file) a as)
    (hg : ∀ b ∈ as, XdesGood file b) : as.length ≤ 67108864 := by
  cases file with
  | none =>
    cases as with
    | nil => exact Nat.zero_le _
    | cons b as =>
      obtain ⟨buf, hi, _⟩ := hg b List.mem_cons_self
      cases hi
  | some f =>
    refine (nodup_length_le (h.nodup_key fun _ _ => xdesNext_key) fun b hb => (hg b hb).key).trans ?_
    rw [Finset.card_product, Finset.card_range, Finset.card_range]
    omega

theorem inode_length_le {live : Addr → Bool} {a : Addr} {as : List Addr} (h : Spells live (inodeNext file) a as)
    (hg : ∀ b ∈ as, InodeGood file b) : as.length ≤ 262144 := by
  cases file with
  | none =>
    cases as with
    | nil => exact Nat.zero_le _
    | cons b as =>
      obtain ⟨buf, hi, _⟩ := hg b List.mem_cons_self
      cases hi
  | some f =>
    refine (nodup_length_le (h.nodup_key fun _ _ => inodeNext_key) fun b hb => (hg b hb).key).trans ?_
    rw [Finset.card_range]
    omega

end

/-- A traversal that returned: it came by no key twice, made at most `bound`
calls, and is the same for every number of rounds from `bound` on. -/
structure Bounded {σ ρ β : Type} (key : Addr → β) (bound : Nat) (run : Nat → Except Fault (Traversal σ ρ))
    (t : Traversal σ ρ) : Prop where
  distinct : (t.calls.map fun c => key c.2).Nodup
  calls : t.calls.length ≤ bound
  decided : ∀ m, bound ≤ m → run m = .ok t

section
variable {file : Option File} {s : FileSpaceReader}

theorem traverse_bounded {σ ρ γ β : Type} [DecidableEq β] {round : Traversal σ ρ → Except Fault (Traversal σ ρ)}
    {next : Addr → Addr} {good : Addr → Prop} {node : Addr → γ} {see : ρ → γ}
    (F : RoundFollows file round next good node see) (hs : Reachable file s) {key : Addr → β} {K : Finset β}
    (hkey : ∀ a b, key a = key b → next a = next b) (hK : ∀ a, good a → key a ∈ K) {l : ListBaseNode} {u : σ} {n : Nat}
    {t : Traversal σ ρ} (h : traverse round l n u s = .ok t) (hret : returned l t = true) :
    Bounded key K.card (fun m => traverse round l m u s) t := by
  by_cases h0 : l.listLength = 0
  · have hempty : ∀ m, traverse round l m u s = .ok ⟨⟨0, 0⟩, [], u, s⟩ := fun m => by
      unfold traverse
      rw [h0]; rfl
    rw [hempty] at h
    cases h
    exact ⟨List.nodup_nil, Nat.zero_le _, fun m _ => hempty m⟩
  have hrounds : ∀ m, traverse round l m u s =
      rounds (fun t : Traversal σ ρ => t.cur.valid) round m ⟨l.firstAddr, [], u, s⟩ := fun m => by
    unfold traverse
    rw [if_pos (UInt32.pos_iff_ne_zero.mpr h0)]
  have hdead : t.cur.valid = false := by simpa [returned, h0] using hret
  have hg : ∀ a ∈ walk Addr.valid next n l.firstAddr, good a := by
    rw [← ListBaseNode.chain_walk h0]
    exact traverse_good F hs l u h
  rw [hrounds] at h
  obtain ⟨t', ht', -, hpos, hlog⟩ := F.run n ⟨l.firstAddr, [], u, s⟩ hs hg
  rw [h] at ht'; cases ht'
  have hspells : Spells Addr.valid next l.firstAddr (walk Addr.valid next n l.firstAddr) := by
    refine spells_walk ?_
    rw [← hpos]; exact hdead
  have haddrs : t.calls.map Prod.snd = walk Addr.valid next n l.firstAddr := calls_addr hlog
  have hkeys : t.calls.map (fun c => key c.2) = (walk Addr.valid next n l.firstAddr).map key := by
    rw [← haddrs, List.map_map]; rfl
  have hlen : (walk Addr.valid next n l.firstAddr).length ≤ K.card :=
    nodup_length_le (hspells.nodup_key hkey) fun a ha => hK a (hg a ha)
  refine ⟨by rw [hkeys]; exact hspells.nodup_key hkey, by rwa [← haddrs, List.length_map] at hlen, fun m hm => ?_⟩
  -- the loop is left after one round for each of the addresses
  obtain ⟨t', ht', -, hpos', -⟩ := F.run (walk Addr.valid next n l.firstAddr).length ⟨l.firstAddr, [], u, s⟩ hs
    (by rw [hspells.walk_eq]; exact hg)
  have hdead' : t'.cur.valid = false := by
    rw [hpos']; exact hspells.after_dead
  have hsame : (.ok t : Except Fault (Traversal σ ρ)) = .ok t' :=
    (rounds_stable h hdead (Nat.le_max_left n _)).symm.trans (rounds_stable ht' hdead' (Nat.le_max_right n _))
  rw [hrounds, hsame]
  exact rounds_stable ht' hdead' (hlen.trans hm)

/-- **How long descriptor traversals take.** -/
theorem traverseXdesList_bounded {f : File} (hs : Reachable (some f) s) {σ : Type} (g : Callback (some f) σ XdesE)
    {l : ListBaseNode} {u : σ} {n : Nat} {t : Traversal σ XdesE} (h : traverseXdesList (some f) g.run l n u s = .ok t)
    (hret : returned l t = true) :
    Bounded xdesKey (256 * min f.pageCount 262144) (fun m => traverseXdesList (some f) g.run l m u s) t := by
  have hcard : (Finset.range (min f.pageCount 262144) ×ˢ Finset.range 256).card = 256 * min f.pageCount 262144 := by
    rw [Finset.card_product, Finset.card_range, Finset.card_range, Nat.mul_comm]
  rw [← hcard]
  exact traverse_bounded (xdesRound_follows g) hs (fun _ _ => xdesNext_key) (fun _ => XdesGood.key) h hret

theorem traverseXdesList_bounded_two : ∃ t : Traversal Unit XdesE, t.calls.length = 2 ∧
    Bounded xdesKey 256 (fun m => traverseXdesList (some twoNodeFile) (Callback.ignore (some twoNodeFile) XdesE).run
      (ListBaseNode.init twoNodeFile.get 62) m () .new) t := by
  obtain ⟨n, t, ht, hret, hlog⟩ := traverse_spells (xdesRound_follows (Callback.ignore (some twoNodeFile) XdesE)) .refl _ ()
    twoNodeFile_stored.spells twoNodeFile_stored.linked.good
  refine ⟨t, ?_, traverseXdesList_bounded .refl (Callback.ignore _ XdesE) ht hret⟩
  rw [← List.length_map (fun c => (c.1.decoded, c.2)), hlog]; rfl

/-- **How long inode page traversals take.** -/
theorem traverseInodeList_bounded {f : File} (hs : Reachable (some f) s) {σ : Type} (g : Callback (some f) σ Page)
    {l : ListBaseNode} {u : σ} {n : Nat} {t : Traversal σ Page} (h : traverseInodeList (some f) g.run l n u s = .ok t)
    (hret : returned l t = true) :
    Bounded readIndex (min f.pageCount 262144) (fun m => traverseInodeList (some f) g.run l m u s) t := by
  have hcard : (Finset.range (min f.pageCount 262144)).card = min f.pageCount 262144 := Finset.card_range _
  rw [← hcard]
  exact traverse_bounded (inodeRound_follows g) hs (fun _ _ => inodeNext_key) (fun _ => InodeGood.key) h hret

theorem traverseInodeList_bounded_one : ∃ t : Traversal Unit Page, t.calls.length = 1 ∧
    Bounded readIndex 2 (fun m => traverseInodeList (some inodeAtOneFile) (Callback.ignore (some inodeAtOneFile) Page).run
      pageOneList m () .new) t := by
  have hend : (inodeNext (some inodeAtOneFile) ⟨1, 38⟩).valid = false := by decide
  have hspells : Spells Addr.valid (inodeNext (some inodeAtOneFile)) ⟨1, 38⟩ [⟨1, 38⟩] := ⟨rfl, rfl, hend⟩
  obtain ⟨n, t, ht, hret, hlog⟩ := traverse_spells
    (inodeRound_follows (Callback.ignore (some inodeAtOneFile) Page)) .refl pageOneList () (.inr ⟨by decide, hspells⟩)
    (fun a ha => List.mem_singleton.mp ha ▸ pageOne_good)
  have hbounded := traverseInodeList_bounded .refl (Callback.ignore _ Page) ht hret
  rw [show min inodeAtOneFile.pageCount 262144 = 2 by decide] at hbounded
  refine ⟨t, ?_, hbounded⟩
  have hlen := congrArg List.length hlog
  rwa [List.length_map, List.length_map] at hlen

end

end Innodb
