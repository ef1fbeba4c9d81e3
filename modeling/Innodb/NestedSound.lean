import Innodb.TerminationSound

/-!
# Traversals inside a traversal

A callback may read pages and traverse lists of extent descriptors while the
traversal that called it holds a page. What that traversal passes to its
callback is what it passes to one that does nothing, whatever was cached
before either.
-/

namespace Innodb
open Loop

section
variable (file : Option File)

/-- One call that a callback makes: a page, or a traversal as far as it came. -/
inductive InnerCall : FileSpaceReader → FileSpaceReader → Prop
  | getPage {i s r s'} : Innodb.getPage file i s = .ok (r, s') → InnerCall s s'
  | traverseXdesList {τ : Type} {g : Callback file τ XdesE} {l n u s t} :
      Innodb.traverseXdesList file g.run l n u s = .ok t → InnerCall s t.reader

def InnerCalls : FileSpaceReader → FileSpaceReader → Prop := Relation.ReflTransGen (InnerCall file)

/-- Where it returns, the callback has made finitely many of these calls. -/
def MakesInnerCalls {σ : Type} (f : Func σ Page) : Prop :=
  ∀ x a u s u' s', Reachable file s → f x a u s = .ok (u', s') → InnerCalls file s s'

end

/-- The pages passed to the callback, as decoded, and their addresses. -/
def Traversal.seen {σ : Type} (t : Traversal σ Page) : List (Page × Addr) := t.calls.map fun c => (c.1.decoded, c.2)

section
variable {file : Option File} {s s' : FileSpaceReader}

/-! ## Inner calls are steps -/

theorem xdesRound_steps {τ : Type} (g : Callback file τ XdesE) {t t' : Traversal τ XdesE} (hr : Reachable file t.reader)
    (h : traverseXdesRound file g.run t = .ok t') : Steps file t.reader t'.reader := by
  obtain ⟨⟨pg, s₁⟩, hg, h⟩ := bind_ok h
  obtain ⟨p, _, h⟩ := bind_ok h
  obtain ⟨⟨e, s₂⟩, he, h⟩ := bind_ok h
  obtain ⟨q, _, h⟩ := bind_ok h
  obtain ⟨x, _, h⟩ := bind_ok h
  obtain ⟨⟨u, s₃⟩, hf, h⟩ := bind_ok h
  obtain ⟨_, _, h⟩ := bind_ok h
  cases h
  have h₂ : Steps file t.reader s₂ := .tail (.single (.getPage hg)) (.getXdesEntry he)
  obtain ⟨u', s', hf', hst⟩ := g.returns x t.cur t.user s₂ (hr.steps h₂)
  rw [hf] at hf'; cases hf'
  exact h₂.trans hst

theorem traverseXdesList_steps {τ : Type} (g : Callback file τ XdesE) {l : ListBaseNode} {n : Nat} {u : τ}
    {t : Traversal τ XdesE} (hr : Reachable file s) (h : traverseXdesList file g.run l n u s = .ok t) :
    Steps file s t.reader := by
  unfold traverseXdesList traverse at h
  split at h
  · refine rounds_rel (R := fun t t' => Reachable file t.reader → Steps file t.reader t'.reader) _ _ ?_ ?_ ?_ n _ _ h hr
    · exact fun _ _ => .refl
    · exact fun _ _ _ h h' hr => (h hr).trans (h' (hr.steps (h hr)))
    · exact fun _ _ h hr => xdesRound_steps g hr h
  · cases h; exact .refl

theorem InnerCall.steps (h : InnerCall file s s') (hr : Reachable file s) : Steps file s s' := by
  cases h with
  | getPage h => exact .single (.getPage h)
  | traverseXdesList h => exact traverseXdesList_steps _ hr h

theorem InnerCalls.steps (h : InnerCalls file s s') (hr : Reachable file s) : Steps file s s' := by
  induction h with
  | refl => exact .refl
  | tail _ hc ih => exact ih.trans (hc.steps (hr.steps ih))

def dumpXdesCallback (file : Option File) : Callback file XdesDump XdesE where
  run := dumpXdesEntry
  returns x a oss s _ := ⟨oss ++ [(x, a)], s, rfl, .refl⟩

/-- The callback that `dump_space` passes is such a one. -/
theorem dumpInodeEntries_inner (file : Option File) (n : Nat) : MakesInnerCalls file (dumpInodeEntries file n) := by
  have hlist : ∀ (l : XDesEntryList) (t t' : XdesDump × FileSpaceReader), dumpXdesList file n l t = .ok t' →
      InnerCalls file t.2 t'.2 := by
    intro l t t' h
    unfold dumpXdesList at h
    split at h
    · obtain ⟨v, hv, h⟩ := bind_ok h
      cases h
      exact .single (.traverseXdesList (g := dumpXdesCallback file) hv)
    · cases h; exact .refl
  intro x a u s u' s' _ h
  refine foldlM_rel (R := fun t t' => InnerCalls file t.2 t'.2) ?_ ?_ ?_ x.inodeArr (u, s) (u', s') h
  · exact fun _ => .refl
  · exact fun _ _ _ => Relation.ReflTransGen.trans
  · intro t e t' h
    obtain ⟨v, hv, h⟩ := bind_ok h
    exact (hlist _ t v hv).trans (hlist _ v t' h)

theorem dumpXdesList_ok {l : XDesEntryList} (hg : l.All (xdesNext file) (XdesGood file)) (n : Nat)
    (t : XdesDump × FileSpaceReader) (hr : Reachable file t.2) :
    ∃ t', dumpXdesList file n l t = .ok t' ∧ Reachable file t'.2 := by
  unfold dumpXdesList
  split
  · obtain ⟨v, hv, hr', _⟩ := traverse_run (xdesRound_follows (dumpXdesCallback file)) hr l t.1 (hg.good n)
    have hrun : traverseXdesList file dumpXdesEntry l n t.1 t.2 = .ok v := hv
    exact ⟨(v.user, v.reader), by rw [hrun, ok_bind], hr'⟩
  · exact ⟨t, rfl, hr⟩

/-- It returns from a page whose entries' lists resolve. -/
theorem dumpInodeEntries_ok {x : Page} (hx : ∀ e ∈ x.inodeArr,
      ListBaseNode.All e.fullListBaseNode (xdesNext file) (XdesGood file) ∧
      ListBaseNode.All e.notFullListBaseNode (xdesNext file) (XdesGood file))
    (n : Nat) (a : Addr) (u : XdesDump) (hr : Reachable file s) : ∃ r, dumpInodeEntries file n x a u s = .ok r := by
  have hentry : ∀ e ∈ x.inodeArr, ∀ t : XdesDump × FileSpaceReader, Reachable file t.2 →
      ∃ t', (do
        let t ← dumpXdesList file n e.fullListBaseNode t
        dumpXdesList file n e.notFullListBaseNode t) = .ok t' ∧ Reachable file t'.2 := by
    intro e he t ht
    obtain ⟨t₁, h₁, ht₁⟩ := dumpXdesList_ok (hx e he).1 n t ht
    obtain ⟨t₂, h₂, ht₂⟩ := dumpXdesList_ok (hx e he).2 n t₁ ht₁
    exact ⟨t₂, by rw [h₁, ok_bind, h₂], ht₂⟩
  obtain ⟨r, hrun, _⟩ := foldlM_ok hentry (u, s) hr
  exact ⟨r, hrun⟩

/-! ## The traversal around them -/

theorem inodeRound_tracks {σ : Type} {f : Func σ Page} (hf : MakesInnerCalls file f) :
    Tracks (fun t : Traversal σ Page => t.cur.valid) (traverseInodeRound file f) Addr.valid (inodeNext file)
      (fun a => (inodePageOf file a, a)) (fun t => Reachable file t.reader) (fun t => t.cur) Traversal.seen where
  cond_eq _ _ := rfl
  move := by
    intro t t' hr hv h
    cases inodeFetch hr hv with
    | found p s₁ _ hp hr₁ hh =>
      obtain ⟨pg, node, arr, hpg, hin, hd, _⟩ := hh.read hr₁
      simp only [traverseInodeRound, hp, hpg, hin, deref, ok_bind] at h
      obtain ⟨⟨u, s₂⟩, hfun, h⟩ := bind_ok h
      have hst : Steps file s₁ s₂ := (hf _ _ _ _ _ _ hr₁ hfun).steps hr₁
      -- the page held is still there, with the same next address
      obtain ⟨_, node', arr', _, hin', _, hn'⟩ := (hh.grows (hr₁.inv.steps hst).2).read (hr₁.steps hst)
      simp only [hin', ok_bind] at h
      cases h
      refine ⟨hr₁.steps hst, hn', ?_⟩
      simp only [Traversal.seen, List.map_append, List.map_cons, List.map_nil, hd]
    | noPage _ _ hp => simp only [traverseInodeRound, hp, deref, ok_bind, error_bind] at h; cases h
    | pageFault e _ hp => simp only [traverseInodeRound, hp, error_bind] at h; cases h
    | notInode p s₁ _ hp hin => simp only [traverseInodeRound, hp, hin, deref, ok_bind, error_bind] at h; cases h

theorem inodeRound_returns {σ : Type} {f : Func σ Page} {t : Traversal σ Page} (hr : Reachable file t.reader)
    (hv : t.cur.valid = true) (hg : InodeGood file t.cur) (hf : MakesInnerCalls file f)
    (hret : ∀ x u s, Reachable file s → x.decoded = inodePageOf file t.cur → ∃ r, f x t.cur u s = .ok r) :
    ∃ t', traverseInodeRound file f t = .ok t' := by
  cases inodeFetch hr hv with
  | found p s₁ _ hp hr₁ hh =>
    obtain ⟨pg, node, arr, hpg, hin, hd, _⟩ := hh.read hr₁
    obtain ⟨⟨u, s₂⟩, hfun⟩ := hret pg t.user s₁ hr₁ hd
    have hst : Steps file s₁ s₂ := (hf _ _ _ _ _ _ hr₁ hfun).steps hr₁
    obtain ⟨_, node', arr', _, hin', _, _⟩ := (hh.grows (hr₁.inv.steps hst).2).read (hr₁.steps hst)
    refine ⟨⟨node'.nextAddr, t.calls ++ [(pg, t.cur)], u, s₂⟩, ?_⟩
    simp only [traverseInodeRound, hp, hpg, hin, hfun, hin', deref, ok_bind]
  | noPage hng _ _ => exact absurd hg hng
  | pageFault _ hns _ => exact absurd hg.safe hns
  | notInode _ _ hns _ _ => exact absurd hg.safe hns

variable (l : INodeEntryList)

theorem traverseInodeList_seen {σ : Type} {f : Func σ Page} (hf : MakesInnerCalls file f) (hs : Reachable file s)
    {n : Nat} {u : σ} {t : Traversal σ Page} (h : traverseInodeList file f l n u s = .ok t) :
    t.seen = (l.chain (inodeNext file) n).map (fun a => (inodePageOf file a, a)) ∧
      (returned l t = true ↔ l.listLength = 0 ∨ (after Addr.valid (inodeNext file) n l.firstAddr).valid = false) := by
  unfold traverseInodeList traverse at h
  by_cases h0 : l.listLength = 0
  · rw [h0] at h
    cases h
    rw [ListBaseNode.chain_empty h0]
    exact ⟨rfl, by simp [returned, h0]⟩
  · rw [if_pos (UInt32.pos_iff_ne_zero.mpr h0)] at h
    obtain ⟨_, hp, hlog⟩ := (inodeRound_tracks hf).run n _ t hs h
    rw [ListBaseNode.chain_walk h0]
    exact ⟨hlog, by simp [returned, h0, hp]⟩

theorem traverseInodeList_ok {σ : Type} {f : Func σ Page} (hf : MakesInnerCalls file f) (hs : Reachable file s)
    (hg : l.All (inodeNext file) (InodeGood file)) (hret : ∀ n, ∀ a ∈ l.chain (inodeNext file) n, ∀ x u s,
      Reachable file s → x.decoded = inodePageOf file a → ∃ r, f x a u s = .ok r) (n : Nat) (u : σ) :
    ∃ t, traverseInodeList file f l n u s = .ok t := by
  unfold traverseInodeList traverse
  by_cases h0 : l.listLength = 0
  · rw [h0]; exact ⟨_, rfl⟩
  · have hgood := hg.good n
    have hcalls := hret n
    rw [ListBaseNode.chain_walk h0] at hgood hcalls
    rw [if_pos (UInt32.pos_iff_ne_zero.mpr h0)]
    refine (inodeRound_tracks hf).returns (P := fun a => InodeGood file a ∧ ∀ x u s, Reachable file s →
      x.decoded = inodePageOf file a → ∃ r, f x a u s = .ok r) ?_ n _ hs fun a ha => ⟨hgood a ha, hcalls a ha⟩
    exact fun t hr hv hok => inodeRound_returns hr hv hok.1 hf hok.2

/-- **Nested traversals.** Over a list that resolves and ends, a callback that
reads pages and traverses lists in between is passed the pages and addresses
that one is which does nothing, from any two states of the cache; and if it
returns, so does the traversal. -/
theorem traverseInodeList_undisturbed (hs : Reachable file s) (hs' : Reachable file s')
    (hg : l.All (inodeNext file) (InodeGood file)) (hfin : l.Finite (inodeNext file)) {σ : Type} {f : Func σ Page}
    (hf : MakesInnerCalls file f) (u : σ) :
    (∀ n t, traverseInodeList file f l n u s = .ok t → ∃ t',
      traverseInodeList file (Callback.ignore file Page).run l n () s' = .ok t' ∧ t.seen = t'.seen ∧
        returned l t = returned l t') ∧
    ((∀ n, ∀ a ∈ l.chain (inodeNext file) n, ∀ x u s, Reachable file s → x.decoded = inodePageOf file a →
        ∃ r, f x a u s = .ok r) →
      ∃ n t t', traverseInodeList file f l n u s = .ok t ∧
        traverseInodeList file (Callback.ignore file Page).run l n () s' = .ok t' ∧
        returned l t = true ∧ returned l t' = true ∧ t.seen = t'.seen) := by
  have hsame : ∀ n t, traverseInodeList file f l n u s = .ok t → ∃ t',
      traverseInodeList file (Callback.ignore file Page).run l n () s' = .ok t' ∧ t.seen = t'.seen ∧
        returned l t = returned l t' := by
    intro n t ht
    obtain ⟨hseen, hret⟩ := traverseInodeList_seen l hf hs ht
    obtain ⟨t', ht', _, hseen', hret'⟩ :=
      traverse_run (inodeRound_follows (Callback.ignore file Page)) hs' l () (hg.good n)
    exact ⟨t', ht', hseen.trans hseen'.symm, Bool.eq_iff_iff.mpr (hret.trans hret'.symm)⟩
  refine ⟨hsame, fun hreturns => ?_⟩
  obtain ⟨n, t', ht', hret'⟩ :=
    (traverse_returns_iff (inodeRound_follows (Callback.ignore file Page)) hs' l () hg).mpr hfin
  obtain ⟨t, ht⟩ := traverseInodeList_ok l hf hs hg hreturns n u
  obtain ⟨t₂, ht₂, hseen, hret⟩ := hsame n t ht
  have heq : (.ok t' : Except Fault (Traversal Unit Page)) = .ok t₂ := ht'.symm.trans ht₂
  cases heq
  exact ⟨n, t, t', ht, ht', hret.trans hret', hret', hseen⟩

end

/-- Page 1 is an inode page with one entry, whose list of full extents is the
first descriptor of page 0; behind it is page 2, without an entry. -/
def nestedFile : File :=
  ⟨49152, sparse [(25, 8), (164, 0xFF), (165, 0xFF), (166, 0xFF), (167, 0xFF), (16409, 3), (16431, 2), (16433, 38),
    (16481, 1), (16487, 158), (16494, 0x05), (16495, 0xD6), (16496, 0x69), (16497, 0xD2), (32793, 3), (32812, 0xFF),
    (32813, 0xFF), (32814, 0xFF), (32815, 0xFF)]⟩

def nestedList : INodeEntryList := ⟨2, 1, 38, 2, 38⟩

theorem nestedList_spells :
    Spells Addr.valid (inodeNext (some nestedFile)) nestedList.firstAddr [⟨1, 38⟩, ⟨2, 38⟩] := by
  have hnext : inodeNext (some nestedFile) ⟨1, 38⟩ = ⟨2, 38⟩ := by decide
  have hend : (inodeNext (some nestedFile) ⟨2, 38⟩).valid = false := by decide
  refine ⟨rfl, rfl, ?_⟩
  rw [hnext]
  exact ⟨rfl, rfl, hend⟩

theorem nestedList_good : ∀ a ∈ [⟨1, 38⟩, ⟨2, 38⟩], InodeGood (some nestedFile) a := by
  simp only [List.forall_mem_cons]
  exact ⟨⟨_, rfl, by decide⟩, ⟨_, rfl, by decide⟩, List.forall_mem_nil _⟩

theorem nestedFile_entries : ∀ a ∈ [⟨1, 38⟩, ⟨2, 38⟩], ∀ e ∈ (inodePageOf (some nestedFile) a).inodeArr,
    ListBaseNode.All e.fullListBaseNode (xdesNext (some nestedFile)) (XdesGood (some nestedFile)) ∧
    ListBaseNode.All e.notFullListBaseNode (xdesNext (some nestedFile)) (XdesGood (some nestedFile)) := by
  have hone : ∀ e ∈ (inodePageOf (some nestedFile) ⟨1, 38⟩).inodeArr,
      e.fullListBaseNode.firstAddr = ⟨0, 158⟩ ∧ e.notFullListBaseNode.listLength = 0 := by decide +kernel
  have htwo : (inodePageOf (some nestedFile) ⟨2, 38⟩).inodeArr = [] := by decide +kernel
  have hend : (xdesNext (some nestedFile) ⟨0, 158⟩).valid = false := by decide
  have hspells : Spells Addr.valid (xdesNext (some nestedFile)) ⟨0, 158⟩ [⟨0, 158⟩] := ⟨rfl, rfl, hend⟩
  simp only [List.forall_mem_cons, htwo]
  refine ⟨fun e he => ?_, List.forall_mem_nil _, List.forall_mem_nil _⟩
  obtain ⟨hfull, hnone⟩ := hone e he
  refine ⟨.inr ?_, .inl hnone⟩
  rw [hfull]
  refine hspells.along fun a ha => ?_
  obtain rfl := List.mem_singleton.mp ha
  exact ⟨_, rfl, by decide, by decide, by decide⟩

/-- The descriptors of the first page's entry are on page 0: reading it drops
the page from the cache before its next address is followed. -/
theorem traverseInodeList_undisturbed_dump : ∃ n t t',
    traverseInodeList (some nestedFile) (dumpInodeEntries (some nestedFile) 2) nestedList n [] .new = .ok t ∧
    traverseInodeList (some nestedFile) (Callback.ignore (some nestedFile) Page).run nestedList n () .new = .ok t' ∧
    returned nestedList t = true ∧ returned nestedList t' = true ∧ t.seen = t'.seen ∧
    t.seen.map Prod.snd = [⟨1, 38⟩, ⟨2, 38⟩] := by
  have hon : ListBaseNode.All nestedList (inodeNext (some nestedFile)) (· ∈ [⟨1, 38⟩, ⟨2, 38⟩]) :=
    .inr (nestedList_spells.along fun a ha => ha)
  have hall : ListBaseNode.All nestedList (inodeNext (some nestedFile)) (InodeGood (some nestedFile)) :=
    .inr (nestedList_spells.along nestedList_good)
  have hinner := dumpInodeEntries_inner (some nestedFile) 2
  obtain ⟨n, t, t', ht, ht', hret, hret', hseen⟩ := (traverseInodeList_undisturbed nestedList .refl .refl hall
    (.inr ((ends_iff _).mpr ⟨2, nestedList_spells.after_dead⟩)) hinner []).2 <| by
      intro n a ha x u s hr hx
      refine dumpInodeEntries_ok ?_ 2 _ u hr
      rw [← x.inodeArr_decoded, hx]
      exact nestedFile_entries a (hon.good n a ha)
  refine ⟨n, t, t', ht, ht', hret, hret', hseen, ?_⟩
  obtain ⟨hchain, hiff⟩ := traverseInodeList_seen nestedList hinner .refl ht
  have hwalk := spells_walk ((hiff.mp hret).resolve_left (by decide))
  rw [hchain, List.map_map, ListBaseNode.chain_walk (by decide), ← nestedList_spells.unique hwalk]
  rfl

end Innodb
