import Innodb.NodeAddrSound
import Innodb.Space

/-!
# Addresses in nodes of either kind

Every operation of the reader, the traversals and `dump_space` among them,
comes down to accesses that write an address only into a node of the page
cached for it. So the address in a node goes on leading back to that node,
whatever a caller does and even after its page was dropped from the cache.
-/

namespace Innodb
open Store

/-! ## Nodes of either kind -/

inductive NodePtr where
  | xdes (q : XdesPtr)
  | inode (p : PagePtr)

namespace NodePtr

def page : NodePtr → PagePtr
  | .xdes q => q.page
  | .inode p => p

/-- The node is where the address leads on its page. -/
def At : NodePtr → Addr → Prop
  | .xdes q, a => (entryNum a).toNat = q.slot
  | .inode _, _ => True

/-- The address in the node, of an object of the node's class. -/
def addrIn (pg : Page) : NodePtr → Option Addr
  | .xdes q =>
    match pg.body with
    | .fspHeaderPage _ arr => some (arr.get q.slot).listNode.addr
    | _ => none
  | .inode _ =>
    match pg.body with
    | .inodePage node _ => some node.addr
    | _ => none

def addr (s : FileSpaceReader) (n : NodePtr) : Option Addr := s.heap[n.page]?.bind n.addrIn

def stamp (a : Addr) (s : FileSpaceReader) : NodePtr → Except Fault FileSpaceReader
  | .xdes q => s.stampXdes q a
  | .inode p => s.stampInode p a

variable {pg pg' : Page} {n m : NodePtr} {a : Addr}

theorem addrIn_getXdesEntry {i : UInt32} {j : Option (Fin 256)} (h : pg.getXdesEntry i = .ok (j, pg')) (n : NodePtr) :
    n.addrIn pg' = n.addrIn pg := by
  unfold Page.getXdesEntry at h
  split at h
  · rename_i hd arr hb
    dsimp only at h
    split at h
    · rename_i hi
      split at h
      · cases h; rfl
      · cases h
        cases n with
        | inode p => simp only [addrIn, hb]
        | xdes q =>
          simp only [addrIn, hb, get_set arr ⟨i.toNat, hi⟩]
          split
          · rename_i hq
            rw [← hq]; rfl
          · rfl
    · cases h
  · cases h; rfl

/-- A write changes the address in its own node only. -/
theorem stamp_inv {s s' : FileSpaceReader} (h : m.stamp a s = .ok s') : ∃ pg pg', s.heap[m.page]? = some pg ∧
    s' = { s with heap := s.heap.set m.page pg' } ∧ m.addrIn pg' = some a ∧
    ∀ n : NodePtr, n.addrIn pg' = n.addrIn pg ∨ n.addrIn pg' = some a ∧ (m.At a → n.At a) := by
  cases m with
  | xdes q =>
    obtain ⟨pg, pg', hp, hst, rfl⟩ := stampXdes_inv h
    unfold Page.stampXdes at hst
    split at hst
    · rename_i hd arr hb
      cases hst
      refine ⟨pg, _, hp, rfl, by simp only [addrIn, get_set_self]; rfl, fun n => ?_⟩
      cases n with
      | inode p => exact .inl (by simp only [addrIn, hb])
      | xdes q' =>
        simp only [addrIn, hb, get_set]
        split
        · rename_i hq
          exact .inr ⟨rfl, fun hat => by rw [At, ← hq]; exact hat⟩
        · exact .inl rfl
    · cases hst
  | inode p =>
    obtain ⟨pg, pg', hp, hst, rfl⟩ := stampInode_inv h
    unfold Page.stampInode at hst
    split at hst
    · rename_i node arr hb
      cases hst
      refine ⟨pg, _, hp, rfl, rfl, fun n => ?_⟩
      cases n with
      | xdes q => exact .inl (by simp only [addrIn, hb])
      | inode p' => exact .inr ⟨rfl, fun _ => trivial⟩
    · cases hst

end NodePtr

/-! ## Accesses -/

/-- What the operations do to the reader. An address is written into a node of
the page that is cached for it. -/
inductive Access (file : Option File) : FileSpaceReader → FileSpaceReader → Prop
  | getPage {i s r s'} : Innodb.getPage file i s = .ok (r, s') → Access file s s'
  | getXdesEntry {p i s r s'} : s.getXdesEntry p i = .ok (r, s') → Access file s s'
  | stamp {n : NodePtr} {a s s'} : s.pages[a.pageNumber.toNat]? = some (some n.page) → n.At a → n.stamp a s = .ok s' →
      Access file s s'

def Accesses (file : Option File) : FileSpaceReader → FileSpaceReader → Prop := Relation.ReflTransGen (Access file)

/-- Page object `p` was made for page `i`. -/
structure Home (s : FileSpaceReader) (p : PagePtr) (i : UInt32) : Prop where
  made : p < s.heap.length
  only : ∀ j : UInt32, s.pages[j.toNat]? = some (some p) → j = i

def AtHome (s : FileSpaceReader) : Prop := ∀ (i : UInt32) (p : PagePtr), s.pages[i.toNat]? = some (some p) → Home s p i

/-- The address in the node leads back to it. -/
structure Written (s : FileSpaceReader) (n : NodePtr) (i : UInt32) : Prop where
  home : Home s n.page i
  addr : ∃ a, n.addr s = some a ∧ a.pageNumber = i ∧ n.At a

section
variable {file : Option File} {s s' : FileSpaceReader} {n : NodePtr} {p : PagePtr} {i : UInt32} {a : Addr}

theorem Access.step (h : Access file s s') : Step file s s' := by
  cases h with
  | getPage h => exact .getPage h
  | getXdesEntry h => exact .getXdesEntry h
  | @stamp n _ _ _ _ _ h =>
    cases n with
    | xdes q => exact .stampXdes h
    | inode p => exact .stampInode h

theorem Accesses.steps (h : Accesses file s s') : Steps file s s' :=
  Relation.ReflTransGen.mono (fun _ _ => Access.step) _ _ h

/-- An access gets a page or changes one object, and with it the addresses in
the nodes that it writes to. -/
theorem Access.cases (h : Access file s s') : (∃ i r, Innodb.getPage file i s = .ok (r, s')) ∨
    ∃ p pg pg', s.heap[p]? = some pg ∧ s' = { s with heap := s.heap.set p pg' } ∧
      ∀ n : NodePtr, n.addrIn pg' = n.addrIn pg ∨
        ∃ a, n.addrIn pg' = some a ∧ s.pages[a.pageNumber.toNat]? = some (some p) ∧ n.At a := by
  cases h with
  | getPage h => exact .inl ⟨_, _, h⟩
  | getXdesEntry h =>
    obtain ⟨pg, j, pg', hp, hj, _, rfl⟩ := getXdesEntry_inv h
    exact .inr ⟨_, pg, pg', hp, rfl, fun n => .inl (NodePtr.addrIn_getXdesEntry hj n)⟩
  | stamp hc hat h =>
    obtain ⟨pg, pg', hp, rfl, _, hn⟩ := NodePtr.stamp_inv h
    refine .inr ⟨_, pg, pg', hp, rfl, fun n => ?_⟩
    rcases hn n with hn | ⟨hn, himp⟩
    · exact .inl hn
    · exact .inr ⟨_, hn, hc, himp hat⟩

theorem Home.access (H : Home s p i) (I : Inv file s) (h : Access file s s') : Home s' p i := by
  rcases h.cases with ⟨k, r, hg⟩ | ⟨_, _, _, _, rfl, _⟩
  · rcases getPage_cases I hg with ⟨_, _, _, rfl⟩ | ⟨_, _, rfl⟩ | ⟨pg, _, _, _, _, _, _, rfl⟩
    · exact H
    · exact H
    · refine ⟨?_, fun j hj => ?_⟩
      · rw [installed, List.length_append]
        exact Nat.lt_add_right _ H.made
      · rcases (installed_slot pg s k j p).mp hj with ⟨_, rfl⟩ | ⟨_, _, hj⟩
        · exact absurd H.made (Nat.lt_irrefl _)
        · exact H.only j hj
  · exact ⟨by rw [List.length_set]; exact H.made, H.only⟩

theorem AtHome.new : AtHome .new := nofun

theorem AtHome.access (A : AtHome s) (I : Inv file s) (h : Access file s s') : AtHome s' := by
  rcases h.cases with ⟨k, r, hg⟩ | ⟨_, _, _, _, rfl, _⟩
  · rcases getPage_cases I hg with ⟨_, _, _, rfl⟩ | ⟨_, _, rfl⟩ | ⟨pg, _, _, _, _, _, _, rfl⟩
    · exact A
    · exact A
    · intro i p hp
      rcases (installed_slot pg s k i p).mp hp with ⟨rfl, rfl⟩ | ⟨_, _, hp⟩
      -- the new object is behind every object cached so far
      · refine ⟨by rw [installed, List.length_append]; exact Nat.lt_succ_self _, fun j hj => ?_⟩
        rcases (installed_slot pg s i j _).mp hj with ⟨rfl, _⟩ | ⟨_, _, hj⟩
        · rfl
        · exact absurd (A j _ hj).made (Nat.lt_irrefl _)
      · exact (A i p hp).access I h
  · exact fun i p hp => (A i p hp).access I h

theorem Written.access (W : Written s n i) (I : Inv file s) (h : Access file s s') : Written s' n i := by
  refine ⟨W.home.access I h, ?_⟩
  obtain ⟨a, ha, hpage, hat⟩ := W.addr
  rcases h.cases with ⟨k, r, hg⟩ | ⟨p, pg, pg', hp, rfl, hn⟩
  · refine ⟨a, ?_, hpage, hat⟩
    rcases getPage_cases I hg with ⟨_, _, _, rfl⟩ | ⟨_, _, rfl⟩ | ⟨pg, _, _, _, _, _, _, rfl⟩
    · exact ha
    · exact ha
    · rw [NodePtr.addr, installed, List.getElem?_append_left W.home.made]
      exact ha
  · by_cases hpn : p = n.page
    · subst hpn
      have haddr : NodePtr.addr { s with heap := s.heap.set n.page pg' } n = n.addrIn pg' := by
        rw [NodePtr.addr, List.getElem?_set_self W.home.made, Option.bind_some]
      rw [NodePtr.addr, hp, Option.bind_some] at ha
      rcases hn n with hn | ⟨b, hb, hcached, hatb⟩
      · exact ⟨a, by rw [haddr, hn, ha], hpage, hat⟩
      -- written again, with an address for which the same object is cached
      · exact ⟨b, by rw [haddr, hb], W.home.only _ hcached, hatb⟩
    · refine ⟨a, ?_, hpage, hat⟩
      rw [NodePtr.addr, List.getElem?_set_ne hpn]
      exact ha

theorem Written.stamp (A : AtHome s) (I : Inv file s) (hc : s.pages[a.pageNumber.toNat]? = some (some n.page))
    (hat : n.At a) (h : n.stamp a s = .ok s') : Written s' n a.pageNumber := by
  refine ⟨(A _ _ hc).access I (.stamp hc hat h), a, ?_, rfl, hat⟩
  obtain ⟨pg, pg', hp, rfl, haddr, _⟩ := NodePtr.stamp_inv h
  rw [NodePtr.addr, List.getElem?_set_self (List.getElem?_eq_some_iff.mp hp).1, Option.bind_some, haddr]

end

/-! ## Operations -/

def Does (file : Option File) (s s' : FileSpaceReader) : Prop := Reachable file s → Accesses file s s'

section
variable {file : Option File} {s s' : FileSpaceReader} {a : Addr}

theorem Does.refl (s : FileSpaceReader) : Does file s s := fun _ => .refl

theorem Does.trans {s₁ s₂ s₃ : FileSpaceReader} (h₁ : Does file s₁ s₂) (h₂ : Does file s₂ s₃) : Does file s₁ s₃ :=
  fun hs => (h₁ hs).trans (h₂ (hs.steps (h₁ hs).steps))

theorem getPage_does {i : UInt32} {r : Option PagePtr} (h : getPage file i s = .ok (r, s')) : Does file s s' :=
  fun _ => .single (.getPage h)

theorem getXdesEntry_does {p : PagePtr} {i : UInt32} {r : Option XdesPtr} (h : s.getXdesEntry p i = .ok (r, s')) :
    Does file s s' := fun _ => .single (.getXdesEntry h)

theorem findXdes_ok {num : UInt32} {r : Option XdesPtr} (h : findXdes file num a s = .ok (r, s')) :
    ∃ pg s₁, getPage file a.pageNumber s = .ok (pg, s₁) ∧
      (r = none ∧ s' = s₁ ∨ ∃ p, pg = some p ∧ s₁.getXdesEntry p num = .ok (r, s')) := by
  obtain ⟨⟨pg, s₁⟩, hg, h⟩ := Loop.bind_ok h
  refine ⟨pg, s₁, hg, ?_⟩
  cases pg with
  | none => cases h; exact .inl ⟨rfl, rfl⟩
  | some p => exact .inr ⟨p, rfl, h⟩

theorem findXdes_does {num : UInt32} {r : Option XdesPtr} (h : findXdes file num a s = .ok (r, s')) :
    Does file s s' := by
  obtain ⟨pg, s₁, hg, ⟨_, rfl⟩ | ⟨p, _, hx⟩⟩ := findXdes_ok h
  · exact getPage_does hg
  · exact (getPage_does hg).trans (getXdesEntry_does hx)

/-- The descriptor found is on the page cached for the address, where the
address leads. -/
theorem findXdes_some (hs : Reachable file s) {q : XdesPtr} (h : findXdes file (entryNum a) a s = .ok (some q, s')) :
    s'.pages[a.pageNumber.toNat]? = some (some q.page) ∧ NodePtr.At (.xdes q) a := by
  obtain ⟨pg, s₁, hg, ⟨hq, _⟩ | ⟨p, rfl, hx⟩⟩ := findXdes_ok h
  · cases hq
  · have hc := getPage_cached hs.inv hg
    obtain ⟨pg, j, pg', _, hj, hq, rfl⟩ := getXdesEntry_inv hx
    obtain ⟨k, rfl, rfl⟩ := Option.map_eq_some_iff.mp hq.symm
    refine ⟨hc, ?_⟩
    unfold Page.getXdesEntry at hj
    split at hj
    · dsimp only at hj
      split at hj
      · split at hj
        · cases hj; rfl
        · cases hj; rfl
      · cases hj
    · cases hj

theorem handOutXdes_ok {num : UInt32} {r : Option XdesPtr} (h : handOutXdes file num a s = .ok (r, s')) :
    ∃ s₁, findXdes file num a s = .ok (r, s₁) ∧
      (r = none ∧ s' = s₁ ∨ ∃ q, r = some q ∧ s₁.stampXdes q a = .ok s') := by
  obtain ⟨⟨q, s₁⟩, hf, h⟩ := Loop.bind_ok h
  cases q with
  | none => cases h; exact ⟨_, hf, .inl ⟨rfl, rfl⟩⟩
  | some q =>
    obtain ⟨s₂, hst, h⟩ := Loop.bind_ok h
    cases h; exact ⟨_, hf, .inr ⟨q, rfl, hst⟩⟩

theorem handOutXdes_does {r : Option XdesPtr} (h : handOutXdes file (entryNum a) a s = .ok (r, s')) :
    Does file s s' := by
  obtain ⟨s₁, hf, ⟨_, rfl⟩ | ⟨q, rfl, hst⟩⟩ := handOutXdes_ok h
  · exact findXdes_does hf
  · intro hs
    obtain ⟨hc, hat⟩ := findXdes_some hs hf
    exact (findXdes_does hf hs).tail (.stamp (n := .xdes q) hc hat hst)

theorem findInode_does {r : Option PagePtr} (h : findInode file a s = .ok (r, s')) : Does file s s' :=
  getPage_does (findInode_ok h)

theorem handOutInode_does {r : Option PagePtr} (h : handOutInode file a s = .ok (r, s')) : Does file s s' := by
  obtain ⟨s₁, hf, ⟨_, rfl⟩ | ⟨p, rfl, hst⟩⟩ := handOutInode_ok h
  · exact findInode_does hf
  · intro hs
    exact (findInode_does hf hs).tail (.stamp (n := .inode p) (getPage_cached hs.inv (findInode_ok hf)) trivial hst)

theorem inodeArrAt_does {r : Option (List INodeE)} (h : inodeArrAt file a s = .ok (r, s')) : Does file s s' := by
  rcases inodeArrAt_ok h with rfl | ⟨p, hg⟩
  · exact .refl _
  · exact getPage_does hg

theorem endNode_does {l : XDesEntryList} {r : Option XdesPtr} (h : XDesEntryList.endNode file l a s = .ok (r, s')) :
    Does file s s' := by
  rcases l.guarded_ok h with e | h
  · cases e; exact .refl _
  · exact handOutXdes_does h

theorem xdesNext_does {q : XdesPtr} {r : Option XdesPtr} (h : XDesEntryListNode.next file q s = .ok (r, s')) :
    Does file s s' := by
  obtain ⟨e, _, h⟩ := Loop.bind_ok h
  rcases guarded_ok h with e | h
  · cases e; exact .refl _
  · exact handOutXdes_does h

theorem xdes_does {q : XdesPtr} {r : Option XdesPtr} (h : XDesEntryListNode.xdes file q s = .ok (r, s')) :
    Does file s s' := by
  obtain ⟨e, _, h⟩ := Loop.bind_ok h
  rcases guarded_ok h with e | h
  · cases e; exact .refl _
  · exact findXdes_does h

theorem NodeCall.does {c : NodeCall} {r : Option PagePtr} (h : c.run file s = .ok (r, s')) : Does file s s' := by
  cases NodeCall.did h with
  | nothing _ hs => exact hs ▸ .refl _
  | fetched _ _ _ hg => exact getPage_does hg
  | handedOut _ _ _ hf => exact handOutInode_does hf
  | found _ _ hf => exact findInode_does hf

end

/-! ## Traversals and dumps -/

section
variable {file : Option File} {σ ρ : Type}

def FuncDoes (file : Option File) (func : Func σ ρ) : Prop :=
  ∀ x a u s u' s', func x a u s = .ok (u', s') → Does file s s'

theorem traverseXdesRound_does {func : Func σ XdesE} (hf : FuncDoes file func) {t t' : Traversal σ XdesE}
    (h : traverseXdesRound file func t = .ok t') : Does file t.reader t'.reader := by
  obtain ⟨⟨_, s₁⟩, hg, h⟩ := Loop.bind_ok h
  obtain ⟨_, _, h⟩ := Loop.bind_ok h
  obtain ⟨⟨_, s₂⟩, hx, h⟩ := Loop.bind_ok h
  obtain ⟨_, _, h⟩ := Loop.bind_ok h
  obtain ⟨_, _, h⟩ := Loop.bind_ok h
  obtain ⟨⟨_, s₃⟩, hu, h⟩ := Loop.bind_ok h
  obtain ⟨_, _, h⟩ := Loop.bind_ok h
  cases h
  exact (getPage_does hg).trans ((getXdesEntry_does hx).trans (hf _ _ _ _ _ _ hu))

theorem traverseInodeRound_does {func : Func σ Page} (hf : FuncDoes file func) {t t' : Traversal σ Page}
    (h : traverseInodeRound file func t = .ok t') : Does file t.reader t'.reader := by
  obtain ⟨⟨_, s₁⟩, hg, h⟩ := Loop.bind_ok h
  obtain ⟨_, _, h⟩ := Loop.bind_ok h
  obtain ⟨_, _, h⟩ := Loop.bind_ok h
  obtain ⟨_, _, h⟩ := Loop.bind_ok h
  obtain ⟨⟨_, s₂⟩, hu, h⟩ := Loop.bind_ok h
  obtain ⟨_, _, h⟩ := Loop.bind_ok h
  cases h
  exact (getPage_does hg).trans (hf _ _ _ _ _ _ hu)

theorem rounds_does {round : Traversal σ ρ → Except Fault (Traversal σ ρ)} {cond : Traversal σ ρ → Bool}
    (hr : ∀ t t', round t = .ok t' → Does file t.reader t'.reader) {n : Nat} {t t' : Traversal σ ρ}
    (h : Loop.rounds cond round n t = .ok t') : Does file t.reader t'.reader :=
  Loop.rounds_rel cond round (R := fun t t' => Does file t.reader t'.reader) (fun _ => .refl _)
    (fun _ _ _ h₁ h₂ => h₁.trans h₂) hr n t t' h

theorem foldlM_does {α : Type} {f : σ × FileSpaceReader → α → Except Fault (σ × FileSpaceReader)}
    (hf : ∀ t a t', f t a = .ok t' → Does file t.2 t'.2) {l : List α} {t t' : σ × FileSpaceReader}
    (h : l.foldlM f t = .ok t') : Does file t.2 t'.2 :=
  Loop.foldlM_rel (R := fun t t' : σ × FileSpaceReader => Does file t.2 t'.2) (fun _ => .refl _)
    (fun _ _ _ h₁ h₂ => h₁.trans h₂) hf l t t' h

theorem traverse_does {round : Traversal σ ρ → Except Fault (Traversal σ ρ)}
    (hr : ∀ t t', round t = .ok t' → Does file t.reader t'.reader) {l : ListBaseNode} {n : Nat} {u : σ}
    {s : FileSpaceReader} {t : Traversal σ ρ} (h : traverse round l n u s = .ok t) : Does file s t.reader := by
  unfold traverse at h
  split at h
  · exact rounds_does hr h
  · cases h; exact .refl _

theorem getFspHeaderPage_does {s s' : FileSpaceReader} {r : Option PagePtr}
    (h : getFspHeaderPage file s = .ok (r, s')) : Does file s s' := by
  obtain ⟨⟨p, s₁⟩, hg, h⟩ := Loop.bind_ok h
  cases p with
  | none => cases h; exact getPage_does hg
  | some p =>
    obtain ⟨_, _, h⟩ := Loop.bind_ok h
    cases h; exact getPage_does hg

theorem getPageCount_does {s s' : FileSpaceReader} {r : UInt32} (h : getPageCount file s = .ok (r, s')) :
    Does file s s' := by
  obtain ⟨⟨p, s₁⟩, hg, h⟩ := Loop.bind_ok h
  cases p with
  | none => cases h; exact getFspHeaderPage_does hg
  | some p =>
    obtain ⟨_, _, h⟩ := Loop.bind_ok h
    cases h; exact getFspHeaderPage_does hg

end

namespace DumpSpace
variable {file : Option File} {n : Nat}

theorem dumpPage_does {t t' : String × FileSpaceReader} {i : UInt32} (h : dumpPage file t i = .ok t') :
    Does file t.2 t'.2 := by
  obtain ⟨⟨p, s₁⟩, hg, h⟩ := Loop.bind_ok h
  cases p with
  | none => cases h; exact getPage_does hg
  | some p =>
    obtain ⟨_, _, h⟩ := Loop.bind_ok h
    cases h; exact getPage_does hg

theorem dumpXdesList_does {title behind oss : String} {l : XDesEntryList} {s : FileSpaceReader}
    {t : Printed × FileSpaceReader} (h : dumpXdesList file n title l behind oss s = .ok t) : Does file s t.2 := by
  obtain ⟨t₁, ht, h⟩ := Loop.bind_ok h
  cases h
  refine traverse_does (fun _ _ => traverseXdesRound_does fun _ _ _ _ _ _ hf => ?_) ht
  cases hf; exact .refl _

theorem dumpEntryList_does {title : String} {l : XDesEntryList} {t t' : Printed × FileSpaceReader}
    (h : dumpEntryList file n title l t = .ok t') : Does file t.2 t'.2 := by
  unfold dumpEntryList at h
  split at h
  · cases h; exact .refl _
  · split at h
    · exact dumpXdesList_does h
    · cases h; exact .refl _

theorem dumpInodeEntries_does : FuncDoes file (dumpInodeEntries file n) := by
  intro x a u s u' s' h
  refine foldlM_does (fun t e t' ht => ?_) h
  obtain ⟨t₁, h₁, h₂⟩ := Loop.bind_ok ht
  exact (dumpEntryList_does h₁).trans (dumpEntryList_does h₂)

theorem dumpInodeList_does {title oss : String} {l : INodeEntryList} {s : FileSpaceReader}
    {t : Printed × FileSpaceReader} (h : dumpInodeList file n title l oss s = .ok t) : Does file s t.2 := by
  unfold dumpInodeList at h
  split at h
  · obtain ⟨t₁, ht, h⟩ := Loop.bind_ok h
    cases h
    exact rounds_does (fun _ _ => traverseInodeRound_does dumpInodeEntries_does) ht
  · cases h; exact .refl _

theorem dumpList_does {p : PagePtr} {t t' : Printed × FileSpaceReader} {l : SpaceList}
    (h : dumpList file n p t l = .ok t') : Does file t.2 t'.2 := by
  unfold dumpList at h
  split at h
  · cases h; exact .refl _
  · obtain ⟨_, _, h⟩ := Loop.bind_ok h
    cases l with
    | extents => exact dumpXdesList_does h
    | inodes => exact dumpInodeList_does h

end DumpSpace

theorem dumpSpace_does {file : Option File} {fileName : String} {n : Nat} {s s' : FileSpaceReader} {r : Printed}
    (h : dumpSpace file fileName n s = .ok (r, s')) : Does file s s' := by
  obtain ⟨⟨_, s₁⟩, hg, h⟩ := Loop.bind_ok h
  obtain ⟨p, _, h⟩ := Loop.bind_ok h
  obtain ⟨_, _, h⟩ := Loop.bind_ok h
  obtain ⟨⟨oss, s₂⟩, hpages, h⟩ := Loop.bind_ok h
  have hp : Does file s₁ s₂ := foldlM_does (fun _ _ _ => DumpSpace.dumpPage_does) hpages
  have hl : Does file s₂ s' := foldlM_does (fun _ _ _ => DumpSpace.dumpList_does) h
  exact (getFspHeaderPage_does hg).trans (hp.trans hl)

/-! ## Callers -/

/-- What a caller does with the reader, by calls that return; the function of
a traversal is a caller too. -/
inductive Uses (file : Option File) : FileSpaceReader → FileSpaceReader → Prop
  | nothing {s} : Uses file s s
  | both {s₁ s₂ s₃} : Uses file s₁ s₂ → Uses file s₂ s₃ → Uses file s₁ s₃
  | getPageCount {s r s'} : Innodb.getPageCount file s = .ok (r, s') → Uses file s s'
  | getXdesEntry {p i s r s'} : s.getXdesEntry p i = .ok (r, s') → Uses file s s'
  | xdesFirst {l s r s'} : XDesEntryList.first file l s = .ok (r, s') → Uses file s s'
  | xdesLast {l s r s'} : XDesEntryList.last file l s = .ok (r, s') → Uses file s s'
  | xdesNext {q s r s'} : XDesEntryListNode.next file q s = .ok (r, s') → Uses file s s'
  | xdes {q s r s'} : XDesEntryListNode.xdes file q s = .ok (r, s') → Uses file s s'
  | inode {c : NodeCall} {s r s'} : c.run file s = .ok (r, s') → Uses file s s'
  | leafInode {h : FsegHeader} {s r s'} : h.leafInode file s = .ok (r, s') → Uses file s s'
  | externalInode {h : FsegHeader} {s r s'} : h.externalInode file s = .ok (r, s') → Uses file s s'
  | traverseXdes {σ : Type} {func : Func σ XdesE} {l n u s t} :
      (∀ x a u s u' s', func x a u s = .ok (u', s') → Uses file s s') → traverseXdesList file func l n u s = .ok t →
      Uses file s t.reader
  | traverseInode {σ : Type} {func : Func σ Page} {l n u s t} :
      (∀ x a u s u' s', func x a u s = .ok (u', s') → Uses file s s') → traverseInodeList file func l n u s = .ok t →
      Uses file s t.reader
  | dumpSpace {name n s r s'} : Innodb.dumpSpace file name n s = .ok (r, s') → Uses file s s'

theorem Uses.does {file : Option File} {s s' : FileSpaceReader} (h : Uses file s s') : Does file s s' := by
  induction h with
  | nothing => exact .refl _
  | both _ _ ih₁ ih₂ => exact ih₁.trans ih₂
  | getPageCount h => exact getPageCount_does h
  | getXdesEntry h => exact getXdesEntry_does h
  | xdesFirst h => exact endNode_does h
  | xdesLast h => exact endNode_does h
  | xdesNext h => exact xdesNext_does h
  | xdes h => exact xdes_does h
  | inode h => exact NodeCall.does h
  | leafInode h => exact inodeArrAt_does h
  | externalInode h => exact inodeArrAt_does h
  | traverseXdes _ h ih => exact traverse_does (fun _ _ => traverseXdesRound_does ih) h
  | traverseInode _ h ih => exact traverse_does (fun _ _ => traverseInodeRound_does ih) h
  | dumpSpace h => exact dumpSpace_does h

/-! ## A missing file -/

theorem accesses_missing {s : FileSpaceReader} (h : Accesses none .new s) : s = .new := by
  induction h with
  | refl => rfl
  | tail _ h ih =>
    subst ih
    rcases h.cases with ⟨i, r, hg⟩ | ⟨p, pg, _, hp, _⟩
    · rw [getPage_null (Inv.new none) rfl i] at hg
      cases hg; rfl
    -- nothing to write to
    · cases hp

/-- **A missing file leaves no trace.** Whatever calls are made on a reader
whose file is missing, if they return it is still as new; when the file is
there later it is read as by a new reader. -/
theorem uses_missing {s : FileSpaceReader} (h : Uses none .new s) : s = .new := accesses_missing (h.does .refl)

theorem uses_missing_count : ∃ r s, getPageCount none .new = .ok (r, s) ∧ r = 0 ∧ s = .new :=
  ⟨0, _, rfl, rfl, uses_missing (.getPageCount (r := 0) rfl)⟩

end Innodb
