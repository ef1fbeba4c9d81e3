import Innodb.Iterators
import Innodb.AccessSound
import Innodb.NestedSound
import Innodb.XdesWalkSound

/-!
# Iterators of lists

Any number of iterators over lists of both kinds share one reader. Advancing
one may drop pages of the others from the cache, and writes addresses into
nodes that others hold. Yet each iterator is where it would be by itself.
-/

namespace Innodb
open Iterators

/-! ## Iterators -/

inductive NodeList where
  | xdes (l : XDesEntryList)
  | inode (l : INodeEntryList)

inductive Place where
  | xdes (a : Addr)
  | inode (a : Addr)

section
variable (file : Option File)

def NodeList.first (s : FileSpaceReader) : NodeList → Except Fault (Option NodePtr × FileSpaceReader)
  | .xdes l => do
    let (q, s) ← XDesEntryList.first file l s
    .ok (q.map .xdes, s)
  | .inode l => do
    let (p, s) ← INodeEntryList.first file l s
    .ok (p.map .inode, s)

def NodePtr.next (s : FileSpaceReader) : NodePtr → Except Fault (Option NodePtr × FileSpaceReader)
  | .xdes q => do
    let (q, s) ← XDesEntryListNode.next file q s
    .ok (q.map .xdes, s)
  | .inode p => do
    let (p, s) ← INodeEntryListNode.next file p s
    .ok (p.map .inode, s)

def iteratorOps : Ops Fault FileSpaceReader NodeList NodePtr :=
  ⟨fun l s => l.first file s, fun n s => n.next file s, Uses file⟩

/-- The `k`-th node of the list, by the file alone. -/
def NodeList.nth (k : Nat) : NodeList → Option Place
  | .xdes l => (l.nth (xdesNext file) k).map .xdes
  | .inode l => (l.nth (inodeNext file) k).map .inode

def Place.next : Place → Option Place
  | .xdes a => if (xdesNext file a).valid then some (.xdes (xdesNext file a)) else none
  | .inode a => if (inodeNext file a).valid then some (.inode (inodeNext file a)) else none

def Place.Good : Place → Prop
  | .xdes a => XdesGood file a
  | .inode a => InodeGood file a

/-- What comes next can be followed with checks for null. -/
def Place.NextSafe : Place → Prop
  | .xdes a => XdesSafe file (xdesNext file a)
  | .inode a => InodeSafe file (inodeNext file a)

def NodeList.All : NodeList → Prop
  | .xdes l => l.All (xdesNext file) (XdesGood file)
  | .inode l => l.All (inodeNext file) (InodeGood file)

def NodePtr.Stands (s : FileSpaceReader) : NodePtr → Place → Prop
  | .xdes q, .xdes a => a.valid = true ∧ XdesGood file a ∧ Holds file s q a ∧ Written s (.xdes q) a.pageNumber
  | .inode p, .inode a => a.valid = true ∧ InodeGood file a ∧ HoldsInode file s p a ∧ Written s (.inode p) a.pageNumber
  | _, _ => False

/-- Asked for its descriptor or its entries, the node gives those at this
place. -/
def NodePtr.Gives (s : FileSpaceReader) : NodePtr → Place → Prop
  | .xdes q, .xdes a => ∃ q' s' e, XDesEntryListNode.xdes file q s = .ok (some q', s') ∧ s'.xdes q' = .ok e ∧
      e.decoded = xdesOf file a
  | .inode p, .inode a => YieldsAt file s p a
  | _, _ => False

structure Tidy (s : FileSpaceReader) : Prop where
  reachable : Reachable file s
  atHome : AtHome s

end

section
variable {file : Option File} {s s' : FileSpaceReader} {n : NodePtr} {x : Place} {a : Addr}

theorem Tidy.new : Tidy file .new := ⟨.refl, .new⟩

theorem Tidy.accesses (T : Tidy file s) (h : Accesses file s s') : Tidy file s' := by
  induction h with
  | refl => exact T
  | tail _ h ih => exact ⟨ih.reachable.steps (.single h.step), ih.atHome.access ih.reachable.inv h⟩

theorem Written.accesses {i : UInt32} (W : Written s n i) (T : Tidy file s) (h : Accesses file s s') :
    Written s' n i := by
  induction h with
  | refl => exact W
  | tail h₁ h ih => exact ih.access (T.accesses h₁).reachable.inv h

theorem NodePtr.Stands.accesses (hn : n.Stands file s x) (T : Tidy file s) (h : Accesses file s s') :
    n.Stands file s' x := by
  cases n with
  | xdes q =>
    cases x with
    | xdes a =>
      obtain ⟨hv, hg, hh, hw⟩ := hn
      exact ⟨hv, hg, hh.steps T.reachable h.steps, hw.accesses T h⟩
    | inode a => exact hn.elim
  | inode p =>
    cases x with
    | xdes a => exact hn.elim
    | inode a =>
      obtain ⟨hv, hg, hh, hw⟩ := hn
      exact ⟨hv, hg, hh.grows (T.reachable.inv.steps h.steps).2, hw.accesses T h⟩

/-! ## What a node gives -/

theorem findXdes_congr {b : Addr} (h : b.pageNumber = a.pageNumber) (num : UInt32) :
    findXdes file num b s = findXdes file num a s := by
  simp only [findXdes, h]

theorem NodePtr.addr_xdes {q : XdesPtr} (h : NodePtr.addr s (.xdes q) = some a) :
    ∃ e, s.xdes q = .ok e ∧ e.listNode.addr = a := by
  obtain ⟨pg, hp, h⟩ := Option.bind_eq_some_iff.mp h
  unfold addrIn at h
  dsimp only at h
  split at h
  · rename_i hd arr hb
    refine ⟨arr.get q.slot, ?_, Option.some.inj h⟩
    simp only [FileSpaceReader.xdes, page_ok (show s.heap[q.page]? = some pg from hp), Loop.ok_bind, hb]
  · cases h

theorem NodePtr.addr_inode {p : PagePtr} (h : NodePtr.addr s (.inode p) = some a) :
    ∃ r, s.asInodePage p = .ok r ∧ r.1.addr = a := by
  obtain ⟨pg, hp, h⟩ := Option.bind_eq_some_iff.mp h
  unfold addrIn at h
  dsimp only at h
  split at h
  · rename_i node arr hb
    exact ⟨(node, arr), asInodePage_ok hp hb, Option.some.inj h⟩
  · cases h

theorem entryNum_eq {q : XdesPtr} {b : Addr} (hg : XdesGood file a) (hh : Holds file s q a)
    (hat : NodePtr.At (.xdes q) b) : entryNum b = entryNum a := by
  obtain ⟨_, _, _, hlo, _⟩ := hg
  obtain ⟨_, _, _, hslot, _⟩ := hh
  have hb : (entryNum b).toNat = q.slot := hat
  exact UInt32.toNat_inj.mp (by rw [hb, hslot, entryNum_toNat hlo])

/-- The address in the node is not the one it stands at, perhaps, but leads to
the same descriptor or page. -/
theorem NodePtr.Stands.gives (hn : n.Stands file s x) (hs : Reachable file s) : n.Gives file s x := by
  cases n with
  | xdes q =>
    cases x with
    | xdes a =>
      obtain ⟨hv, hg, hh, W⟩ := hn
      obtain ⟨b, hb, hpage, hat⟩ := W.addr
      obtain ⟨e, he, rfl⟩ := addr_xdes hb
      rcases findXdes_cases hs hv with ⟨_, q', s', hf, _, hh'⟩ | ⟨hng, _⟩ | ⟨hns, _⟩
      · obtain ⟨y, hy, hd⟩ := hh'.xdes
        refine ⟨q', s', y, ?_, hy, hd⟩
        have hvalid : e.listNode.addr.valid = true := by rw [Addr.valid, hpage]; exact hv
        simp only [XDesEntryListNode.xdes, he, Loop.ok_bind, hvalid, Bool.not_true, Bool.false_eq_true, if_false,
          entryNumInt_toUInt32, entryNum_eq hg hh hat, findXdes_congr hpage, hf]
      · exact absurd hg hng
      · exact absurd hg.safe hns
    | inode a => exact hn.elim
  | inode p =>
    cases x with
    | xdes a => exact hn.elim
    | inode a =>
      obtain ⟨hv, hg, hh, W⟩ := hn
      obtain ⟨b, hb, hpage, -⟩ := W.addr
      obtain ⟨r, hr, rfl⟩ := addr_inode hb
      refine (yieldsAt_iff hs hr).mpr ⟨by rw [Addr.valid, hpage]; exact hv, hg.of_page hpage, ?_⟩
      rw [inodePageOf_congr hpage]

/-! ## Advancing -/

theorem handOutXdes_arrives (T : Tidy file s) {r : Option XdesPtr}
    (h : (if !a.valid then .ok (none, s) else handOutXdes file (entryNum a) a s) = .ok (r, s')) :
    Arrives (Place.Good file) (NodePtr.Stands file s') (r.map .xdes) (if a.valid then some (.xdes a) else none) := by
  by_cases hv : a.valid = true
  · rw [if_pos hv]
    rw [hv, Bool.not_true, if_neg Bool.false_ne_true] at h
    obtain ⟨s₁, hf, ⟨rfl, rfl⟩ | ⟨q, rfl, hst⟩⟩ := handOutXdes_ok h
    -- a good address always gives a node
    · refine .lost fun hg => ?_
      obtain ⟨q, s₂, _, hgood, _⟩ := handOutXdes_good T.reachable hv hg
      rw [h] at hgood; cases hgood
    · have T₁ := T.accesses (findXdes_does hf T.reachable)
      obtain ⟨hc, hat⟩ := findXdes_some T.reachable hf
      rcases findXdes_cases T.reachable hv with ⟨hg, q', s₂, hf', _, hh⟩ | ⟨_, _, _, hf'⟩ | ⟨_, _, hf'⟩
      · rw [hf] at hf'; cases hf'
        obtain ⟨_, _, hst', _, hh', _⟩ := hh.stamp T₁.reachable
        rw [hst] at hst'; cases hst'
        exact .here ⟨hv, hg, hh', .stamp T₁.atHome T₁.reachable.inv hc hat hst⟩
      · rw [hf] at hf'; cases hf'
      · rw [hf] at hf'; cases hf'
  · rw [if_neg hv]
    rw [Bool.eq_false_iff.mpr hv, Bool.not_false, if_pos rfl] at h
    cases h; exact .ended

theorem handOutInode_arrives (T : Tidy file s) {r : Option PagePtr}
    (h : (if !a.valid then .ok (none, s) else handOutInode file a s) = .ok (r, s')) :
    Arrives (Place.Good file) (NodePtr.Stands file s') (r.map .inode) (if a.valid then some (.inode a) else none) := by
  by_cases hv : a.valid = true
  · rw [if_pos hv]
    rw [hv, Bool.not_true, if_neg Bool.false_ne_true] at h
    obtain ⟨s₁, hf, ⟨rfl, rfl⟩ | ⟨p, rfl, hst⟩⟩ := handOutInode_ok h
    · refine .lost fun hg => ?_
      obtain ⟨p, s₂, hgood⟩ := handOutInode_good T.reachable hv hg
      rw [h] at hgood; cases hgood
    · have T₁ := T.accesses (findInode_does hf T.reachable)
      obtain ⟨_, hg, _, hh⟩ := findInode_some T.reachable hf
      obtain ⟨_, _, _, hst', _, hh', _⟩ := hh.stamp T₁.reachable
      rw [hst] at hst'; cases hst'
      have hc := getPage_cached T.reachable.inv (findInode_ok hf)
      exact .here ⟨hv, hg, hh', .stamp T₁.atHome T₁.reachable.inv hc trivial hst⟩
  · rw [if_neg hv]
    rw [Bool.eq_false_iff.mpr hv, Bool.not_false, if_pos rfl] at h
    cases h; exact .ended

theorem first_arrives (T : Tidy file s) {l : NodeList} {r : Option NodePtr} (h : l.first file s = .ok (r, s')) :
    Uses file s s' ∧ Arrives (Place.Good file) (NodePtr.Stands file s') r (l.nth file 0) := by
  cases l with
  | xdes l =>
    obtain ⟨⟨q, s₁⟩, hf, h⟩ := Loop.bind_ok h
    cases h
    refine ⟨.xdesFirst hf, ?_⟩
    unfold XDesEntryList.first XDesEntryList.endNode at hf
    rw [NodeList.nth, ListBaseNode.nth_zero]
    split at hf
    · rename_i h0
      rw [if_pos h0]
      cases hf; exact .ended
    · rename_i h0
      rw [if_neg h0, apply_ite (Option.map Place.xdes)]
      exact handOutXdes_arrives T hf
  | inode l =>
    obtain ⟨⟨p, s₁⟩, hf, h⟩ := Loop.bind_ok h
    cases h
    refine ⟨.inode (c := .first l) hf, ?_⟩
    unfold INodeEntryList.first at hf
    rw [NodeList.nth, ListBaseNode.nth_zero]
    split at hf
    · rename_i h0
      rw [if_pos h0]
      cases hf; exact .ended
    · rename_i h0
      rw [if_neg h0, apply_ite (Option.map Place.inode)]
      exact handOutInode_arrives T hf

theorem next_arrives (T : Tidy file s) (hn : n.Stands file s x) {r : Option NodePtr}
    (h : n.next file s = .ok (r, s')) :
    Uses file s s' ∧ Arrives (Place.Good file) (NodePtr.Stands file s') r (x.next file) := by
  cases n with
  | xdes q =>
    obtain ⟨⟨r, s₁⟩, hf, h⟩ := Loop.bind_ok h
    cases h
    refine ⟨.xdesNext hf, ?_⟩
    cases x with
    | xdes a =>
      obtain ⟨_, _, hh, _⟩ := hn
      obtain ⟨e, he, _⟩ := hh.xdes
      simp only [XDesEntryListNode.next, he, Loop.ok_bind, hh.nextAddr he, entryNumInt_toUInt32] at hf
      exact handOutXdes_arrives T hf
    | inode a => exact hn.elim
  | inode p =>
    obtain ⟨⟨r, s₁⟩, hf, h⟩ := Loop.bind_ok h
    cases h
    refine ⟨.inode (c := .next p) hf, ?_⟩
    cases x with
    | xdes a => exact hn.elim
    | inode a =>
      obtain ⟨_, _, hh, _⟩ := hn
      obtain ⟨_, node, arr, _, hr, _, hnext⟩ := hh.read T.reachable
      simp only [INodeEntryListNode.next, hr, Loop.ok_bind, hnext] at hf
      exact handOutInode_arrives T hf

theorem noFault_map {α β : Type} {x : Except Fault α} {f : α → β} :
    NoFault (x >>= fun r => .ok (f r)) ↔ NoFault x := by
  cases x with
  | error e => exact iff_of_false (not_noFault ⟨e, rfl⟩) (not_noFault ⟨e, rfl⟩)
  | ok r => exact iff_of_true (noFault_ok _) (noFault_ok _)

theorem NodePtr.Stands.next_safe_iff (hn : n.Stands file s x) (hs : Reachable file s) :
    NoFault (n.next file s) ↔ x.NextSafe file := by
  cases n with
  | xdes q =>
    cases x with
    | xdes a =>
      obtain ⟨_, _, hh, _⟩ := hn
      obtain ⟨e, he, _⟩ := hh.xdes
      refine noFault_map.trans ?_
      rw [XDesEntryListNode.next_safe_iff hs he, hh.nextAddr he]; rfl
    | inode a => exact hn.elim
  | inode p =>
    cases x with
    | xdes a => exact hn.elim
    | inode a =>
      obtain ⟨_, _, hh, _⟩ := hn
      obtain ⟨_, node, arr, _, hr, _, hnext⟩ := hh.read hs
      refine noFault_map.trans ?_
      rw [INodeEntryListNode.next_safe_iff hs hr, hnext]; rfl

theorem NodeList.All.nth_good {l : NodeList} (h : l.All file) {k : Nat} (hk : l.nth file k = some x) :
    x.Good file := by
  cases l with
  | xdes l =>
    obtain ⟨a, ha, rfl⟩ := Option.map_eq_some_iff.mp hk
    exact ListBaseNode.All.nth_good h ha
  | inode l =>
    obtain ⟨a, ha, rfl⟩ := Option.map_eq_some_iff.mp hk
    exact ListBaseNode.All.nth_good h ha

theorem Place.nextSafe (h : ∀ y, x.next file = some y → y.Good file) : x.NextSafe file := by
  cases x with
  | xdes a =>
    intro hv
    have hg : Place.Good file (.xdes (xdesNext file a)) := h _ (if_pos hv)
    exact XdesGood.safe hg hv
  | inode a =>
    intro hv
    have hg : Place.Good file (.inode (inodeNext file a)) := h _ (if_pos hv)
    exact InodeGood.safe hg hv

theorem iteratorOps_sound (file : Option File) : Sound (iteratorOps file) (Tidy file) (NodePtr.Stands file)
    (NodeList.nth file 0) (Place.next file) (Place.Good file) where
  keeps _ _ T h := T.accesses (h.does T.reachable)
  stays _ _ _ _ T h hn := hn.accesses T (h.does T.reachable)
  first _ _ _ _ T h := first_arrives T h
  next _ _ _ _ _ T hn h := next_arrives T hn h

theorem NodeList.nth_succ (file : Option File) (l : NodeList) (k : Nat) :
    l.nth file (k + 1) = (l.nth file k).bind (Place.next file) := by
  cases l with
  | xdes l =>
    simp only [NodeList.nth, ListBaseNode.nth_succ]
    cases l.nth (xdesNext file) k with
    | none => rfl
    | some a =>
      rw [Option.map_some, Option.bind_some, Option.bind_some, apply_ite (Option.map Place.xdes)]
      rfl
  | inode l =>
    simp only [NodeList.nth, ListBaseNode.nth_succ]
    cases l.nth (inodeNext file) k with
    | none => rfl
    | some a =>
      rw [Option.map_some, Option.bind_some, Option.bind_some, apply_ite (Option.map Place.inode)]
      rfl

theorem position_nth (file : Option File) (l : NodeList) (k : Nat) :
    position (NodeList.nth file 0) (Place.next file) l k = l.nth file k := by
  induction k with
  | zero => rfl
  | succ k ih => rw [position, ih, NodeList.nth_succ]

end

theorem Run.stands {file : Option File} {s : FileSpaceReader} {its : List (Iter NodeList NodePtr)}
    (h : Run (iteratorOps file) .new s its) : Reachable file s ∧ ∀ it ∈ its,
      Arrives (Place.Good file) (NodePtr.Stands file s) it.handle (it.list.nth file it.advances) := by
  obtain ⟨T, hits⟩ := h.arrives (iteratorOps_sound file) .new
  exact ⟨T.reachable, fun it hit => position_nth file it.list it.advances ▸ hits it hit⟩

theorem NodePtr.Stands.good {file : Option File} {s : FileSpaceReader} {n : NodePtr} {x : Place} (h : n.Stands file s x) :
    x.Good file := by
  cases n with
  | xdes q =>
    cases x with
    | xdes a => exact h.2.1
    | inode a => exact h.elim
  | inode p =>
    cases x with
    | xdes a => exact h.elim
    | inode a => exact h.2.1

theorem Run.passed {file : Option File} {s : FileSpaceReader} {its : List (Iter NodeList NodePtr)}
    (h : Run (iteratorOps file) .new s its) :
    ∀ it ∈ its, ∀ m < it.advances, ∃ x, it.list.nth file m = some x ∧ x.Good file := fun it hit m hm =>
  position_nth file it.list m ▸ h.passes (iteratorOps_sound file) (fun _ _ _ => NodePtr.Stands.good) .new it hit m hm

/-- **Iterators do not disturb each other.** After any run that starts and
advances iterators in any order, with other calls in between, the node an
iterator holds gives what is at its own place of its list; an iterator without
one is past the end or at an address where no node is. -/
theorem iterators_apart (file : Option File) {s : FileSpaceReader} {its : List (Iter NodeList NodePtr)}
    (h : Run (iteratorOps file) .new s its) : ∀ it ∈ its,
      Arrives (Place.Good file) (NodePtr.Gives file s) it.handle (it.list.nth file it.advances) := by
  obtain ⟨hs, hits⟩ := Run.stands h
  exact fun it hit => (hits it hit).mono fun n x hn => hn.gives hs

/-- An iterator advanced once over two inode pages, and one over descriptors. -/
def droppedIterators (p : PagePtr) (q : XdesPtr) : List (Iter NodeList NodePtr) :=
  [⟨.inode nestedList, 1, some (.inode p)⟩, ⟨.xdes ⟨1, 0, 158, 0, 158⟩, 0, some (.xdes q)⟩]

theorem nestedList_nth : NodeList.nth (some nestedFile) 0 (.inode nestedList) = some (.inode ⟨1, 38⟩) ∧
    NodeList.nth (some nestedFile) 1 (.inode nestedList) = some (.inode ⟨2, 38⟩) := by
  have hfirst : NodeList.nth (some nestedFile) 0 (.inode nestedList) = some (.inode ⟨1, 38⟩) := rfl
  have hnext : Place.next (some nestedFile) (.inode ⟨1, 38⟩) = some (.inode ⟨2, 38⟩) := by
    have haddr : inodeNext (some nestedFile) ⟨1, 38⟩ = ⟨2, 38⟩ := by decide
    rw [Place.next, haddr]; rfl
  exact ⟨hfirst, by rw [NodeList.nth_succ, hfirst, Option.bind_some, hnext]⟩

/-- The second iterator reads page 0, which drops the first one's page from
the cache. -/
theorem droppedIterators_start : ∃ s p q, Run (iteratorOps (some nestedFile)) .new s
    [⟨.inode nestedList, 0, some (.inode p)⟩, ⟨.xdes ⟨1, 0, 158, 0, 158⟩, 0, some (.xdes q)⟩] := by
  have hgood : XdesGood (some nestedFile) ⟨0, 158⟩ := ⟨_, rfl, by decide, by decide, by decide⟩
  obtain ⟨p, s₁, h₁⟩ := handOutInode_good (a := ⟨1, 38⟩) .refl rfl (nestedList_good _ List.mem_cons_self)
  have hs₁ : Reachable (some nestedFile) s₁ := (handOutInode_does h₁ .refl).steps
  obtain ⟨q, s₂, _, h₂, _⟩ := handOutXdes_good hs₁ rfl hgood
  have hfirst : INodeEntryList.first (some nestedFile) nestedList .new = .ok (some p, s₁) := h₁
  have hsecond : XDesEntryList.first (some nestedFile) ⟨1, 0, 158, 0, 158⟩ s₁ = .ok (some q, s₂) := h₂
  have hone : Run (iteratorOps (some nestedFile)) .new s₁ [⟨.inode nestedList, 0, some (.inode p)⟩] := by
    refine .first .new ?_
    simp only [iteratorOps, NodeList.first, hfirst, Loop.ok_bind, Option.map_some]
  refine ⟨s₂, p, q, .first hone ?_⟩
  simp only [iteratorOps, NodeList.first, hsecond, Loop.ok_bind, Option.map_some]

theorem droppedIterators_run : ∃ s p q, Run (iteratorOps (some nestedFile)) .new s (droppedIterators p q) := by
  obtain ⟨s, p, q, hstart⟩ := droppedIterators_start
  have hlast : InodeGood (some nestedFile) ⟨2, 38⟩ := nestedList_good _ (List.mem_cons_of_mem _ List.mem_cons_self)
  have hsafe : Place.NextSafe (some nestedFile) (.inode ⟨1, 38⟩) := Place.nextSafe fun y hy => by
    have hnth := nestedList_nth.2
    rw [NodeList.nth_succ, nestedList_nth.1, Option.bind_some, hy] at hnth
    cases hnth; exact hlast
  obtain ⟨hs, hits⟩ := Run.stands hstart
  have hat := hits _ List.mem_cons_self
  rw [nestedList_nth.1] at hat
  cases hat with
  | here hn =>
    obtain ⟨⟨r, s'⟩, hnext⟩ := (hn.next_safe_iff hs).mpr hsafe
    have hrun : Run (iteratorOps (some nestedFile)) .new s'
        [⟨.inode nestedList, 1, r⟩, ⟨.xdes ⟨1, 0, 158, 0, 158⟩, 0, some (.xdes q)⟩] := .next hstart (k := 0) rfl hnext
    have hat := (Run.stands hrun).2 _ List.mem_cons_self
    rw [nestedList_nth.2] at hat
    cases hat with
    | @here n _ hn =>
      cases n with
      | xdes q' => exact hn.elim
      | inode p' => exact ⟨s', p', q, hrun⟩
    | lost hng => exact absurd hlast hng

theorem iterators_apart_dropped : ∃ s p q, Run (iteratorOps (some nestedFile)) .new s (droppedIterators p q) ∧
    NodePtr.Gives (some nestedFile) s (.inode p) (.inode ⟨2, 38⟩) ∧
    NodePtr.Gives (some nestedFile) s (.xdes q) (.xdes ⟨0, 158⟩) := by
  obtain ⟨s, p, q, hrun⟩ := droppedIterators_run
  refine ⟨s, p, q, hrun, ?_, ?_⟩
  · have h := iterators_apart _ hrun _ List.mem_cons_self
    rw [nestedList_nth.2] at h
    cases h with
    | here h => exact h
  · have h := iterators_apart _ hrun _ (List.mem_cons_of_mem _ List.mem_cons_self)
    have hnth : NodeList.nth (some nestedFile) 0 (.xdes ⟨1, 0, 158, 0, 158⟩) = some (.xdes ⟨0, 158⟩) := rfl
    rw [hnth] at h
    cases h with
    | here h => exact h

/-- **Advancing in any order.** In a run like this an iterator can be advanced
exactly where its own next address is safe to follow. Over a list of good
addresses it always can, and it is over exactly at the list's end. -/
theorem iterators_advance_iff (file : Option File) {s : FileSpaceReader} {its : List (Iter NodeList NodePtr)}
    (h : Run (iteratorOps file) .new s its) : ∀ it ∈ its,
      (∀ n x, it.handle = some n → it.list.nth file it.advances = some x →
        (NoFault (n.next file s) ↔ x.NextSafe file)) ∧
      (it.list.All file → (it.handle = none ↔ it.list.nth file it.advances = none) ∧
        ∀ n, it.handle = some n → NoFault (n.next file s)) := by
  obtain ⟨hs, hits⟩ := Run.stands h
  rintro ⟨l, k, q⟩ hit
  have harr := hits _ hit
  dsimp only at harr ⊢
  generalize hx : l.nth file k = x at harr
  cases harr with
  | @here n x hn =>
    refine ⟨?_, fun hall => ⟨iff_of_false nofun nofun, ?_⟩⟩
    · rintro _ _ ⟨⟩ ⟨⟩
      exact hn.next_safe_iff hs
    · rintro _ ⟨⟩
      have hsucc : l.nth file (k + 1) = x.next file := by rw [NodeList.nth_succ, hx, Option.bind_some]
      exact (hn.next_safe_iff hs).mpr (Place.nextSafe fun y hy => hall.nth_good (hsucc.trans hy))
  | ended => exact ⟨nofun, fun _ => ⟨iff_of_true rfl rfl, nofun⟩⟩
  | lost hng => exact ⟨nofun, fun hall => absurd (hall.nth_good hx) hng⟩

theorem iterators_advance_dropped : ∃ s p q, Run (iteratorOps (some nestedFile)) .new s (droppedIterators p q) ∧
    NoFault (NodePtr.next (some nestedFile) s (.inode p)) := by
  obtain ⟨s, p, q, hrun⟩ := droppedIterators_run
  refine ⟨s, p, q, hrun, ?_⟩
  have hiff := (iterators_advance_iff _ hrun _ List.mem_cons_self).1 (.inode p) (.inode ⟨2, 38⟩) rfl nestedList_nth.2
  have hend : (inodeNext (some nestedFile) ⟨2, 38⟩).valid = false := by decide
  refine hiff.mpr fun hv => ?_
  rw [hend] at hv; cases hv

/-! ## Against the traversal -/

section
variable {file : Option File} {s : FileSpaceReader} {its : List (Iter NodeList NodePtr)}
  (h : Run (iteratorOps file) .new s its) {l : INodeEntryList} {k : Nat} {q : Option NodePtr}
  (hit : ⟨.inode l, k, q⟩ ∈ its)
include h hit

theorem inodeIterator_arrives : Arrives (Place.Good file) (NodePtr.Stands file s) q ((l.nth (inodeNext file) k).map .inode) :=
  (Run.stands h).2 _ hit

/-- It holds a node exactly if there is an address at its place, and up to
there an inode page at each. -/
theorem inodeIterator_holds_iff :
    q ≠ none ↔ l.nth (inodeNext file) k ≠ none ∧ ∀ a ∈ l.chain (inodeNext file) (k + 1), InodeGood file a := by
  have harr := inodeIterator_arrives h hit
  cases hx : l.nth (inodeNext file) k with
  | none =>
    rw [hx] at harr
    cases harr
    exact iff_of_false (fun hq => hq rfl) fun hk => hk.1 rfl
  | some a =>
    rw [hx] at harr
    cases harr with
    | lost hng =>
      refine iff_of_false (fun hq => hq rfl) fun hk => hng (hk.2 a ?_)
      exact ListBaseNode.mem_chain.mpr ⟨k, Nat.lt_succ_self k, hx⟩
    | here hn =>
      refine iff_of_true (Option.some_ne_none _) ⟨Option.some_ne_none a, fun b hb => ?_⟩
      obtain ⟨m, hm, hmb⟩ := ListBaseNode.mem_chain.mp hb
      rcases Nat.lt_succ_iff_lt_or_eq.mp hm with hm | rfl
      -- it was advanced from there
      · obtain ⟨x, hxm, hg⟩ := Run.passed h _ hit m hm
        have hnth : NodeList.nth file m (.inode l) = (l.nth (inodeNext file) m).map .inode := rfl
        rw [hnth, hmb] at hxm
        cases hxm; exact hg
      · rw [hx] at hmb
        cases hmb; exact hn.good

/-- **An iterator and a traversal.** However it is interleaved, an iterator
over inode pages agrees with a traversal on any reader: after `k` advances it
holds a node exactly if there is a `k`-th call of the function, and the node
gives the entries of the page of that call. -/
theorem inodeIterator_agrees {σ : Type} (f : Callback file σ Page) (u : σ) {s₁ : FileSpaceReader}
    (h₁ : Reachable file s₁) :
    ((∃ n t, traverseInodeList file f.run l n u s₁ = .ok t ∧ k < t.calls.length) ↔ q ≠ none) ∧
    ∀ n t x a, traverseInodeList file f.run l n u s₁ = .ok t → t.calls[k]? = some (x, a) →
      ∃ p s', q = some (.inode p) ∧ INodeEntryListNode.inodeArr file p s = .ok (some x.inodeArr, s') := by
  refine ⟨(traverse_reaches (inodeRound_follows f) h₁ l u k).trans (inodeIterator_holds_iff h hit).symm, ?_⟩
  intro n t x a ht hc
  have hcall := traverse_call (inodeRound_follows f) h₁ l u ht k
  rw [hc] at hcall
  split at hcall
  · rename_i hkn
    obtain ⟨b, hb, hxb⟩ := Option.map_eq_some_iff.mp hcall.symm
    obtain ⟨hx, rfl⟩ := Prod.mk.inj hxb
    have harr := inodeIterator_arrives h hit
    rw [hb] at harr
    cases harr with
    | @here n _ hn =>
      have hgives := hn.gives (Run.stands h).1
      cases n with
      | xdes q => exact hgives.elim
      | inode p =>
        obtain ⟨s', hs'⟩ := hgives
        rw [hx, Page.inodeArr_decoded] at hs'
        exact ⟨p, s', rfl, hs'⟩
    | lost hng =>
      exact absurd (traverse_good (inodeRound_follows f) h₁ l u ht b (ListBaseNode.mem_chain.mpr ⟨k, hkn, hb⟩)) hng
  · cases hcall

end

theorem inodeIterator_agrees_dropped : ∃ s p q, Run (iteratorOps (some nestedFile)) .new s (droppedIterators p q) ∧
    ∃ n t, traverseInodeList (some nestedFile) (Callback.ignore (some nestedFile) Page).run nestedList n () .new =
      .ok t ∧ 1 < t.calls.length := by
  obtain ⟨s, p, q, hrun⟩ := droppedIterators_run
  refine ⟨s, p, q, hrun, ?_⟩
  exact (inodeIterator_agrees hrun List.mem_cons_self (Callback.ignore _ Page) () .refl).1.mpr (Option.some_ne_none _)

end Innodb
