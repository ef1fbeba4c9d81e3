import Innodb.InodeSound

/-!
# The address in an inode page's node

A node finds its page again through the address that was written into it. A
page object is cached for one index, and the address in its node is the one a
new object has or lies on that page. The first and the next node get their
address when they are handed out; the last one keeps what is there.
-/

namespace Innodb
open Loop Store

/-! ## Calls -/

inductive NodeCall where
  | getPage (i : UInt32)
  | first (l : INodeEntryList)
  | last (l : INodeEntryList)
  | next (node : PagePtr)
  | inodeArr (node : PagePtr)

namespace NodeCall
variable (file : Option File)

/-- The node that a call returns, if it returns one. -/
def run (s : FileSpaceReader) : NodeCall → Except Fault (Option PagePtr × FileSpaceReader)
  | .getPage i => do
    let (_, s) ← Innodb.getPage file i s
    .ok (none, s)
  | .first l => INodeEntryList.first file l s
  | .last l => INodeEntryList.last file l s
  | .next node => INodeEntryListNode.next file node s
  | .inodeArr node => do
    let (_, s) ← INodeEntryListNode.inodeArr file node s
    .ok (none, s)

def target (s : FileSpaceReader) : NodeCall → Option Addr
  | .first l => some l.firstAddr
  | .last l => some l.lastAddr
  | .next node => (s.asInodePage node).toOption.map fun r => r.1.nextAddr
  | _ => none

end NodeCall

section
variable (file : Option File)

/-- Asked for its entries, node `p` gives those of the page at `a`. -/
def YieldsAt (s : FileSpaceReader) (p : PagePtr) (a : Addr) : Prop :=
  ∃ s', INodeEntryListNode.inodeArr file p s = .ok (some (inodePageOf file a).inodeArr, s')

def Addressed (s : FileSpaceReader) (i : UInt32) : Prop :=
  ∃ p r, s.pages[i.toNat]? = some (some p) ∧ s.asInodePage p = .ok r ∧ r.1.addr.pageNumber = i

/-- Page 0, where the address of a new node leads, is an inode page with the
same entries as the page at `a`. -/
def PageZeroSame (a : Addr) : Prop :=
  InodeGood file ⟨0, 0⟩ ∧ (inodePageOf file ⟨0, 0⟩).inodeArr = (inodePageOf file a).inodeArr

/-- Before the call the state is such that the node it returns finds its page. -/
def NodeCall.FindsPage (s : FileSpaceReader) : NodeCall → Prop
  | .last l => Addressed s l.lastPageNumber ∨ PageZeroSame file l.lastAddr
  | _ => True

end

/-! ## Page objects and their indices -/

/-- No page object is cached twice, and the address in a cached node is the
default or lies on its own page. -/
structure Homed (s : FileSpaceReader) : Prop where
  distinct : ∀ (i j : UInt32) (p : PagePtr), s.pages[i.toNat]? = some (some p) →
    s.pages[j.toNat]? = some (some p) → i = j
  addr : ∀ (i : UInt32) (p : PagePtr) (r : INodeEntryListNode × List INodeE), s.pages[i.toNat]? = some (some p) →
    s.asInodePage p = .ok r → r.1.addr = default ∨ r.1.addr.pageNumber = i

section
variable {file : Option File} {s s' : FileSpaceReader} {p : PagePtr} {a : Addr} {r : INodeEntryListNode × List INodeE}

theorem asInodePage_inv (h : s.asInodePage p = .ok r) : ∃ pg, s.heap[p]? = some pg ∧ pg.body = .inodePage r.1 r.2 := by
  obtain ⟨pg, hp, h⟩ := Loop.bind_ok h
  cases hb : pg.body with
  | inodePage node arr =>
    rw [hb] at h; cases h
    exact ⟨pg, page_ok_inv hp, hb⟩
  | _ => rw [hb] at h; cases h

theorem asInodePage_ok {pg : Page} (hp : s.heap[p]? = some pg) (hb : pg.body = .inodePage r.1 r.2) :
    s.asInodePage p = .ok r := by
  simp only [FileSpaceReader.asInodePage, page_ok hp, ok_bind, hb]

theorem asInodePage_congr (h : s.heap[p]? = s'.heap[p]?) : s.asInodePage p = s'.asInodePage p := by
  simp only [FileSpaceReader.asInodePage, FileSpaceReader.page, h]

theorem initPage_addr {pg : Page} (C : pg.Coherent) (h : initPage pg.buf = .ok (some pg)) {node : INodeEntryListNode}
    {arr : List INodeE} (hb : pg.body = .inodePage node arr) : node.addr = default := by
  rw [initPage_inode (C.inode_type hb)] at h
  have hpg : (newINodePage pg.buf).init pg.buf = pg := Option.some.inj (Except.ok.inj h)
  rw [← hpg] at hb
  cases hb; rfl

/-! ## Every call keeps page objects at home -/

theorem Homed.new : Homed FileSpaceReader.new := ⟨nofun, nofun⟩

theorem getPage_cached (I : Inv file s) {i : UInt32} (h : getPage file i s = .ok (some p, s')) :
    s'.pages[i.toNat]? = some (some p) := by
  rcases getPage_cases I h with ⟨q, hq, hr, rfl⟩ | ⟨_, hr, _⟩ | ⟨pg, _, _, _, _, _, hr, rfl⟩
  · cases hr; exact hq
  · cases hr
  · cases hr; exact (installed_slot _ _ _ i _).mpr (.inl ⟨rfl, rfl⟩)

theorem Homed.getPage (H : Homed s) (I : Inv file s) {i : UInt32} {q : Option PagePtr}
    (h : getPage file i s = .ok (q, s')) : Homed s' := by
  rcases getPage_cases I h with ⟨_, _, _, rfl⟩ | ⟨_, _, rfl⟩ | ⟨pg, _, _, _, hinit, C, _, rfl⟩
  · exact H
  · exact H
  -- the new object is behind every object cached so far
  have hold : ∀ (j : UInt32) (p : PagePtr), s.pages[j.toNat]? = some (some p) → p < s.heap.length := by
    intro j p hj
    obtain ⟨_, hp, _⟩ := I.slots j p hj
    exact (List.getElem?_eq_some_iff.mp hp).1
  refine ⟨fun j k p hj hk => ?_, fun j p r hj hr => ?_⟩
  · rcases (installed_slot pg s i j p).mp hj with ⟨rfl, rfl⟩ | ⟨_, _, hj⟩
    · rcases (installed_slot pg s j k _).mp hk with ⟨rfl, _⟩ | ⟨_, _, hk⟩
      · rfl
      · exact absurd (hold k _ hk) (Nat.lt_irrefl _)
    · rcases (installed_slot pg s i k p).mp hk with ⟨_, rfl⟩ | ⟨_, _, hk⟩
      · exact absurd (hold j _ hj) (Nat.lt_irrefl _)
      · exact H.distinct j k p hj hk
  · obtain ⟨pg', hp, hb⟩ := asInodePage_inv hr
    rcases (installed_slot pg s i j p).mp hj with ⟨rfl, rfl⟩ | ⟨_, _, hj⟩
    · rw [installed, alloc_getElem?] at hp
      cases hp
      exact .inl (initPage_addr C hinit hb)
    · rw [installed, List.getElem?_append_left (hold j p hj)] at hp
      exact H.addr j p r hj (asInodePage_ok hp hb)

theorem Homed.stampInode (H : Homed s) (hc : s.pages[a.pageNumber.toNat]? = some (some p))
    (h : s.stampInode p a = .ok s') : Homed s' := by
  obtain ⟨pg, pg', hp, hst, rfl⟩ := stampInode_inv h
  refine ⟨H.distinct, fun j q ⟨node', arr'⟩ hj hr => ?_⟩
  by_cases hpq : p = q
  -- the object written to is cached for the address's own page only
  · subst hpq
    obtain rfl := H.distinct _ _ p hc hj
    obtain ⟨pg₁, hp₁, hb₁⟩ := asInodePage_inv hr
    rw [List.getElem?_set_self (List.getElem?_eq_some_iff.mp hp).1] at hp₁
    cases hp₁
    unfold Page.stampInode at hst
    split at hst
    · cases hst; cases hb₁; exact .inr rfl
    · cases hst
  · have hsame : ({ s with heap := s.heap.set p pg' } : FileSpaceReader).heap[q]? = s.heap[q]? :=
      List.getElem?_set_ne hpq
    rw [asInodePage_congr hsame] at hr
    exact H.addr j q _ hj hr

structure Settled (file : Option File) (s : FileSpaceReader) : Prop where
  reachable : Reachable file s
  homed : Homed s

theorem Settled.new : Settled file FileSpaceReader.new := ⟨.refl, .new⟩

theorem Settled.getPage (S : Settled file s) {i : UInt32} {q : Option PagePtr}
    (h : Innodb.getPage file i s = .ok (q, s')) :
    Settled file s' :=
  ⟨S.reachable.steps (.single (.getPage h)), S.homed.getPage S.reachable.inv h⟩

theorem findInode_ok {q : Option PagePtr} (h : findInode file a s = .ok (q, s')) :
    getPage file a.pageNumber s = .ok (q, s') := by
  obtain ⟨⟨q', s₁⟩, hg, h⟩ := Loop.bind_ok h
  cases q' with
  | none => cases h; exact hg
  | some p =>
    obtain ⟨_, _, h⟩ := Loop.bind_ok h
    cases h; exact hg

theorem handOutInode_ok {q : Option PagePtr} (h : handOutInode file a s = .ok (q, s')) :
    ∃ s₁, findInode file a s = .ok (q, s₁) ∧
      (q = none ∧ s' = s₁ ∨ ∃ p, q = some p ∧ s₁.stampInode p a = .ok s') := by
  obtain ⟨⟨q', s₁⟩, hf, h⟩ := Loop.bind_ok h
  cases q' with
  | none => cases h; exact ⟨_, hf, .inl ⟨rfl, rfl⟩⟩
  | some p =>
    obtain ⟨s₂, hst, h⟩ := Loop.bind_ok h
    cases h; exact ⟨s₁, hf, .inr ⟨p, rfl, hst⟩⟩

theorem inodeArrAt_ok {q : Option (List INodeE)} (h : inodeArrAt file a s = .ok (q, s')) :
    s' = s ∨ ∃ p, getPage file a.pageNumber s = .ok (p, s') := by
  rcases guarded_ok h with e | h
  · cases e; exact .inl rfl
  obtain ⟨⟨p, s₁⟩, hf, h⟩ := Loop.bind_ok h
  refine .inr ⟨p, ?_⟩
  cases p with
  | none => cases h; exact findInode_ok hf
  | some p =>
    obtain ⟨_, _, h⟩ := Loop.bind_ok h
    cases h; exact findInode_ok hf

theorem Settled.handOutInode (S : Settled file s) {q : Option PagePtr}
    (h : Innodb.handOutInode file a s = .ok (q, s')) : Settled file s' := by
  obtain ⟨s₁, hf, ⟨_, rfl⟩ | ⟨p, rfl, hst⟩⟩ := handOutInode_ok h
  · exact S.getPage (findInode_ok hf)
  · have hg := findInode_ok hf
    have S₁ := S.getPage hg
    exact ⟨S₁.reachable.steps (.single (.stampInode hst)),
      S₁.homed.stampInode (getPage_cached S.reachable.inv hg) hst⟩

inductive NodeCall.Did (file : Option File) (s s' : FileSpaceReader) (c : NodeCall) (q : Option PagePtr) : Prop
  | nothing : q = none → s' = s → Did file s s' c q
  | fetched (i : UInt32) (r : Option PagePtr) : q = none → Innodb.getPage file i s = .ok (r, s') → Did file s s' c q
  | handedOut (b : Addr) : c.target s = some b → c.FindsPage file s → Innodb.handOutInode file b s = .ok (q, s') →
      Did file s s' c q
  | found (l : INodeEntryList) : c = .last l → findInode file l.lastAddr s = .ok (q, s') → Did file s s' c q

theorem NodeCall.did {c : NodeCall} {q : Option PagePtr} (h : c.run file s = .ok (q, s')) : c.Did file s s' q := by
  cases c with
  | getPage i =>
    obtain ⟨⟨p, s₁⟩, hg, e⟩ := Loop.bind_ok h
    cases e; exact .fetched i p rfl hg
  | first l =>
    rcases l.guarded_ok h with e | hf
    · cases e; exact .nothing rfl rfl
    · exact .handedOut _ rfl trivial hf
  | last l =>
    rcases l.guarded_ok h with e | hf
    · cases e; exact .nothing rfl rfl
    · exact .found l rfl hf
  | next node =>
    obtain ⟨r, hr, h⟩ := Loop.bind_ok h
    rcases guarded_ok h with e | h
    · cases e; exact .nothing rfl rfl
    · refine .handedOut r.1.nextAddr ?_ trivial h
      simp only [target, hr, Except.toOption, Option.map_some]
  | inodeArr node =>
    obtain ⟨⟨arr, s₁⟩, h, e⟩ := Loop.bind_ok h
    cases e
    obtain ⟨r, _, h⟩ := Loop.bind_ok h
    rcases inodeArrAt_ok h with rfl | ⟨p, hg⟩
    · exact .nothing rfl rfl
    · exact .fetched _ p rfl hg

theorem Settled.run (S : Settled file s) {c : NodeCall} {q : Option PagePtr} (h : c.run file s = .ok (q, s')) :
    Settled file s' := by
  cases NodeCall.did h with
  | nothing _ hs => exact hs ▸ S
  | fetched _ _ _ hg => exact S.getPage hg
  | handedOut _ _ _ hf => exact S.handOutInode hf
  | found _ _ hf => exact S.getPage (findInode_ok hf)

/-! ## Asked for its entries -/

theorem not_some_of_none {α : Type} {x : α} :
    ¬ ∃ s', (.ok (none, s) : Except Fault (Option α × FileSpaceReader)) = .ok (some x, s') := by
  intro hx
  obtain ⟨_, hx⟩ := hx
  cases hx

theorem not_some_of_error {α : Type} {x : α} {e : Fault} :
    ¬ ∃ s', (.error e : Except Fault (Option α × FileSpaceReader)) = .ok (some x, s') := by
  intro hx
  obtain ⟨_, hx⟩ := hx
  cases hx

theorem InodeGood.of_page {b : Addr} (h : InodeGood file b) (e : a.pageNumber = b.pageNumber) : InodeGood file a := by
  unfold InodeGood at *
  rwa [e]

theorem inodePageOf_congr {b : Addr} (e : a.pageNumber = b.pageNumber) : inodePageOf file a = inodePageOf file b := by
  unfold inodePageOf
  rw [e]

theorem HoldsInode.entries (h : HoldsInode file s p a) (hs : Reachable file s) :
    ∃ r, s.asInodePage p = .ok r ∧ r.2 = (inodePageOf file a).inodeArr := by
  obtain ⟨pg, node, arr, hp, hr, hd, _⟩ := h.read hs
  obtain ⟨pg', hp', hb⟩ := asInodePage_inv hr
  rw [page_ok_inv hp] at hp'
  cases hp'
  refine ⟨_, hr, ?_⟩
  rw [← hd]
  simp only [Page.decoded, Page.inodeArr, hb]

theorem inodeArrAt_some_iff (hs : Reachable file s) {arr : List INodeE} :
    (∃ s', inodeArrAt file a s = .ok (some arr, s')) ↔
      a.valid = true ∧ InodeGood file a ∧ (inodePageOf file a).inodeArr = arr := by
  unfold inodeArrAt
  by_cases hv : a.valid = true
  · rw [hv, Bool.not_true, if_neg Bool.false_ne_true, eq_self, true_and]
    cases inodeFetch hs hv with
    | found p s₁ hg hp hs₁ hh =>
      obtain ⟨r, hr, harr⟩ := hh.entries hs₁
      simp only [findInode, hp, ok_bind, hr, ← harr]
      refine ⟨fun hx => ?_, fun hx => ⟨s₁, by rw [hx.2]⟩⟩
      obtain ⟨s', hx⟩ := hx
      cases hx
      exact ⟨hg, rfl⟩
    | noPage hng _ hp =>
      simp only [findInode, hp, ok_bind]
      exact iff_of_false not_some_of_none fun hx => hng hx.1
    | pageFault e hns hp =>
      simp only [findInode, hp, error_bind]
      exact iff_of_false not_some_of_error fun hx => hns hx.1.safe
    | notInode p s₁ hns hp hin =>
      simp only [findInode, hp, ok_bind, hin, error_bind]
      exact iff_of_false not_some_of_error fun hx => hns hx.1.safe
  · rw [Bool.eq_false_iff.mpr hv, Bool.not_false, if_pos rfl]
    exact iff_of_false not_some_of_none fun hx => Bool.false_ne_true hx.1

theorem yieldsAt_iff (hs : Reachable file s) (hr : s.asInodePage p = .ok r) : YieldsAt file s p a ↔
    r.1.addr.valid = true ∧ InodeGood file r.1.addr ∧
      (inodePageOf file r.1.addr).inodeArr = (inodePageOf file a).inodeArr := by
  unfold YieldsAt INodeEntryListNode.inodeArr
  rw [hr]
  exact inodeArrAt_some_iff hs

theorem getPage_valid (hs : Reachable file s) (h : getPage file a.pageNumber s = .ok (some p, s')) : a.valid = true :=
  bne_iff_ne.mpr (getPage_image hs.inv h).1

theorem findInode_some (hs : Reachable file s) (h : findInode file a s = .ok (some p, s')) :
    a.valid = true ∧ InodeGood file a ∧ Reachable file s' ∧ HoldsInode file s' p a := by
  have hv := getPage_valid hs (findInode_ok h)
  rcases findInode_cases hs hv with ⟨hgood, q, s₁, hf, hs₁, hh⟩ | ⟨_, hf⟩ | ⟨_, e, he⟩
  · rw [hf] at h; cases h
    exact ⟨hv, hgood, hs₁, hh⟩
  · rw [hf] at h; cases h
  · rw [he] at h; cases h

/-- The page handed out is the one at the address, and its node says so. -/
theorem handOutInode_node (hs : Reachable file s) (h : handOutInode file a s = .ok (some p, s')) :
    a.valid = true ∧ InodeGood file a ∧ Reachable file s' ∧ s'.pages[a.pageNumber.toNat]? = some (some p) ∧
      ∃ r, s'.asInodePage p = .ok r ∧ r.1.addr = a := by
  obtain ⟨s₁, hf, ⟨hq, _⟩ | ⟨q, hq, hst⟩⟩ := handOutInode_ok h
  · cases hq
  · cases hq
    obtain ⟨hv, hgood, hs₁, hh⟩ := findInode_some hs hf
    obtain ⟨s₂, node, arr, hst', hs₂, _, hr, haddr⟩ := hh.stamp hs₁
    rw [hst] at hst'; cases hst'
    have hcached := getPage_cached hs.inv (findInode_ok hf)
    obtain ⟨_, _, _, _, rfl⟩ := stampInode_inv hst
    exact ⟨hv, hgood, hs₂, hcached, _, hr, haddr⟩

theorem handOutInode_yields (hs : Reachable file s) (h : handOutInode file a s = .ok (some p, s')) :
    YieldsAt file s' p a := by
  obtain ⟨hv, hgood, hs', _, r, hr, haddr⟩ := handOutInode_node hs h
  refine (yieldsAt_iff hs' hr).mpr ?_
  rw [haddr]
  exact ⟨hv, hgood, rfl⟩

theorem handOutInode_addressed (hs : Reachable file s) (h : handOutInode file a s = .ok (some p, s')) :
    Addressed s' a.pageNumber := by
  obtain ⟨_, _, _, hcached, r, hr, haddr⟩ := handOutInode_node hs h
  exact ⟨p, r, hcached, hr, by rw [haddr]⟩

theorem findInode_good (hs : Reachable file s) (hv : a.valid = true) (hg : InodeGood file a) :
    ∃ p s', findInode file a s = .ok (some p, s') := by
  cases inodeFetch hs hv with
  | found p s₁ _ hp hs₁ hh =>
    obtain ⟨r, hr, _⟩ := hh.entries hs₁
    exact ⟨p, s₁, by simp only [findInode, hp, ok_bind, hr]⟩
  | noPage hng _ _ => exact absurd hg hng
  | pageFault _ hns _ => exact absurd hg.safe hns
  | notInode _ _ hns _ _ => exact absurd hg.safe hns

theorem handOutInode_good (hs : Reachable file s) (hv : a.valid = true) (hg : InodeGood file a) :
    ∃ p s', handOutInode file a s = .ok (some p, s') := by
  obtain ⟨p, s₁, hf⟩ := findInode_good hs hv hg
  obtain ⟨_, _, hs₁, hh⟩ := findInode_some hs hf
  obtain ⟨s', _, _, hst, _⟩ := hh.stamp hs₁
  exact ⟨p, s', by simp only [handOutInode, hf, ok_bind, hst]⟩

/-- What is in the node that `last` finds: an address on its own page if one
was written into the cached object, else the default. -/
theorem findInode_addr (S : Settled file s) (h : findInode file a s = .ok (some p, s')) (hr : s'.asInodePage p = .ok r) :
    (Addressed s a.pageNumber → r.1.addr.pageNumber = a.pageNumber) ∧
    (¬ Addressed s a.pageNumber → r.1.addr = default) := by
  have hg := findInode_ok h
  rcases getPage_cases S.reachable.inv hg with ⟨q, hq, hp, rfl⟩ | ⟨_, hp, _⟩ | ⟨pg, hm, _, _, hinit, C, hp, rfl⟩
  -- found in the cache: whatever was written into the object before
  · cases hp
    refine ⟨fun hA => ?_, fun hA => ?_⟩
    · obtain ⟨q, r', hq', hr', haddr⟩ := hA
      rw [hq] at hq'; cases hq'
      rw [hr] at hr'; cases hr'
      exact haddr
    · rcases S.homed.addr _ _ r hq hr with hd | haddr
      · exact hd
      · exact absurd ⟨p, r, hq, hr, haddr⟩ hA
  · cases hp
  -- read again: a new object
  · cases hp
    refine ⟨fun hA => ?_, fun _ => ?_⟩
    · obtain ⟨q, _, hq, _⟩ := hA
      exact absurd hq (hm q)
    · obtain ⟨pg', hp', hb⟩ := asInodePage_inv hr
      rw [installed, alloc_getElem?] at hp'
      cases hp'
      exact initPage_addr C hinit hb

theorem findInode_yields_iff (S : Settled file s) (h : findInode file a s = .ok (some p, s')) :
    YieldsAt file s' p a ↔ Addressed s a.pageNumber ∨ PageZeroSame file a := by
  obtain ⟨hv, hgood, hs', hh⟩ := findInode_some S.reachable h
  obtain ⟨r, hr, _⟩ := hh.entries hs'
  obtain ⟨hA, hN⟩ := findInode_addr S h hr
  rw [yieldsAt_iff hs' hr]
  by_cases hc : Addressed s a.pageNumber
  · have he := hA hc
    refine ⟨fun _ => .inl hc, fun _ => ⟨?_, hgood.of_page he, by rw [inodePageOf_congr he]⟩⟩
    simpa only [Addr.valid, he] using hv
  · rw [hN hc]
    refine ⟨fun hx => .inr hx.2, ?_⟩
    rintro (hx | hx)
    · exact absurd hx hc
    · exact ⟨rfl, hx⟩

theorem NodeCall.yields_iff (S : Settled file s) {c : NodeCall} (h : c.run file s = .ok (some p, s')) :
    ∃ a, c.target s = some a ∧ (YieldsAt file s' p a ↔ c.FindsPage file s) := by
  cases NodeCall.did h with
  | nothing hq _ => cases hq
  | fetched _ _ hq _ => cases hq
  | handedOut a ht hF hf => exact ⟨a, ht, fun _ => hF, fun _ => handOutInode_yields S.reachable hf⟩
  | found l hc hf =>
    subst hc
    exact ⟨_, rfl, findInode_yields_iff S hf⟩

end

/-! ## Runs -/

structure CallMade where
  before : FileSpaceReader
  call : NodeCall
  node : Option PagePtr
  after : FileSpaceReader

/-- A run of calls on a new reader that all returned, each satisfying `ok` in
the state it was made in. -/
inductive Calls (file : Option File) (ok : FileSpaceReader → NodeCall → Prop) : List CallMade → FileSpaceReader → Prop
  | new : Calls file ok [] .new
  | call {l s c q s'} : Calls file ok l s → ok s c → c.run file s = .ok (q, s') →
      Calls file ok (l ++ [⟨s, c, q, s'⟩]) s'

section
variable {file : Option File} {ok : FileSpaceReader → NodeCall → Prop} {l : List CallMade} {s : FileSpaceReader}

theorem Calls.settled (h : Calls file ok l s) : Settled file s := by
  induction h with
  | new => exact .new
  | call _ _ hc ih => exact ih.run hc

/-- Right after the call the node returned gives the entries of the page it
was reached at. -/
def CallMade.Yields (file : Option File) (m : CallMade) : Prop :=
  ∀ p, m.node = some p → ∃ a, m.call.target m.before = some a ∧ YieldsAt file m.after p a

theorem Calls.yields (h : Calls file (NodeCall.FindsPage file) l s) : ∀ m ∈ l, m.Yields file := by
  induction h with
  | new => intro m hm; cases hm
  | @call l s c q s' hl hF hc ih =>
    intro m hm
    rcases List.mem_append.mp hm with hm | hm
    · exact ih m hm
    · obtain rfl := List.mem_singleton.mp hm
      rintro p rfl
      obtain ⟨a, ha, hy⟩ := NodeCall.yields_iff hl.settled hc
      exact ⟨a, ha, hy.mpr hF⟩

end

/-- **Nodes and their entries.** After any calls, a node that a call returns
gives the entries of the page it was reached at exactly when the call finds
its page; in a run of such calls every node does. -/
theorem inodeNodes_yield_iff (file : Option File) :
    (∀ l s, Calls file (fun _ _ => True) l s → ∀ c p s', c.run file s = .ok (some p, s') →
      ((⟨s, c, some p, s'⟩ : CallMade).Yields file ↔ c.FindsPage file s)) ∧
    (∀ l s, Calls file (NodeCall.FindsPage file) l s → ∀ m ∈ l, m.Yields file) := by
  refine ⟨fun l s h c p s' hc => ?_, fun l s h => h.yields⟩
  obtain ⟨a, ha, hy⟩ := NodeCall.yields_iff h.settled hc
  rw [← hy]
  refine ⟨fun hm => ?_, fun hm q hq => ?_⟩
  · obtain ⟨b, hb, hm⟩ := hm p rfl
    rw [ha] at hb; cases hb
    exact hm
  · cases hq
    exact ⟨a, ha, hm⟩

/-- Page 0 is a tablespace header, page 1 an inode page with one entry. -/
def inodeAtOneFile : File :=
  ⟨32768, sparse [(25, 8), (16409, 3), (16428, 0xFF), (16429, 0xFF), (16430, 0xFF), (16431, 0xFF),
    (16494, 0x05), (16495, 0xD6), (16496, 0x69), (16497, 0xD2)]⟩

def pageOneList : INodeEntryList := ⟨1, 1, 38, 1, 38⟩

theorem pageOne_good : InodeGood (some inodeAtOneFile) ⟨1, 38⟩ := ⟨_, rfl, by decide⟩

/-- After `first` has written the address, `last` finds the page too. -/
theorem inodeNodes_yield_last : ∃ p s₁ q s₂,
    (NodeCall.first pageOneList).run (some inodeAtOneFile) .new = .ok (some p, s₁) ∧
    (NodeCall.last pageOneList).run (some inodeAtOneFile) s₁ = .ok (some q, s₂) ∧
    CallMade.Yields (some inodeAtOneFile) ⟨.new, .first pageOneList, some p, s₁⟩ ∧
    CallMade.Yields (some inodeAtOneFile) ⟨s₁, .last pageOneList, some q, s₂⟩ := by
  obtain ⟨p, s₁, h₁⟩ := handOutInode_good .refl rfl pageOne_good
  have S₁ : Settled (some inodeAtOneFile) s₁ := Settled.new.handOutInode h₁
  obtain ⟨q, s₂, h₂⟩ := findInode_good S₁.reachable rfl pageOne_good
  have hA := handOutInode_addressed .refl h₁
  have hfirst : (NodeCall.first pageOneList).run (some inodeAtOneFile) .new = .ok (some p, s₁) := h₁
  have hlast : (NodeCall.last pageOneList).run (some inodeAtOneFile) s₁ = .ok (some q, s₂) := h₂
  have hrun : Calls (some inodeAtOneFile) (NodeCall.FindsPage (some inodeAtOneFile))
      [⟨.new, .first pageOneList, some p, s₁⟩] s₁ := .call .new trivial hfirst
  refine ⟨p, s₁, q, s₂, hfirst, hlast, ?_, ?_⟩
  · exact (inodeNodes_yield_iff _).2 _ _ hrun _ List.mem_cons_self
  · exact ((inodeNodes_yield_iff _).1 _ _ (.call .new trivial hfirst) _ _ _ hlast).mpr (.inl hA)

/-- On a new reader `last` returns the node of page 1, which resolves, and the
node's address leads to page 0. -/
theorem inodeNodes_last_lost :
    pageOneList.All (inodeNext (some inodeAtOneFile)) (InodeGood (some inodeAtOneFile)) ∧
    InodeGood (some inodeAtOneFile) pageOneList.lastAddr ∧
    ∃ p s', (NodeCall.last pageOneList).run (some inodeAtOneFile) .new = .ok (some p, s') ∧
      ¬ CallMade.Yields (some inodeAtOneFile) ⟨.new, .last pageOneList, some p, s'⟩ := by
  refine ⟨?_, pageOne_good, ?_⟩
  · have hend : (inodeNext (some inodeAtOneFile) ⟨1, 38⟩).valid = false := by decide
    have hspells : Spells Addr.valid (inodeNext (some inodeAtOneFile)) pageOneList.firstAddr [⟨1, 38⟩] :=
      ⟨rfl, rfl, hend⟩
    exact .inr (hspells.along fun a ha => List.mem_singleton.mp ha ▸ pageOne_good)
  · obtain ⟨p, s', h⟩ := findInode_good (s := .new) .refl rfl pageOne_good
    refine ⟨p, s', h, fun hy => ?_⟩
    obtain ⟨a, ha, hy⟩ := hy p rfl
    cases ha
    rcases (findInode_yields_iff .new h).mp hy with ⟨_, _, hq, _⟩ | ⟨⟨buf, hi, ht⟩, _⟩
    · cases hq
    · cases hi
      exact absurd ht (by decide)

end Innodb
