import Innodb.TraverseSound
import Innodb.CacheSound

/-!
# Inode page lists

The accessors and the traversal use the page at an address as an inode page
without asking for its kind. Where that is sound, and what the traversal
visits, by the file alone.
-/

namespace Innodb
open Loop

section
variable (file : Option File)

def InodeGood (a : Addr) : Prop :=
  ∃ buf, image file a.pageNumber = some buf ∧ pageTypeOf buf = filPageTypeInode

/-- Nothing goes wrong when the address is followed with a check for null: the
page, if there is one, is an inode page. -/
def InodeSafe (a : Addr) : Prop :=
  a.valid = true → ∀ buf, image file a.pageNumber = some buf → pageTypeOf buf = filPageTypeInode

def inodePageOf (a : Addr) : Page :=
  (image file a.pageNumber).elim (newINodePage fun _ => 0) fun buf => (newINodePage buf).init buf

def inodeNext (a : Addr) : Addr :=
  (image file a.pageNumber).elim default fun buf => (ListNode.init (bytes buf) FilHeader.filPageData).nextAddr

end

def Page.decoded (pg : Page) : Page :=
  match pg.body with
  | .inodePage node arr => { pg with body := .inodePage { node with addr := default } arr }
  | _ => pg

theorem Page.inodeArr_decoded (pg : Page) : pg.decoded.inodeArr = pg.inodeArr := by
  obtain ⟨buf, filHeader, body⟩ := pg
  cases body <;> rfl

theorem Page.Coherent.inode_decoded {pg : Page} (C : pg.Coherent) (ht : pageTypeOf pg.buf = filPageTypeInode) :
    ∃ node arr, pg.body = .inodePage node arr ∧ pg.decoded = (newINodePage pg.buf).init pg.buf ∧
      node.nextAddr = (ListNode.init (bytes pg.buf) FilHeader.filPageData).nextAddr := by
  obtain ⟨node, arr, hb⟩ := C.isInode ht
  have hp := C.parsed
  simp only [Page.Parsed, hb, PageBody.Parsed] at hp
  obtain ⟨hfil, hnode, harr⟩ := hp
  refine ⟨node, arr, hb, ?_, by rw [hnode]⟩
  simp only [Page.decoded, hb, hfil, hnode, harr, newINodePage, newPage, Page.init, PageBody.init, List.nil_append]
  rfl

section
variable {file : Option File} {s s' : FileSpaceReader} {p : PagePtr} {a : Addr}

theorem InodeGood.safe (h : InodeGood file a) : InodeSafe file a := by
  obtain ⟨buf, hi, ht⟩ := h
  intro _ buf' hi'
  rw [hi] at hi'; cases hi'
  exact ht

/-! ## Fetching -/

def HoldsInode (file : Option File) (s : FileSpaceReader) (p : PagePtr) (a : Addr) : Prop :=
  ∃ pg, s.heap[p]? = some pg ∧ image file a.pageNumber = some pg.buf ∧ pageTypeOf pg.buf = filPageTypeInode

theorem HoldsInode.grows (h : HoldsInode file s p a) (hg : HeapGrows s s') : HoldsInode file s' p a := by
  obtain ⟨pg, hp, hi, ht⟩ := h
  obtain ⟨pg', hp', E⟩ := hg _ _ hp
  exact ⟨pg', hp', by rw [hi, E.buf], by rw [E.buf, ht]⟩

theorem HoldsInode.read (h : HoldsInode file s p a) (hs : Reachable file s) :
    ∃ pg node arr, s.page p = .ok pg ∧ s.asInodePage p = .ok (node, arr) ∧ pg.decoded = inodePageOf file a ∧
      node.nextAddr = inodeNext file a := by
  obtain ⟨pg, hp, hi, ht⟩ := h
  obtain ⟨node, arr, hb, hd, hn⟩ := (hs.inv.coherent pg (List.mem_of_getElem? hp)).inode_decoded ht
  refine ⟨pg, node, arr, page_ok hp, ?_, ?_, ?_⟩
  · simp only [FileSpaceReader.asInodePage, page_ok hp, ok_bind, hb]
  · rw [hd, inodePageOf, hi]; rfl
  · rw [hn, inodeNext, hi]; rfl

theorem HoldsInode.stamp (h : HoldsInode file s p a) (hs : Reachable file s) :
    ∃ s' node arr, s.stampInode p a = .ok s' ∧ Reachable file s' ∧ HoldsInode file s' p a ∧
      s'.asInodePage p = .ok (node, arr) ∧ node.addr = a := by
  obtain ⟨pg, hp, _, ht⟩ := id h
  obtain ⟨node, arr, hb⟩ := (hs.inv.coherent pg (List.mem_of_getElem? hp)).isInode ht
  have hst : s.stampInode p a = .ok { s with
      heap := s.heap.set p { pg with body := .inodePage { node with addr := a } arr } } := by
    simp only [FileSpaceReader.stampInode, page_ok hp, ok_bind, Page.stampInode, hb]
  have hstep : Steps file s _ := .single (.stampInode hst)
  refine ⟨_, { node with addr := a }, arr, hst, hs.steps hstep, h.grows (hs.inv.steps hstep).2, ?_, rfl⟩
  simp only [FileSpaceReader.asInodePage, FileSpaceReader.page,
    List.getElem?_set_self (List.getElem?_eq_some_iff.mp hp).1, deref, ok_bind]

/-- What becomes of an address whose page is asked for and used as an inode
page. -/
inductive InodeFetch (file : Option File) (a : Addr) (s : FileSpaceReader) : Prop
  | found (p s₁) : InodeGood file a → getPage file a.pageNumber s = .ok (some p, s₁) → Reachable file s₁ →
      HoldsInode file s₁ p a → InodeFetch file a s
  | noPage : ¬ InodeGood file a → InodeSafe file a → getPage file a.pageNumber s = .ok (none, s) → InodeFetch file a s
  | pageFault (e) : ¬ InodeSafe file a → getPage file a.pageNumber s = .error e → InodeFetch file a s
  | notInode (p s₁) : ¬ InodeSafe file a → getPage file a.pageNumber s = .ok (some p, s₁) →
      s₁.asInodePage p = .error .badCast → InodeFetch file a s

theorem inodeFetch (hs : Reachable file s) (hv : a.valid = true) : InodeFetch file a s := by
  by_cases hf : file = none
  · have hn : image file a.pageNumber = none := image_none hf
    refine .noPage ?_ ?_ (getPage_null hs.inv hf _)
    · intro hx
      obtain ⟨buf, hi, _⟩ := hx
      rw [hn] at hi; cases hi
    · intro _ buf hi; rw [hn] at hi; cases hi
  obtain ⟨buf, hi⟩ := image_some (i := a.pageNumber) hf
  by_cases ht : pageTypeOf buf ∈ constructedTypes
  · obtain ⟨p, s₁, pg, hg, hp, rfl, C⟩ := getPage_ok hs.inv hi ht (bne_iff_ne.mp hv)
    by_cases hin : pageTypeOf pg.buf = filPageTypeInode
    · exact .found p s₁ ⟨_, hi, hin⟩ hg (hs.steps (.single (.getPage hg))) ⟨pg, hp, hi, hin⟩
    · refine .notInode p s₁ (fun h => hin (h hv _ hi)) hg ?_
      cases hb : pg.body with
      | inodePage node arr => exact absurd (C.inode_type hb) hin
      | _ => simp only [FileSpaceReader.asInodePage, page_ok hp, ok_bind, hb]
  · obtain ⟨e, he⟩ := getPage_fault hs.inv hi (.inl ht)
    refine .pageFault e (fun h => ht ?_) he
    rw [h hv _ hi]; decide

/-! ## The node accessors -/

theorem findInode_cases (hs : Reachable file s) (hv : a.valid = true) :
    (InodeGood file a ∧ ∃ p s', findInode file a s = .ok (some p, s') ∧ Reachable file s' ∧ HoldsInode file s' p a) ∨
    (InodeSafe file a ∧ findInode file a s = .ok (none, s)) ∨
    (¬ InodeSafe file a ∧ ∃ e, findInode file a s = .error e) := by
  cases inodeFetch hs hv with
  | found p s₁ hg hp hr hh =>
    obtain ⟨_, _, _, _, hin, _⟩ := hh.read hr
    exact .inl ⟨hg, p, s₁, by simp only [findInode, hp, ok_bind, hin], hr, hh⟩
  | noPage _ hsafe hp => exact .inr (.inl ⟨hsafe, by simp only [findInode, hp, ok_bind]⟩)
  | pageFault e hns hp => exact .inr (.inr ⟨hns, e, by simp only [findInode, hp, error_bind]⟩)
  | notInode p s₁ hns hp hin =>
    exact .inr (.inr ⟨hns, .badCast, by simp only [findInode, hp, ok_bind, hin, error_bind]⟩)

theorem findInode_safe_iff (hs : Reachable file s) (hv : a.valid = true) :
    NoFault (findInode file a s) ↔ InodeSafe file a := by
  rcases findInode_cases hs hv with ⟨hg, p, s', hf, _⟩ | ⟨hsafe, hf⟩ | ⟨hns, he⟩
  · rw [hf]; exact ⟨fun _ => hg.safe, fun _ => noFault_ok _⟩
  · rw [hf]; exact ⟨fun _ => hsafe, fun _ => noFault_ok _⟩
  · exact ⟨fun h => absurd h (not_noFault he), fun h => absurd h hns⟩

theorem handOutInode_safe_iff (hs : Reachable file s) (hv : a.valid = true) :
    NoFault (handOutInode file a s) ↔ InodeSafe file a := by
  rcases findInode_cases hs hv with ⟨hg, p, s₁, hf, hr, hh⟩ | ⟨hsafe, hf⟩ | ⟨hns, e, he⟩
  · obtain ⟨s', _, _, hst, _⟩ := hh.stamp hr
    refine ⟨fun _ => hg.safe, fun _ => ⟨(some p, s'), ?_⟩⟩
    simp only [handOutInode, hf, ok_bind, hst]
  · refine ⟨fun _ => hsafe, fun _ => ⟨(none, s), ?_⟩⟩
    simp only [handOutInode, hf, ok_bind]
  · refine ⟨fun h => absurd h (not_noFault ⟨e, ?_⟩), fun h => absurd h hns⟩
    simp only [handOutInode, he, error_bind]

theorem inodeArrAt_safe_iff (hs : Reachable file s) (a : Addr) :
    NoFault (inodeArrAt file a s) ↔ InodeSafe file a := by
  refine guarded_safe_iff (fun hv => ?_) fun hv h => absurd h hv
  rcases findInode_cases hs hv with ⟨hg, p, s', hf, hr, hh⟩ | ⟨hsafe, hf⟩ | ⟨hns, e, he⟩
  · obtain ⟨_, _, arr, _, hin, _⟩ := hh.read hr
    simp only [hf, ok_bind, hin]
    exact ⟨fun _ => hg.safe, fun _ => noFault_ok _⟩
  · simp only [hf, ok_bind]
    exact ⟨fun _ => hsafe, fun _ => noFault_ok _⟩
  · simp only [he, error_bind]
    exact ⟨fun h => absurd h (not_noFault ⟨e, rfl⟩), fun h => absurd h hns⟩

theorem INodeEntryListNode.next_safe_iff (hs : Reachable file s) {r : INodeEntryListNode × List INodeE}
    (hr : s.asInodePage p = .ok r) : NoFault (next file p s) ↔ InodeSafe file r.1.nextAddr := by
  simp only [next, hr, ok_bind]
  exact guarded_safe_iff (fun hv => handOutInode_safe_iff hs hv) fun hv h => absurd h hv

/-! ## The traversal -/

theorem inodeRound_follows {σ : Type} (f : Callback file σ Page) :
    RoundFollows file (traverseInodeRound file f.run) (inodeNext file) (InodeGood file)
      (inodePageOf file) Page.decoded where
  cond_eq _ _ := rfl
  move := by
    intro t hr hv hg
    cases inodeFetch hr hv with
    | found p s₁ _ hp hr₁ hh =>
      obtain ⟨pg, node, arr, hpg, hin, hd, _⟩ := hh.read hr₁
      obtain ⟨u, s₂, hf, hst⟩ := f.returns pg t.cur t.user s₁ hr₁
      obtain ⟨_, node', arr', _, hin', _, hn'⟩ := (hh.grows (hr₁.inv.steps hst).2).read (hr₁.steps hst)
      refine ⟨⟨node'.nextAddr, t.calls ++ [(pg, t.cur)], u, s₂⟩, ?_, hr₁.steps hst, hn', ?_⟩
      · simp only [traverseInodeRound, hp, hpg, hin, hf, hin', deref, ok_bind]
      · simp only [List.map_append, List.map_cons, List.map_nil, hd]
    | noPage hng _ _ => exact absurd hg hng
    | pageFault _ hns _ => exact absurd hg.safe hns
    | notInode _ _ hns _ _ => exact absurd hg.safe hns
  stuck := by
    intro t hr hv hng
    cases inodeFetch hr hv with
    | found _ _ hg _ _ _ => exact absurd hg hng
    -- the page is not checked for null
    | noPage _ _ hp => exact ⟨.nullPage, by simp only [traverseInodeRound, hp, deref, ok_bind, error_bind]⟩
    | pageFault e _ hp => exact ⟨e, by simp only [traverseInodeRound, hp, error_bind]⟩
    | notInode p s₁ _ hp hin =>
      exact ⟨.badCast, by simp only [traverseInodeRound, hp, hin, deref, ok_bind, error_bind]⟩

/-- **Use as an inode page.** In every reachable state, each operation uses no
page that is not an inode page, and no missing one, exactly on these
addresses. -/
theorem inodeList_safe_iff (hs : Reachable file s) (l : INodeEntryList) (h : FsegHeader) :
    (NoFault (l.first file s) ↔ (l.listLength ≠ 0 → InodeSafe file l.firstAddr)) ∧
    (NoFault (l.last file s) ↔ (l.listLength ≠ 0 → InodeSafe file l.lastAddr)) ∧
    (∀ p r, s.asInodePage p = .ok r →
      (NoFault (INodeEntryListNode.next file p s) ↔ InodeSafe file r.1.nextAddr) ∧
      (NoFault (INodeEntryListNode.inodeArr file p s) ↔ InodeSafe file r.1.addr)) ∧
    (NoFault (h.leafInode file s) ↔ InodeSafe file h.leafPageInodeAddr) ∧
    (NoFault (h.externalInode file s) ↔ InodeSafe file h.internalPageInodeAddr) ∧
    ∀ {σ : Type} (f : Callback file σ Page) (u : σ),
      (∀ n, NoFault (traverseInodeList file f.run l n u s)) ↔ l.All (inodeNext file) (InodeGood file) := by
  refine ⟨?_, ?_, fun p r hr => ⟨?_, ?_⟩, inodeArrAt_safe_iff hs _, inodeArrAt_safe_iff hs _, fun f u => ?_⟩
  · exact l.guarded_safe_iff (fun hv => handOutInode_safe_iff hs hv) fun hv h => absurd h hv
  · exact l.guarded_safe_iff (fun hv => findInode_safe_iff hs hv) fun hv h => absurd h hv
  · exact INodeEntryListNode.next_safe_iff hs hr
  · unfold INodeEntryListNode.inodeArr
    rw [hr]; exact inodeArrAt_safe_iff hs _
  · exact traverse_safe_iff (inodeRound_follows f) hs l u

end

def inodeFile : File := ⟨16384, sparse [(25, 3)]⟩

theorem inodeList_safe_first : NoFault (INodeEntryList.first (some inodeFile) ⟨1, 0, 38, 0, 38⟩ .new) :=
  (inodeList_safe_iff .refl _ default).1.mpr fun _ _ _ h => by cases h; decide

/-- A tablespace header is used as an inode page; and a missing file makes the
traversal use a null page. -/
theorem inodeList_unsafe :
    ¬ NoFault (INodeEntryList.first (some onePageFile) ⟨1, 0, 38, 0, 38⟩ .new) ∧
    ¬ ∀ n, NoFault (traverseInodeList none (Callback.ignore none Page).run ⟨1, 0, 38, 0, 38⟩ n () .new) := by
  refine ⟨fun h => ?_, fun h => ?_⟩
  · have hsafe := (handOutInode_safe_iff (a := ⟨0, 38⟩) .refl rfl).mp h
    exact absurd (hsafe rfl _ rfl) (by decide)
  · have hall := (traverse_safe_iff (inodeRound_follows (Callback.ignore none Page)) .refl _ ()).mp h
    obtain ⟨buf, hi, _⟩ := hall.good 1 ⟨0, 38⟩ (by decide)
    cases hi

end Innodb
