import Innodb.Page

/-!
# Page objects agree with their buffers

A page object is coherent when its class is the one for its buffer's type, its
headers are decoded from the buffer, and every filled descriptor is decoded
from its own 40 bytes. `init_page` makes coherent objects, and everything that
happens to an object later keeps it coherent.
-/

namespace Innodb

def pageTypeOf (buf : PageBuf) : UInt16 := (FilHeader.initFilHeader (bytes buf) 0).pageType

def PageBody.pageType : PageBody → UInt16
  | .fspHeaderPage .. => filPageTypeFspHdr
  | .inodePage .. => filPageTypeInode
  | .indexPage .. => filPageIndex
  | .ibufBitMapPage => filPageIbufBitmap
  | .sdiPage => filPageTypeSdi
  | .sysPage .. => filPageTypeSys

def constructedTypes : List UInt16 :=
  [filPageTypeFspHdr, filPageTypeInode, filPageIndex, filPageIbufBitmap, filPageTypeSdi, filPageTypeSys]

/-! ## Coherence -/

/-- Descriptor `i` decoded afresh from its 40 bytes; the array starts behind
the FIL and the tablespace header. -/
def xdesAt (buf : PageBuf) (i : Nat) : XdesE := XdesE.new.init (bytes buf) (150 + 40 * i)

def XdesE.decoded (e : XdesE) : XdesE := e.stamp default

@[simp] theorem XdesE.decoded_stamp (e : XdesE) (a : Addr) : (e.stamp a).decoded = e.decoded := rfl

@[simp] theorem XdesE.decoded_init (e : XdesE) (b : Bytes) (p : Nat) :
    (e.init b p).decoded = XdesE.new.init b p := rfl

theorem XdesE.nextAddr_decoded (e : XdesE) : e.decoded.listNode.nextAddr = e.listNode.nextAddr := rfl

def PageBody.Parsed (b : Bytes) : PageBody → Prop
  | .fspHeaderPage h _ => h = FspHeader.init b 0
  | .inodePage node arr => node.toListNode = ListNode.init b FilHeader.filPageData ∧
      arr = initInodeEntries b inodeECount inodeEntryOffset
  | .indexPage h f => h = IndexHeader.init b 0 ∧ f = FsegHeader.init b 0
  | .sysPage d => d = DictHeader.init b 0
  | _ => True

def Page.Parsed (pg : Page) : Prop :=
  pg.filHeader = FilHeader.initFilHeader (bytes pg.buf) 0 ∧ pg.body.Parsed (bytes pg.buf)

structure Page.Coherent (pg : Page) : Prop where
  cls : pg.body.pageType = pageTypeOf pg.buf
  parsed : pg.Parsed
  entries : ∀ h arr, pg.body = .fspHeaderPage h arr →
    ∀ i : Fin 256, (arr.get i).inited = true → (arr.get i).decoded = xdesAt pg.buf i

def Page.Filled (pg : Page) (i : Fin 256) : Prop :=
  ∃ h arr, pg.body = .fspHeaderPage h arr ∧ (arr.get i).decoded = xdesAt pg.buf i

/-- How a page object may change: it keeps its buffer, and what is filled
stays filled. -/
structure Page.Evolves (pg pg' : Page) : Prop where
  buf : pg'.buf = pg.buf
  filled : ∀ i, pg.Filled i → pg'.Filled i

theorem Page.Evolves.refl (pg : Page) : pg.Evolves pg := ⟨rfl, fun _ h => h⟩

theorem Page.Evolves.trans {pg₁ pg₂ pg₃ : Page} (h₁ : pg₁.Evolves pg₂) (h₂ : pg₂.Evolves pg₃) :
    pg₁.Evolves pg₃ :=
  ⟨h₂.buf.trans h₁.buf, fun i h => h₂.filled i (h₁.filled i h)⟩

namespace Page.Coherent
variable {pg : Page} (C : pg.Coherent)
include C

theorem isFsp (h : pageTypeOf pg.buf = filPageTypeFspHdr) : ∃ hd arr, pg.body = .fspHeaderPage hd arr := by
  have hc := C.cls
  rw [h] at hc
  cases hb : pg.body with
  | fspHeaderPage hd arr => exact ⟨hd, arr, rfl⟩
  | _ => rw [hb] at hc; exact absurd hc (by simp only [PageBody.pageType]; decide)

theorem isInode (h : pageTypeOf pg.buf = filPageTypeInode) : ∃ node arr, pg.body = .inodePage node arr := by
  have hc := C.cls
  rw [h] at hc
  cases hb : pg.body with
  | inodePage node arr => exact ⟨node, arr, rfl⟩
  | _ => rw [hb] at hc; exact absurd hc (by simp only [PageBody.pageType]; decide)

theorem fsp_type {hd : FspHeader} {arr : Vector XdesE 256} (h : pg.body = .fspHeaderPage hd arr) :
    pageTypeOf pg.buf = filPageTypeFspHdr := by rw [← C.cls, h]; rfl

theorem inode_type {node : INodeEntryListNode} {arr : List INodeE} (h : pg.body = .inodePage node arr) :
    pageTypeOf pg.buf = filPageTypeInode := by rw [← C.cls, h]; rfl

end Page.Coherent

/-! ## `init_page` -/

theorem new_not_inited (i : Fin 256) : ((Vector.replicate 256 XdesE.new).get i).inited = false := by
  have hget : (Vector.replicate 256 XdesE.new).get i = XdesE.new := Vector.getElem_replicate i.isLt
  rw [hget]; rfl

theorem initPage_inode {buf : PageBuf} (h : pageTypeOf buf = filPageTypeInode) :
    initPage buf = .ok (some ((newINodePage buf).init buf)) := by
  have ht : (FilHeader.initFilHeader (bytes buf) 0).pageType = pageTypeOf buf := rfl
  simp only [initPage, ht, h]; rfl

theorem initPage_ok {buf : PageBuf} (h : pageTypeOf buf ∈ constructedTypes) :
    ∃ pg, initPage buf = .ok (some pg) ∧ pg.buf = buf ∧ pg.Coherent := by
  have ht : (FilHeader.initFilHeader (bytes buf) 0).pageType = pageTypeOf buf := rfl
  simp only [constructedTypes, List.mem_cons, List.not_mem_nil, or_false] at h
  rcases h with h | h | h | h | h | h
  · refine ⟨(newFspHeaderPage buf).init buf, by simp only [initPage, ht, h]; rfl, rfl, ⟨h.symm, ⟨rfl, rfl⟩, ?_⟩⟩
    intro hd arr hb i hi
    cases hb
    rw [new_not_inited i] at hi; cases hi
  · exact ⟨(newINodePage buf).init buf, initPage_inode h, rfl, h.symm, ⟨rfl, rfl, rfl⟩, nofun⟩
  · exact ⟨(newIndexPage buf).init buf, by simp only [initPage, ht, h]; rfl, rfl, h.symm, ⟨rfl, rfl, rfl⟩, nofun⟩
  · exact ⟨(newIBufBitMapPage buf).init buf, by simp only [initPage, ht, h]; rfl, rfl, h.symm, ⟨rfl, trivial⟩, nofun⟩
  · exact ⟨(newSdiPage buf).init buf, by simp only [initPage, ht, h]; rfl, rfl, h.symm, ⟨rfl, trivial⟩, nofun⟩
  · exact ⟨(newSysPage buf).init buf, by simp only [initPage, ht, h]; rfl, rfl, h.symm, ⟨rfl, rfl⟩, nofun⟩

theorem initPage_fault {buf : PageBuf} (h : pageTypeOf buf ∉ constructedTypes) :
    initPage buf = .error .nullPage := by
  have ht : (FilHeader.initFilHeader (bytes buf) 0).pageType = pageTypeOf buf := rfl
  simp only [constructedTypes, List.mem_cons, List.not_mem_nil, or_false, not_or] at h
  obtain ⟨h1, h2, h3, h4, h5, h6⟩ := h
  simp only [initPage, ht, h1, h2, h3, h4, h5, h6, if_false]
  rfl

/-- What `init_page` is to leave in `*page`: an object of the buffer's class,
initialised from the buffer, or null where there is no class. -/
def InitPageDone (buf : PageBuf) : Option Page → Prop
  | some pg => pg.body.pageType = pageTypeOf buf ∧ pg.buf = buf ∧ pg.Parsed
  | none => pageTypeOf buf ∉ constructedTypes

/-- **`init_page`** ends without a call through a null pointer exactly on the
types it constructs. -/
theorem initPage_done_iff (buf : PageBuf) :
    (∃ r, initPage buf = .ok r ∧ InitPageDone buf r) ↔ pageTypeOf buf ∈ constructedTypes := by
  refine ⟨fun hx => ?_, fun h => ?_⟩
  · obtain ⟨r, hr, _⟩ := hx
    refine Classical.byContradiction fun h => ?_
    rw [initPage_fault h] at hr; cases hr
  · obtain ⟨pg, hpg, hbuf, C⟩ := initPage_ok h
    exact ⟨some pg, hpg, by rw [C.cls, hbuf], hbuf, C.parsed⟩

theorem initPage_allocated :
    ¬ ∃ r, initPage (fun _ => 0) = .ok r ∧ InitPageDone (fun _ => 0) r := by
  intro hx
  obtain ⟨r, hr, _⟩ := hx
  rw [initPage_fault (by decide)] at hr; cases hr

/-! ## Scanning the inode slots -/

theorem takeWhile_eq_filter_iff {α : Type} (p : α → Bool) : ∀ l : List α,
    l.takeWhile p = l.filter p ↔ l.Pairwise fun x y => p y = true → p x = true
  | [] => by simp
  | a :: l => by
    rw [List.pairwise_cons]
    by_cases ha : p a = true
    · rw [List.takeWhile_cons_of_pos ha, List.filter_cons_of_pos ha, List.cons.injEq,
        takeWhile_eq_filter_iff p l]
      exact ⟨fun h => ⟨fun _ _ _ => ha, h.2⟩, fun h => ⟨rfl, h.2⟩⟩
    · rw [List.takeWhile_cons_of_neg ha, List.filter_cons_of_neg ha]
      refine ⟨fun h => ?_, fun h => ?_⟩
      · have hn : ∀ y ∈ l, p y ≠ true := List.filter_eq_nil_iff.mp h.symm
        exact ⟨fun y hy hpy => absurd hpy (hn y hy),
          List.pairwise_of_forall_mem_list fun _ _ y hy hpy => absurd hpy (hn y hy)⟩
      · exact (List.filter_eq_nil_iff.mpr fun y hy hpy => ha (h.1 y hy hpy)).symm

def inodeSlots (b : Bytes) (n p : Nat) : List INodeE := (List.range n).map fun k => INodeE.init b (p + 192 * k)

theorem initInodeEntries_eq (b : Bytes) (n p : Nat) :
    initInodeEntries b n p = (inodeSlots b n p).takeWhile INodeE.isValidInodeEntry := by
  induction n generalizing p with
  | zero => rfl
  | succ n ih =>
    have hs : inodeSlots b (n + 1) p = INodeE.init b p :: inodeSlots b n (p + 192) := by
      simp only [inodeSlots, List.range_succ_eq_map, List.map_cons, List.map_map]
      rw [Nat.mul_zero, Nat.add_zero]
      refine congrArg _ (List.map_congr_left fun k _ => ?_)
      rw [Function.comp_apply, show p + 192 * (k + 1) = p + 192 + 192 * k by omega]
    rw [hs, List.takeWhile_cons, initInodeEntries, ih (p + 192)]

/-- **The inode scan** finds every valid slot, in order, exactly when no valid
slot comes after an invalid one. -/
theorem inodeArr_complete_iff (buf : PageBuf) :
    ((newINodePage buf).init buf).inodeArr =
        (inodeSlots (bytes buf) 85 50).filter INodeE.isValidInodeEntry ↔
      ∀ j k, j < k → k < 85 → (INodeE.init (bytes buf) (50 + 192 * k)).isValidInodeEntry = true →
        (INodeE.init (bytes buf) (50 + 192 * j)).isValidInodeEntry = true := by
  have harr : ((newINodePage buf).init buf).inodeArr = initInodeEntries (bytes buf) 85 50 := rfl
  rw [harr, initInodeEntries_eq, takeWhile_eq_filter_iff, inodeSlots, List.pairwise_map, List.pairwise_iff_getElem]
  simp only [List.length_range, List.getElem_range]
  exact ⟨fun h j k hjk hk => h j k (by omega) hk hjk, fun h j k _ hk hjk => h j k hjk hk⟩

def holedInodePage : PageBuf := fun k => sparse
  [(25, 3), (110, 0x05), (111, 0xD6), (112, 0x69), (113, 0xD2), (494, 0x05), (495, 0xD6), (496, 0x69), (497, 0xD2)] k

theorem inodeArr_holed : pageTypeOf holedInodePage = filPageTypeInode ∧
    ((newINodePage holedInodePage).init holedInodePage).inodeArr ≠
      (inodeSlots (bytes holedInodePage) 85 50).filter INodeE.isValidInodeEntry := by
  refine ⟨by decide, fun h => ?_⟩
  have := congrArg List.length h
  revert this
  decide +kernel

/-! ## Changes to an object -/

theorem xdesEntryOffset_eq {index : UInt32} (h : index.toNat < 256) :
    xdesEntryOffset index = 150 + 40 * index.toNat := by
  have hm : index.toNat * 40 % 4294967296 = index.toNat * 40 := Nat.mod_eq_of_lt (by omega)
  simp only [xdesEntryOffset, UInt64.toNat_add, UInt32.toNat_toUInt64, UInt32.toNat_mul, UInt64.toNat_ofNat',
    UInt32.toNat_ofNat', FilHeader.filPageData, FspHeader.fspHeaderSize, flstBaseNodeSize, filAddrSize,
    XdesE.xdesESize, Nat.reduceAdd, Nat.reduceMul, Nat.reducePow, Nat.reduceMod, hm]
  omega

theorem get_set {α : Type} {n : Nat} (arr : Vector α n) (i j : Fin n) (e : α) :
    (arr.set i e i.isLt).get j = if i = j then e else arr.get j := by
  show (arr.set i e i.isLt)[j.val] = if i = j then e else arr[j.val]
  simp only [Vector.getElem_set, Fin.ext_iff]

theorem get_set_self {α : Type} {n : Nat} (arr : Vector α n) (i : Fin n) (e : α) : (arr.set i e i.isLt).get i = e := by
  rw [get_set, if_pos rfl]

namespace Page

theorem Coherent.setEntry {pg : Page} (C : pg.Coherent) {h : FspHeader} {arr : Vector XdesE 256}
    (hb : pg.body = .fspHeaderPage h arr) (i : Fin 256) {e : XdesE}
    (he : e.inited = true → e.decoded = xdesAt pg.buf i)
    (hk : (arr.get i).decoded = xdesAt pg.buf i → e.decoded = xdesAt pg.buf i) :
    Coherent { pg with body := .fspHeaderPage h (arr.set i e i.isLt) } ∧
      pg.Evolves { pg with body := .fspHeaderPage h (arr.set i e i.isLt) } := by
  refine ⟨⟨by rw [← C.cls, hb]; rfl, ⟨C.parsed.1, ?_⟩, ?_⟩, rfl, ?_⟩
  · have := C.parsed.2
    rw [hb] at this; exact this
  · intro h' arr' hb' j hj
    cases hb'
    rw [get_set] at hj ⊢
    split at hj
    · rename_i hij; subst hij; rw [if_pos rfl]; exact he hj
    · rename_i hij; rw [if_neg hij]; exact C.entries h arr hb j hj
  · intro j hx
    obtain ⟨h', arr', hb', hj⟩ := hx
    rw [hb] at hb'; cases hb'
    refine ⟨h, _, rfl, ?_⟩
    rw [get_set]
    by_cases hij : i = j
    · subst hij; rw [if_pos rfl]; exact hk hj
    · rw [if_neg hij]; exact hj

theorem getXdesEntry_fsp {pg : Page} (C : pg.Coherent) (ht : pageTypeOf pg.buf = filPageTypeFspHdr)
    {index : UInt32} (hi : index.toNat < 256) :
    ∃ pg', pg.getXdesEntry index = .ok (some ⟨index.toNat, hi⟩, pg') ∧ pg'.Coherent ∧ pg.Evolves pg' ∧
      pg'.Filled ⟨index.toNat, hi⟩ := by
  obtain ⟨h, arr, hb⟩ := C.isFsp ht
  by_cases hin : arr[index.toNat].inited = true
  · refine ⟨pg, ?_, C, Evolves.refl pg, h, arr, hb, C.entries h arr hb ⟨_, hi⟩ hin⟩
    simp only [getXdesEntry, hb, hi, dite_true, hin, if_true]
  · have hd : (arr[index.toNat].init (bytes pg.buf) (xdesEntryOffset index)).decoded = xdesAt pg.buf index.toNat := by
      rw [XdesE.decoded_init, xdesEntryOffset_eq hi]; rfl
    obtain ⟨C', E⟩ := C.setEntry hb ⟨index.toNat, hi⟩ (fun _ => hd) (fun _ => hd)
    refine ⟨_, ?_, C', E, h, _, rfl, ?_⟩
    · simp only [getXdesEntry, hb, hi, dite_true, hin, Bool.false_eq_true, if_false]
    · rw [get_set_self arr ⟨index.toNat, hi⟩]; exact hd

theorem getXdesEntry_fsp_range {pg : Page} (C : pg.Coherent) (ht : pageTypeOf pg.buf = filPageTypeFspHdr)
    {index : UInt32} (hi : ¬ index.toNat < 256) : pg.getXdesEntry index = .error .outOfRange := by
  obtain ⟨h, arr, hb⟩ := C.isFsp ht
  simp only [getXdesEntry, hb, hi, dite_false]

theorem getXdesEntry_other {pg : Page} (C : pg.Coherent) (ht : pageTypeOf pg.buf ≠ filPageTypeFspHdr)
    (index : UInt32) : pg.getXdesEntry index = .ok (none, pg) := by
  cases hb : pg.body with
  | fspHeaderPage h arr => exact absurd (C.fsp_type hb) ht
  | _ => simp only [getXdesEntry, hb]

theorem getXdesEntry_spec {pg pg' : Page} {index : UInt32} {r : Option (Fin 256)} (C : pg.Coherent)
    (h : pg.getXdesEntry index = .ok (r, pg')) : pg'.Coherent ∧ pg.Evolves pg' := by
  by_cases ht : pageTypeOf pg.buf = filPageTypeFspHdr
  · by_cases hi : index.toNat < 256
    · obtain ⟨pg₁, hg, C', E, _⟩ := getXdesEntry_fsp C ht hi
      rw [hg] at h; cases h
      exact ⟨C', E⟩
    · rw [getXdesEntry_fsp_range C ht hi] at h; cases h
  · rw [getXdesEntry_other C ht] at h; cases h
    exact ⟨C, Evolves.refl pg⟩

theorem stampXdes_spec {pg pg' : Page} {i : Fin 256} {a : Addr} (C : pg.Coherent)
    (h : pg.stampXdes i a = .ok pg') : pg'.Coherent ∧ pg.Evolves pg' := by
  cases hb : pg.body with
  | fspHeaderPage hd arr =>
    simp only [stampXdes, hb, Except.ok.injEq] at h
    subst h
    exact C.setEntry hb i (fun hi => by rw [XdesE.decoded_stamp]; exact C.entries hd arr hb i hi) (fun hk => hk)
  | _ => simp only [stampXdes, hb] at h; cases h

theorem stampInode_spec {pg pg' : Page} {a : Addr} (C : pg.Coherent) (h : pg.stampInode a = .ok pg') :
    pg'.Coherent ∧ pg.Evolves pg' := by
  cases hb : pg.body with
  | inodePage node arr =>
    simp only [stampInode, hb, Except.ok.injEq] at h
    subst h
    have hp := C.parsed.2
    rw [hb] at hp
    refine ⟨⟨by rw [← C.cls, hb]; rfl, ⟨C.parsed.1, hp⟩, nofun⟩, rfl, ?_⟩
    intro j hx
    obtain ⟨h', arr', hb', _⟩ := hx
    rw [hb] at hb'; cases hb'
  | _ => simp only [stampInode, hb] at h; cases h

end Page

end Innodb
