import Innodb.HeadersSound
import Innodb.TraverseSound

/-!
# Extent descriptors

A descriptor's pages have two bits each in its bitmap; which bit the test for
a free page looks at is right for the first four of them only. The array of
descriptors is filled as they are asked for, and that does not show.
-/

namespace Innodb
open BigEndian Loop Store

/-! ## The bitmap -/

theorem one_shiftLeft {s : UInt32} (hs : s.toNat < 32) :
    (1 <<< s.toInt32 : Int32).toBitVec = BitVec.twoPow 32 s.toNat := by
  have hsmod : s.toBitVec.smod 32 = s.toBitVec := by
    have hmsb : s.toBitVec.msb = false := BitVec.msb_eq_false_iff_two_mul_lt.mpr (by
      have : s.toBitVec.toNat = s.toNat := rfl
      omega)
    rw [BitVec.smod_eq, hmsb]
    exact BitVec.umod_eq_of_lt (show s.toNat < 32 from hs)
  rw [Int32.toBitVec_shiftLeft, show s.toInt32.toBitVec = s.toBitVec from rfl, hsmod, BitVec.twoPow_eq,
    BitVec.shiftLeft_eq']
  rfl

theorem testBit_promoted (b : UInt8) {s : UInt32} (hs : s.toNat < 32) :
    (b.toInt8.toInt32 &&& (1 <<< s.toInt32) == 0) = !(b.toBitVec.signExtend 32).getLsbD s.toNat := by
  have hne : BitVec.twoPow 32 s.toNat ≠ 0#32 := by
    rw [Ne, ← BitVec.toNat_inj, BitVec.toNat_twoPow, Nat.mod_eq_of_lt (Nat.pow_lt_pow_right (by decide) hs)]
    exact Nat.ne_of_gt (Nat.two_pow_pos _)
  have hand : (b.toInt8.toInt32 &&& (1 <<< s.toInt32)).toBitVec =
      if (b.toBitVec.signExtend 32).getLsbD s.toNat then BitVec.twoPow 32 s.toNat else 0#32 := by
    rw [Int32.toBitVec_and, one_shiftLeft hs, Int8.toBitVec_toInt32, BitVec.and_twoPow]; rfl
  cases hbit : (b.toBitVec.signExtend 32).getLsbD s.toNat with
  | true =>
    rw [hbit, if_pos rfl] at hand
    exact beq_eq_false_iff_ne.mpr fun h => hne (by rw [← hand, h]; rfl)
  | false =>
    rw [hbit, if_neg Bool.false_ne_true] at hand
    exact beq_iff_eq.mpr (Int32.toBitVec_inj.mp hand)

namespace XdesE

/-- The byte of the bitmap that page `n` has its field in. -/
def pageByte (e : XdesE) (n : Fin 64) : UInt8 := e.pageState.get ⟨n.val / 4, by omega⟩

/-- Page `n`'s field: bits `2 * (n % 4)` and `2 * (n % 4) + 1` of its byte. -/
def pageField (e : XdesE) (n : Fin 64) : Bool × Bool :=
  ((e.pageByte n).toBitVec.getLsbD (2 * (n.val % 4)), (e.pageByte n).toBitVec.getLsbD (2 * (n.val % 4) + 1))

def flipLow (e : XdesE) (n : Fin 64) : XdesE :=
  { e with
    pageState := e.pageState.set (n.val / 4) ⟨(e.pageByte n).toBitVec ^^^ BitVec.twoPow 8 (2 * (n.val % 4))⟩ (by omega) }

def isPageFreeAt (e : XdesE) (n : Fin 64) : Option Bool := e.isPageFree (UInt32.ofNat n)

structure DecidedByOwnField (e : XdesE) (n : Fin 64) : Prop where
  shift : e.isPageFreeAt n ≠ none
  flips : (e.flipLow n).isPageFreeAt n ≠ e.isPageFreeAt n
  others : ∀ e' : XdesE, e'.pageField n = e.pageField n → e'.isPageFreeAt n = e.isPageFreeAt n

section
variable (e : XdesE) (n : Fin 64)

theorem isPageFreeAt_eq : e.isPageFreeAt n =
    if 2 * n.val < 32 then some !((e.pageByte n).toBitVec.signExtend 32).getLsbD (2 * n) else none := by
  have hn : (UInt32.ofNat n).toNat = n := UInt32.toNat_ofNat_of_lt' (Nat.lt_trans n.isLt (by decide))
  have hshift : (UInt32.ofNat n * 2).toNat = 2 * n := by
    rw [UInt32.toNat_mul, hn, show (2 : UInt32).toNat = 2 from rfl]
    omega
  unfold isPageFreeAt isPageFree
  rw [dif_pos (by rw [hn]; exact n.isLt)]
  by_cases hs : 2 * n.val < 32
  · rw [if_pos hs]
    simp only [hshift, hs, if_true, hn, testBit_promoted _ (hshift ▸ hs)]
    rfl
  · rw [if_neg hs, hshift, if_neg hs]

theorem flipLow_pageByte : ((e.flipLow n).pageByte n).toBitVec =
    (e.pageByte n).toBitVec ^^^ BitVec.twoPow 8 (2 * (n.val % 4)) := by
  have hlt : n.val / 4 < 16 := by omega
  have hset : (e.flipLow n).pageByte n = ⟨(e.pageByte n).toBitVec ^^^ BitVec.twoPow 8 (2 * (n.val % 4))⟩ :=
    Vector.getElem_set_self hlt
  rw [hset]

theorem flipLow_getLsbD (k : Nat) : ((e.flipLow n).pageByte n).toBitVec.getLsbD k =
    ((e.pageByte n).toBitVec.getLsbD k ^^ decide (2 * (n.val % 4) = k)) := by
  rw [flipLow_pageByte, BitVec.getLsbD_xor, BitVec.getLsbD_twoPow, decide_eq_true (by omega), Bool.true_and]

theorem flipLow_pageField : ((e.flipLow n).pageField n).1 = !(e.pageField n).1 := by
  rw [pageField, flipLow_getLsbD, decide_eq_true rfl, Bool.xor_true, pageField]

theorem flipLow_msb : ((e.flipLow n).pageByte n).toBitVec.msb = (e.pageByte n).toBitVec.msb := by
  rw [BitVec.msb_eq_getLsbD_last, BitVec.msb_eq_getLsbD_last, flipLow_getLsbD, decide_eq_false (by omega), Bool.xor_false]

variable {n}

theorem isPageFreeAt_low (hn : n.val < 4) : e.isPageFreeAt n = some !(e.pageField n).1 := by
  rw [isPageFreeAt_eq, if_pos (by omega), BitVec.getLsbD_signExtend, if_pos (by omega), decide_eq_true (by omega),
    Bool.true_and, pageField, Nat.mod_eq_of_lt hn]

/-- Further on the bit is beyond the byte, in its sign extension. -/
theorem isPageFreeAt_sign (hn : 4 ≤ n.val) (hs : 2 * n.val < 32) :
    e.isPageFreeAt n = some !(e.pageByte n).toBitVec.msb := by
  rw [isPageFreeAt_eq, if_pos hs, BitVec.getLsbD_signExtend, if_neg (by omega), decide_eq_true hs, Bool.true_and]

variable (n)

/-- **A free page.** The test for page `n` is decided by its own field exactly
if `n` is one of the first four: up to page 15 it is the sign of the byte that
is tested, from page 16 on the shift is too wide. -/
theorem isPageFree_iff : DecidedByOwnField e n ↔ n.val < 4 := by
  refine ⟨fun h => Nat.lt_of_not_le fun hn => ?_, fun hn => ⟨?_, ?_, fun e' he' => ?_⟩⟩
  · by_cases hs : 2 * n.val < 32
    · refine h.flips ?_
      rw [isPageFreeAt_sign _ hn hs, isPageFreeAt_sign _ hn hs, flipLow_msb]
    · exact h.shift (by rw [isPageFreeAt_eq, if_neg hs])
  · rw [isPageFreeAt_low e hn]
    exact Option.some_ne_none _
  · rw [isPageFreeAt_low _ hn, isPageFreeAt_low _ hn, flipLow_pageField]
    exact fun h => Bool.not_ne_self _ (Option.some.inj h)
  · rw [isPageFreeAt_low _ hn, isPageFreeAt_low _ hn, he']

end

/-- In an empty bitmap page 4 is free and page 16 is shifted too far; with the
low bit of its field set page 4 is still free. -/
theorem isPageFree_misread : new.isPageFree 4 = some true ∧ (new.flipLow 4).isPageFree 4 = some true ∧
    new.isPageFree 16 = none ∧ ¬ DecidedByOwnField new 4 ∧ ¬ DecidedByOwnField new 16 := by
  refine ⟨by decide, by decide, by decide, fun h => ?_, fun h => ?_⟩
  · exact h.flips (by decide)
  · exact h.shift (by decide)

end XdesE

/-! ## A descriptor and its 40 bytes -/

section
variable {b : Bytes} {p : Nat}

def ListNode.encode (l : ListNode) : List UInt8 :=
  be4 l.prevPageNumber ++ (be2 l.prevOffset ++ l.nextAddr.encode)

@[simp] theorem ListNode.encode_length (l : ListNode) : l.encode.length = 12 := by
  simp [ListNode.encode]

@[simp] theorem ListNode.stores_encode {l : ListNode} : Stores b p l.encode ↔ ListNode.init b p = l := by
  obtain ⟨pp, po, np, no⟩ := l
  simp only [ListNode.encode, stores_append, be4_length, be2_length, stores_be4, stores_be2, Addr.stores_encode,
    ListNode.nextAddr, Addr.mk.injEq, ListNode.init, ListNode.mk.injEq, Nat.add_assoc, Nat.reduceAdd]

namespace XdesE

def encode (e : XdesE) : List UInt8 :=
  be8 e.fiSegId ++ (e.listNode.toListNode.encode ++ (be4 e.state ++ e.pageState.toList))

theorem encode_length (e : XdesE) : e.encode.length = 40 := by
  simp [encode]

theorem stores_pageState {v : Vector UInt8 16} : Stores b p v.toList ↔ Vector.ofFn (fun i => b (p + i)) = v := by
  rw [stores_iff]
  refine ⟨fun h => Vector.ext fun k hk => ?_, fun h k hk => ?_⟩
  · rw [Vector.getElem_ofFn, h k (by rwa [Vector.length_toList]), List.get_eq_getElem, Vector.getElem_toList]
  · subst h
    rw [List.get_eq_getElem, Vector.getElem_toList, Vector.getElem_ofFn]

theorem stores_encode {e : XdesE} : Stores b p e.encode ↔ e.init b p = e := by
  obtain ⟨seg, ⟨node, a⟩, st, bits⟩ := e
  simp only [encode, stores_append, be4_length, be8_length, stores_be4, stores_be8, ListNode.encode_length,
    ListNode.stores_encode, stores_pageState, init, mk.injEq, XDesEntryListNode.mk.injEq, Nat.add_assoc, Nat.reduceAdd,
    and_true]

end XdesE

end

/-! ## The array of a page -/

def Page.xdesArr (pg : Page) : Vector XdesE 256 :=
  match pg.body with
  | .fspHeaderPage _ arr => arr
  | _ => Vector.replicate 256 XdesE.new

inductive XdesOp where
  | get (index : UInt32)
  | write (i : Fin 256) (a : Addr)

namespace XdesOp

def run (pg : Page) : XdesOp → Except Fault Page
  | .get index => (pg.getXdesEntry index).map Prod.snd
  | .write i a => pg.stampXdes i a

def writes (i : Fin 256) (a : Addr) : XdesOp → Addr
  | .get _ => a
  | .write j b => if j = i then b else a

end XdesOp

def lastWritten (l : List XdesOp) (i : Fin 256) : Addr := l.foldl (XdesOp.writes i) default

/-- A page object made from `buf` after these operations, which all returned. -/
inductive XdesRun (buf : PageBuf) : List XdesOp → Page → Prop
  | made {pg} : initPage buf = .ok (some pg) → XdesRun buf [] pg
  | op {l pg o pg'} : XdesRun buf l pg → o.run pg = .ok pg' → XdesRun buf (l ++ [o]) pg'

/-- Asked for, descriptor `i` is the one decoded afresh with the address last
written into it, and no other changes. -/
def FindsXdes (buf : PageBuf) (l : List XdesOp) (pg : Page) (i : Fin 256) : Prop :=
  ∃ pg', pg.getXdesEntry (UInt32.ofNat i.val) = .ok (some i, pg') ∧
    pg'.xdesArr.get i = (XdesE.new.init (bytes buf) (150 + 40 * i)).stamp (lastWritten l i) ∧
    (∀ j, j ≠ i → pg'.xdesArr.get j = pg.xdesArr.get j) ∧
    Stores (bytes buf) (150 + 40 * i) (pg'.xdesArr.get i).encode

/-- Every descriptor has the address last written into it, and is otherwise as
it was made or as it is decoded. -/
structure Memo (buf : PageBuf) (l : List XdesOp) (pg : Page) : Prop where
  sameBuf : pg.buf = buf
  body : ∃ h, pg.body = .fspHeaderPage h pg.xdesArr
  entry : ∀ i, pg.xdesArr.get i = XdesE.new.stamp (lastWritten l i) ∨
    pg.xdesArr.get i = (xdesAt buf i).stamp (lastWritten l i)

section
variable {buf : PageBuf} {l : List XdesOp} {pg pg' : Page}

theorem lastWritten_concat (l : List XdesOp) (o : XdesOp) (i : Fin 256) :
    lastWritten (l ++ [o]) i = o.writes i (lastWritten l i) := by
  rw [lastWritten, List.foldl_append]; rfl

theorem XdesE.init_stamp (e : XdesE) (b : Bytes) (p : Nat) : e.init b p = (new.init b p).stamp e.listNode.addr := rfl

theorem initPage_fsp (h : pageTypeOf buf = filPageTypeFspHdr) :
    initPage buf = .ok (some ((newFspHeaderPage buf).init buf)) := by
  have ht : (FilHeader.initFilHeader (bytes buf) 0).pageType = pageTypeOf buf := rfl
  simp only [initPage, ht, h]; rfl

theorem Memo.made (ht : pageTypeOf buf = filPageTypeFspHdr) (h : initPage buf = .ok (some pg)) : Memo buf [] pg := by
  rw [initPage_fsp ht] at h
  cases h
  exact ⟨rfl, ⟨_, rfl⟩, fun i => .inl (Vector.getElem_replicate i.isLt)⟩

theorem Memo.set (M : Memo buf l pg) (h : FspHeader) (i : Fin 256) {e : XdesE} {o : XdesOp}
    (ho : ∀ j, j ≠ i → o.writes j (lastWritten l j) = lastWritten l j)
    (he : e = XdesE.new.stamp (o.writes i (lastWritten l i)) ∨ e = (xdesAt buf i).stamp (o.writes i (lastWritten l i))) :
    Memo buf (l ++ [o]) { pg with body := .fspHeaderPage h (pg.xdesArr.set i e i.isLt) } := by
  refine ⟨M.sameBuf, ⟨h, rfl⟩, fun j => ?_⟩
  have hget : Page.xdesArr { pg with body := .fspHeaderPage h (pg.xdesArr.set i e i.isLt) } =
      pg.xdesArr.set i e i.isLt := rfl
  rw [hget, get_set, lastWritten_concat]
  by_cases hij : i = j
  · subst hij
    rw [if_pos rfl]; exact he
  · rw [if_neg hij, ho j (Ne.symm hij)]; exact M.entry j

theorem Memo.get (M : Memo buf l pg) {index : UInt32} (hi : index.toNat < 256) :
    ∃ pg', pg.getXdesEntry index = .ok (some ⟨index.toNat, hi⟩, pg') ∧ Memo buf (l ++ [.get index]) pg' ∧
      pg'.xdesArr.get ⟨index.toNat, hi⟩ = (xdesAt buf index.toNat).stamp (lastWritten l ⟨index.toNat, hi⟩) ∧
      ∀ j, j ≠ ⟨index.toNat, hi⟩ → pg'.xdesArr.get j = pg.xdesArr.get j := by
  obtain ⟨h, hb⟩ := M.body
  have hentry := M.entry ⟨index.toNat, hi⟩
  by_cases hin : (pg.xdesArr.get ⟨index.toNat, hi⟩).inited = true
  · have hfilled : pg.xdesArr.get ⟨index.toNat, hi⟩ =
        (xdesAt buf index.toNat).stamp (lastWritten l ⟨index.toNat, hi⟩) := by
      refine hentry.resolve_left fun hnew => ?_
      rw [hnew] at hin; cases hin
    refine ⟨pg, ?_, ⟨M.sameBuf, M.body, fun j => ?_⟩, hfilled, fun _ _ => rfl⟩
    · unfold Page.getXdesEntry
      rw [hb]
      simp only [hi, dite_true]
      exact if_pos hin
    · rw [lastWritten_concat]; exact M.entry j
  · have haddr : (pg.xdesArr.get ⟨index.toNat, hi⟩).listNode.addr = lastWritten l ⟨index.toNat, hi⟩ := by
      rcases hentry with h | h <;> rw [h] <;> rfl
    have hinit : (pg.xdesArr.get ⟨index.toNat, hi⟩).init (bytes pg.buf) (xdesEntryOffset index) =
        (xdesAt buf index.toNat).stamp (lastWritten l ⟨index.toNat, hi⟩) := by
      rw [XdesE.init_stamp, haddr, xdesEntryOffset_eq hi, M.sameBuf]; rfl
    refine ⟨_, ?_, M.set h ⟨index.toNat, hi⟩ (o := .get index) (fun _ _ => rfl) (.inr hinit), ?_, fun j hj => ?_⟩
    · unfold Page.getXdesEntry
      rw [hb]
      simp only [hi, dite_true]
      exact if_neg hin
    · exact (get_set_self pg.xdesArr ⟨index.toNat, hi⟩ _).trans hinit
    · exact (get_set pg.xdesArr ⟨index.toNat, hi⟩ j _).trans (if_neg (Ne.symm hj))

theorem Memo.op (M : Memo buf l pg) {o : XdesOp} (h : o.run pg = .ok pg') : Memo buf (l ++ [o]) pg' := by
  obtain ⟨hd, hb⟩ := M.body
  cases o with
  | get index =>
    by_cases hi : index.toNat < 256
    · obtain ⟨pg₁, hg, M₁, _⟩ := M.get hi
      simp only [XdesOp.run, hg, Except.map, Except.ok.injEq] at h
      exact h ▸ M₁
    · unfold XdesOp.run Page.getXdesEntry at h
      rw [hb] at h
      simp only [hi, dite_false] at h
      cases h
  | write i a =>
    unfold XdesOp.run Page.stampXdes at h
    rw [hb] at h
    cases h
    have hwrites : (XdesOp.write i a).writes i (lastWritten l i) = a := if_pos rfl
    refine M.set hd i (fun j hj => if_neg (Ne.symm hj)) ?_
    rw [hwrites]
    rcases M.entry i with h | h
    · exact .inl (by rw [h]; rfl)
    · exact .inr (by rw [h]; rfl)

theorem XdesRun.memo (h : XdesRun buf l pg) (ht : pageTypeOf buf = filPageTypeFspHdr) : Memo buf l pg := by
  induction h with
  | made h => exact Memo.made ht h
  | op _ ho ih => exact ih.op ho

theorem Memo.finds (M : Memo buf l pg) (i : Fin 256) : FindsXdes buf l pg i := by
  have hin : (UInt32.ofNat i.val).toNat = i.val := UInt32.toNat_ofNat_of_lt' (Nat.lt_trans i.isLt (by decide))
  have hlt : (UInt32.ofNat i.val).toNat < 256 := by rw [hin]; exact i.isLt
  have hfin : (⟨(UInt32.ofNat i.val).toNat, hlt⟩ : Fin 256) = i := Fin.ext hin
  obtain ⟨pg', hg, _, he, hj⟩ := M.get hlt
  rw [hfin] at hg he hj
  rw [hin] at he
  refine ⟨pg', hg, he, hj, XdesE.stores_encode.mpr ?_⟩
  rw [he]; rfl

end

/-! ## What the list accessors do to an array -/

inductive XdesCall where
  | getPage (i : UInt32)
  | getXdesEntry (p : PagePtr) (index : UInt32)
  | first (l : XDesEntryList)
  | last (l : XDesEntryList)
  | next (node : XdesPtr)

namespace XdesCall

def run (file : Option File) (s : FileSpaceReader) : XdesCall → Except Fault (Option XdesPtr × FileSpaceReader)
  | .getPage i => do
    let (_, s) ← Innodb.getPage file i s
    .ok (none, s)
  | .getXdesEntry p index => s.getXdesEntry p index
  | .first l => XDesEntryList.first file l s
  | .last l => XDesEntryList.last file l s
  | .next node => XDesEntryListNode.next file node s

def target (s : FileSpaceReader) : XdesCall → Option Addr
  | .first l => some l.firstAddr
  | .last l => some l.lastAddr
  | .next node => (s.xdes node).toOption.map fun e => e.listNode.nextAddr
  | _ => none

/-- What a call that returned `r` did to the array of page object `p`. -/
def ops (s : FileSpaceReader) (r : Option XdesPtr) (p : PagePtr) (c : XdesCall) : List XdesOp :=
  match c, r, c.target s with
  | .getXdesEntry p' index, _, _ => if p' = p then [.get index] else []
  | _, some q, some a => if q.page = p then [.get (UInt32.ofNat q.slot.val), .write q.slot a] else []
  | _, _, _ => []

end XdesCall

/-- Calls on a new reader that all returned, and what they did to the array of
each page object. -/
inductive XdesCalls (file : Option File) : (PagePtr → List XdesOp) → FileSpaceReader → Prop
  | new : XdesCalls file (fun _ => []) .new
  | call {o s c r s'} : XdesCalls file o s → XdesCall.run file s c = .ok (r, s') →
      XdesCalls file (fun p => o p ++ c.ops s r p) s'

/-- Each page object of the tablespace header's class is what these operations
make of its buffer. -/
structure Explained (file : Option File) (o : PagePtr → List XdesOp) (s : FileSpaceReader) : Prop where
  reachable : Reachable file s
  explained : ∀ p pg, s.heap[p]? = some pg → pageTypeOf pg.buf = filPageTypeFspHdr → XdesRun pg.buf (o p) pg
  untouched : ∀ p, s.heap[p]? = none → o p = []

def perform (o : PagePtr → List XdesOp) (p : PagePtr) (l : List XdesOp) : PagePtr → List XdesOp :=
  fun p' => o p' ++ if p = p' then l else []

section
variable {file : Option File} {o : PagePtr → List XdesOp} {s s' : FileSpaceReader} {p : PagePtr} {a : Addr}

theorem perform_perform (o : PagePtr → List XdesOp) (p : PagePtr) (l l' : List XdesOp) :
    perform (perform o p l) p l' = perform o p (l ++ l') := by
  funext p'
  unfold perform
  by_cases h : p = p'
  · simp only [if_pos h, List.append_assoc]
  · simp only [if_neg h, List.append_nil]

theorem Explained.new : Explained file (fun _ => []) .new :=
  ⟨.refl, nofun, fun _ _ => rfl⟩

theorem Explained.getPage (T : Explained file o s) {i : UInt32} {r : Option PagePtr}
    (h : Innodb.getPage file i s = .ok (r, s')) : Explained file o s' := by
  have hreach := T.reachable.steps (.single (.getPage h))
  rcases getPage_cases T.reachable.inv h with ⟨_, _, _, rfl⟩ | ⟨_, _, rfl⟩ | ⟨pg, _, _, _, hinit, _, _, rfl⟩
  · exact T
  · exact T
  -- nothing has been done to the new object
  · refine ⟨hreach, fun p pg' hp ht => ?_, fun p hp => T.untouched p ?_⟩
    · rcases alloc_cases hp with hp | ⟨rfl, rfl⟩
      · exact T.explained p pg' hp ht
      · rw [T.untouched _ (List.getElem?_eq_none (Nat.le_refl _))]
        exact .made hinit
    · have hlen := List.getElem?_eq_none_iff.mp hp
      rw [installed, List.length_append] at hlen
      exact List.getElem?_eq_none (Nat.le_trans (Nat.le_add_right _ _) hlen)

theorem Explained.setHeap (T : Explained file o s) {pg pg' : Page} {l : List XdesOp} (hp : s.heap[p]? = some pg)
    (hreach : Reachable file { s with heap := s.heap.set p pg' })
    (hrun : pageTypeOf pg'.buf = filPageTypeFspHdr → XdesRun pg'.buf (o p ++ l) pg') :
    Explained file (perform o p l) { s with heap := s.heap.set p pg' } := by
  refine ⟨hreach, fun p' pg₁ hp' ht => ?_, fun p' hp' => ?_⟩
  · unfold perform
    rcases set_cases hp' with ⟨rfl, rfl⟩ | ⟨hne, hp'⟩
    · rw [if_pos rfl]; exact hrun ht
    · rw [if_neg hne, List.append_nil]; exact T.explained p' pg₁ hp' ht
  · rw [List.getElem?_eq_none_iff, List.length_set] at hp'
    have hlt := (List.getElem?_eq_some_iff.mp hp).1
    have hne : p ≠ p' := Nat.ne_of_lt (Nat.lt_of_lt_of_le hlt hp')
    rw [perform, if_neg hne, List.append_nil]
    exact T.untouched p' (List.getElem?_eq_none hp')

theorem Explained.op (T : Explained file o s) {pg pg' : Page} {op : XdesOp} (hp : s.heap[p]? = some pg)
    (hop : op.run pg = .ok pg') (hbuf : pg'.buf = pg.buf)
    (hreach : Reachable file { s with heap := s.heap.set p pg' }) :
    Explained file (perform o p [op]) { s with heap := s.heap.set p pg' } := by
  refine T.setHeap hp hreach fun ht => ?_
  rw [hbuf] at ht ⊢
  exact .op (T.explained p pg hp ht) hop

theorem Explained.getXdesEntry (T : Explained file o s) {index : UInt32} {r : Option XdesPtr}
    (h : s.getXdesEntry p index = .ok (r, s')) : Explained file (perform o p [.get index]) s' := by
  have hreach := T.reachable.steps (.single (.getXdesEntry h))
  obtain ⟨pg, j, pg', hp, hj, _, rfl⟩ := getXdesEntry_inv h
  obtain ⟨_, E⟩ := Page.getXdesEntry_spec (T.reachable.inv.coherent pg (List.mem_of_getElem? hp)) hj
  refine T.op hp ?_ E.buf hreach
  rw [XdesOp.run, hj]; rfl

theorem Explained.stampXdes (T : Explained file o s) {q : XdesPtr} (h : s.stampXdes q a = .ok s') :
    Explained file (perform o q.page [.write q.slot a]) s' := by
  have hreach := T.reachable.steps (.single (.stampXdes h))
  obtain ⟨pg, pg', hp, hst, rfl⟩ := stampXdes_inv h
  obtain ⟨_, E⟩ := Page.stampXdes_spec (T.reachable.inv.coherent pg (List.mem_of_getElem? hp)) hst
  exact T.op hp hst E.buf hreach

theorem Explained.getXdesEntry_none (T : Explained file o s) {index : UInt32}
    (h : s.getXdesEntry p index = .ok (none, s')) : Explained file o s' := by
  have hreach := T.reachable.steps (.single (.getXdesEntry h))
  obtain ⟨pg, j, pg', hp, hj, hnone, rfl⟩ := getXdesEntry_inv h
  have C := T.reachable.inv.coherent pg (List.mem_of_getElem? hp)
  obtain ⟨_, E⟩ := Page.getXdesEntry_spec C hj
  have hperform : perform o p [] = o := by
    funext p'
    unfold perform
    rw [ite_self, List.append_nil]
  rw [← hperform]
  refine T.setHeap hp hreach fun ht => ?_
  rw [E.buf] at ht
  by_cases hi : index.toNat < 256
  · obtain ⟨_, hg, _⟩ := Page.getXdesEntry_fsp C ht hi
    rw [hg] at hj; cases hj; cases hnone
  · rw [Page.getXdesEntry_fsp_range C ht hi] at hj; cases hj

theorem getXdesEntry_some {index : UInt32} {q : XdesPtr} (I : Inv file s)
    (h : s.getXdesEntry p index = .ok (some q, s')) : q.page = p ∧ UInt32.ofNat q.slot.val = index := by
  obtain ⟨pg, j, pg', hp, hj, hq, _⟩ := getXdesEntry_inv h
  have C := I.coherent pg (List.mem_of_getElem? hp)
  by_cases ht : pageTypeOf pg.buf = filPageTypeFspHdr
  · by_cases hi : index.toNat < 256
    · obtain ⟨_, hg, _⟩ := Page.getXdesEntry_fsp C ht hi
      rw [hg] at hj; cases hj; cases hq
      exact ⟨rfl, UInt32.ofNat_toNat⟩
    · rw [Page.getXdesEntry_fsp_range C ht hi] at hj; cases hj
  · rw [Page.getXdesEntry_other C ht] at hj; cases hj; cases hq

theorem Explained.findXdes (T : Explained file o s) {num : UInt32} {r : Option XdesPtr}
    (h : Innodb.findXdes file num a s = .ok (r, s')) : Explained file
      (r.elim o fun q => perform o q.page [.get (UInt32.ofNat q.slot.val)]) s' := by
  obtain ⟨⟨page, s₁⟩, hg, h⟩ := Loop.bind_ok h
  have T₁ := T.getPage hg
  cases page with
  | none => cases h; exact T₁
  | some p =>
    cases r with
    | none => exact T₁.getXdesEntry_none h
    | some q =>
      obtain ⟨hpage, hslot⟩ := getXdesEntry_some T₁.reachable.inv h
      rw [Option.elim_some, hpage, hslot]
      exact T₁.getXdesEntry h

theorem Explained.handOutXdes (T : Explained file o s) {num : UInt32} {r : Option XdesPtr}
    (h : Innodb.handOutXdes file num a s = .ok (r, s')) : Explained file
      (r.elim o fun q => perform o q.page [.get (UInt32.ofNat q.slot.val), .write q.slot a]) s' := by
  obtain ⟨⟨q, s₁⟩, hf, h⟩ := Loop.bind_ok h
  have T₁ := T.findXdes hf
  cases q with
  | none => cases h; exact T₁
  | some q =>
    obtain ⟨s₂, hst, h⟩ := Loop.bind_ok h
    cases h
    have T₂ := T₁.stampXdes hst
    rw [Option.elim_some, perform_perform] at T₂
    exact T₂

theorem XdesCall.ops_target {c : XdesCall} (ht : c.target s = some a) (r : Option XdesPtr) :
    (fun p => o p ++ c.ops s r p) =
      r.elim o fun q => perform o q.page [.get (UInt32.ofNat q.slot.val), .write q.slot a] := by
  cases r with
  | none =>
    funext p
    cases c with
    | getXdesEntry _ _ => cases ht
    | _ => exact List.append_nil _
  | some q =>
    funext p
    unfold ops
    rw [ht]
    cases c with
    | getXdesEntry _ _ => cases ht
    | _ => rfl

theorem Explained.call (T : Explained file o s) {c : XdesCall} {r : Option XdesPtr}
    (h : c.run file s = .ok (r, s')) : Explained file (fun p => o p ++ c.ops s r p) s' := by
  cases c with
  | getPage i =>
    obtain ⟨⟨p, s₁⟩, hg, e⟩ := Loop.bind_ok h
    cases e
    have hops : (fun p => o p ++ (XdesCall.getPage i).ops s none p) = o := by
      funext p
      exact List.append_nil _
    rw [hops]; exact T.getPage hg
  | getXdesEntry p index => exact T.getXdesEntry h
  | first l =>
    rw [XdesCall.ops_target (a := l.firstAddr) rfl]
    rcases l.guarded_ok h with e | h
    · cases e; exact T
    · exact T.handOutXdes h
  | last l =>
    rw [XdesCall.ops_target (a := l.lastAddr) rfl]
    rcases l.guarded_ok h with e | h
    · cases e; exact T
    · exact T.handOutXdes h
  | next node =>
    obtain ⟨e, he, h⟩ := Loop.bind_ok h
    have ht : (XdesCall.next node).target s = some e.listNode.nextAddr := by
      simp only [XdesCall.target, he, Except.toOption, Option.map_some]
    rw [XdesCall.ops_target ht]
    rcases guarded_ok h with e | h
    · cases e; exact T
    · exact T.handOutXdes h

theorem XdesCalls.explained (h : XdesCalls file o s) : Explained file o s := by
  induction h with
  | new => exact .new
  | call _ hc ih => exact ih.call hc

end

/-- **The descriptor array** does not show that it is filled as it goes. After
any operations a descriptor asked for is the one its 40 bytes hold, with the
address last written into it; and what the accessors do to an array is such
operations. -/
theorem xdesArr_transparent :
    (∀ e : XdesE, e.encode.length = 40) ∧
    (∀ (buf : PageBuf) (l : List XdesOp) (pg : Page), pageTypeOf buf = filPageTypeFspHdr → XdesRun buf l pg →
      ∀ i, FindsXdes buf l pg i) ∧
    (∀ (file : Option File) (o : PagePtr → List XdesOp) (s : FileSpaceReader), XdesCalls file o s →
      ∀ p pg, s.heap[p]? = some pg → pageTypeOf pg.buf = filPageTypeFspHdr →
        XdesRun pg.buf (o p) pg ∧ ∀ i, FindsXdes pg.buf (o p) pg i) := by
  refine ⟨XdesE.encode_length, fun buf l pg ht h => (h.memo ht).finds, fun file o s h p pg hp ht => ?_⟩
  have hrun := h.explained.explained p pg hp ht
  exact ⟨hrun, (hrun.memo ht).finds⟩

/-- A tablespace header page whose first descriptor has the segment id of one
that is not filled. -/
def sentinelPage : PageBuf := fun k => sparse
  [(25, 8), (150, 0xFF), (151, 0xFF), (152, 0xFF), (153, 0xFF), (154, 0xFF), (155, 0xFF), (156, 0xFF), (157, 0xFF),
    (173, 1)] k

theorem xdesArr_transparent_sentinel : ∃ pg, XdesRun sentinelPage [.write 0 ⟨0, 158⟩, .get 0] pg ∧
    FindsXdes sentinelPage [.write 0 ⟨0, 158⟩, .get 0] pg 0 := by
  have ht : pageTypeOf sentinelPage = filPageTypeFspHdr := by decide
  have h₀ : XdesRun sentinelPage [] ((newFspHeaderPage sentinelPage).init sentinelPage) := .made (initPage_fsp ht)
  have h₁ : XdesRun sentinelPage [.write 0 ⟨0, 158⟩] _ := .op h₀ rfl
  obtain ⟨pg, hg, _⟩ := Memo.get (h₁.memo ht) (show (0 : UInt32).toNat < 256 by decide)
  have h₂ : XdesRun sentinelPage [.write 0 ⟨0, 158⟩, .get 0] pg := .op h₁ (by rw [XdesOp.run, hg]; rfl)
  exact ⟨pg, h₂, xdesArr_transparent.2.1 _ _ _ ht h₂ 0⟩

end Innodb
