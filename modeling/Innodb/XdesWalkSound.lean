import Innodb.XdesSound

/-!
# Walking descriptor lists

Over a list that a file stores byte by byte, the traversal visits exactly the
list's nodes. And the pull-style iterator hands out, step by step, the nodes
that the traversal calls its function with.
-/

namespace Innodb
open BigEndian Loop

/-! ## Lists as a file stores them -/

structure XdesLoc where
  page : UInt32
  slot : Fin 256

namespace XdesLoc

def addr (x : XdesLoc) : Addr := ⟨x.page, UInt16.ofNat (150 + 40 * x.slot + 8)⟩

def filePos (x : XdesLoc) : Nat := x.page.toNat * pageSize + (150 + 40 * x.slot)

def decode (f : File) (x : XdesLoc) : XdesE := XdesE.new.init f.get x.filePos

theorem addr_offset (x : XdesLoc) : x.addr.offset.toNat = 150 + 40 * x.slot + 8 := by
  have := x.slot.isLt
  unfold addr
  rw [UInt16.toNat_ofNat']; omega

end XdesLoc

/-- `get_page` on a fresh reader returns page `i` with its own bytes, and it
is a tablespace header. -/
def OwnFspPage (f : File) (i : UInt32) : Prop :=
  pageTypeOf (f.pageAt i.toNat) = filPageTypeFspHdr ∧
  ∃ p s pg, getPage (some f) i FileSpaceReader.new = .ok (some p, s) ∧ s.heap[p]? = some pg ∧
    pg.buf = f.pageAt i.toNat

def StoresAddr (b : Bytes) (p : Nat) (x : XdesLoc) : Prop :=
  beNat b p 4 = x.page.toNat ∧ beNat b (p + 4) 2 = 150 + 40 * x.slot + 8

/-- The next pointer of a descriptor holds the address of what follows, or the
null page number. -/
def NextStored (f : File) (x : XdesLoc) : List XdesLoc → Prop
  | [] => beNat f.get (x.filePos + 14) 4 = 0xFFFFFFFF
  | y :: _ => StoresAddr f.get (x.filePos + 14) y

def LinkedXdes (f : File) : List XdesLoc → Prop
  | [] => True
  | x :: l => OwnFspPage f x.page ∧ NextStored f x l ∧ LinkedXdes f l

/-- The base node at `p` and the file store the list of these nodes. -/
structure StoresXdesList (f : File) (b : Bytes) (p : Nat) (nodes : List XdesLoc) : Prop where
  length : beNat b p 4 = nodes.length
  first : ∀ x ∈ nodes.head?, StoresAddr b (p + 4) x
  linked : LinkedXdes f nodes

section
variable {f : File}

theorem StoresAddr.decode {b : Bytes} {p : Nat} {x : XdesLoc} (h : StoresAddr b p x) :
    (⟨machReadFrom4 b p, machReadFrom2 b (p + 4)⟩ : Addr) = x.addr := by
  have hp : machReadFrom4 b p = x.page := UInt32.toNat_inj.mp ((machReadFrom4_toNat b p).trans h.1)
  have ho : machReadFrom2 b (p + 4) = x.addr.offset :=
    UInt16.toNat_inj.mp (by rw [machReadFrom2_toNat, h.2, x.addr_offset])
  rw [hp, ho]; rfl

theorem OwnFspPage.image {i : UInt32} (h : OwnFspPage f i) :
    i ≠ 0xFFFFFFFF ∧ image (some f) i = some (f.pageAt i.toNat) := by
  obtain ⟨_, p, s, pg, hg, hp, hbuf⟩ := h
  obtain ⟨hm, pg', hp', hi, _⟩ := getPage_image (Inv.new _) hg
  rw [hp] at hp'; cases hp'
  exact ⟨hm, by rw [hi, hbuf]⟩

variable {x : XdesLoc} (h : OwnFspPage f x.page)
include h

theorem OwnFspPage.valid : x.addr.valid = true := (valid_iff _).mpr h.image.1

theorem OwnFspPage.good : XdesGood (some f) x.addr := by
  have hx := x.slot.isLt
  refine ⟨_, h.image.2, h.1, ?_, ?_⟩
  · rw [x.addr_offset]; omega
  · rw [x.addr_offset]; omega

theorem OwnFspPage.xdesOf : xdesOf (some f) x.addr = x.decode f := by
  have hx := x.slot.isLt
  have hslot : slotOf x.addr = x.slot := by rw [slotOf, x.addr_offset]; omega
  have himg : Innodb.image (some f) x.addr.pageNumber = some (f.pageAt x.page.toNat) := h.image.2
  unfold Innodb.xdesOf
  rw [himg, Option.elim_some, hslot, xdesAt, XdesLoc.decode]
  refine XdesE.init_congr _ fun k hk => ?_
  unfold bytes
  rw [dif_pos (by simp only [pageSize]; omega), File.pageAt, XdesLoc.filePos]
  exact congrArg f.get (Nat.add_assoc _ _ _).symm

end

theorem LinkedXdes.own {f : File} : ∀ {l : List XdesLoc}, LinkedXdes f l → ∀ x ∈ l, OwnFspPage f x.page
  | [], _, x, hx => by cases hx
  | y :: l, ⟨hy, _, hl⟩, x, hx => by
    rcases List.mem_cons.mp hx with rfl | hx
    · exact hy
    · exact hl.own x hx

theorem LinkedXdes.good {f : File} {l : List XdesLoc} (h : LinkedXdes f l) :
    ∀ a ∈ l.map XdesLoc.addr, XdesGood (some f) a := by
  intro a ha
  obtain ⟨x, hx, rfl⟩ := List.mem_map.mp ha
  exact (h.own x hx).good

theorem OwnFspPage.next {f : File} {x : XdesLoc} (h : OwnFspPage f x.page) :
    xdesNext (some f) x.addr = ⟨machReadFrom4 f.get (x.filePos + 14), machReadFrom2 f.get (x.filePos + 14 + 4)⟩ := by
  unfold xdesNext
  rw [h.xdesOf]; rfl

theorem LinkedXdes.spells {f : File} {x : XdesLoc} {l : List XdesLoc} (h : LinkedXdes f (x :: l)) :
    Spells Addr.valid (xdesNext (some f)) x.addr ((x :: l).map XdesLoc.addr) := by
  induction l generalizing x with
  | nil =>
    obtain ⟨hx, hn, _⟩ := h
    refine ⟨rfl, hx.valid, ?_⟩
    have hnull : machReadFrom4 f.get (x.filePos + 14) = 0xFFFFFFFF :=
      UInt32.toNat_inj.mp ((machReadFrom4_toNat _ _).trans hn)
    show (xdesNext (some f) x.addr).valid = false
    rw [hx.next, Addr.valid, hnull]; rfl
  | cons y l ih =>
    obtain ⟨hx, hn, hl⟩ := h
    refine ⟨rfl, hx.valid, ?_⟩
    rw [hx.next, hn.decode]; exact ih hl

section
variable {f : File} {b : Bytes} {p : Nat} {nodes : List XdesLoc} (h : StoresXdesList f b p nodes)
include h

theorem StoresXdesList.spells : (ListBaseNode.init b p).listLength = 0 ∧ nodes.map XdesLoc.addr = [] ∨
    (ListBaseNode.init b p).listLength ≠ 0 ∧
      Spells Addr.valid (xdesNext (some f)) (ListBaseNode.init b p).firstAddr (nodes.map XdesLoc.addr) := by
  have hlen : (ListBaseNode.init b p).listLength.toNat = nodes.length := (machReadFrom4_toNat b p).trans h.length
  cases nodes with
  | nil => exact .inl ⟨UInt32.toNat_inj.mp hlen, rfl⟩
  | cons x l =>
    refine .inr ⟨fun h0 => ?_, ?_⟩
    · rw [h0] at hlen; cases hlen
    · have hf : (ListBaseNode.init b p).firstAddr = x.addr := (h.first x rfl).decode
      rw [hf]; exact h.linked.spells

theorem StoresXdesList.all : (ListBaseNode.init b p).All (xdesNext (some f)) (XdesGood (some f)) :=
  h.spells.imp (·.1) fun hs => hs.2.along h.linked.good

/-- **The traversal of a stored list** calls its function once for each node,
in order, with the node's address and its descriptor, and returns. -/
theorem traverseXdesList_stored {σ : Type} (g : Callback (some f) σ XdesE) (u : σ) {s : FileSpaceReader}
    (hs : Reachable (some f) s) :
    ∃ n t, traverseXdesList (some f) g.run (ListBaseNode.init b p) n u s = .ok t ∧
      returned (ListBaseNode.init b p) t = true ∧
      t.calls.map (fun c => (c.1.decoded, c.2)) = nodes.map fun x => (x.decode f, x.addr) := by
  obtain ⟨n, t, ht, hret, hlog⟩ := traverse_spells (xdesRound_follows g) hs _ u h.spells h.linked.good
  refine ⟨n, t, ht, hret, ?_⟩
  rw [hlog, List.map_map]
  exact List.map_congr_left fun x hx => by rw [Function.comp_apply, (h.linked.own x hx).xdesOf]

end

def twoNodeFile : File := ⟨16384, sparse
  [(25, 8), (65, 2), (71, 158), (168, 1), (169, 0x66), (364, 0xFF), (365, 0xFF), (366, 0xFF), (367, 0xFF)]⟩

theorem twoNodeFile_stored : StoresXdesList twoNodeFile twoNodeFile.get 62 [⟨0, 0⟩, ⟨0, 5⟩] := by
  have hown : OwnFspPage twoNodeFile 0 := by
    have hr : ReadsOwnPage twoNodeFile 0 := .inl (by decide)
    obtain ⟨p, s, pg, hg, hp, hbuf, _⟩ := hr.getPage (Inv.new _) (by decide) (by decide)
    exact ⟨by decide, p, s, pg, hg, hp, hbuf⟩
  have hnull : beNat twoNodeFile.get 364 4 = 0xFFFFFFFF := by decide
  refine ⟨by decide, ?_, hown, ⟨by decide, by decide⟩, hown, hnull, trivial⟩
  intro x hx
  cases hx; exact ⟨by decide, by decide⟩

theorem traverseXdesList_stored_two : ∃ n t,
    traverseXdesList (some twoNodeFile) (Callback.ignore (some twoNodeFile) XdesE).run
      (ListBaseNode.init twoNodeFile.get 62) n () .new = .ok t ∧ returned (ListBaseNode.init twoNodeFile.get 62) t = true ∧
    t.calls.map (fun c => (c.1.decoded, c.2)) =
      [(XdesE.new.init twoNodeFile.get 150, ⟨0, 158⟩), (XdesE.new.init twoNodeFile.get 350, ⟨0, 358⟩)] :=
  traverseXdesList_stored twoNodeFile_stored (Callback.ignore _ XdesE) () .refl

/-! ## The iterator -/

def pull (file : Option File) (l : XDesEntryList) :
    Nat → FileSpaceReader → Except Fault (Option XdesPtr × FileSpaceReader)
  | 0, s => l.first file s
  | k + 1, s => do
    let (q, s) ← pull file l k s
    match q with
    | none => .ok (none, s)
    | some q => XDesEntryListNode.next file q s

def HandedOut (file : Option File) (s : FileSpaceReader) : Option XdesPtr → Option Addr → Prop
  | none, none => True
  | some q, some a => Holds file s q a ∧ ∃ e, s.xdes q = .ok e ∧ e.listNode.addr = a
  | _, _ => False

section
variable {file : Option File} {l : XDesEntryList} {s s₁ s₂ : FileSpaceReader}

theorem HandedOut.none_iff : ∀ {r : Option XdesPtr} {x : Option Addr}, HandedOut file s r x → (r = none ↔ x = none)
  | none, none, _ => iff_of_true rfl rfl
  | none, some _, h => h.elim
  | some _, none, h => h.elim
  | some _, some _, _ => iff_of_false (Option.some_ne_none _) (Option.some_ne_none _)

theorem handOutXdes_handedOut (hs : Reachable file s) (a : Addr) (hg : a.valid = true → XdesGood file a) :
    ∃ r s', (if !a.valid then .ok (none, s) else handOutXdes file (entryNum a) a s) = .ok (r, s') ∧
      Reachable file s' ∧ HandedOut file s' r (if a.valid then some a else none) := by
  by_cases hv : a.valid = true
  · obtain ⟨q, s', e, h, hr, hh, he, ha⟩ := handOutXdes_good hs hv (hg hv)
    refine ⟨some q, s', ?_, hr, ?_⟩
    · rw [hv]; exact h
    · rw [if_pos hv]; exact ⟨hh, e, he, ha⟩
  · refine ⟨none, s, ?_, hs, ?_⟩
    · rw [Bool.eq_false_iff.mpr hv]; rfl
    · rw [if_neg hv]; trivial

theorem first_handedOut (hg : l.All (xdesNext file) (XdesGood file)) (hs : Reachable file s) :
    ∃ r s', l.first file s = .ok (r, s') ∧ Reachable file s' ∧ HandedOut file s' r (l.nth (xdesNext file) 0) := by
  unfold XDesEntryList.first XDesEntryList.endNode
  rw [ListBaseNode.nth_zero]
  by_cases h0 : l.listLength = 0
  · rw [if_pos h0, if_pos h0]; exact ⟨none, s, rfl, hs, trivial⟩
  · rw [if_neg h0, if_neg h0]
    apply handOutXdes_handedOut hs l.firstAddr
    intro hv
    exact hg.nth_good (k := 0) (by rw [ListBaseNode.nth_zero, if_neg h0, if_pos hv])

theorem HandedOut.next {q : XdesPtr} {a : Addr} (h : HandedOut file s (some q) (some a)) (hs : Reachable file s)
    (hg : (xdesNext file a).valid = true → XdesGood file (xdesNext file a)) :
    ∃ r s', XDesEntryListNode.next file q s = .ok (r, s') ∧ Reachable file s' ∧
      HandedOut file s' r (if (xdesNext file a).valid then some (xdesNext file a) else none) := by
  obtain ⟨hq, e, he, _⟩ := h
  have hn := hq.nextAddr he
  simp only [XDesEntryListNode.next, he, ok_bind, hn, entryNumInt_toUInt32]
  exact handOutXdes_handedOut hs (xdesNext file a) hg

theorem pull_handedOut (hg : l.All (xdesNext file) (XdesGood file)) (hs : Reachable file s) (k : Nat) :
    ∃ r s', pull file l k s = .ok (r, s') ∧ Reachable file s' ∧ HandedOut file s' r (l.nth (xdesNext file) k) := by
  induction k with
  | zero => exact first_handedOut hg hs
  | succ k ih =>
    obtain ⟨r, s₁, h, hr, hh⟩ := ih
    cases hk : l.nth (xdesNext file) k with
    | none =>
      rw [hk] at hh
      cases r with
      | some q => exact hh.elim
      | none =>
        refine ⟨none, s₁, by simp only [pull, h, ok_bind], hr, ?_⟩
        rw [ListBaseNode.nth_succ, hk]; trivial
    | some a =>
      rw [hk] at hh
      cases r with
      | none => exact hh.elim
      | some q =>
        obtain ⟨r', s', h', hr', hh'⟩ := hh.next hr fun hv =>
          hg.nth_good (k := k + 1) (by rw [ListBaseNode.nth_succ, hk, Option.bind_some, if_pos hv])
        refine ⟨r', s', by simp only [pull, h, ok_bind, h'], hr', ?_⟩
        rw [ListBaseNode.nth_succ, hk]; exact hh'

theorem HandedOut.xdes {q : XdesPtr} {a : Addr} (h : HandedOut file s (some q) (some a)) (hs : Reachable file s)
    (hv : a.valid = true) (hg : XdesGood file a) :
    ∃ q' s' y, XDesEntryListNode.xdes file q s = .ok (some q', s') ∧ s'.xdes q' = .ok y ∧ y.decoded = xdesOf file a := by
  obtain ⟨_, e, he, ha⟩ := h
  rcases findXdes_cases hs hv with ⟨_, q', s', hf, _, hh⟩ | ⟨hng, _⟩ | ⟨hns, _⟩
  · obtain ⟨y, hy, hd⟩ := hh.xdes
    refine ⟨q', s', y, ?_, hy, hd⟩
    simp only [XDesEntryListNode.xdes, he, ok_bind, ha, hv, Bool.not_true, Bool.false_eq_true, if_false,
      entryNumInt_toUInt32, hf]
  · exact absurd hg hng
  · exact absurd hg.safe hns

/-- **The iterator and the traversal agree**, step by step, whatever states
the two start from. -/
theorem traverse_pull_agree (hg : l.All (xdesNext file) (XdesGood file)) {σ : Type} (f : Callback file σ XdesE)
    (u : σ) (h₁ : Reachable file s₁) (h₂ : Reachable file s₂) (k : Nat) :
    ∃ r s', pull file l k s₂ = .ok (r, s') ∧
      ((∃ n t, traverseXdesList file f.run l n u s₁ = .ok t ∧ k < t.calls.length) ↔ r ≠ none) ∧
      ∀ q n t x a, r = some q → traverseXdesList file f.run l n u s₁ = .ok t → t.calls[k]? = some (x, a) →
        (∃ e, s'.xdes q = .ok e ∧ e.listNode.addr = a) ∧
        ∃ q' s'' y, XDesEntryListNode.xdes file q s' = .ok (some q', s'') ∧ s''.xdes q' = .ok y ∧
          y.decoded = x.decoded := by
  obtain ⟨r, s', hp, hr, hh⟩ := pull_handedOut hg h₂ k
  have hreach := (traverse_reaches (xdesRound_follows f) h₁ l u k).trans (and_iff_left (hg.good (k + 1)))
  refine ⟨r, s', hp, hreach.trans (not_congr hh.none_iff.symm), ?_⟩
  rintro q n t x a rfl ht hc
  have hcall := traverse_call (xdesRound_follows f) h₁ l u ht k
  rw [hc] at hcall
  split at hcall
  · obtain ⟨b, hb, hxb⟩ := Option.map_eq_some_iff.mp hcall.symm
    obtain ⟨hx, rfl⟩ := Prod.mk.inj hxb
    rw [hb] at hh
    refine ⟨hh.2, ?_⟩
    obtain ⟨q', s'', y, hq', hy, hd⟩ := hh.xdes hr (ListBaseNode.nth_valid hb) (hg.nth_good hb)
    exact ⟨q', s'', y, hq', hy, hd.trans hx⟩
  · cases hcall

end

theorem traverse_pull_agree_second : ∃ r s',
    pull (some twoNodeFile) (ListBaseNode.init twoNodeFile.get 62) 1 .new = .ok (r, s') ∧
    ((∃ n t, traverseXdesList (some twoNodeFile) (Callback.ignore (some twoNodeFile) XdesE).run
      (ListBaseNode.init twoNodeFile.get 62) n () .new = .ok t ∧ 1 < t.calls.length) ↔ r ≠ none) := by
  obtain ⟨r, s', hp, hiff, _⟩ :=
    traverse_pull_agree twoNodeFile_stored.all (Callback.ignore (some twoNodeFile) XdesE) () .refl .refl 1
  exact ⟨r, s', hp, hiff⟩

end Innodb
