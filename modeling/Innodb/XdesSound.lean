import Innodb.TraverseSound
import Innodb.CacheSound

/-!
# Extent descriptor lists

What the accessors and the traversal of a list of extent descriptors do, by
the file alone: where they fail, what they hand out, that they agree, and that
the traversal of a stored list visits its nodes.
-/

namespace Innodb
open Loop

/-! ## From an address to a descriptor -/

def slotOf (a : Addr) : Nat := (a.offset.toNat - 150) / 40

theorem entryNum64_toNat {a : Addr} (h : 150 ≤ a.offset.toNat) : (entryNum64 a).toNat = slotOf a := by
  have := a.offset.toNat_lt
  simp only [entryNum64, UInt64.toNat_div, UInt64.toNat_sub, UInt16.toNat_toUInt64, UInt64.toNat_ofNat',
    FilHeader.filPageData, FspHeader.fspHeaderSize, flstBaseNodeSize, filAddrSize, XdesE.xdesESize, slotOf,
    Nat.reduceAdd, Nat.reduceMul, Nat.reducePow, Nat.reduceMod]
  omega

theorem entryNum_toNat {a : Addr} (h : 150 ≤ a.offset.toNat) : (entryNum a).toNat = slotOf a := by
  have := a.offset.toNat_lt
  unfold entryNum
  rw [UInt64.toNat_toUInt32, entryNum64_toNat h, slotOf]; omega

/-- Below the array the subtraction wraps, and what is left of the quotient in
32 bits is far past the array's end. -/
theorem entryNum_low {a : Addr} (h : a.offset.toNat < 150) : 256 ≤ (entryNum a).toNat := by
  have hq : (entryNum64 a).toNat = (18446744073709551466 + a.offset.toNat) / 40 := by
    simp only [entryNum64, UInt64.toNat_div, UInt64.toNat_sub, UInt16.toNat_toUInt64, UInt64.toNat_ofNat',
      FilHeader.filPageData, FspHeader.fspHeaderSize, flstBaseNodeSize, filAddrSize, XdesE.xdesESize,
      Nat.reduceAdd, Nat.reduceMul, Nat.reducePow, Nat.reduceMod]
    congr 1; omega
  unfold entryNum
  rw [UInt64.toNat_toUInt32, hq]; omega

theorem entryNum_lt_iff (a : Addr) :
    (entryNum a).toNat < 256 ↔ 150 ≤ a.offset.toNat ∧ a.offset.toNat < 10390 := by
  by_cases h : 150 ≤ a.offset.toNat
  · rw [entryNum_toNat h, slotOf]; omega
  · have := entryNum_low (Nat.lt_of_not_le h); omega

theorem entryNumInt_toUInt32 (a : Addr) : (entryNumInt a).toUInt32 = entryNum a := rfl

section
variable (file : Option File)

def XdesGood (a : Addr) : Prop :=
  ∃ buf, image file a.pageNumber = some buf ∧ pageTypeOf buf = filPageTypeFspHdr ∧
    150 ≤ a.offset.toNat ∧ a.offset.toNat < 10390

/-- Nothing goes wrong when the address is followed with the checks for null:
the page, if there is one, has a constructed type, and if it is a tablespace
header the offset lies in the descriptor array. -/
def XdesSafe (a : Addr) : Prop :=
  a.valid = true → ∀ buf, image file a.pageNumber = some buf → pageTypeOf buf ∈ constructedTypes ∧
    (pageTypeOf buf = filPageTypeFspHdr → 150 ≤ a.offset.toNat ∧ a.offset.toNat < 10390)

def xdesOf (a : Addr) : XdesE := (image file a.pageNumber).elim XdesE.new fun buf => xdesAt buf (slotOf a)

def xdesNext (a : Addr) : Addr := (xdesOf file a).listNode.nextAddr

/-- `q` points to the descriptor at `a`, filled. -/
def Holds (s : FileSpaceReader) (q : XdesPtr) (a : Addr) : Prop :=
  ∃ pg, s.heap[q.page]? = some pg ∧ image file a.pageNumber = some pg.buf ∧ q.slot.val = slotOf a ∧ pg.Filled q.slot

variable {file} {s s' : FileSpaceReader} {q : XdesPtr} {a : Addr}

theorem Holds.grows (h : Holds file s q a) (hg : HeapGrows s s') : Holds file s' q a := by
  obtain ⟨pg, hp, hi, hq, hf⟩ := h
  obtain ⟨pg', hp', E⟩ := hg _ _ hp
  exact ⟨pg', hp', by rw [hi, E.buf], hq, E.filled _ hf⟩

theorem Holds.steps (h : Holds file s q a) (hs : Reachable file s) (hst : Steps file s s') : Holds file s' q a :=
  h.grows (hs.inv.steps hst).2

theorem Holds.xdes (h : Holds file s q a) : ∃ e, s.xdes q = .ok e ∧ e.decoded = xdesOf file a := by
  obtain ⟨pg, hp, hi, hq, hd, arr, hb, he⟩ := h
  refine ⟨arr.get q.slot, ?_, ?_⟩
  · simp only [FileSpaceReader.xdes, page_ok hp, ok_bind, hb]
  · rw [he, xdesOf, hi, Option.elim_some, hq]

theorem Holds.nextAddr {e : XdesE} (h : Holds file s q a) (he : s.xdes q = .ok e) :
    e.listNode.nextAddr = xdesNext file a := by
  obtain ⟨e', he', hd⟩ := h.xdes
  rw [he] at he'; cases he'
  rw [← XdesE.nextAddr_decoded, hd]; rfl

theorem Holds.stamp (h : Holds file s q a) (hs : Reachable file s) :
    ∃ s' e, s.stampXdes q a = .ok s' ∧ Reachable file s' ∧ Holds file s' q a ∧ s'.xdes q = .ok e ∧
      e.listNode.addr = a := by
  obtain ⟨pg, hp, _, _, hd, arr, hb, _⟩ := id h
  have hst : s.stampXdes q a = .ok { s with
      heap := s.heap.set q.page { pg with
        body := .fspHeaderPage hd (arr.set q.slot ((arr.get q.slot).stamp a) q.slot.isLt) } } := by
    simp only [FileSpaceReader.stampXdes, page_ok hp, ok_bind, Page.stampXdes, hb]
  have hstep : Steps file s _ := .single (.stampXdes hst)
  have hlt := (List.getElem?_eq_some_iff.mp hp).1
  refine ⟨_, (arr.get q.slot).stamp a, hst, hs.steps hstep, h.steps hs hstep, ?_, rfl⟩
  simp only [FileSpaceReader.xdes, FileSpaceReader.page, List.getElem?_set_self hlt, deref, ok_bind, get_set_self]

/-! ## Fetching -/

theorem XdesGood.safe (h : XdesGood file a) : XdesSafe file a := by
  obtain ⟨buf, hi, ht, hlo, hhi⟩ := h
  intro _ buf' hi'
  rw [hi] at hi'; cases hi'
  exact ⟨by rw [ht]; decide, fun _ => ⟨hlo, hhi⟩⟩

/-- What becomes of an address when its page and its descriptor are asked
for. -/
inductive XdesFetch (file : Option File) (a : Addr) (s : FileSpaceReader) : Prop
  | found (p s₁ q s₂) : XdesGood file a → getPage file a.pageNumber s = .ok (some p, s₁) →
      s₁.getXdesEntry p (entryNum a) = .ok (some q, s₂) → Reachable file s₂ → Holds file s₂ q a → XdesFetch file a s
  | noPage : ¬ XdesGood file a → XdesSafe file a → getPage file a.pageNumber s = .ok (none, s) → XdesFetch file a s
  | noEntry (p s₁ s₂) : ¬ XdesGood file a → XdesSafe file a → getPage file a.pageNumber s = .ok (some p, s₁) →
      s₁.getXdesEntry p (entryNum a) = .ok (none, s₂) → Reachable file s₂ → XdesFetch file a s
  | pageFault (e) : ¬ XdesSafe file a → getPage file a.pageNumber s = .error e → XdesFetch file a s
  | entryFault (p s₁ e) : ¬ XdesSafe file a → getPage file a.pageNumber s = .ok (some p, s₁) →
      s₁.getXdesEntry p (entryNum a) = .error e → XdesFetch file a s

theorem valid_iff (a : Addr) : a.valid = true ↔ a.pageNumber ≠ 0xFFFFFFFF := bne_iff_ne

theorem xdesFetch (hs : Reachable file s) (hv : a.valid = true) : XdesFetch file a s := by
  by_cases hf : file = none
  · have hn : image file a.pageNumber = none := image_none hf
    refine .noPage ?_ ?_ (getPage_null hs.inv hf _)
    · intro hx
      obtain ⟨buf, hi, _⟩ := hx
      rw [hn] at hi; cases hi
    · intro _ buf hi; rw [hn] at hi; cases hi
  obtain ⟨buf, hi⟩ := image_some (i := a.pageNumber) hf
  by_cases ht : pageTypeOf buf ∈ constructedTypes
  · obtain ⟨p, s₁, pg, hg, hp, rfl, C⟩ := getPage_ok hs.inv hi ht ((valid_iff a).mp hv)
    have h₁ : Reachable file s₁ := hs.steps (.single (.getPage hg))
    by_cases hfsp : pageTypeOf pg.buf = filPageTypeFspHdr
    · by_cases hn : (entryNum a).toNat < 256
      · obtain ⟨pg', hx, _, E, hfill⟩ := Page.getXdesEntry_fsp C hfsp hn
        have hbounds := (entryNum_lt_iff a).mp hn
        have hget : s₁.getXdesEntry p (entryNum a) =
            .ok (some ⟨p, ⟨_, hn⟩⟩, { s₁ with heap := s₁.heap.set p pg' }) := by
          simp only [FileSpaceReader.getXdesEntry, page_ok hp, ok_bind, hx, Option.map_some]
        refine .found p s₁ _ _ ⟨pg.buf, hi, hfsp, hbounds⟩ hg hget (h₁.steps (.single (.getXdesEntry hget))) ?_
        exact ⟨pg', List.getElem?_set_self (List.getElem?_eq_some_iff.mp hp).1, by rw [hi, E.buf],
          entryNum_toNat hbounds.1, hfill⟩
      · refine .entryFault p s₁ .outOfRange ?_ hg ?_
        · exact fun h => hn ((entryNum_lt_iff a).mpr ((h hv _ hi).2 hfsp))
        · simp only [FileSpaceReader.getXdesEntry, page_ok hp, ok_bind, Page.getXdesEntry_fsp_range C hfsp hn, error_bind]
    · have hget : s₁.getXdesEntry p (entryNum a) = .ok (none, { s₁ with heap := s₁.heap.set p pg }) := by
        simp only [FileSpaceReader.getXdesEntry, page_ok hp, ok_bind, Page.getXdesEntry_other C hfsp, Option.map_none]
      refine .noEntry p s₁ _ ?_ ?_ hg hget (h₁.steps (.single (.getXdesEntry hget)))
      · intro hx
        obtain ⟨buf', hi', ht', _⟩ := hx
        rw [hi] at hi'; cases hi'; exact hfsp ht'
      · intro _ buf' hi'
        rw [hi] at hi'; cases hi'; exact ⟨ht, fun h => absurd h hfsp⟩
  · obtain ⟨e, he⟩ := getPage_fault hs.inv hi (.inl ht)
    exact .pageFault e (fun h => ht (h hv _ hi).1) he

/-! ## The node accessors -/

theorem findXdes_cases (hs : Reachable file s) (hv : a.valid = true) :
    (XdesGood file a ∧ ∃ q s', findXdes file (entryNum a) a s = .ok (some q, s') ∧ Reachable file s' ∧
      Holds file s' q a) ∨
    (¬ XdesGood file a ∧ XdesSafe file a ∧ ∃ s', findXdes file (entryNum a) a s = .ok (none, s')) ∨
    (¬ XdesSafe file a ∧ ∃ e, findXdes file (entryNum a) a s = .error e) := by
  cases xdesFetch hs hv with
  | found p s₁ q s₂ hg hp hx hr hh =>
    exact .inl ⟨hg, q, s₂, by simp only [findXdes, hp, ok_bind, hx], hr, hh⟩
  | noPage hng hsafe hp => exact .inr (.inl ⟨hng, hsafe, s, by simp only [findXdes, hp, ok_bind]⟩)
  | noEntry p s₁ s₂ hng hsafe hp hx _ =>
    exact .inr (.inl ⟨hng, hsafe, s₂, by simp only [findXdes, hp, ok_bind, hx]⟩)
  | pageFault e hns hp => exact .inr (.inr ⟨hns, e, by simp only [findXdes, hp, error_bind]⟩)
  | entryFault p s₁ e hns hp hx => exact .inr (.inr ⟨hns, e, by simp only [findXdes, hp, ok_bind, hx]⟩)

theorem findXdes_safe_iff (hs : Reachable file s) (hv : a.valid = true) :
    NoFault (findXdes file (entryNum a) a s) ↔ XdesSafe file a := by
  rcases findXdes_cases hs hv with ⟨hg, q, s', hf, _⟩ | ⟨_, hsafe, s', hf⟩ | ⟨hns, he⟩
  · rw [hf]; exact ⟨fun _ => hg.safe, fun _ => noFault_ok _⟩
  · rw [hf]; exact ⟨fun _ => hsafe, fun _ => noFault_ok _⟩
  · exact ⟨fun h => absurd h (not_noFault he), fun h => absurd h hns⟩

theorem handOutXdes_good (hs : Reachable file s) (hv : a.valid = true) (hg : XdesGood file a) :
    ∃ q s' e, handOutXdes file (entryNum a) a s = .ok (some q, s') ∧ Reachable file s' ∧ Holds file s' q a ∧
      s'.xdes q = .ok e ∧ e.listNode.addr = a := by
  rcases findXdes_cases hs hv with ⟨_, q, s₁, hf, hr, hh⟩ | ⟨hng, _⟩ | ⟨hns, _⟩
  · obtain ⟨s', e, hst, hr', hh', hx, ha⟩ := hh.stamp hr
    exact ⟨q, s', e, by simp only [handOutXdes, hf, ok_bind, hst], hr', hh', hx, ha⟩
  · exact absurd hg hng
  · exact absurd hg.safe hns

theorem handOutXdes_safe_iff (hs : Reachable file s) (hv : a.valid = true) :
    NoFault (handOutXdes file (entryNum a) a s) ↔ XdesSafe file a := by
  rcases findXdes_cases hs hv with ⟨hg, _⟩ | ⟨_, hsafe, s', hf⟩ | ⟨hns, e, he⟩
  · obtain ⟨q, s', _, h, _⟩ := handOutXdes_good hs hv hg
    rw [h]; exact ⟨fun _ => hg.safe, fun _ => noFault_ok _⟩
  · refine ⟨fun _ => hsafe, fun _ => ⟨(none, s'), ?_⟩⟩
    simp only [handOutXdes, hf, ok_bind]
  · refine ⟨fun h => absurd h (not_noFault ⟨e, ?_⟩), fun h => absurd h hns⟩
    simp only [handOutXdes, he, error_bind]

theorem XDesEntryList.endNode_safe_iff (hs : Reachable file s) (l : XDesEntryList) (a : Addr) :
    NoFault (endNode file l a s) ↔ (l.listLength ≠ 0 → XdesSafe file a) :=
  l.guarded_safe_iff (fun hv => handOutXdes_safe_iff hs hv) fun hv h => absurd h hv

theorem XDesEntryListNode.next_safe_iff (hs : Reachable file s) {e : XdesE} (he : s.xdes q = .ok e) :
    NoFault (next file q s) ↔ XdesSafe file e.listNode.nextAddr := by
  simp only [next, he, ok_bind, entryNumInt_toUInt32]
  exact guarded_safe_iff (fun hv => handOutXdes_safe_iff hs hv) fun hv h => absurd h hv

theorem XDesEntryListNode.xdes_safe_iff (hs : Reachable file s) {e : XdesE} (he : s.xdes q = .ok e) :
    NoFault (xdes file q s) ↔ XdesSafe file e.listNode.addr := by
  simp only [xdes, he, ok_bind, entryNumInt_toUInt32]
  exact guarded_safe_iff (fun hv => findXdes_safe_iff hs hv) fun hv h => absurd h hv

/-! ## The traversal -/

theorem xdesRound_follows {σ : Type} (f : Callback file σ XdesE) :
    RoundFollows file (traverseXdesRound file f.run) (xdesNext file) (XdesGood file)
      (xdesOf file) XdesE.decoded where
  cond_eq _ _ := rfl
  move := by
    intro t hr hv hg
    cases xdesFetch hr hv with
    | found p s₁ q s₂ _ hp hx hr₂ hh =>
      obtain ⟨e, he, hd⟩ := hh.xdes
      obtain ⟨u, s₃, hf, hst⟩ := f.returns e t.cur t.user s₂ hr₂
      have hh₃ := hh.steps hr₂ hst
      obtain ⟨e', he', _⟩ := hh₃.xdes
      refine ⟨⟨e'.listNode.nextAddr, t.calls ++ [(e, t.cur)], u, s₃⟩, ?_, hr₂.steps hst, hh₃.nextAddr he', ?_⟩
      · simp only [traverseXdesRound, hp, hx, he, hf, he', deref, ok_bind]
      · simp only [List.map_append, List.map_cons, List.map_nil, hd]
    | noPage hng _ _ => exact absurd hg hng
    | noEntry _ _ _ hng _ _ _ _ => exact absurd hg hng
    | pageFault _ hns _ => exact absurd hg.safe hns
    | entryFault _ _ _ hns _ _ => exact absurd hg.safe hns
  stuck := by
    intro t hr hv hng
    cases xdesFetch hr hv with
    | found _ _ _ _ hg _ _ _ _ => exact absurd hg hng
    -- neither the page nor the entry is checked for null
    | noPage _ _ hp => exact ⟨.nullPage, by simp only [traverseXdesRound, hp, deref, ok_bind, error_bind]⟩
    | noEntry p s₁ s₂ _ _ hp hx _ =>
      exact ⟨.nullEntry, by simp only [traverseXdesRound, hp, hx, deref, ok_bind, error_bind]⟩
    | pageFault e _ hp => exact ⟨e, by simp only [traverseXdesRound, hp, error_bind]⟩
    | entryFault p s₁ e _ hp hx =>
      exact ⟨e, by simp only [traverseXdesRound, hp, hx, deref, ok_bind, error_bind]⟩

/-- **Safety of descriptor lists.** In every reachable state, each operation
ends without undefined behaviour exactly on these addresses. -/
theorem xdesList_safe_iff (hs : Reachable file s) (l : XDesEntryList) :
    (NoFault (l.first file s) ↔ (l.listLength ≠ 0 → XdesSafe file l.firstAddr)) ∧
    (NoFault (l.last file s) ↔ (l.listLength ≠ 0 → XdesSafe file l.lastAddr)) ∧
    (∀ q e, s.xdes q = .ok e →
      (NoFault (XDesEntryListNode.next file q s) ↔ XdesSafe file e.listNode.nextAddr) ∧
      (NoFault (XDesEntryListNode.xdes file q s) ↔ XdesSafe file e.listNode.addr)) ∧
    ∀ {σ : Type} (f : Callback file σ XdesE) (u : σ),
      (∀ n, NoFault (traverseXdesList file f.run l n u s)) ↔ l.All (xdesNext file) (XdesGood file) := by
  refine ⟨XDesEntryList.endNode_safe_iff hs l _, XDesEntryList.endNode_safe_iff hs l _, fun q e he => ?_, fun f u => ?_⟩
  · exact ⟨XDesEntryListNode.next_safe_iff hs he, XDesEntryListNode.xdes_safe_iff hs he⟩
  · exact traverse_safe_iff (xdesRound_follows f) hs l u

end

theorem xdesList_safe_first : NoFault (XDesEntryList.first (some onePageFile) ⟨1, 0, 158, 0, 158⟩ .new) :=
  (xdesList_safe_iff .refl _).1.mpr fun _ _ _ h => by
    cases h; exact ⟨by decide, by decide⟩

/-- An address below the descriptor array makes an index past its end; a
missing file makes the traversal use a null page. -/
theorem xdesList_unsafe :
    ¬ NoFault (XDesEntryList.first (some onePageFile) ⟨1, 0, 0, 0, 0⟩ .new) ∧
    ¬ ∀ n, NoFault (traverseXdesList none (Callback.ignore none XdesE).run ⟨1, 0, 158, 0, 158⟩ n () .new) := by
  refine ⟨?_, fun h => ?_⟩
  · unfold XDesEntryList.first
    rw [XDesEntryList.endNode_safe_iff .refl]
    intro h
    exact absurd ((h (by decide) rfl _ rfl).2 (by decide)).1 (by decide)
  · have hall := (traverse_safe_iff (xdesRound_follows (Callback.ignore none XdesE)) .refl _ ()).mp h
    obtain ⟨buf, hi, _⟩ := hall.good 1 ⟨0, 158⟩ (by decide)
    cases hi

end Innodb
