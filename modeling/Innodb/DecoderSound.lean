import Innodb.Agree
import Innodb.Decoder
import Innodb.InodeSound
import Innodb.XdesSound

/-!
# The reader agrees with the one without a state

Whatever a reader has cached and written into its objects, what it does next
ends in the same fault, or with the same result, as if every page were decoded
afresh. The relation between results also says that the reader came from one
state to the other by its own operations.
-/

namespace Innodb
open Loop Agree Store

/-! ## Page objects as they were made -/

/-- Without the descriptors filled and the address written since. -/
def Page.asMade (pg : Page) : Page :=
  match pg.body with
  | .fspHeaderPage h _ => { pg with body := .fspHeaderPage h (Vector.replicate 256 XdesE.new) }
  | _ => pg.decoded

theorem Page.Coherent.initPage {pg : Page} (C : pg.Coherent) : Innodb.initPage pg.buf = .ok (some pg.asMade) := by
  obtain ⟨buf, filHeader, body⟩ := pg
  have ht : (FilHeader.initFilHeader (bytes buf) 0).pageType = pageTypeOf buf := rfl
  have hcls : body.pageType = pageTypeOf buf := C.cls
  have hparsed : filHeader = FilHeader.initFilHeader (bytes buf) 0 ∧ body.Parsed (bytes buf) := C.parsed
  clear C
  obtain ⟨rfl, hbody⟩ := hparsed
  cases body with
  | fspHeaderPage h arr =>
    simp only [Innodb.initPage, ht, ← hcls, show h = _ from hbody]; rfl
  | inodePage node arr =>
    simp only [Innodb.initPage, ht, ← hcls, Page.asMade, Page.decoded, hbody.1, hbody.2]; rfl
  | indexPage h f =>
    obtain ⟨rfl, rfl⟩ := hbody
    simp only [Innodb.initPage, ht, ← hcls]; rfl
  | sysPage d =>
    simp only [Innodb.initPage, ht, ← hcls, show d = _ from hbody]; rfl
  | ibufBitMapPage | sdiPage =>
    simp only [Innodb.initPage, ht, ← hcls]; rfl

theorem Page.Coherent.asMade_eq {pg pg' : Page} (C : pg.Coherent) (C' : pg'.Coherent) (h : pg'.buf = pg.buf) :
    pg'.asMade = pg.asMade := by
  have hinit := C'.initPage
  rw [h, C.initPage] at hinit
  exact (Option.some.inj (Except.ok.inj hinit)).symm

theorem Page.dump_asMade (pg : Page) : pg.asMade.dump = pg.dump := by
  obtain ⟨buf, fil, body⟩ := pg
  cases body <;> rfl

theorem Page.inodeArr_asMade (pg : Page) : pg.asMade.inodeArr = pg.inodeArr := by
  unfold Page.asMade
  split
  · rename_i h arr hb
    simp only [Page.inodeArr, hb]
  · exact pg.inodeArr_decoded

/-! ## States reached -/

section
variable {file : Option File} {s s' : FileSpaceReader} {p : PagePtr} {pg : Page}

/-- The results are related by `R` in the state that the reader came to. -/
def After (file : Option File) (s : FileSpaceReader) {α β : Type} (R : FileSpaceReader → α → β → Prop)
    (x : α × FileSpaceReader) (b : β) : Prop :=
  Steps file s x.2 ∧ R x.2 x.1 b

theorem after_bind {α β γ δ : Type} {R : FileSpaceReader → α → β → Prop} {R' : γ → δ → Prop}
    {c : Except Fault (α × FileSpaceReader)} {x : Except Fault β} {k : α × FileSpaceReader → Except Fault γ}
    {g : β → Except Fault δ} (hs : Reachable file s) (h : Agrees (After file s R) c x)
    (hk : ∀ a b s', Steps file s s' → Reachable file s' → R s' a b → Agrees R' (k (a, s')) (g b)) :
    Agrees R' (c >>= k) (x >>= g) := by
  refine h.bind ?_
  rintro ⟨a, s'⟩ b ⟨hst, hR⟩
  exact hk a b s' hst (hs.steps hst) hR

def PageAt (s : FileSpaceReader) (p : PagePtr) (pg : Page) : Prop := ∃ pg', s.heap[p]? = some pg' ∧ pg'.asMade = pg

theorem PageAt.steps (h : PageAt s p pg) (hs : Reachable file s) (hst : Steps file s s') : PageAt s' p pg := by
  obtain ⟨pg', hp, rfl⟩ := h
  obtain ⟨I', hgrows⟩ := hs.inv.steps hst
  obtain ⟨pg'', hp', E⟩ := hgrows p pg' hp
  exact ⟨pg'', hp', (hs.inv.coherent pg' (List.mem_of_getElem? hp)).asMade_eq
    (I'.coherent pg'' (List.mem_of_getElem? hp')) E.buf⟩

inductive Both {α β : Type} (R : α → β → Prop) : Option α → Option β → Prop
  | none : Both R none none
  | some {a b} : R a b → Both R (some a) (some b)

theorem Both.deref {α β : Type} {R : α → β → Prop} (e : Fault) {a : Option α} {b : Option β} (h : Both R a b) :
    Agrees R (Innodb.deref e a) (Innodb.deref e b) := by
  cases h with
  | none => exact .error e
  | some h => exact .ok h

/-! ## Pages -/

theorem page_eq {buf : PageBuf} {i : UInt32} (hi : image file i = some buf) : Decoder.page file i =
    (do let pg ← deref .nullPage (← initPage buf)
        if i = 0xFFFFFFFF then .error .outOfRange else .ok (some pg)) := by
  unfold Decoder.page
  rw [hi]

theorem getPage_missed_outOfRange {buf : PageBuf} (h : Missed s 0xFFFFFFFF) (hi : image file 0xFFFFFFFF = some buf)
    (ht : pageTypeOf buf ∈ constructedTypes) : getPage file 0xFFFFFFFF s = .error .outOfRange := by
  obtain ⟨f, rfl, rfl⟩ := Option.map_eq_some_iff.mp hi
  obtain ⟨n, hr⟩ := readPage_some f ((0xFFFFFFFF : UInt32) * UInt32.ofNat pageSize).toNat s
  obtain ⟨pg, hp, -, -⟩ := initPage_ok ht
  rw [getPage_missed h, hr]
  simp only [hp, deref, if_neg (show ¬ (0 : Int) > (n : Int) by omega), ok_bind, putPage_max, error_bind]

theorem getPage_agrees (hs : Reachable file s) (i : UInt32) :
    Agrees (After file s fun s' => Both (PageAt s')) (getPage file i s) (Decoder.page file i) := by
  by_cases hm : Missed s i
  · by_cases hf : file = none
    · have hnone : Decoder.page file i = .ok none := by
        unfold Decoder.page
        rw [image_none hf]
      rw [getPage_null hs.inv hf, hnone]
      exact .ok ⟨.refl, .none⟩
    obtain ⟨buf, hi⟩ := image_some (i := i) hf
    rw [page_eq hi]
    by_cases ht : pageTypeOf buf ∈ constructedTypes
    · by_cases hmax : i = 0xFFFFFFFF
      · subst hmax
        obtain ⟨pg, hinit, -, -⟩ := initPage_ok ht
        rw [getPage_missed_outOfRange hm hi ht, hinit, ok_bind, Innodb.deref, ok_bind, if_pos rfl]
        exact .error _
      · obtain ⟨pg, hinit, hbuf, C, hg⟩ := getPage_missed_ok hm hi ht hmax
        rw [hg, hinit, ok_bind, Innodb.deref, ok_bind, if_neg hmax]
        refine .ok ⟨.single (.getPage hg), .some ⟨pg, alloc_getElem? _ _, ?_⟩⟩
        have h := C.initPage
        rw [hbuf, hinit] at h
        exact (Option.some.inj (Except.ok.inj h)).symm
    · rw [getPage_missed_type hm hi ht, initPage_fault ht]
      exact .error _
  · simp only [Missed, ne_eq, Classical.not_forall, Decidable.not_not] at hm
    obtain ⟨p, hp⟩ := hm
    obtain ⟨pg, hpg, himg⟩ := hs.inv.slots i p hp
    have C := hs.inv.coherent pg (List.mem_of_getElem? hpg)
    have hmax : i ≠ 0xFFFFFFFF := by
      rintro rfl
      exact hs.inv.missed_max p hp
    rw [getPage_hit hp, page_eq himg, C.initPage, ok_bind, Innodb.deref, ok_bind, if_neg hmax]
    exact .ok ⟨.refl, .some ⟨pg, hpg, rfl⟩⟩

theorem PageAt.read (h : PageAt s p pg) : ∃ pg', s.page p = .ok pg' ∧ pg'.asMade = pg := by
  obtain ⟨pg', hp, hmade⟩ := h
  exact ⟨pg', page_ok hp, hmade⟩

theorem PageAt.asInodePage (h : PageAt s p pg) : Agrees (fun r r' => r.1.nextAddr = r'.1.nextAddr ∧ r.2 = r'.2)
    (s.asInodePage p) (Decoder.asInodePage pg) := by
  obtain ⟨⟨buf, filHeader, body⟩, hp, rfl⟩ := h.read
  unfold FileSpaceReader.asInodePage
  rw [hp, ok_bind]
  cases body with
  | inodePage node arr => exact .ok ⟨rfl, rfl⟩
  | _ => exact .error _

theorem PageAt.asFspHeaderPage (h : PageAt s p pg) :
    Agrees Eq (s.asFspHeaderPage p) (Decoder.asFspHeaderPage pg) := by
  obtain ⟨⟨buf, filHeader, body⟩, hp, rfl⟩ := h.read
  unfold FileSpaceReader.asFspHeaderPage
  rw [hp, ok_bind]
  cases body with
  | fspHeaderPage h arr => exact .ok rfl
  | _ => exact .error _

/-! ## Descriptors -/

def XdesAt (s : FileSpaceReader) (q : XdesPtr) (x : XdesE) : Prop :=
  ∃ pg, s.heap[q.page]? = some pg ∧ pg.Filled q.slot ∧ xdesAt pg.buf q.slot = x

theorem XdesAt.steps {q : XdesPtr} {x : XdesE} (h : XdesAt s q x) (hs : Reachable file s) (hst : Steps file s s') :
    XdesAt s' q x := by
  obtain ⟨pg, hp, hf, rfl⟩ := h
  obtain ⟨pg', hp', E⟩ := (hs.inv.steps hst).2 _ pg hp
  exact ⟨pg', hp', E.filled _ hf, by rw [E.buf]⟩

theorem XdesAt.read {q : XdesPtr} {x : XdesE} (h : XdesAt s q x) : ∃ e, s.xdes q = .ok e ∧ e.decoded = x := by
  obtain ⟨pg, hp, ⟨hd, arr, hb, he⟩, rfl⟩ := h
  refine ⟨arr.get q.slot, ?_, he⟩
  simp only [FileSpaceReader.xdes, page_ok hp, ok_bind, hb]

theorem getXdesEntry_agrees (hs : Reachable file s) (h : PageAt s p pg) (index : UInt32) :
    Agrees (After file s fun s' => Both (XdesAt s')) (s.getXdesEntry p index) (Decoder.xdesEntry pg index) := by
  obtain ⟨pg', hp, rfl⟩ := h
  have C := hs.inv.coherent pg' (List.mem_of_getElem? hp)
  by_cases ht : pageTypeOf pg'.buf = filPageTypeFspHdr
  · obtain ⟨hd, arr, hb⟩ := C.isFsp ht
    have hdec : Decoder.xdesEntry pg'.asMade index =
        if index.toNat < 256 then .ok (some (xdesAt pg'.buf index.toNat)) else .error .outOfRange := by
      simp only [Decoder.xdesEntry, Page.asMade, hb]
    rw [hdec]
    by_cases hi : index.toNat < 256
    · obtain ⟨pg'', hx, _, E, hfill⟩ := Page.getXdesEntry_fsp C ht hi
      have hget : s.getXdesEntry p index = .ok (some ⟨p, ⟨_, hi⟩⟩, { s with heap := s.heap.set p pg'' }) := by
        simp only [FileSpaceReader.getXdesEntry, page_ok hp, ok_bind, hx, Option.map_some]
      rw [hget, if_pos hi]
      refine .ok ⟨.single (.getXdesEntry hget), .some ⟨pg'', ?_, hfill, by rw [E.buf]⟩⟩
      exact List.getElem?_set_self (List.getElem?_eq_some_iff.mp hp).1
    · simp only [FileSpaceReader.getXdesEntry, page_ok hp, ok_bind, Page.getXdesEntry_fsp_range C ht hi, error_bind,
        if_neg hi]
      exact .error _
  · have hdec : Decoder.xdesEntry pg'.asMade index = .ok none := by
      cases hb : pg'.body with
      | fspHeaderPage hd arr => exact absurd (C.fsp_type hb) ht
      | _ => simp only [Decoder.xdesEntry, Page.asMade, Page.decoded, hb]
    have hget : s.getXdesEntry p index = .ok (none, { s with heap := s.heap.set p pg' }) := by
      simp only [FileSpaceReader.getXdesEntry, page_ok hp, ok_bind, Page.getXdesEntry_other C ht, Option.map_none]
    rw [hget, hdec]
    exact .ok ⟨.single (.getXdesEntry hget), .none⟩

/-! ## Traversals -/

variable {σ τ ρ ρ' : Type}

/-- Where the traversal without a state is, this one is, after the same calls
as far as `see` shows them. -/
structure Alike (file : Option File) (s : FileSpaceReader) (see : ρ → ρ') (U : σ → τ → Prop) (t : Traversal σ ρ)
    (v : Decoder.Visit τ ρ') : Prop where
  steps : Steps file s t.reader
  cur : t.cur = v.cur
  calls : t.calls.map (fun c => (see c.1, c.2)) = v.calls
  user : U t.user v.user

/-- A callback that does what one without a reader does. -/
def FuncAgrees (file : Option File) (see : ρ → ρ') (U : σ → τ → Prop) (f : Func σ ρ)
    (g : ρ' → Addr → τ → Except Fault τ) : Prop :=
  ∀ x a u v s, Reachable file s → U u v → Agrees (After file s fun _ => U) (f x a u s) (g (see x) a v)

theorem xdesRound_agrees {U : σ → τ → Prop} {f : Func σ XdesE} {g : Decoder.Func τ XdesE}
    (hf : FuncAgrees file XdesE.decoded U f g) (hs : Reachable file s) {t : Traversal σ XdesE}
    {v : Decoder.Visit τ XdesE} (h : Alike file s XdesE.decoded U t v) :
    Agrees (Alike file s XdesE.decoded U) (traverseXdesRound file f t) (Decoder.xdesRound file g v) := by
  obtain ⟨hst, hcur, hcalls, huser⟩ := h
  unfold traverseXdesRound Decoder.xdesRound
  rw [← hcur]
  refine after_bind (hs.steps hst) (getPage_agrees (hs.steps hst) _) fun r b s₁ hst₁ hs₁ hpg => ?_
  refine (hpg.deref _).bind fun p pg hp => ?_
  refine after_bind hs₁ (getXdesEntry_agrees hs₁ hp _) fun r b s₂ hst₂ hs₂ hx => ?_
  refine (hx.deref _).bind fun q x hq => ?_
  obtain ⟨e, he, rfl⟩ := hq.read
  rw [he, ok_bind]
  refine after_bind hs₂ (hf e t.cur _ _ s₂ hs₂ huser) fun u u' s₃ hst₃ hs₃ hU => ?_
  obtain ⟨e', he', hd⟩ := (hq.steps hs₂ hst₃).read
  simp only [he', ok_bind]
  refine .ok ⟨((hst.trans hst₁).trans hst₂).trans hst₃, ?_, ?_, hU⟩
  · rw [← XdesE.nextAddr_decoded, hd]
  · rw [List.map_append, hcalls]; rfl

theorem inodeRound_agrees {U : σ → τ → Prop} {f : Func σ Page} {g : Decoder.Func τ Page}
    (hf : FuncAgrees file Page.asMade U f g) (hs : Reachable file s) {t : Traversal σ Page}
    {v : Decoder.Visit τ Page} (h : Alike file s Page.asMade U t v) :
    Agrees (Alike file s Page.asMade U) (traverseInodeRound file f t) (Decoder.inodeRound file g v) := by
  obtain ⟨hst, hcur, hcalls, huser⟩ := h
  unfold traverseInodeRound Decoder.inodeRound
  rw [← hcur]
  refine after_bind (hs.steps hst) (getPage_agrees (hs.steps hst) _) fun r b s₁ hst₁ hs₁ hpg => ?_
  refine (hpg.deref _).bind fun p pg hp => ?_
  refine hp.asInodePage.bind_eq fun r r' _ hin _ => ?_
  obtain ⟨pg', hp', rfl⟩ := hp.read
  rw [hp', ok_bind]
  refine after_bind hs₁ (hf pg' t.cur _ _ s₁ hs₁ huser) fun u u' s₂ hst₂ hs₂ hU => ?_
  have hin₂ := (hp.steps hs₁ hst₂).asInodePage
  rw [hin] at hin₂
  obtain ⟨r₂, hr₂, hnext, _⟩ := hin₂.to_ok
  simp only [hr₂, ok_bind]
  refine .ok ⟨(hst.trans hst₁).trans hst₂, hnext, ?_, hU⟩
  rw [List.map_append, hcalls]; rfl

section
variable {see : ρ → ρ'} {U : σ → τ → Prop} {round : Traversal σ ρ → Except Fault (Traversal σ ρ)}
  {round' : Decoder.Visit τ ρ' → Except Fault (Decoder.Visit τ ρ')}
  (hround : ∀ t v, Alike file s see U t v → Agrees (Alike file s see U) (round t) (round' v))
include hround

theorem rounds_agrees {go : σ → Bool} {go' : τ → Bool} (hgo : ∀ u v, U u v → go u = go' v) (n : Nat) {a : Addr} {u : σ}
    {v : τ} (hU : U u v) : Agrees (Alike file s see U)
      (rounds (fun t : Traversal σ ρ => t.cur.valid && go t.user) round n ⟨a, [], u, s⟩)
      (rounds (fun t : Decoder.Visit τ ρ' => t.cur.valid && go' t.user) round' n ⟨a, [], v⟩) :=
  .rounds (fun t v h => by rw [h.cur, hgo _ _ h.user]) (fun t v h _ => hround t v h) n _ _ ⟨.refl, rfl, rfl, hU⟩

theorem traverse_agrees (l : ListBaseNode) (n : Nat) {u : σ} {v : τ} (hU : U u v) :
    Agrees (Alike file s see U) (traverse round l n u s) (Decoder.traverse round' l n v) := by
  unfold traverse Decoder.traverse
  by_cases h0 : l.listLength > 0
  · rw [if_pos h0, if_pos h0]
    exact .rounds (fun t v h => by rw [h.cur]) (fun t v h _ => hround t v h) n _ _ ⟨.refl, rfl, rfl, hU⟩
  · rw [if_neg h0, if_neg h0]
    exact .ok ⟨.refl, rfl, rfl, hU⟩

end

theorem Alike.returned {see : ρ → ρ'} {U : σ → τ → Prop} {t : Traversal σ ρ} {v : Decoder.Visit τ ρ'}
    (h : Alike file s see U t v) (l : ListBaseNode) : returned l t = Decoder.returned l v := by
  unfold Innodb.returned Decoder.returned
  rw [h.cur]

end

/-! ## Printing -/

section
variable {file : Option File} {s : FileSpaceReader}

abbrev Same (file : Option File) (s : FileSpaceReader) {α : Type} : α × FileSpaceReader → α → Prop :=
  After file s fun _ => Eq

theorem same_foldlM {α ι : Type} {f : α × FileSpaceReader → ι → Except Fault (α × FileSpaceReader)}
    {g : α → ι → Except Fault α} (hs : Reachable file s) (l : List ι) (a : α)
    (hf : ∀ i t, Steps file s t.2 → Reachable file t.2 → Agrees (Same file t.2) (f t i) (g t.1 i)) :
    Agrees (Same file s) (l.foldlM f (a, s)) (l.foldlM g a) := by
  refine .foldlM (R := Same file s) (fun i _ t b h => ?_) _ _ ⟨.refl, rfl⟩
  obtain ⟨hst, hb⟩ := h
  obtain rfl : t.1 = b := hb
  exact (hf i t hst (hs.steps hst)).mono fun t' b' h' => ⟨hst.trans h'.1, h'.2⟩

theorem dumpXdesList_agrees (hs : Reachable file s) (n : Nat) (title : String) (l : XDesEntryList)
    (behind oss : String) : Agrees (Same file s) (DumpSpace.dumpXdesList file n title l behind oss s)
      (Decoder.dumpXdesList file n title l behind oss) := by
  have hf : FuncAgrees file XdesE.decoded Eq DumpSpace.dumpXdesEntry Decoder.dumpXdesEntry := by
    intro x a u v s _ huv
    exact .ok ⟨.refl, by rw [huv]; rfl⟩
  refine (traverse_agrees (fun t v h => xdesRound_agrees hf hs h) l n rfl).bind fun t v h => ?_
  rw [h.returned, h.user]
  exact .ok ⟨h.steps, rfl⟩

theorem dumpEntryList_agrees (n : Nat) (title : String) (l : XDesEntryList) {t : Printed × FileSpaceReader}
    (ht : Reachable file t.2) : Agrees (Same file t.2) (DumpSpace.dumpEntryList file n title l t)
      (Decoder.dumpEntryList file n title l t.1) := by
  obtain ⟨oss, s⟩ := t
  unfold DumpSpace.dumpEntryList Decoder.dumpEntryList
  cases oss with
  | none => exact .ok ⟨.refl, rfl⟩
  | some oss =>
    by_cases h0 : l.listLength > 0
    · simp only [if_pos h0]
      exact dumpXdesList_agrees ht n title l endl oss
    · simp only [if_neg h0]
      exact .ok ⟨.refl, rfl⟩

theorem dumpInodeEntries_agrees (n : Nat) :
    FuncAgrees file Page.asMade Eq (DumpSpace.dumpInodeEntries file n) (Decoder.dumpInodeEntries file n) := by
  intro x a u v s hs huv
  subst huv
  unfold DumpSpace.dumpInodeEntries Decoder.dumpInodeEntries
  rw [x.inodeArr_asMade]
  refine same_foldlM hs _ _ fun e t _ ht => ?_
  refine (dumpEntryList_agrees n _ _ ht).bind fun t₁ o₁ h₁ => ?_
  obtain ⟨hst₁, ho₁⟩ := h₁
  obtain rfl : t₁.1 = o₁ := ho₁
  exact (dumpEntryList_agrees n _ _ (ht.steps hst₁)).mono fun t₂ o₂ h₂ => ⟨hst₁.trans h₂.1, h₂.2⟩

theorem dumpInodeList_agrees (hs : Reachable file s) (n : Nat) (title : String) (l : INodeEntryList)
    (oss : String) : Agrees (Same file s) (DumpSpace.dumpInodeList file n title l oss s)
      (Decoder.dumpInodeList file n title l oss) := by
  unfold DumpSpace.dumpInodeList Decoder.dumpInodeList
  by_cases h0 : l.listLength > 0
  · rw [if_pos h0, if_pos h0]
    have hround : ∀ t v, Alike file s Page.asMade Eq t v → Agrees (Alike file s Page.asMade Eq)
        (traverseInodeRound file (DumpSpace.dumpInodeEntries file n) t)
        (Decoder.inodeRound file (Decoder.dumpInodeEntries file n) v) :=
      fun t v h => inodeRound_agrees (dumpInodeEntries_agrees n) hs h
    refine (rounds_agrees hround (fun u v h => by rw [h]) n rfl).bind fun t v h => ?_
    rw [h.cur, h.user]
    exact .ok ⟨h.steps, rfl⟩
  · rw [if_neg h0, if_neg h0]
    exact .ok ⟨.refl, rfl⟩

theorem fspHeaderPage_agrees (hs : Reachable file s) :
    Agrees (After file s fun s' => Both fun p r => PageAt s' p r.1 ∧ Decoder.asFspHeaderPage r.1 = .ok r.2)
      (getFspHeaderPage file s) (Decoder.fspHeaderPage file) := by
  refine after_bind hs (getPage_agrees hs 0) fun r b s₁ hst₁ hs₁ hpg => ?_
  cases hpg with
  | none => exact .ok ⟨hst₁, .none⟩
  | some hp =>
    refine hp.asFspHeaderPage.bind_eq fun h h' _ hh' _ => ?_
    exact .ok ⟨hst₁, .some ⟨hp, hh'⟩⟩

theorem pageCount_agrees (hs : Reachable file s) : Agrees (Same file s) (getPageCount file s) (Decoder.pageCount file) := by
  refine after_bind hs (fspHeaderPage_agrees hs) fun r b s₁ hst₁ hs₁ h => ?_
  cases h with
  | none => exact .ok ⟨hst₁, rfl⟩
  | some h =>
    have hh := h.1.asFspHeaderPage
    rw [h.2] at hh
    obtain ⟨h', hh', rfl⟩ := hh.to_ok
    simp only [hh', ok_bind]
    exact .ok ⟨hst₁, rfl⟩

theorem dumpPage_agrees (hs : Reachable file s) (oss : String) (i : UInt32) :
    Agrees (Same file s) (DumpSpace.dumpPage file (oss, s) i) (Decoder.dumpPage file oss i) := by
  refine after_bind hs (getPage_agrees hs i) fun r b s₁ hst₁ hs₁ hpg => ?_
  cases hpg with
  | none => exact .ok ⟨hst₁, rfl⟩
  | some hp =>
    obtain ⟨pg, hpg, rfl⟩ := hp.read
    simp only [hpg, ok_bind, pg.dump_asMade]
    exact .ok ⟨hst₁, rfl⟩

theorem dumpList_agrees {p : PagePtr} {pg : Page} {h : FspHeader} (hs : Reachable file s) (hp : PageAt s p pg)
    (hh : Decoder.asFspHeaderPage pg = .ok h) (n : Nat) (o : Printed) (l : DumpSpace.SpaceList) :
    Agrees (Same file s) (DumpSpace.dumpList file n p (o, s) l) (Decoder.dumpList file n h o l) := by
  cases o with
  | none => exact .ok ⟨.refl, rfl⟩
  | some oss =>
    have hread := hp.asFspHeaderPage
    rw [hh] at hread
    obtain ⟨h', hh', rfl⟩ := hread.to_ok
    simp only [DumpSpace.dumpList, Decoder.dumpList, hh', ok_bind]
    cases l with
    | extents title baseNode behind => exact dumpXdesList_agrees hs n _ _ _ _
    | inodes title baseNode => exact dumpInodeList_agrees hs n _ _ _

/-- **`dump_space`** agrees with the printing of a file decoded afresh. -/
theorem dumpSpace_agrees (hs : Reachable file s) (fileName : String) (n : Nat) :
    Agrees (Same file s) (dumpSpace file fileName n s) (Decoder.dumpSpace file fileName n) := by
  refine after_bind hs (fspHeaderPage_agrees hs) fun r b s₁ hst₁ hs₁ h => ?_
  refine (h.deref _).bind fun p r hr => ?_
  obtain ⟨hp, hh⟩ := hr
  obtain ⟨pg', hp', hmade⟩ := hp.read
  rw [hp', ok_bind, ← hmade, pg'.dump_asMade]
  refine (same_foldlM hs₁ _ _ fun i t _ ht => dumpPage_agrees ht t.1 i).bind fun t oss ht => ?_
  obtain ⟨hst₂, ho⟩ := ht
  obtain rfl : t.1 = oss := ho
  refine (same_foldlM (hs₁.steps hst₂) _ _ fun l t' hst' ht' => ?_).mono fun t' o h => ⟨(hst₁.trans hst₂).trans h.1, h.2⟩
  exact dumpList_agrees ht' (hp.steps hs₁ (hst₂.trans hst')) hh n t'.1 l

end

end Innodb
