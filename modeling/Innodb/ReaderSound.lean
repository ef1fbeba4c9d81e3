import Innodb.PageSound
import Innodb.Reader
import Mathlib.Logic.Relation

/-!
# The page cache agrees with the file

`image` is what a read for a page index fills the buffer with. In every state
a reader can reach, a cached page is coherent and has its index's image, so
`get_page` is determined by the file alone.
-/

namespace Innodb
open Store

def File.block (f : File) (off : Nat) : PageBuf := fun k => f.at (off + k)

section
variable (file : Option File)

def image (i : UInt32) : Option PageBuf := file.map fun f => f.block (i * UInt32.ofNat pageSize).toNat

/-- What the reader's operations do to its state, one access at a time. -/
inductive Step : FileSpaceReader → FileSpaceReader → Prop
  | getPage {i s r s'} : Innodb.getPage file i s = .ok (r, s') → Step s s'
  | getXdesEntry {p i s r s'} : s.getXdesEntry p i = .ok (r, s') → Step s s'
  | stampXdes {q a s s'} : s.stampXdes q a = .ok s' → Step s s'
  | stampInode {p a s s'} : s.stampInode p a = .ok s' → Step s s'

def Steps : FileSpaceReader → FileSpaceReader → Prop := Relation.ReflTransGen (Step file)

def Reachable (s : FileSpaceReader) : Prop := Steps file FileSpaceReader.new s

structure Inv (s : FileSpaceReader) : Prop where
  opened : s.isOpen = true → file.isSome = true
  coherent : ∀ pg ∈ s.heap, pg.Coherent
  slots : ∀ (i : UInt32) (p : PagePtr), s.pages[i.toNat]? = some (some p) →
    ∃ pg, s.heap[p]? = some pg ∧ image file i = some pg.buf
  size : s.pages.length < 2 ^ 32
  last : ∀ n, s.pages.length = n + 1 → ∃ p, s.pages[n]? = some (some p)

theorem Inv.new : Inv file FileSpaceReader.new :=
  ⟨nofun, nofun, nofun, by decide, nofun⟩

/-! ## Reading -/

theorem readPage_none (off : Nat) (buf : PageBuf) (n : Nat) {s : FileSpaceReader} (h : s.isOpen = false) :
    readPage none off buf n s = (-1, buf, s) := by
  simp [readPage, openFile, h]

theorem readsome_zero (f : File) (off : Nat) :
    (readsome f off (fun _ => 0) pageSize).2 = f.block off := by
  funext k
  have hk := k.isLt
  simp only [readsome, File.block, File.at]
  by_cases h : off + k < f.size
  · rw [if_pos h, if_pos (by omega)]
  · rw [if_neg h, if_neg (by omega)]

theorem readPage_some (f : File) (off : Nat) (s : FileSpaceReader) :
    ∃ n : Nat, readPage (some f) off (fun _ => 0) pageSize s =
      ((n : Int), f.block off, { s with isOpen := true }) := by
  refine ⟨(readsome f off (fun _ => 0) pageSize).1, ?_⟩
  rw [← readsome_zero]
  cases ho : s.isOpen with
  | true =>
    have hs : { s with isOpen := true } = s := by rw [← ho]
    rw [hs]
    simp only [readPage, ho, if_true]
    rfl
  | false =>
    simp only [readPage, openFile, ho]
    rfl

def Missed (s : FileSpaceReader) (i : UInt32) : Prop := ∀ p, s.pages[i.toNat]? ≠ some (some p)

def installed (i : UInt32) (page : Page) (s : FileSpaceReader) : FileSpaceReader :=
  ⟨true, (resize s.pages (i.toNat + 1) none).set i.toNat (some s.heap.length), s.heap ++ [page]⟩

theorem succ_toNat {i : UInt32} (h : i ≠ 0xFFFFFFFF) : (i + 1).toNat = i.toNat + 1 := by
  have hne : i.toNat ≠ 4294967295 := fun e => h (UInt32.toNat_inj.mp e)
  have hlt := i.toNat_lt
  simp only [UInt32.toNat_add, UInt32.reduceToNat]; omega

variable {file} {s s' : FileSpaceReader} {i : UInt32}

theorem getPage_hit {p : PagePtr} (h : s.pages[i.toNat]? = some (some p)) :
    getPage file i s = .ok (some p, s) := by
  simp only [getPage, h]

theorem getPage_missed (h : Missed s i) : getPage file i s =
    (let (n, buf, s) := readPage file (i * UInt32.ofNat pageSize).toNat (fun _ => 0) pageSize s
     if 0 > n then .ok (none, s)
     else do
      let page ← deref .nullPage (← initPage buf)
      let (p, s) ← putPage i page s
      .ok (some p, s)) := by
  unfold getPage
  split
  · rename_i p hp; exact absurd hp (h p)
  · rfl

theorem getPage_missed_ok {buf : PageBuf} (h : Missed s i) (hi : image file i = some buf)
    (ht : pageTypeOf buf ∈ constructedTypes) (hm : i ≠ 0xFFFFFFFF) :
    ∃ pg : Page, initPage buf = .ok (some pg) ∧ pg.buf = buf ∧ pg.Coherent ∧
      getPage file i s = .ok (some s.heap.length, installed i pg s) := by
  obtain ⟨f, rfl, rfl⟩ := Option.map_eq_some_iff.mp hi
  obtain ⟨n, hr⟩ := readPage_some f (i * UInt32.ofNat pageSize).toNat s
  obtain ⟨pg, hp, hbuf, C⟩ := initPage_ok ht
  refine ⟨pg, hp, hbuf, C, ?_⟩
  rw [getPage_missed h, hr]
  simp only [hp, deref, putPage, succ_toNat hm, resize_length, Nat.lt_succ_self, if_true, installed,
    if_neg (show ¬ (0 : Int) > (n : Int) by omega), Loop.ok_bind]

theorem getPage_missed_type {buf : PageBuf} (h : Missed s i) (hi : image file i = some buf)
    (ht : pageTypeOf buf ∉ constructedTypes) : getPage file i s = .error .nullPage := by
  obtain ⟨f, rfl, rfl⟩ := Option.map_eq_some_iff.mp hi
  obtain ⟨n, hr⟩ := readPage_some f (i * UInt32.ofNat pageSize).toNat s
  rw [getPage_missed h, hr]
  simp only [initPage_fault ht, if_neg (show ¬ (0 : Int) > (n : Int) by omega), Loop.error_bind]

theorem putPage_max (pg : Page) (s : FileSpaceReader) : putPage 0xFFFFFFFF pg s = .error .outOfRange := by
  rw [putPage, resize_length, if_neg (by decide)]

theorem getPage_missed_max {buf : PageBuf} (h : Missed s 0xFFFFFFFF) (hi : image file 0xFFFFFFFF = some buf) :
    ∃ e, getPage file 0xFFFFFFFF s = .error e := by
  by_cases ht : pageTypeOf buf ∈ constructedTypes
  · obtain ⟨f, rfl, rfl⟩ := Option.map_eq_some_iff.mp hi
    obtain ⟨n, hr⟩ := readPage_some f ((0xFFFFFFFF : UInt32) * UInt32.ofNat pageSize).toNat s
    obtain ⟨pg, hp, -, -⟩ := initPage_ok ht
    refine ⟨.outOfRange, ?_⟩
    rw [getPage_missed h, hr]
    simp only [hp, deref, if_neg (show ¬ (0 : Int) > (n : Int) by omega), Loop.ok_bind, putPage_max,
      Loop.error_bind]
  · exact ⟨_, getPage_missed_type h hi ht⟩

theorem getPage_missed_none (h : Missed s i) (hf : file = none) (ho : s.isOpen = false) :
    getPage file i s = .ok (none, s) := by
  subst hf
  rw [getPage_missed h, readPage_none _ _ _ ho]
  rfl

theorem image_none (h : file = none) : image file i = none := by rw [h]; rfl

theorem image_some (h : file ≠ none) : ∃ buf, image file i = some buf := by
  cases file with
  | none => exact absurd rfl h
  | some f => exact ⟨_, rfl⟩

/-! ## The invariant -/

theorem Inv.missed_max (I : Inv file s) : Missed s 0xFFFFFFFF := by
  intro p hp
  have := (List.getElem?_eq_some_iff.mp hp).1
  have := I.size
  simp only [UInt32.reduceToNat] at *; omega

theorem Inv.missed_none (I : Inv file s) (h : file = none) (i : UInt32) : Missed s i := by
  intro p hp
  obtain ⟨pg, _, hi⟩ := I.slots i p hp
  rw [image_none h] at hi; cases hi

theorem Inv.closed (I : Inv file s) (h : file = none) : s.isOpen = false := by
  cases ho : s.isOpen with
  | false => rfl
  | true => have := I.opened ho; rw [h] at this; cases this

theorem Page.Coherent.constructed {pg : Page} (C : pg.Coherent) : pageTypeOf pg.buf ∈ constructedTypes := by
  rw [← C.cls]
  cases pg.body <;> simp [PageBody.pageType, constructedTypes]

theorem getPage_cases (I : Inv file s) {r : Option PagePtr} (h : getPage file i s = .ok (r, s')) :
    (∃ p, s.pages[i.toNat]? = some (some p) ∧ r = some p ∧ s' = s) ∨
    (file = none ∧ r = none ∧ s' = s) ∨
    (∃ pg, Missed s i ∧ i ≠ 0xFFFFFFFF ∧ image file i = some pg.buf ∧ initPage pg.buf = .ok (some pg) ∧ pg.Coherent ∧
      r = some s.heap.length ∧ s' = installed i pg s) := by
  by_cases hm : Missed s i
  · by_cases hf : file = none
    · rw [getPage_missed_none hm hf (I.closed hf)] at h
      cases h; exact .inr (.inl ⟨hf, rfl, rfl⟩)
    obtain ⟨buf, hi⟩ := image_some (i := i) hf
    by_cases hmax : i = 0xFFFFFFFF
    · subst hmax
      obtain ⟨e, he⟩ := getPage_missed_max hm hi
      rw [he] at h; cases h
    by_cases ht : pageTypeOf buf ∈ constructedTypes
    · obtain ⟨pg, hinit, rfl, C, hg⟩ := getPage_missed_ok hm hi ht hmax
      rw [hg] at h; cases h
      exact .inr (.inr ⟨pg, hm, hmax, hi, hinit, C, rfl, rfl⟩)
    · rw [getPage_missed_type hm hi ht] at h; cases h
  · simp only [Missed, ne_eq, Classical.not_forall, Decidable.not_not] at hm
    obtain ⟨p, hp⟩ := hm
    rw [getPage_hit hp] at h; cases h
    exact .inl ⟨p, hp, rfl, rfl⟩

theorem installed_slot (pg : Page) (s : FileSpaceReader) (i j : UInt32) (p : PagePtr) :
    (installed i pg s).pages[j.toNat]? = some (some p) ↔
      (j = i ∧ p = s.heap.length) ∨ (j ≠ i ∧ j.toNat < i.toNat ∧ s.pages[j.toNat]? = some (some p)) := by
  have hget : (installed i pg s).pages[j.toNat]? = if i.toNat = j.toNat then some (some s.heap.length)
      else if j.toNat < i.toNat + 1 then some (s.pages[j.toNat]?.getD none) else none := by
    simp only [installed, List.getElem?_set, resize_length, resize_getElem?, Nat.lt_succ_self, if_true]
  rw [hget]
  by_cases hij : j = i
  · subst hij; simp [eq_comm]
  · have hne : ¬ i.toNat = j.toNat := fun e => hij (UInt32.toNat_inj.mp e.symm)
    rw [if_neg hne]
    by_cases hlt : j.toNat < i.toNat
    · rw [if_pos (by omega)]
      simp only [hij, false_and, false_or, ne_eq, not_false_eq_true, hlt, true_and, Option.some.injEq]
      cases s.pages[j.toNat]? <;> simp
    · rw [if_neg (by omega)]
      simp [hij, hlt]

theorem Inv.installed (I : Inv file s) {pg : Page} (hm : i ≠ 0xFFFFFFFF) (hi : image file i = some pg.buf)
    (C : pg.Coherent) : Inv file (installed i pg s) where
  opened _ := by
    cases file with
    | none => cases hi
    | some f => rfl
  coherent := forall_alloc I.coherent C
  slots j p hj := by
    rcases (installed_slot _ _ _ j p).mp hj with ⟨rfl, rfl⟩ | ⟨_, _, h⟩
    · exact ⟨pg, alloc_getElem? _ _, hi⟩
    · obtain ⟨pg', hp, himg⟩ := I.slots j p h
      have hlt := (List.getElem?_eq_some_iff.mp hp).1
      exact ⟨pg', by rw [Innodb.installed, List.getElem?_append_left hlt, hp], himg⟩
  size := by
    have := i.toNat_lt
    have := succ_toNat hm
    have := (i + 1).toNat_lt
    simp only [Innodb.installed, List.length_set, resize_length]; omega
  last n hn := by
    simp only [Innodb.installed, List.length_set, resize_length] at hn
    obtain rfl : i.toNat = n := by omega
    exact ⟨_, (installed_slot _ _ _ i _).mpr (.inl ⟨rfl, rfl⟩)⟩

def HeapGrows (s s' : FileSpaceReader) : Prop := Grows Page.Evolves s.heap s'.heap

theorem HeapGrows.refl (s : FileSpaceReader) : HeapGrows s s := Grows.refl Page.Evolves.refl _

theorem HeapGrows.trans {s₁ s₂ s₃ : FileSpaceReader} (h₁ : HeapGrows s₁ s₂) (h₂ : HeapGrows s₂ s₃) :
    HeapGrows s₁ s₃ := Grows.trans (fun _ _ _ h h' => h.trans h') h₁ h₂

theorem Inv.setHeap (I : Inv file s) {p : PagePtr} {pg pg' : Page} (hp : s.heap[p]? = some pg)
    (C : pg'.Coherent) (E : pg.Evolves pg') :
    Inv file { s with heap := s.heap.set p pg' } ∧ HeapGrows s { s with heap := s.heap.set p pg' } := by
  have hg : HeapGrows s { s with heap := s.heap.set p pg' } := Grows.set Page.Evolves.refl hp E
  refine ⟨⟨I.opened, forall_set I.coherent C, fun i q hq => ?_, I.size, I.last⟩, hg⟩
  obtain ⟨pg₀, hq, himg⟩ := I.slots i q hq
  obtain ⟨pg₁, hq', E'⟩ := hg q pg₀ hq
  exact ⟨pg₁, hq', by rw [himg, E'.buf]⟩

theorem page_ok {p : PagePtr} {pg : Page} (h : s.heap[p]? = some pg) : s.page p = .ok pg := by
  unfold FileSpaceReader.page
  rw [h]; rfl

theorem page_ok_inv {p : PagePtr} {pg : Page} (h : s.page p = .ok pg) : s.heap[p]? = some pg := by
  unfold FileSpaceReader.page deref at h
  cases hp : s.heap[p]? with
  | none => rw [hp] at h; cases h
  | some pg' => rw [hp] at h; cases h; rfl

/-! ## Steps -/

theorem getXdesEntry_inv {p : PagePtr} {r : Option XdesPtr} (h : s.getXdesEntry p i = .ok (r, s')) :
    ∃ pg j pg', s.heap[p]? = some pg ∧ pg.getXdesEntry i = .ok (j, pg') ∧ r = j.map (⟨p, ·⟩) ∧
      s' = { s with heap := s.heap.set p pg' } := by
  obtain ⟨pg, hp, h⟩ := Loop.bind_ok h
  obtain ⟨⟨j, pg'⟩, hj, h⟩ := Loop.bind_ok h
  cases h
  exact ⟨pg, j, pg', page_ok_inv hp, hj, rfl, rfl⟩

theorem stampXdes_inv {q : XdesPtr} {a : Addr} (h : s.stampXdes q a = .ok s') :
    ∃ pg pg', s.heap[q.page]? = some pg ∧ pg.stampXdes q.slot a = .ok pg' ∧
      s' = { s with heap := s.heap.set q.page pg' } := by
  obtain ⟨pg, hp, h⟩ := Loop.bind_ok h
  obtain ⟨pg', hs, h⟩ := Loop.bind_ok h
  cases h
  exact ⟨pg, pg', page_ok_inv hp, hs, rfl⟩

theorem stampInode_inv {p : PagePtr} {a : Addr} (h : s.stampInode p a = .ok s') :
    ∃ pg pg', s.heap[p]? = some pg ∧ pg.stampInode a = .ok pg' ∧
      s' = { s with heap := s.heap.set p pg' } := by
  obtain ⟨pg, hp, h⟩ := Loop.bind_ok h
  obtain ⟨pg', hs, h⟩ := Loop.bind_ok h
  cases h
  exact ⟨pg, pg', page_ok_inv hp, hs, rfl⟩

theorem Inv.getPage (I : Inv file s) {r : Option PagePtr} (h : Innodb.getPage file i s = .ok (r, s')) :
    Inv file s' ∧ HeapGrows s s' := by
  rcases getPage_cases I h with ⟨p, _, _, rfl⟩ | ⟨_, _, rfl⟩ | ⟨pg, _, hm, hi, _, C, _, rfl⟩
  · exact ⟨I, HeapGrows.refl _⟩
  · exact ⟨I, HeapGrows.refl _⟩
  · exact ⟨I.installed hm hi C, Grows.alloc Page.Evolves.refl _ _⟩

theorem Inv.step (I : Inv file s) (h : Step file s s') : Inv file s' ∧ HeapGrows s s' := by
  cases h with
  | getPage h => exact I.getPage h
  | getXdesEntry h =>
    obtain ⟨pg, j, pg', hp, hj, _, rfl⟩ := getXdesEntry_inv h
    obtain ⟨C, E⟩ := Page.getXdesEntry_spec (I.coherent pg (List.mem_of_getElem? hp)) hj
    exact I.setHeap hp C E
  | stampXdes h =>
    obtain ⟨pg, pg', hp, hj, rfl⟩ := stampXdes_inv h
    obtain ⟨C, E⟩ := Page.stampXdes_spec (I.coherent pg (List.mem_of_getElem? hp)) hj
    exact I.setHeap hp C E
  | stampInode h =>
    obtain ⟨pg, pg', hp, hj, rfl⟩ := stampInode_inv h
    obtain ⟨C, E⟩ := Page.stampInode_spec (I.coherent pg (List.mem_of_getElem? hp)) hj
    exact I.setHeap hp C E

theorem Inv.steps (I : Inv file s) (h : Steps file s s') : Inv file s' ∧ HeapGrows s s' := by
  induction h with
  | refl => exact ⟨I, HeapGrows.refl _⟩
  | tail _ hs ih =>
    obtain ⟨I', G'⟩ := ih.1.step hs
    exact ⟨I', ih.2.trans G'⟩

theorem Reachable.inv (h : Reachable file s) : Inv file s := ((Inv.new file).steps h).1

theorem Reachable.steps (h : Reachable file s) (h' : Steps file s s') : Reachable file s' := h.trans h'

/-! ## `get_page` by the file alone -/

theorem getPage_ok (I : Inv file s) {buf : PageBuf} (hi : image file i = some buf)
    (ht : pageTypeOf buf ∈ constructedTypes) (hm : i ≠ 0xFFFFFFFF) :
    ∃ p s' pg, getPage file i s = .ok (some p, s') ∧ s'.heap[p]? = some pg ∧ pg.buf = buf ∧ pg.Coherent := by
  by_cases hc : Missed s i
  · obtain ⟨pg, _, hbuf, C, hg⟩ := getPage_missed_ok hc hi ht hm
    exact ⟨_, _, pg, hg, alloc_getElem? _ _, hbuf, C⟩
  · simp only [Missed, ne_eq, Classical.not_forall, Decidable.not_not] at hc
    obtain ⟨p, hp⟩ := hc
    obtain ⟨pg, hpg, himg⟩ := I.slots i p hp
    refine ⟨p, s, pg, getPage_hit hp, hpg, ?_, I.coherent pg (List.mem_of_getElem? hpg)⟩
    rw [hi] at himg; exact (Option.some.inj himg).symm

theorem getPage_null (I : Inv file s) (hf : file = none) (i : UInt32) : getPage file i s = .ok (none, s) :=
  getPage_missed_none (I.missed_none hf i) hf (I.closed hf)

theorem getPage_image (I : Inv file s) {p : PagePtr} (h : getPage file i s = .ok (some p, s')) :
    i ≠ 0xFFFFFFFF ∧ ∃ pg, s'.heap[p]? = some pg ∧ image file i = some pg.buf ∧ pg.Coherent := by
  rcases getPage_cases I h with ⟨q, hq, hr, rfl⟩ | ⟨_, hr, _⟩ | ⟨pg, _, hm, hi, _, C, hr, rfl⟩
  · cases hr
    obtain ⟨pg, hp, hi⟩ := I.slots i p hq
    refine ⟨?_, pg, hp, hi, I.coherent pg (List.mem_of_getElem? hp)⟩
    rintro rfl; exact I.missed_max p hq
  · cases hr
  · cases hr
    exact ⟨hm, pg, alloc_getElem? _ _, hi, C⟩

theorem getPage_fault (I : Inv file s) {buf : PageBuf} (hi : image file i = some buf)
    (h : pageTypeOf buf ∉ constructedTypes ∨ i = 0xFFFFFFFF) : ∃ e, getPage file i s = .error e := by
  cases hg : getPage file i s with
  | error e => exact ⟨e, rfl⟩
  | ok r =>
    exfalso
    obtain ⟨r, s'⟩ := r
    cases r with
    | none =>
      rcases getPage_cases I hg with ⟨p, _, hr, _⟩ | ⟨hf, _, _⟩ | ⟨pg, _, _, _, _, _, hr, _⟩
      · cases hr
      · rw [image_none hf] at hi; cases hi
      · cases hr
    | some p =>
      obtain ⟨hm, pg, _, himg, C⟩ := getPage_image I hg
      rw [hi] at himg; cases himg
      exact h.elim (fun h => h C.constructed) hm

end

end Innodb
