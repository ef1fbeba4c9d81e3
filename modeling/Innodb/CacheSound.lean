import Innodb.ReaderSound

/-!
# What `get_page` returns, and what it forgets

Three defects of `get_page` are delimited here. The file offset is a 32-bit
product, so a page from index 2^18 on is read from 4 GiB or more before its
place. A miss resizes the vector to just past the index, so a miss in a hole
drops every page cached behind it. And the number of bytes read is only
compared with 0, so a short read is no error.
-/

namespace Innodb
open Store

def File.pageAt (f : File) (i : Nat) : PageBuf := fun k => f.get (i * pageSize + k)

/-! ## The bytes of a page -/

theorem offset_toNat (i : UInt32) :
    (i * UInt32.ofNat pageSize).toNat = i.toNat % 262144 * pageSize := by
  simp only [UInt32.toNat_mul, UInt32.toNat_ofNat', pageSize, Nat.reducePow, Nat.reduceMod]
  omega

theorem block_eq_pageAt {f : File} {i j : Nat} (hj : j ≤ i) (hi : (i + 1) * pageSize ≤ f.size) :
    f.block (j * pageSize) = f.pageAt j := by
  funext k
  have hk := k.isLt
  unfold File.block File.pageAt File.at
  rw [if_pos (by simp only [pageSize] at *; omega)]

theorem image_eq_pageAt {f : File} {i : UInt32} (hi : (i.toNat + 1) * pageSize ≤ f.size) :
    image (some f) i = some (f.pageAt (i.toNat % 262144)) := by
  unfold image
  rw [Option.map_some, offset_toNat, block_eq_pageAt (Nat.mod_le _ _) hi]

/-- The page read for `i` has the bytes stored at `i`: its offset fits in 32
bits, or the page at the wrapped offset happens to be the same. -/
def ReadsOwnPage (f : File) (i : UInt32) : Prop :=
  i.toNat < 262144 ∨ i ≠ 0xFFFFFFFF ∧ f.pageAt (i.toNat % 262144) = f.pageAt i.toNat

theorem ReadsOwnPage.getPage {f : File} {s : FileSpaceReader} (I : Inv (some f) s) {i : UInt32} (h : ReadsOwnPage f i)
    (hi : (i.toNat + 1) * pageSize ≤ f.size) (ht : pageTypeOf (f.pageAt i.toNat) ∈ constructedTypes) :
    ∃ p s' pg, Innodb.getPage (some f) i s = .ok (some p, s') ∧ s'.heap[p]? = some pg ∧
      pg.buf = f.pageAt i.toNat ∧ pg.Parsed := by
  have hm : i ≠ 0xFFFFFFFF := by
    rcases h with h | h
    · intro e; rw [e] at h; exact absurd h (by decide)
    · exact h.1
  have hb : f.pageAt (i.toNat % 262144) = f.pageAt i.toNat := by
    rcases h with h | h
    · rw [Nat.mod_eq_of_lt h]
    · exact h.2
  obtain ⟨p, s', pg, hg, hp, hpg, C⟩ := getPage_ok I (image_eq_pageAt hi) (by rwa [hb]) hm
  exact ⟨p, s', pg, hg, hp, by rw [hpg, hb], C.parsed⟩

/-- **What is read.** In every reachable state, for a page that is in the file
and has a constructed type. -/
theorem getPage_own_bytes_iff (f : File) {s : FileSpaceReader} (hs : Reachable (some f) s) {i : UInt32}
    (hi : (i.toNat + 1) * pageSize ≤ f.size) (ht : pageTypeOf (f.pageAt i.toNat) ∈ constructedTypes) :
    (∃ p s' pg, getPage (some f) i s = .ok (some p, s') ∧ s'.heap[p]? = some pg ∧
        pg.buf = f.pageAt i.toNat ∧ pg.Parsed) ↔ ReadsOwnPage f i := by
  have hbuf := image_eq_pageAt hi
  refine ⟨fun hx => ?_, ?_⟩
  · obtain ⟨p, s', pg, hg, hp, hpg, _⟩ := hx
    refine Classical.or_iff_not_imp_left.mpr fun _ => ?_
    obtain ⟨I', _⟩ := hs.inv.getPage hg
    by_cases hm : i = 0xFFFFFFFF
    · obtain ⟨e, he⟩ := getPage_fault hs.inv hbuf (.inr hm)
      rw [he] at hg; cases hg
    by_cases hc : pageTypeOf (f.pageAt (i.toNat % 262144)) ∈ constructedTypes
    · obtain ⟨p', s'', pg', hg', hp', hb', _⟩ := getPage_ok hs.inv hbuf hc hm
      rw [hg] at hg'; cases hg'
      rw [hp] at hp'; cases hp'
      exact ⟨hm, hb'.symm.trans hpg⟩
    · obtain ⟨e, he⟩ := getPage_fault hs.inv hbuf (.inl hc)
      rw [he] at hg; cases hg
  · exact fun h => h.getPage hs.inv hi ht

def onePageFile : File := ⟨16384, sparse [(25, 8)]⟩

theorem getPage_own_bytes_first : ∃ p s' pg, getPage (some onePageFile) 0 FileSpaceReader.new = .ok (some p, s') ∧
    s'.heap[p]? = some pg ∧ pg.buf = onePageFile.pageAt 0 ∧ pg.Parsed :=
  (getPage_own_bytes_iff onePageFile .refl (by decide) (by decide)).mpr (.inl (by decide))

def bigFile : File := ⟨4294983680, sparse [(25, 8), (4294967320, 0x45), (4294967321, 0xBF)]⟩

/-- Page 262144 of that file is in it and is an index page, but page 0 is
what the reader returns. -/
theorem getPage_wraps : (262144 + 1) * pageSize ≤ bigFile.size ∧
    pageTypeOf (bigFile.pageAt 262144) = filPageIndex ∧
    ¬ ∃ p s' pg, getPage (some bigFile) 262144 FileSpaceReader.new = .ok (some p, s') ∧ s'.heap[p]? = some pg ∧
      pg.buf = bigFile.pageAt 262144 ∧ pg.Parsed := by
  refine ⟨by decide, by decide, ?_⟩
  intro hx
  obtain ⟨p, s', pg, hg, hp, hbuf, _⟩ := hx
  have hi : image (some bigFile) 262144 = some (bigFile.pageAt 0) := image_eq_pageAt (i := 262144) (by decide)
  obtain ⟨p', s'', pg', hg', hp', hbuf', _⟩ := getPage_ok (Inv.new _) hi (by decide) (by decide)
  rw [hg] at hg'; cases hg'
  rw [hp] at hp'; cases hp'
  have h25 := congrFun (hbuf.symm.trans hbuf') ⟨25, by decide⟩
  exact absurd h25 (by decide)

/-! ## Short reads -/

/-- The read for index `i` delivers all bytes of page `i`: it starts where the
page does and stops where it ends. -/
def WholeRead (f : File) (i : UInt32) : Prop :=
  (i * UInt32.ofNat pageSize).toNat = i.toNat * pageSize ∧
    (readsome f (i * UInt32.ofNat pageSize).toNat (fun _ => 0) pageSize).1 = pageSize

theorem wholeRead_iff (f : File) (i : UInt32) :
    WholeRead f i ↔ i.toNat < 262144 ∧ (i.toNat + 1) * pageSize ≤ f.size := by
  unfold WholeRead readsome
  rw [offset_toNat]
  simp only [pageSize]; omega

/-- How a request for `i` is to end: with a page if all its bytes were read,
else with null and the vector as it was. -/
structure ShortReadRefused (file : Option File) (s : FileSpaceReader) (i : UInt32) : Prop where
  whole : ∀ p s', getPage file i s = .ok (some p, s') → ∃ f, file = some f ∧ WholeRead f i
  refused : (¬ ∃ f, file = some f ∧ WholeRead f i) → ∃ s', getPage file i s = .ok (none, s') ∧ s'.pages = s.pages

/-- **Short reads** are refused exactly where there are none: the file cannot
be read at all, or all of the page is read. -/
theorem getPage_whole_iff {file : Option File} {s : FileSpaceReader} (hs : Reachable file s) {i : UInt32}
    (hm : Missed s i) : ShortReadRefused file s i ↔
      file = none ∨ ∃ f, file = some f ∧ i.toNat < 262144 ∧ (i.toNat + 1) * pageSize ≤ f.size := by
  refine ⟨fun h => ?_, ?_⟩
  · refine Classical.or_iff_not_imp_left.mpr fun hf => ?_
    have hwhole : ∃ f, file = some f ∧ WholeRead f i := by
      refine Classical.byContradiction fun hn => ?_
      obtain ⟨s', hg, _⟩ := h.refused hn
      rcases getPage_cases hs.inv hg with ⟨p, _, hr, _⟩ | ⟨hf', _, _⟩ | ⟨pg, _, _, _, _, _, hr, _⟩
      · cases hr
      · exact hf hf'
      · cases hr
    obtain ⟨f, hff, hw⟩ := hwhole
    exact ⟨f, hff, (wholeRead_iff f i).mp hw⟩
  · rintro (hf | ⟨f, hf, hw⟩)
    · have hnull : getPage file i s = .ok (none, s) := getPage_missed_none hm hf (hs.inv.closed hf)
      refine ⟨fun p s' hg => ?_, fun _ => ⟨s, hnull, rfl⟩⟩
      rw [hnull] at hg; cases hg
    · have hread : ∃ f, file = some f ∧ WholeRead f i := ⟨f, hf, (wholeRead_iff f i).mpr hw⟩
      exact ⟨fun _ _ _ => hread, fun hn => absurd hread hn⟩

theorem getPage_whole_first : ShortReadRefused (some onePageFile) .new 0 :=
  (getPage_whole_iff .refl nofun).mpr (.inr ⟨_, rfl, by decide, by decide⟩)

def cutFile : File := ⟨100, sparse [(25, 8)]⟩

theorem getPage_cut : ∃ p s' pg, getPage (some cutFile) 0 .new = .ok (some p, s') ∧ s'.heap[p]? = some pg ∧
    s'.pages = [some p] ∧ ¬ ShortReadRefused (some cutFile) .new 0 := by
  have hmiss : Missed .new 0 := nofun
  have himage : image (some cutFile) 0 = some (cutFile.block 0) := rfl
  obtain ⟨pg, _, _, _, hg⟩ := getPage_missed_ok hmiss himage (by decide) (by decide)
  refine ⟨_, _, pg, hg, rfl, rfl, fun h => ?_⟩
  obtain ⟨f, hf, _, hn⟩ := h.whole _ _ hg
  cases hf
  exact absurd hn (by decide)

/-! ## The entries of the vector -/

/-- What a call for `i` that returned `p` is to do to the vector. -/
structure CacheKept (s : FileSpaceReader) (i : UInt32) (p : PagePtr) (s' : FileSpaceReader) : Prop where
  stored : s'.pages[i.toNat]? = some (some p)
  kept : ∀ (j : Nat) (q : PagePtr), j ≠ i.toNat → s.pages[j]? = some (some q) → s'.pages[j]? = some (some q)
  grown : s.pages.length ≤ s'.pages.length

/-- Index `i` is not a hole of the vector: it is past the end, or cached. -/
def NoHole (s : FileSpaceReader) (i : UInt32) : Prop :=
  s.pages.length ≤ i.toNat ∨ ∃ p, s.pages[i.toNat]? = some (some p)

theorem getPage_kept_iff {file : Option File} {s s' : FileSpaceReader} {i : UInt32} {p : PagePtr} (I : Inv file s)
    (h : getPage file i s = .ok (some p, s')) : CacheKept s i p s' ↔ NoHole s i := by
  rcases getPage_cases I h with ⟨q, hq, hr, rfl⟩ | ⟨_, hr, _⟩ | ⟨pg, hmiss, _, _, _, _, hr, rfl⟩
  · cases hr
    exact ⟨fun _ => .inr ⟨p, hq⟩, fun _ => ⟨hq, fun _ _ _ h => h, Nat.le_refl _⟩⟩
  · cases hr
  · cases hr
    refine ⟨fun K => ?_, ?_⟩
    · refine .inl (Nat.le_of_not_lt fun hlt => ?_)
      obtain ⟨n, hn⟩ := Nat.exists_eq_succ_of_ne_zero (Nat.ne_of_gt (Nat.zero_lt_of_lt hlt))
      obtain ⟨q, hq⟩ := I.last n hn
      have hne : n ≠ i.toNat := fun e => hmiss q (e ▸ hq)
      -- the last entry is behind the hole, hence gone
      have := (List.getElem?_eq_some_iff.mp (K.kept n q hne hq)).1
      simp only [installed, List.length_set, resize_length] at this
      omega
    · rintro (hle | ⟨q, hq⟩)
      · refine ⟨(installed_slot _ _ _ i _).mpr (.inl ⟨rfl, rfl⟩), fun j q hj hq => ?_, ?_⟩
        · have hlt := (List.getElem?_eq_some_iff.mp hq).1
          have hjlt := i.toNat_lt
          have hj' : (UInt32.ofNat j).toNat = j := by rw [UInt32.toNat_ofNat']; omega
          have := (installed_slot pg s i (UInt32.ofNat j) q).mpr
            (.inr ⟨fun e => hj (by rw [← e, hj']), by rw [hj']; omega, by rw [hj']; exact hq⟩)
          rwa [hj'] at this
        · simp only [installed, List.length_set, resize_length]; omega
      · exact absurd hq (hmiss q)

/-- A run of requests that each returned a page, each satisfying `ok` in the
state it was made in. -/
inductive Served (file : Option File) (ok : FileSpaceReader → UInt32 → Prop) :
    FileSpaceReader → List (UInt32 × PagePtr) → FileSpaceReader → Prop
  | nil {s} : Served file ok s [] s
  | cons {s i p s₁ l s₂} : ok s i → getPage file i s = .ok (some p, s₁) → Served file ok s₁ l s₂ →
      Served file ok s ((i, p) :: l) s₂

section
variable {file : Option File} {s s' : FileSpaceReader} {l : List (UInt32 × PagePtr)}

theorem Served.kept (h : Served file NoHole s l s') (I : Inv file s) :
    (∀ (j : UInt32) (q : PagePtr), s.pages[j.toNat]? = some (some q) → s'.pages[j.toNat]? = some (some q)) ∧
      s.pages.length ≤ s'.pages.length := by
  induction h with
  | nil => exact ⟨fun _ _ h => h, Nat.le_refl _⟩
  | @cons s i p s₁ l s₂ hok hg _ ih =>
    have K := (getPage_kept_iff I hg).mpr hok
    obtain ⟨hk, hl⟩ := ih (I.getPage hg).1
    refine ⟨fun j q hq => hk j q ?_, Nat.le_trans K.grown hl⟩
    by_cases hj : j.toNat = i.toNat
    · rw [hj] at hq ⊢
      rw [getPage_hit hq] at hg; cases hg
      exact hq
    · exact K.kept _ q hj hq

theorem Served.stored (h : Served file NoHole s l s') (I : Inv file s) {i : UInt32} {p : PagePtr}
    (hm : (i, p) ∈ l) : s'.pages[i.toNat]? = some (some p) := by
  induction h with
  | nil => cases hm
  | @cons s j q s₁ l s₂ hok hg hr ih =>
    obtain ⟨I₁, _⟩ := I.getPage hg
    rcases List.mem_cons.mp hm with e | hm
    · cases e
      exact (hr.kept I₁).1 i p ((getPage_kept_iff I hg).mpr hok).stored
    · exact ih I₁ hm

end

/-- **What is kept.** A request keeps the other entries exactly when it does
not fill a hole; in a run of such requests one index has one page object, and
the vector does not shrink. -/
theorem getPage_cache_iff (file : Option File) :
    (∀ (s s' : FileSpaceReader) (i : UInt32) (p : PagePtr), Reachable file s →
      getPage file i s = .ok (some p, s') → (CacheKept s i p s' ↔ NoHole s i)) ∧
    (∀ (s s' : FileSpaceReader) (l : List (UInt32 × PagePtr)), Reachable file s → Served file NoHole s l s' →
      (∀ i p q, (i, p) ∈ l → (i, q) ∈ l → p = q) ∧ s.pages.length ≤ s'.pages.length) := by
  refine ⟨fun s s' i p hs hg => getPage_kept_iff hs.inv hg, fun s s' l hs h => ⟨fun i p q hp hq => ?_, ?_⟩⟩
  · have e := (h.stored hs.inv hp).symm.trans (h.stored hs.inv hq)
    cases e; rfl
  · exact (h.kept hs.inv).2

def sixPageFile : File := ⟨6 * 16384, fun k => if k % 16384 = 25 then 8 else 0⟩

theorem sixPageFile_image (i : UInt32) :
    image (some sixPageFile) i = some (sixPageFile.block (i.toNat % 262144 * pageSize)) := by
  unfold image
  rw [Option.map_some, offset_toNat]

theorem sixPageFile_read {i : UInt32} {s : FileSpaceReader} (h : Missed s i) (hi : i.toNat < 6) :
    ∃ pg, getPage (some sixPageFile) i s = .ok (some s.heap.length, installed i pg s) := by
  have ht : ∀ j : Fin 6, pageTypeOf (sixPageFile.block (j.val % 262144 * pageSize)) ∈ constructedTypes := by decide
  have hm : i ≠ 0xFFFFFFFF := fun e => absurd hi (by rw [e]; decide)
  obtain ⟨pg, -, -, -, hg⟩ := getPage_missed_ok h (sixPageFile_image i) (ht ⟨i.toNat, hi⟩) hm
  exact ⟨pg, hg⟩

theorem missed_new (i : UInt32) : Missed FileSpaceReader.new i := nofun

theorem getPage_cache_twice : ∃ p s', Served (some sixPageFile) NoHole FileSpaceReader.new [(5, p), (5, p)] s' ∧
    CacheKept FileSpaceReader.new 5 p s' ∧ FileSpaceReader.new.pages.length ≤ s'.pages.length := by
  obtain ⟨pg, hg⟩ := sixPageFile_read (missed_new 5) (by decide)
  have hslot := (installed_slot pg FileSpaceReader.new _ 5 _).mpr (.inl ⟨rfl, rfl⟩)
  have hrun : Served (some sixPageFile) NoHole FileSpaceReader.new [(5, 0), (5, 0)] (installed 5 pg .new) :=
    .cons (.inl (by decide)) hg (.cons (.inr ⟨_, hslot⟩) (getPage_hit hslot) .nil)
  exact ⟨0, _, hrun, ((getPage_cache_iff _).1 _ _ 5 0 .refl hg).mpr (.inl (by decide)),
    ((getPage_cache_iff _).2 _ _ _ .refl hrun).2⟩

/-- Requests for 5, 3 and 5 again: the page of 3 goes into a hole, and 5 is
read into a second object. -/
theorem getPage_forgets : ∃ s₁ s₂ s₃, Served (some sixPageFile) (fun _ _ => True) FileSpaceReader.new
      [(5, 0), (3, 1), (5, 2)] s₃ ∧
    getPage (some sixPageFile) 5 FileSpaceReader.new = .ok (some 0, s₁) ∧
    getPage (some sixPageFile) 3 s₁ = .ok (some 1, s₂) ∧ ¬ CacheKept s₁ 3 1 s₂ := by
  obtain ⟨pg₁, h₁⟩ := sixPageFile_read (missed_new 5) (by decide)
  have m₂ : Missed (installed 5 pg₁ .new) 3 := by
    intro p hp
    rcases (installed_slot _ _ _ 3 p).mp hp with ⟨h, _⟩ | ⟨_, _, h⟩
    · exact absurd h (by decide)
    · exact missed_new 3 p h
  obtain ⟨pg₂, h₂⟩ := sixPageFile_read m₂ (by decide)
  have m₃ : Missed (installed 3 pg₂ (installed 5 pg₁ .new)) 5 := by
    intro p hp
    rcases (installed_slot _ _ _ 5 p).mp hp with ⟨h, _⟩ | ⟨_, h, _⟩
    · exact absurd h (by decide)
    · exact absurd h (by decide)
  obtain ⟨pg₃, h₃⟩ := sixPageFile_read m₃ (by decide)
  refine ⟨_, _, _, .cons trivial h₁ (.cons trivial h₂ (.cons trivial h₃ .nil)), h₁, h₂, fun K => ?_⟩
  exact m₃ 0 (K.kept 5 0 (by decide) ((installed_slot _ _ _ 5 0).mpr (.inl ⟨rfl, rfl⟩)))

end Innodb
