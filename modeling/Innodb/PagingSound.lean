import Innodb.CacheSound
import Innodb.Truncating

/-!
# The pages in memory

The vector of pages is a cache that is cut off behind every page read, and the
page objects made are its loads: none is deleted, so they are what a reader
holds in memory.
-/

namespace Innodb
open Truncating

def FileSpaceReader.cached (s : FileSpaceReader) : Finset Nat :=
  (Finset.range s.pages.length).filter fun i => (s.pages[i]?.bind id).isSome

def FileSpaceReader.buffers (s : FileSpaceReader) : List PageBuf := s.heap.map (·.buf)

/-- A run, with the indices that pages were asked for by. -/
inductive Trace (file : Option File) : FileSpaceReader → List UInt32 → FileSpaceReader → Prop
  | nil {s} : Trace file s [] s
  | getPage {i s r s₁ l s₂} : Innodb.getPage file i s = .ok (r, s₁) → Trace file s₁ l s₂ → Trace file s (i :: l) s₂
  | getXdesEntry {p i s r s₁ l s₂} : s.getXdesEntry p i = .ok (r, s₁) → Trace file s₁ l s₂ → Trace file s l s₂
  | stampXdes {q a s s₁ l s₂} : s.stampXdes q a = .ok s₁ → Trace file s₁ l s₂ → Trace file s l s₂
  | stampInode {p a s s₁ l s₂} : s.stampInode p a = .ok s₁ → Trace file s₁ l s₂ → Trace file s l s₂

def indices (l : List UInt32) : List Nat := l.map UInt32.toNat

section
variable {f : File} {s s' : FileSpaceReader} {i : UInt32}

theorem mem_cached {j : Nat} : j ∈ s.cached ↔ ∃ p, s.pages[j]? = some (some p) := by
  rw [FileSpaceReader.cached, Finset.mem_filter, Finset.mem_range]
  refine ⟨fun h => ?_, fun h => ?_⟩
  · obtain ⟨p, hp⟩ := Option.isSome_iff_exists.mp h.2
    obtain ⟨r, hr, rfl⟩ := Option.bind_eq_some_iff.mp hp
    exact ⟨p, hr⟩
  · obtain ⟨p, hp⟩ := h
    exact ⟨(List.getElem?_eq_some_iff.mp hp).1, by rw [hp]; rfl⟩

theorem cached_installed (pg : Page) (hm : i.toNat ∉ s.cached) : (installed i pg s).cached = touch s.cached i.toNat := by
  ext j
  have hget : (installed i pg s).pages[j]? = if i.toNat = j then some (some s.heap.length)
      else if j < i.toNat + 1 then some (s.pages[j]?.getD none) else none := by
    simp only [installed, List.getElem?_set, Store.resize_length, Store.resize_getElem?, Nat.lt_succ_self, if_true]
  rw [mem_touch_miss hm, mem_cached, mem_cached, hget]
  by_cases hij : i.toNat = j
  · rw [if_pos hij]
    exact iff_of_true ⟨_, rfl⟩ (.inl hij.symm)
  · rw [if_neg hij]
    by_cases hlt : j < i.toNat
    · rw [if_pos (by omega)]
      cases s.pages[j]? <;> simp [hlt, Ne.symm hij]
    · rw [if_neg (by omega)]
      simp [hlt, Ne.symm hij]

/-- What is read for page `i`: the offset wraps after 2^18 pages. -/
def bufferAt (f : File) (i : Nat) : PageBuf := f.block (i % 262144 * pageSize)

theorem image_bufferAt (f : File) (i : UInt32) : image (some f) i = some (bufferAt f i.toNat) := by
  unfold image bufferAt
  rw [Option.map_some, offset_toNat]

theorem getPage_touch (hs : Reachable (some f) s) {r : Option PagePtr} (h : getPage (some f) i s = .ok (r, s')) :
    s'.cached = touch s.cached i.toNat ∧
      s'.buffers = s.buffers ++ (loads s.cached [i.toNat]).map (bufferAt f) := by
  rcases getPage_cases hs.inv h with ⟨p, hp, -, rfl⟩ | ⟨hf, -, -⟩ | ⟨pg, hmiss, -, himg, -, -, -, rfl⟩
  · have hin : i.toNat ∈ s'.cached := mem_cached.mpr ⟨p, hp⟩
    rw [touch_hit hin, loads_hit hin]
    exact ⟨rfl, (List.append_nil _).symm⟩
  · cases hf
  · have hnot : i.toNat ∉ s.cached := fun hin => (mem_cached.mp hin).elim hmiss
    have hbuffers : (installed i pg s).buffers = s.buffers ++ [pg.buf] := List.map_append
    rw [image_bufferAt] at himg
    refine ⟨cached_installed pg hnot, ?_⟩
    rw [hbuffers, loads_miss hnot, ← Option.some.inj himg]; rfl

theorem HeapGrows.buffers (h : HeapGrows s s') (hlen : s'.heap.length = s.heap.length) : s'.buffers = s.buffers := by
  refine List.ext_getElem? fun i => ?_
  unfold FileSpaceReader.buffers
  rw [List.getElem?_map, List.getElem?_map]
  cases hp : s.heap[i]? with
  | none =>
    rw [List.getElem?_eq_none (hlen ▸ List.getElem?_eq_none_iff.mp hp)]
  | some pg =>
    obtain ⟨pg', hp', E⟩ := h i pg hp
    rw [hp', Option.map_some, Option.map_some, E.buf]

/-- Nothing else touches the cache or makes an object. -/
theorem object_untouched (hs : Reachable (some f) s) (hstep : Step (some f) s s') {p : PagePtr} {pg : Page}
    (h : s' = { s with heap := s.heap.set p pg }) : s'.cached = s.cached ∧ s'.buffers = s.buffers := by
  refine ⟨by rw [h]; rfl, (hs.inv.step hstep).2.buffers ?_⟩
  rw [h, List.length_set]

theorem trace_contents {l : List UInt32} (hs : Reachable (some f) s) (h : Trace (some f) s l s') :
    s'.cached = contents s.cached (indices l) ∧
      s'.buffers = s.buffers ++ (loads s.cached (indices l)).map (bufferAt f) := by
  induction h with
  | nil => exact ⟨rfl, (List.append_nil _).symm⟩
  | @getPage i s r s₁ l s₂ h _ ih =>
    obtain ⟨hcached, hbuffers⟩ := getPage_touch hs h
    obtain ⟨hcached', hbuffers'⟩ := ih (hs.steps (.single (.getPage h)))
    have hsplit : indices (i :: l) = [i.toNat] ++ indices l := rfl
    rw [hcached', hbuffers', hbuffers, hcached, hsplit, contents_append, loads_append, List.map_append, List.append_assoc]
    exact ⟨rfl, rfl⟩
  | getXdesEntry h _ ih =>
    obtain ⟨hcached, hbuffers⟩ := ih (hs.steps (.single (.getXdesEntry h)))
    obtain ⟨_, _, _, _, _, _, hs'⟩ := getXdesEntry_inv h
    obtain ⟨hc, hb⟩ := object_untouched hs (.getXdesEntry h) hs'
    rw [hcached, hbuffers, hc, hb]
    exact ⟨rfl, rfl⟩
  | stampXdes h _ ih =>
    obtain ⟨hcached, hbuffers⟩ := ih (hs.steps (.single (.stampXdes h)))
    obtain ⟨_, _, _, _, hs'⟩ := stampXdes_inv h
    obtain ⟨hc, hb⟩ := object_untouched hs (.stampXdes h) hs'
    rw [hcached, hbuffers, hc, hb]
    exact ⟨rfl, rfl⟩
  | stampInode h _ ih =>
    obtain ⟨hcached, hbuffers⟩ := ih (hs.steps (.single (.stampInode h)))
    obtain ⟨_, _, _, _, hs'⟩ := stampInode_inv h
    obtain ⟨hc, hb⟩ := object_untouched hs (.stampInode h) hs'
    rw [hcached, hbuffers, hc, hb]
    exact ⟨rfl, rfl⟩

/-- **What a reader holds** of an existing file after any run: for each load a
buffer, for ever, with the bytes at the page's number modulo 2^18; and in its
vector the pages that no page before them was loaded after. -/
theorem trace_holds {l : List UInt32} (h : Trace (some f) .new l s) :
    s.buffers = (loads ∅ (indices l)).map (bufferAt f) ∧
      ∀ i, (∃ p, s.pages[i]? = some (some p)) ↔
        ∃ l₁ l₂, loads ∅ (indices l) = l₁ ++ i :: l₂ ∧ ∀ k ∈ l₂, i < k := by
  obtain ⟨hcached, hbuffers⟩ := trace_contents .refl h
  refine ⟨hbuffers, fun i => ?_⟩
  -- nothing was cached before the run
  rw [← mem_cached, hcached, mem_contents_iff]
  exact ⟨fun hx => hx.resolve_left fun hi => absurd hi.1 (Finset.notMem_empty _), .inr⟩

end

/-! ## Going through a file -/

section
variable {f : File}

def getPages (file : Option File) (l : List UInt32) (s : FileSpaceReader) : Except Fault FileSpaceReader :=
  l.foldlM (fun s i => do .ok (← getPage file i s).2) s

theorem getPages_trace {file : Option File} : ∀ {l : List UInt32} {s s' : FileSpaceReader},
    getPages file l s = .ok s' → Trace file s l s'
  | [], _, _, h => by cases h; exact .nil
  | i :: l, s, s', h => by
    rw [getPages, List.foldlM_cons] at h
    obtain ⟨s₁, h₁, h⟩ := Loop.bind_ok h
    obtain ⟨⟨r, s₁⟩, hr, h₁⟩ := Loop.bind_ok h₁
    cases h₁
    exact .getPage hr (getPages_trace h)

theorem getPages_ok : ∀ {l : List UInt32} {s : FileSpaceReader}, Reachable (some f) s →
    (∀ i ∈ l, i ≠ 0xFFFFFFFF ∧ pageTypeOf (bufferAt f i.toNat) ∈ constructedTypes) →
    ∃ s', getPages (some f) l s = .ok s'
  | [], s, _, _ => ⟨s, rfl⟩
  | i :: l, s, hs, hl => by
    obtain ⟨⟨hmax, ht⟩, hl⟩ := List.forall_mem_cons.mp hl
    obtain ⟨p, s₁, _, hget, -, -, -⟩ := getPage_ok hs.inv (image_bufferAt f i) ht hmax
    obtain ⟨s', hs'⟩ := getPages_ok (hs.steps (.single (.getPage hget))) hl
    refine ⟨s', ?_⟩
    rw [getPages, List.foldlM_cons, hget]
    exact hs'

/-- Page 5 is loaded again after page 3. -/
theorem trace_holds_again : ∃ s, Trace (some sixPageFile) .new [5, 3, 5] s ∧
    s.buffers = [5, 3, 5].map (bufferAt sixPageFile) ∧ ∃ p, s.pages[3]? = some (some p) := by
  obtain ⟨s, hs⟩ := getPages_ok (f := sixPageFile) (l := [5, 3, 5]) .refl <| by
    simp only [List.mem_cons, List.not_mem_nil, or_false, forall_eq_or_imp, forall_eq]
    decide
  have htrace := getPages_trace hs
  obtain ⟨hbuffers, hcached⟩ := trace_holds htrace
  exact ⟨s, htrace, hbuffers, (hcached 3).mpr ⟨[5], [5], rfl, by decide⟩⟩

def passes (k : Nat) (l : List Nat) : List UInt32 := (List.replicate k l).flatten.map UInt32.ofNat

theorem getPages_passes {n : Nat} (hn : n < 4294967296)
    (ht : ∀ i < n, pageTypeOf (bufferAt f i) ∈ constructedTypes) (k : Nat) {l : List Nat} (hl : ∀ i ∈ l, i < n) :
    ∃ s, getPages (some f) (passes k l) .new = .ok s ∧ s.heap.length = (loads ∅ (List.replicate k l).flatten).length := by
  have hmem : ∀ i ∈ (List.replicate k l).flatten, i < n := by
    intro i hi
    obtain ⟨l', hl', hi⟩ := List.mem_flatten.mp hi
    rw [List.eq_of_mem_replicate hl'] at hi
    exact hl i hi
  have hnat : ∀ i ∈ (List.replicate k l).flatten, (UInt32.ofNat i).toNat = i := by
    intro i hi
    rw [UInt32.toNat_ofNat']
    exact Nat.mod_eq_of_lt (by have := hmem i hi; omega)
  have hindices : indices (passes k l) = (List.replicate k l).flatten := by
    rw [indices, passes, List.map_map]
    exact (List.map_congr_left hnat).trans (List.map_id' _)
  obtain ⟨s, hs⟩ := getPages_ok (f := f) (l := passes k l) .refl fun i hi => by
    obtain ⟨j, hj, rfl⟩ := List.mem_map.mp hi
    have hj' := hmem j hj
    refine ⟨fun hmax => ?_, by rw [hnat j hj]; exact ht j hj'⟩
    have hlast : (0xFFFFFFFF : UInt32).toNat = j := by rw [← hmax, hnat j hj]
    simp only [UInt32.reduceToNat] at hlast
    omega
  obtain ⟨-, hbuffers⟩ := trace_contents .refl (getPages_trace hs)
  rw [hindices] at hbuffers
  have hlen := congrArg List.length hbuffers
  refine ⟨s, hs, ?_⟩
  simpa [FileSpaceReader.buffers, FileSpaceReader.new, FileSpaceReader.cached] using hlen

/-- **Going through the pages** from 0 to `n - 1`, where what is read for each
has a class. Upwards it makes `n` page objects, however often it is done.
Downwards the `j`-th time makes all of them but the first `j` again. -/
theorem getPages_sweeps {n : Nat} (hn : n < 4294967296) (ht : ∀ i < n, pageTypeOf (bufferAt f i) ∈ constructedTypes)
    (k : Nat) :
    (∃ s, getPages (some f) (passes (k + 1) (List.range n)) .new = .ok s ∧ s.heap.length = n) ∧
    (∃ s, getPages (some f) (passes k (List.range n).reverse) .new = .ok s ∧
      s.heap.length = ∑ j ∈ Finset.range k, (n - j)) := by
  constructor
  · obtain ⟨s, hs, hlen⟩ := getPages_passes hn ht (k + 1) fun i hi => List.mem_range.mp hi
    exact ⟨s, hs, hlen.trans (sweeps_up n k)⟩
  · obtain ⟨s, hs, hlen⟩ := getPages_passes hn ht k fun i hi => List.mem_range.mp (List.mem_reverse.mp hi)
    exact ⟨s, hs, hlen.trans (sweeps_down n k).1⟩

end

theorem getPages_sweeps_three :
    (∃ s, getPages (some sixPageFile) (passes 4 (List.range 6)) .new = .ok s ∧ s.heap.length = 6) ∧
    (∃ s, getPages (some sixPageFile) (passes 3 (List.range 6).reverse) .new = .ok s ∧ s.heap.length = 15) :=
  getPages_sweeps (f := sixPageFile) (n := 6) (by decide) (by decide) 3

end Innodb
