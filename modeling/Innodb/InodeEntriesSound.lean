import Innodb.HeadersSound

/-!
# The entries of an inode page

The scan, the dump and the accessor each count the entries of a page in their
own way. The first two agree on where an entry is; the accessor goes by how
many there can be, not by how many the scan found.
-/

namespace Innodb
open BigEndian

/-! ## An entry and its 192 bytes -/

namespace INodeE

def encodeFrag (v : Int32) : List UInt8 := be4 v.toUInt32

theorem encodeFrag_length (v : Int32) : (encodeFrag v).length = 4 := be4_length _

def encode (e : INodeE) : List UInt8 :=
  be8 e.fsegId ++ (be4 e.nOfUsedPgsInNotFullList ++ (e.freeListBaseNode.encode ++ (e.notFullListBaseNode.encode ++
    (e.fullListBaseNode.encode ++ (be4 e.magicNumber ++ e.fragArray.flatMap encodeFrag)))))

theorem encode_length {e : INodeE} (h : e.fragArray.length = fragArraySize) : e.encode.length = 192 := by
  have hfrag : (e.fragArray.flatMap encodeFrag).length = 128 := by
    simp [List.length_flatMap, encodeFrag_length, h, fragArraySize]
  simp [encode, hfrag]

section
variable {b b' : Bytes} {p p' : Nat}

theorem stores_frags {l : List Int32} (h : l.length = fragArraySize) : Stores b p (l.flatMap encodeFrag) ↔
    (List.range fragArraySize).map (fun i => (machReadFrom4 b (p + i * 4)).toInt32) = l := by
  rw [stores_flatMap encodeFrag_length]
  simp only [encodeFrag, stores_be4]
  refine ⟨fun hs => List.ext_getElem (by simp [h]) fun k _ hk => ?_, fun hs k hk => ?_⟩
  · rw [List.getElem_map, List.getElem_range, hs k hk]; rfl
  · subst hs
    rw [List.get_eq_getElem, List.getElem_map, List.getElem_range]; rfl

theorem stores_encode {e : INodeE} (h : e.fragArray.length = fragArraySize) : Stores b p e.encode ↔ init b p = e := by
  have hoff : ∀ i, magicNumberOffset + (4 + i * 4) = 64 + i * 4 := fun i => by
    rw [← Nat.add_assoc]
  obtain ⟨e0, e1, e2, e3, e4, e5, frags⟩ := e
  simp only [encode, stores_append, be4_length, be8_length, stores_be4, stores_be8, ListBaseNode.encode_length,
    ListBaseNode.stores_encode, stores_frags h, init, mk.injEq, Nat.add_assoc, Nat.reduceAdd, hoff]

theorem init_frags (b : Bytes) (p : Nat) : (init b p).fragArray.length = fragArraySize := by
  rw [init, List.length_map, List.length_range]

theorem init_eq_iff : init b p = init b' p' ↔ SameRun b b' p p' 192 := by
  have hf := init_frags b p
  have hs : Stores b p (init b p).encode := (stores_encode hf).mpr rfl
  refine ⟨fun h => ?_, fun h => ?_⟩
  · have hrun := hs.sameRun ((stores_encode hf).mpr h.symm)
    rwa [encode_length hf] at hrun
  · rw [← encode_length hf] at h
    exact ((stores_encode hf).mp (h.symm.stores hs)).symm

end

end INodeE

/-! ## What the scan finds -/

theorem takeWhile_getElem? {α : Type} (p : α → Bool) : ∀ (l : List α) (i : Nat) (a : α),
    (l.takeWhile p)[i]? = some a ↔ l[i]? = some a ∧ ∀ k ≤ i, ∀ x, l[k]? = some x → p x = true
  | [], i, a => by simp
  | y :: l, i, a => by
    by_cases hy : p y = true
    · rw [List.takeWhile_cons_of_pos hy]
      cases i with
      | zero =>
        refine iff_self_and.mpr fun _ k hk x hx => ?_
        obtain rfl : k = 0 := Nat.le_zero.mp hk
        cases hx; exact hy
      | succ i =>
        rw [List.getElem?_cons_succ, List.getElem?_cons_succ, takeWhile_getElem? p l i a]
        refine and_congr_right fun _ => ⟨fun h k hk x hx => ?_, fun h k hk x hx => ?_⟩
        · cases k with
          | zero => cases hx; exact hy
          | succ k => exact h k (Nat.le_of_succ_le_succ hk) x hx
        · exact h (k + 1) (Nat.succ_le_succ hk) x hx
    · rw [List.takeWhile_cons_of_neg hy]
      refine iff_of_false (by simp) fun h => hy (h.2 0 (Nat.zero_le i) y rfl)

section
variable (buf : PageBuf)

def scannedPage : Page := (newINodePage buf).init buf

def slotEntry (k : Nat) : INodeE := INodeE.init (bytes buf) (50 + 192 * k)

theorem slots_getElem? (k : Nat) :
    (inodeSlots (bytes buf) 85 50)[k]? = if k < 85 then some (slotEntry buf k) else none := by
  by_cases hk : k < 85
  · rw [inodeSlots, List.getElem?_map, List.getElem?_range hk, if_pos hk]; rfl
  · rw [inodeSlots, List.getElem?_map, List.getElem?_eq_none (by rw [List.length_range]; omega), if_neg hk]; rfl

theorem inodeArr_getElem? (k : Nat) (e : INodeE) : (scannedPage buf).inodeArr[k]? = some e ↔
    k < 85 ∧ slotEntry buf k = e ∧ ∀ j ≤ k, (slotEntry buf j).isValidInodeEntry = true := by
  have harr : (scannedPage buf).inodeArr = (inodeSlots (bytes buf) 85 50).takeWhile INodeE.isValidInodeEntry :=
    initInodeEntries_eq (bytes buf) 85 50
  rw [harr, takeWhile_getElem?, slots_getElem?]
  by_cases hk : k < 85
  · rw [if_pos hk, Option.some.injEq, and_iff_right hk]
    refine and_congr_right fun _ => forall₂_congr fun j hj => ?_
    rw [slots_getElem?, if_pos (Nat.lt_of_le_of_lt hj hk)]
    refine ⟨fun h => h _ rfl, fun h x hx => ?_⟩
    cases hx; exact h
  · rw [if_neg hk]
    exact iff_of_false (fun h => nomatch h.1) fun h => hk h.1

/-! ## Positions -/

theorem inodeArr_congr {buf' : PageBuf} (h : ∀ k, k.val < pageSize - FilHeader.filPageDataEnd → buf k = buf' k) :
    (scannedPage buf).inodeArr = (scannedPage buf').inodeArr := by
  have hslot : ∀ k < 85, slotEntry buf k = slotEntry buf' k := by
    intro k hk
    refine INodeE.init_eq_iff.mpr fun j hj => ?_
    have hlt : 50 + 192 * k + j < pageSize := by simp only [pageSize]; omega
    simp only [bytes, hlt, dite_true]
    exact h ⟨_, hlt⟩ (by simp only [pageSize, FilHeader.filPageDataEnd]; omega)
  refine List.ext_getElem? fun k => Option.ext fun e => ?_
  rw [inodeArr_getElem?, inodeArr_getElem?]
  refine and_congr_right fun hk => ?_
  rw [hslot k hk]
  refine and_congr_right fun _ => forall₂_congr fun j hj => ?_
  rw [hslot j (Nat.lt_of_le_of_lt hj hk)]

theorem dumpInodeEntries_getElem? (pg : Page) (k : Nat) : pg.dumpInodeEntries[k]? = pg.inodeArr[k]?.map fun e =>
    (e, ⟨pg.filHeader.pageNumberOffset,
      (UInt64.ofNat inodeEntryOffset + UInt64.ofNat k * UInt64.ofNat INodeE.inodeEntrySize).toUInt16⟩) := by
  rw [Page.dumpInodeEntries, List.getElem?_mapIdx]

theorem entryOffset_toNat {k : Nat} (hk : k < 85) :
    (UInt64.ofNat inodeEntryOffset + UInt64.ofNat k * UInt64.ofNat INodeE.inodeEntrySize).toUInt16.toNat =
      50 + 192 * k := by
  have hkn : (UInt64.ofNat k).toNat = k := UInt64.toNat_ofNat_of_lt' (Nat.lt_trans hk (by decide))
  have hoff : (UInt64.ofNat inodeEntryOffset).toNat = 50 := rfl
  have hsize : (UInt64.ofNat INodeE.inodeEntrySize).toNat = 192 := rfl
  rw [UInt64.toNat_toUInt16, UInt64.toNat_add, UInt64.toNat_mul, hkn, hoff, hsize]
  omega

/-- Entry `k` of a page: the bytes it is decoded from and where it is dumped. -/
structure EntryAt (k : Nat) (e : INodeE) : Prop where
  inPage : 50 + 192 * k + 192 ≤ pageSize - FilHeader.filPageDataEnd
  decoded : e = INodeE.init (bytes buf) (50 + 192 * k)
  exactly : ∀ b p, INodeE.init b p = e ↔ SameRun b (bytes buf) p (50 + 192 * k) 192
  encoded : e.encode.length = 192 ∧ Stores (bytes buf) (50 + 192 * k) e.encode
  dumped : ∃ off : UInt16, off.toNat = 50 + 192 * k ∧
    (scannedPage buf).dumpInodeEntries[k]? = some (e, ⟨machReadFrom4 (bytes buf) FilHeader.filPageOffset, off⟩)

/-- **Entries and addresses.** Each entry the scan finds is decoded from 192
bytes of its own, in front of the trailer, and is dumped with their address. -/
theorem inodeEntries_at : (∀ k e, (scannedPage buf).inodeArr[k]? = some e → EntryAt buf k e) ∧
    (scannedPage buf).dumpInodeEntries.length = (scannedPage buf).inodeArr.length ∧
    ∀ buf' : PageBuf, (∀ k, k.val < pageSize - FilHeader.filPageDataEnd → buf k = buf' k) →
      (scannedPage buf).inodeArr = (scannedPage buf').inodeArr := by
  refine ⟨fun k e he => ?_, List.length_mapIdx, fun buf' => inodeArr_congr buf⟩
  obtain ⟨hk, rfl, _⟩ := (inodeArr_getElem? buf k e).mp he
  have hfrags := INodeE.init_frags (bytes buf) (50 + 192 * k)
  refine ⟨?_, rfl, fun b p => INodeE.init_eq_iff, ⟨INodeE.encode_length hfrags, ?_⟩, _, entryOffset_toNat hk, ?_⟩
  · simp only [pageSize, FilHeader.filPageDataEnd]; omega
  · exact (INodeE.stores_encode hfrags).mpr rfl
  · rw [dumpInodeEntries_getElem?, he]; rfl

end

def twoEntryPage : PageBuf := fun k => sparse
  [(7, 2), (25, 3), (57, 9), (110, 0x05), (111, 0xD6), (112, 0x69), (113, 0xD2), (114, 0xFF), (302, 0x05), (303, 0xD6),
    (304, 0x69), (305, 0xD2)] k

theorem inodeEntries_at_one : EntryAt twoEntryPage 1 (slotEntry twoEntryPage 1) ∧
    (scannedPage twoEntryPage).inodeArr = (scannedPage fun k => if k.val < 16376 then twoEntryPage k else 1).inodeArr :=
  ⟨(inodeEntries_at twoEntryPage).1 1 _ (by decide +kernel),
    (inodeEntries_at twoEntryPage).2.2 _ fun _ hk => (if_pos hk).symm⟩

/-! ## The accessor -/

/-- **The accessor** answers with the entry of the slot, or with none, exactly
where the index is beyond the page's capacity or the scan came past the slot. -/
theorem getInodeEntry_iff (buf : PageBuf) (index : UInt32) :
    (∃ r, (scannedPage buf).getInodeEntry index = .ok r ∧ (r = none ∨ r = some (slotEntry buf index.toNat))) ↔
      85 ≤ index.toNat ∨ ∀ k ≤ index.toNat, (slotEntry buf k).isValidInodeEntry = true := by
  have hget : (scannedPage buf).getInodeEntry index = if index.toNat ≥ inodeECount then .ok none
      else (deref .outOfRange (scannedPage buf).inodeArr[index.toNat]?).map some := rfl
  rw [hget]
  by_cases hcap : index.toNat ≥ inodeECount
  · rw [if_pos hcap]
    exact iff_of_true ⟨none, rfl, .inl rfl⟩ (.inl hcap)
  · rw [if_neg hcap]
    have hscan := inodeArr_getElem? buf index.toNat (slotEntry buf index.toNat)
    rw [and_iff_right (Nat.lt_of_not_le hcap), and_iff_right rfl] at hscan
    rw [or_iff_right hcap, ← hscan]
    cases he : (scannedPage buf).inodeArr[index.toNat]? with
    | none => exact iff_of_false (fun hx => by obtain ⟨r, hr, _⟩ := hx; cases hr) nofun
    | some e =>
      obtain ⟨_, rfl, _⟩ := (inodeArr_getElem? buf index.toNat e).mp he
      exact iff_of_true ⟨_, rfl, .inr rfl⟩ rfl

def noEntryPage : PageBuf := fun k => sparse [(25, 3)] k

/-- On a page without entries slot 0 is selected all the same. -/
theorem getInodeEntry_past_end : pageTypeOf noEntryPage = filPageTypeInode ∧ (scannedPage noEntryPage).inodeArr = [] ∧
    ¬ ∃ r, (scannedPage noEntryPage).getInodeEntry 0 = .ok r ∧ (r = none ∨ r = some (slotEntry noEntryPage 0)) := by
  refine ⟨by decide, by decide, fun hx => ?_⟩
  obtain ⟨r, hr, _⟩ := hx
  cases hr

end Innodb
