import Innodb.PageSound
import Innodb.Records

/-!
# Headers against the bytes they are stored in

Where a header's fields follow one another without a gap, the stored bytes and
the decoded header determine each other. The tablespace header is such a one.
The other decoders here each miss a byte or read one twice, and their theorems
say what that costs.
-/

namespace Innodb
open BigEndian

section
variable {b : Bytes} {p : Nat}

/-! ## The tablespace header -/

def Addr.encode (a : Addr) : List UInt8 := be4 a.pageNumber ++ be2 a.offset

@[simp] theorem Addr.encode_length (a : Addr) : a.encode.length = 6 := by simp [Addr.encode]

@[simp] theorem Addr.stores_encode {a : Addr} :
    Stores b p a.encode ↔ ⟨machReadFrom4 b p, machReadFrom2 b (p + 4)⟩ = a := by
  obtain ⟨page, off⟩ := a
  simp only [Addr.encode, stores_append, be4_length, stores_be4, stores_be2, Addr.mk.injEq]

def ListBaseNode.encode (l : ListBaseNode) : List UInt8 :=
  be4 l.listLength ++ (l.firstAddr.encode ++ l.lastAddr.encode)

@[simp] theorem ListBaseNode.encode_length (l : ListBaseNode) : l.encode.length = 16 := by
  simp [ListBaseNode.encode]

@[simp] theorem ListBaseNode.stores_encode {l : ListBaseNode} : Stores b p l.encode ↔ ListBaseNode.init b p = l := by
  obtain ⟨len, fp, fo, lp, lo⟩ := l
  simp only [ListBaseNode.encode, stores_append, be4_length, stores_be4, Addr.encode_length, Addr.stores_encode,
    ListBaseNode.firstAddr, ListBaseNode.lastAddr, Addr.mk.injEq, ListBaseNode.init, ListBaseNode.mk.injEq, and_assoc,
    Nat.add_assoc, Nat.reduceAdd]

namespace FspHeader

def encode (h : FspHeader) : List UInt8 :=
  be4 h.spaceId ++ (be4 h.unused ++ (be4 h.fspSize ++ (be4 h.fspFreeLimit ++ (be4 h.spaceFlags ++ (be4 h.fragNUsed ++
    (h.freeListBaseNode.encode ++ (h.freeFragListBaseNode.encode ++ (h.fullFragListBaseNode.encode ++
      (be8 h.nextUnusedSegmentId ++ (h.fullInodesListBaseNode.encode ++ h.freeInodesListBaseNode.encode))))))))))

theorem encode_length (h : FspHeader) : h.encode.length = fspHeaderSize := by
  simp [encode, fspHeaderSize, flstBaseNodeSize, filAddrSize]

theorem stores_encode {h : FspHeader} : Stores b (p + fspHeaderOffset) h.encode ↔ init b p = h := by
  obtain ⟨h0, h1, h2, h3, h4, h5, h6, h7, h8, h9, h10, h11⟩ := h
  simp only [encode, stores_append, be4_length, be8_length, stores_be4, stores_be8, ListBaseNode.encode_length,
    ListBaseNode.stores_encode, init, mk.injEq, Nat.add_assoc, Nat.reduceAdd, Nat.add_zero]

end FspHeader

end

def ListBaseNode.Raw.node (b : Bytes) (p : Nat) : ListBaseNode :=
  ⟨listLength b p, firstPageNumber b p, firstOffset b p, lastPageNumber b p, lastOffset b p⟩

namespace FspHeader
open ListBaseNode.Raw (node)

structure RawAgrees (b : Bytes) (pg : Nat) : Prop where
  spaceId : Raw.spaceId b pg = (init b pg).spaceId
  fspSize : Raw.fspSize b pg = (init b pg).fspSize
  fspFreeLimit : Raw.fspFreeLimit b pg = (init b pg).fspFreeLimit
  spaceFlags : Raw.spaceFlags b pg = (init b pg).spaceFlags
  fragNUsed : Raw.fragNUsed b pg = (init b pg).fragNUsed
  freeList : node b (Raw.listBaseNodeForFreeList pg) = (init b pg).freeListBaseNode
  freeFragList : node b (Raw.listBaseNodeForFreeFragList pg) = (init b pg).freeFragListBaseNode
  fullFragList : node b (Raw.listBaseNodeForFullFragList pg) = (init b pg).fullFragListBaseNode
  nextUnusedSegmentId : Raw.nextUnusedSegmentId b pg = (init b pg).nextUnusedSegmentId
  fullInodesList : node b (Raw.listBaseNodeForFullInodesList pg) = (init b pg).fullInodesListBaseNode
  freeInodesList : node b (Raw.listBaseNodeForFreeInodesList pg) = (init b pg).freeInodesListBaseNode

/-- **The tablespace header.** Its 112 bytes and the decoded fields determine
each other, and the accessors read the same fields. -/
theorem init_codec :
    (∀ h : FspHeader, h.encode.length = 112) ∧
    (∀ (b : Bytes) (pg : Nat) (h : FspHeader), Stores b (pg + 38) h.encode → init b pg = h) ∧
    (∀ (b b' : Bytes) (pg pg' : Nat), init b pg = init b' pg' → SameRun b b' (pg + 38) (pg' + 38) 112) ∧
    (∀ (b : Bytes) (pg : Nat), RawAgrees b pg) := by
  refine ⟨encode_length, fun b pg h => stores_encode.mp, fun b b' pg pg' h => ?_, fun b pg => ?_⟩
  · have hs : Stores b (pg + 38) (init b pg).encode := stores_encode.mpr rfl
    have hs' : Stores b' (pg' + 38) (init b pg).encode := stores_encode.mpr h.symm
    have hrun := hs.sameRun hs'
    rwa [encode_length] at hrun
  · constructor <;> rfl

theorem init_codec_sample :
    init (sparse [(41, 7), (49, 64), (65, 1), (71, 158)]) 0 =
        ⟨7, 0, 64, 0, 0, 0, ⟨1, 0, 158, 0, 0⟩, default, default, 0, default, default⟩ ∧
      SameRun (sparse [(41, 7)]) (sparse [(41, 7), (0, 1)]) 38 38 112 :=
  ⟨init_codec.2.1 _ 0 _ (by decide +kernel), init_codec.2.2.1 _ _ 0 0 (by decide +kernel)⟩

end FspHeader

/-! ## The segment headers of an index page -/

namespace FsegHeader

def encodeSegment (space : UInt32) (a : Addr) : List UInt8 := be4 space ++ a.encode

def encode (h : FsegHeader) : List UInt8 :=
  encodeSegment h.leafPageInodeSpaceId h.leafPageInodeAddr ++
    encodeSegment h.internalPageInodeSpaceId h.internalPageInodeAddr

theorem encode_length (h : FsegHeader) : h.encode.length = 20 := by
  simp [encode, encodeSegment]

section
variable {b b' : Bytes} {pg : Nat} {h : FsegHeader}

theorem init_at (b : Bytes) (pg : Nat) : init b pg =
    ⟨machReadFrom4 b (pg + 74), ⟨machReadFrom4 b (pg + 78), machReadFrom2 b (pg + 82)⟩,
      machReadFrom4 b (pg + 90), ⟨machReadFrom4 b (pg + 90), machReadFrom2 b (pg + 94)⟩⟩ := by
  unfold init
  rw [Nat.add_comm fsegHdrLeafOffset]; rfl

theorem stores_encode : Stores b (pg + 74) h.encode ↔
    (machReadFrom4 b (pg + 74) = h.leafPageInodeSpaceId ∧
      ⟨machReadFrom4 b (pg + 78), machReadFrom2 b (pg + 82)⟩ = h.leafPageInodeAddr) ∧
    (machReadFrom4 b (pg + 84) = h.internalPageInodeSpaceId ∧
      ⟨machReadFrom4 b (pg + 88), machReadFrom2 b (pg + 92)⟩ = h.internalPageInodeAddr) := by
  simp only [encode, encodeSegment, stores_append, List.length_append, be4_length, stores_be4, Addr.encode_length,
    Addr.stores_encode, Nat.add_assoc, Nat.reduceAdd]

/-- The decoder finds a segment pair that is stored exactly if the internal
header looks the same six bytes on. -/
theorem init_eq_iff (hs : Stores b (pg + 74) h.encode) :
    init b pg = h ↔ machReadFrom4 b (pg + 90) = h.internalPageInodeSpaceId ∧
      machReadFrom4 b (pg + 90) = h.internalPageInodeAddr.pageNumber ∧
      machReadFrom2 b (pg + 94) = h.internalPageInodeAddr.offset := by
  obtain ⟨hleaf, haddr⟩ := (stores_encode.mp hs).1
  obtain ⟨ls, la, is, ⟨ip, io⟩⟩ := h
  simp only [init_at, mk.injEq, hleaf, haddr, Addr.mk.injEq, true_and]

/-- The page number's low half and the offset make up the word that is read. -/
theorem read_overlap {page : UInt32} {off : UInt16} (hp : machReadFrom4 b (pg + 88) = page)
    (ho : machReadFrom2 b (pg + 92) = off) :
    (machReadFrom4 b (pg + 90)).toNat = page.toNat % 65536 * 65536 + off.toNat := by
  have hlo := beNat_lt b (pg + 90) 2
  rw [← hp, ← ho, machReadFrom4_toNat, machReadFrom4_toNat, machReadFrom2_toNat, beNat_add b (pg + 90) 2 2,
    beNat_add b (pg + 88) 2 2]
  simp only [Nat.add_assoc, Nat.reduceAdd, Nat.reducePow] at *; omega

end

/-- **The segment headers.** A stored pair is decoded right exactly if the
internal header repeats its offset in these places; and what is decoded depends
on two bytes of the infimum record behind the pair. -/
theorem init_pair_iff (b : Bytes) (pg : Nat) :
    (∀ h : FsegHeader, Stores b (pg + 74) h.encode → (init b pg = h ↔
      h.internalPageInodeSpaceId = h.internalPageInodeAddr.pageNumber ∧
      h.internalPageInodeAddr.pageNumber.toNat = h.internalPageInodeAddr.offset.toNat * 65537 ∧
      machReadFrom2 b (pg + 94) = h.internalPageInodeAddr.offset)) ∧
    (∀ b' : Bytes, SameRun b b' (pg + 74) (pg + 74) 20 →
      (init b pg = init b' pg ↔ SameRun b b' (pg + 94) (pg + 94) 2)) := by
  refine ⟨fun h hs => ?_, fun b' hrun => ?_⟩
  · rw [init_eq_iff hs]
    have haddr := (stores_encode.mp hs).2.2
    obtain ⟨_, _, is, ⟨ip, io⟩⟩ := h
    have hread := read_overlap (Addr.mk.inj haddr).1 (Addr.mk.inj haddr).2
    have hlo := io.toNat_lt
    simp only [← UInt32.toNat_inj, ← UInt16.toNat_inj, hread]
    omega
  · have h4 : ∀ k, 74 ≤ k → k + 4 ≤ 94 → machReadFrom4 b (pg + k) = machReadFrom4 b' (pg + k) := by
      intro k hk hk'
      have hsub := hrun.sub (k - 74) 4 (by omega)
      rw [Nat.add_assoc, Nat.add_sub_cancel' hk] at hsub
      exact machReadFrom4_congr hsub
    have h2 : machReadFrom2 b (pg + 82) = machReadFrom2 b' (pg + 82) := machReadFrom2_congr (hrun.sub 8 2 (by omega))
    rw [init_at, init_at, h4 74 (by omega) (by omega), h4 78 (by omega) (by omega), h4 90 (by omega) (by omega), h2]
    simp only [mk.injEq, Addr.mk.injEq, true_and]
    rw [← UInt16.toNat_inj, machReadFrom2_toNat, machReadFrom2_toNat, beNat_inj]

theorem init_pair_zero : init (sparse [(77, 5), (81, 2), (83, 242)]) 0 = ⟨5, ⟨2, 242⟩, 0, ⟨0, 0⟩⟩ ∧
    init (sparse [(81, 2)]) 0 = init (sparse [(81, 2), (96, 1)]) 0 :=
  ⟨((init_pair_iff _ 0).1 _ (by decide)).mpr (by decide), ((init_pair_iff _ 0).2 _ (by decide)).mpr (by decide)⟩

def segmentPair : FsegHeader := ⟨5, ⟨2, 242⟩, 5, ⟨2, 50⟩⟩

def segmentPage (byte95 : UInt8) : Bytes :=
  sparse [(77, 5), (81, 2), (83, 242), (87, 5), (91, 2), (93, 50), (95, byte95)]

/-- The internal space id and page number come out as 131122. -/
theorem init_pair_shifted :
    Stores (segmentPage 0) (0 + 74) segmentPair.encode ∧
    init (segmentPage 0) 0 = ⟨5, ⟨2, 242⟩, 131122, ⟨131122, 0⟩⟩ ∧ init (segmentPage 0) 0 ≠ segmentPair ∧
    SameRun (segmentPage 0) (segmentPage 1) (0 + 74) (0 + 74) 20 ∧ init (segmentPage 0) 0 ≠ init (segmentPage 1) 0 := by
  decide

end FsegHeader

/-! ## The index header -/

namespace IndexHeader

structure RawAgrees (b : Bytes) (pg : Nat) : Prop where
  pageNDirSlots : (init b pg).pageNDirSlots.toUInt16 = Raw.nOfDirSlots b pg
  heapTopPos : (init b pg).heapTopPos = Raw.heapTopPos b pg
  nOfHeapRecsOrFtFg : (init b pg).nOfHeapRecsOrFtFg = Raw.nOfHeapRecsOrFtFg b pg
  firstGarbageRecOffset : (init b pg).firstGarbageRecOffset = Raw.firstGarbageRecOffset b pg
  pgDirection : (init b pg).pgDirection = Raw.pgDirection b pg
  nOfRecs : (init b pg).nOfRecs = Raw.nOfRecs b pg
  maxTrxId : (init b pg).maxTrxId = Raw.maxTrxId b pg
  pageLevel : (init b pg).pageLevel = Raw.pageLevel b pg
  indexId : (init b pg).indexId = Raw.indexId b pg

theorem pageNDirSlots_iff (b : Bytes) (pg : Nat) :
    (init b pg).pageNDirSlots.toUInt16 = Raw.nOfDirSlots b pg ↔ b (pg + 38) = 0 ∧ b (pg + 39) = 0 := by
  have hhi := (b (pg + 38)).toNat_lt
  have hlo := (b (pg + 39)).toNat_lt
  have hread : (Raw.nOfDirSlots b pg).toNat = (b (pg + 38)).toNat * 256 + (b (pg + 39)).toNat := by
    rw [Raw.nOfDirSlots, machReadFrom2_toNat]
    simp [beNat, Nat.add_assoc]
  have hinit : (init b pg).pageNDirSlots.toUInt16.toNat = (b (pg + 38)).toNat := UInt8.toNat_toUInt16 _
  rw [← UInt16.toNat_inj, hread, hinit, ← UInt8.toNat_inj, ← UInt8.toNat_inj]
  simp only [UInt8.reduceToNat]; omega

/-- **The index header.** The parsed fields are those the accessors read, and
the directory dump goes over the parsed number of slots, exactly on pages
whose slot count is 0. -/
theorem init_agrees_iff (c : PageBuf) (p : Placement) :
    (RawAgrees (p.mem c) p.base.toNat ∧ IndexPageDirectory.dump c p =
        IndexPageDirectory.dumpSlots c p (init (p.mem c) p.base.toNat).pageNDirSlots.toUInt16.toUInt64) ↔
      c 38 = 0 ∧ c 39 = 0 := by
  have h38 : p.mem c (p.base.toNat + 38) = c 38 := p.mem_add c (by decide)
  have h39 : p.mem c (p.base.toNat + 39) = c 39 := p.mem_add c (by decide)
  have hiff := pageNDirSlots_iff (p.mem c) p.base.toNat
  rw [h38, h39] at hiff
  refine ⟨fun h => hiff.mp h.1.pageNDirSlots, fun h => ?_⟩
  have hslots := hiff.mpr h
  refine ⟨⟨hslots, rfl, rfl, rfl, rfl, rfl, rfl, rfl, rfl⟩, ?_⟩
  rw [hslots]; rfl

def twoSlotPage : PageBuf := fun k => sparse [(24, 0x45), (25, 0xBF), (39, 2)] k

theorem init_disagrees : pageTypeOf twoSlotPage = filPageIndex ∧ (init (bytes twoSlotPage) 0).pageNDirSlots = 0 ∧
    Raw.nOfDirSlots (bytes twoSlotPage) 0 = 2 ∧ ¬ RawAgrees (bytes twoSlotPage) 0 := by
  refine ⟨by decide, by decide, by decide, fun h => ?_⟩
  exact absurd h.pageNDirSlots (by decide)

end IndexHeader

/-! ## The FIL header -/

namespace FilHeader

def field (i : Fin 8) (h : FilHeader) : Nat :=
  [h.checkSum.toNat, h.pageNumberOffset.toNat, h.previousPage.toNat, h.nextPage.toNat, h.lastModPageLsn.toNat,
    h.pageType.toNat, h.flushLsn.toNat, h.spaceId.toNat].get i

def place (i : Fin 8) : Nat × Nat :=
  [(8, 4), (4, 4), (8, 4), (12, 4), (16, 8), (24, 2), (26, 8), (34, 4)].get i

theorem field_init (i : Fin 8) (b : Bytes) : field i (initFilHeader b 0) = beNat b (place i).1 (place i).2 := by
  match i with
  | 0 | 1 | 2 | 3 | 7 => exact machReadFrom4_toNat b _
  | 4 | 6 => exact machReadFrom8_toNat b _
  | 5 => exact machReadFrom2_toNat b _

theorem ext_field {h h' : FilHeader} : h = h' ↔ ∀ i, field i h = field i h' := by
  refine ⟨fun e _ => by rw [e], fun e => ?_⟩
  obtain ⟨_, _, _, _, _, _, _, _⟩ := h
  obtain ⟨_, _, _, _, _, _, _, _⟩ := h'
  rw [mk.injEq]
  exact ⟨UInt32.toNat_inj.mp (e 0), UInt32.toNat_inj.mp (e 1), UInt32.toNat_inj.mp (e 2), UInt32.toNat_inj.mp (e 3),
    UInt64.toNat_inj.mp (e 4), UInt16.toNat_inj.mp (e 5), UInt64.toNat_inj.mp (e 6), UInt32.toNat_inj.mp (e 7)⟩

theorem init_eq_iff (b b' : Bytes) : initFilHeader b 0 = initFilHeader b' 0 ↔ SameRun b b' 4 4 34 := by
  have hcover : ∀ k < 34, ∃ i, (place i).1 ≤ 4 + k ∧ 4 + k < (place i).1 + (place i).2 := by decide
  have hinside : ∀ i, 4 ≤ (place i).1 ∧ (place i).1 + (place i).2 ≤ 38 := by decide
  simp only [ext_field, field_init, beNat_inj]
  refine ⟨fun h k hk => ?_, fun h i => ?_⟩
  · obtain ⟨i, hlo, hhi⟩ := hcover k hk
    have hb := h i (4 + k - (place i).1) (by omega)
    rwa [Nat.add_sub_cancel' hlo] at hb
  · have hrun := h.sub ((place i).1 - 4) (place i).2 (by have := hinside i; omega)
    rwa [Nat.add_sub_cancel' (hinside i).1] at hrun

theorem influences_iff (k : Nat) (i : Fin 8) :
    Influences k (fun b => field i (initFilHeader b 0)) ↔ (place i).1 ≤ k ∧ k < (place i).1 + (place i).2 := by
  simp only [field_init, influences_beNat]

/-- **The FIL header.** Two buffers are told apart exactly if they differ in
one of bytes 4 to 37; and a byte is part of exactly one field unless it is one
of the first four, which are not read, or of the previous page's number, which
the checksum is read from as well. -/
theorem init_injective_iff (b b' : Bytes) :
    (initFilHeader b 0 ≠ initFilHeader b' 0 ↔ ¬ SameRun b b' 4 4 34) ∧
    (∀ k < 38, (∃! i : Fin 8, Influences k fun b => field i (initFilHeader b 0)) ↔ 4 ≤ k ∧ k < 8 ∨ 12 ≤ k) := by
  refine ⟨not_congr (init_eq_iff b b'), ?_⟩
  simp only [influences_iff, ExistsUnique]
  decide

theorem init_injective_lsn : initFilHeader (sparse [(20, 1)]) 0 ≠ initFilHeader (sparse []) 0 ∧
    ∃! i : Fin 8, Influences 20 fun b => field i (initFilHeader b 0) := by
  obtain ⟨hdiffer, hone⟩ := init_injective_iff (sparse [(20, 1)]) (sparse [])
  exact ⟨hdiffer.mpr (by decide), (hone 20 (by decide)).mpr (by decide)⟩

/-- The stored checksum does not show in the header, and the previous page's
number shows twice. -/
theorem init_not_injective :
    ¬ SameRun (sparse [(3, 1)]) (sparse []) 0 0 38 ∧ initFilHeader (sparse [(3, 1)]) 0 = initFilHeader (sparse []) 0 ∧
    Influences 8 (fun b => field 0 (initFilHeader b 0)) ∧ Influences 8 fun b => field 2 (initFilHeader b 0) :=
  ⟨by decide, by decide, (influences_iff 8 0).mpr (by decide), (influences_iff 8 2).mpr (by decide)⟩

end FilHeader

/-! ## The dictionary header of a SYS page -/

def Page.dictHeader (pg : Page) : DictHeader :=
  match pg.body with
  | .sysPage d => d
  | _ => default

namespace DictHeader

def encode (d : DictHeader) : List UInt8 :=
  be8 d.rowId ++ (be8 d.tableId ++ (be8 d.indexId ++ (be4 d.maxSpaceId ++ (be4 d.minIdLow ++ (be4 d.tables ++
    (be4 d.tableIds ++ (be4 d.columns ++ (be4 d.indexes ++ be4 d.fields))))))))

theorem encode_length (d : DictHeader) : d.encode.length = 52 := by
  simp [encode]

theorem stores_encode {b : Bytes} {pg : Nat} {d : DictHeader} : Stores b pg d.encode ↔ init b pg = d := by
  obtain ⟨d0, d1, d2, d3, d4, d5, d6, d7, d8, d9⟩ := d
  simp only [encode, stores_append, be4_length, be8_length, stores_be4, stores_be8, init, mk.injEq, Nat.add_assoc,
    Nat.reduceAdd, Nat.add_zero]

theorem init_eq_iff (b b' : Bytes) (pg pg' : Nat) : init b pg = init b' pg' ↔ SameRun b b' pg pg' 52 := by
  have hs : Stores b pg (init b pg).encode := stores_encode.mpr rfl
  refine ⟨fun h => ?_, fun h => ?_⟩
  · have hrun := hs.sameRun (stores_encode.mpr h.symm)
    rwa [encode_length] at hrun
  · rw [← encode_length (init b pg)] at h
    exact (stores_encode.mp (h.symm.stores hs)).symm

/-- **The dictionary header** is read from the start of the page, not from its
body. So two SYS pages with one body have the same exactly if their first 38
bytes are the same; and what is stored in the body is found exactly if it is
stored at the start of the page too. -/
theorem sysPage_iff (buf : PageBuf) :
    (∀ buf' : PageBuf, (∀ k, 38 ≤ k.val → buf k = buf' k) →
      (((newSysPage buf).init buf).dictHeader = ((newSysPage buf').init buf').dictHeader ↔
        ∀ k, k.val < 38 → buf k = buf' k)) ∧
    (∀ d : DictHeader, Stores (bytes buf) 38 d.encode →
      (((newSysPage buf).init buf).dictHeader = d ↔ SameRun (bytes buf) (bytes buf) 0 38 52)) := by
  have hdict : ∀ buf, ((newSysPage buf).init buf).dictHeader = init (bytes buf) 0 := fun _ => rfl
  refine ⟨fun buf' hbody => ?_, fun d hs => ?_⟩
  · rw [hdict, hdict, init_eq_iff]
    refine ⟨fun h k hk => ?_, fun h k hk => ?_⟩
    · have hb := h k (by omega)
      simpa only [bytes, Nat.zero_add, k.isLt, dite_true] using hb
    · have hlt : k < pageSize := by simp only [pageSize]; omega
      have hb : buf ⟨k, hlt⟩ = buf' ⟨k, hlt⟩ := by
        by_cases hk38 : k < 38
        · exact h ⟨k, hlt⟩ hk38
        · exact hbody ⟨k, hlt⟩ (Nat.le_of_not_lt hk38)
      simpa only [bytes, Nat.zero_add, hlt, dite_true] using hb
  · rw [hdict, ← stores_encode.mp hs, init_eq_iff]

def rowIdStored (byte3 : UInt8) : PageBuf := fun k => if k.val = 3 then byte3 else sparse [(25, 6), (45, 1)] k

theorem rowIdStored_body (x y : UInt8) (k : Fin pageSize) (hk : 38 ≤ k.val) : rowIdStored x k = rowIdStored y k := by
  have hne : k.val ≠ 3 := by omega
  rw [rowIdStored, if_neg hne, rowIdStored, if_neg hne]

def twiceStored : PageBuf := fun k => sparse [(25, 6), (63, 6)] k

theorem sysPage_twice :
    ((newSysPage (rowIdStored 0)).init (rowIdStored 0)).dictHeader ≠
      ((newSysPage (rowIdStored 1)).init (rowIdStored 1)).dictHeader ∧
    ((newSysPage twiceStored).init twiceStored).dictHeader = { (default : DictHeader) with maxSpaceId := 393216 } :=
  ⟨fun h => absurd (((sysPage_iff _).1 _ (rowIdStored_body 0 1)).mp h 3 (by decide)) (by decide),
    ((sysPage_iff _).2 _ (by decide)).mpr (by decide)⟩

/-- Two SYS pages with the row id 1 in their bodies. It is not found, and the
checksums make the difference. -/
theorem sysPage_misread :
    pageTypeOf (rowIdStored 0) = filPageTypeSys ∧ pageTypeOf (rowIdStored 1) = filPageTypeSys ∧
    (∀ k : Fin pageSize, 38 ≤ k.val → rowIdStored 0 k = rowIdStored 1 k) ∧
    ((newSysPage (rowIdStored 0)).init (rowIdStored 0)).dictHeader ≠
      ((newSysPage (rowIdStored 1)).init (rowIdStored 1)).dictHeader ∧
    Stores (bytes (rowIdStored 0)) 38 { (default : DictHeader) with rowId := 1 }.encode ∧
    ((newSysPage (rowIdStored 0)).init (rowIdStored 0)).dictHeader ≠ { (default : DictHeader) with rowId := 1 } :=
  ⟨by decide, by decide, rowIdStored_body 0 1, by decide, by decide, by decide⟩

end DictHeader

end Innodb
