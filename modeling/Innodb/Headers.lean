import Innodb.Defines

/-!
# On-disk headers (`headers.h`)

Every header is decoded from the bytes behind a pointer at fixed offsets. A
decoder that fills an object in place and leaves some members alone takes the
object as its argument. The static accessors, which read one value straight
from the bytes, are in a namespace `Raw` of their own.
-/

namespace Innodb
open BigEndian

/-! ## Page types -/

abbrev filPageTypeInode : UInt16 := 3
abbrev filPageIbufBitmap : UInt16 := 5
abbrev filPageTypeSys : UInt16 := 6
abbrev filPageTypeFspHdr : UInt16 := 8
abbrev filPageTypeSdi : UInt16 := 17853
abbrev filPageIndex : UInt16 := 17855

/-! ## Lists -/

abbrev filAddrSize : Nat := 6
abbrev flstBaseNodeSize : Nat := 4 + 2 * filAddrSize

structure ListNode where
  prevPageNumber : UInt32
  prevOffset : UInt16
  nextPageNumber : UInt32
  nextOffset : UInt16
  deriving DecidableEq, Inhabited

abbrev ListNode.listNodeSize : Nat := 4 + 2 + 4 + 2

def ListNode.init (b : Bytes) (p : Nat) : ListNode where
  prevPageNumber := machReadFrom4 b p
  prevOffset := machReadFrom2 b (p + 4)
  nextPageNumber := machReadFrom4 b (p + 6)
  nextOffset := machReadFrom2 b (p + 6 + 4)

theorem ListNode.init_congr {b b' : Bytes} {p p' : Nat} (h : SameRun b b' p p' 12) :
    ListNode.init b p = ListNode.init b' p' := by
  have h0 : SameRun b b' p p' 4 := fun k hk => h k (by omega)
  have h10 : SameRun b b' (p + 6 + 4) (p' + 6 + 4) 2 := h.sub 10 2 (by omega)
  rw [ListNode.init, ListNode.init, machReadFrom4_congr h0, machReadFrom2_congr (h.sub 4 2 (by omega)),
    machReadFrom4_congr (h.sub 6 4 (by omega)), machReadFrom2_congr h10]

structure ListBaseNode where
  listLength : UInt32
  firstPageNumber : UInt32
  firstOffset : UInt16
  lastPageNumber : UInt32
  lastOffset : UInt16
  deriving DecidableEq, Inhabited

def ListBaseNode.init (b : Bytes) (p : Nat) : ListBaseNode where
  listLength := machReadFrom4 b p
  firstPageNumber := machReadFrom4 b (p + 4)
  firstOffset := machReadFrom2 b (p + 4 + 4)
  lastPageNumber := machReadFrom4 b (p + 2 + 4 + 4)
  lastOffset := machReadFrom2 b (p + 2 + 4 + 4 + 4)

namespace ListBaseNode.Raw

def listLength (b : Bytes) (p : Nat) : UInt32 := machReadFrom4 b p
def firstPageNumber (b : Bytes) (p : Nat) : UInt32 := machReadFrom4 b (p + 4)
def firstOffset (b : Bytes) (p : Nat) : UInt16 := machReadFrom2 b (p + 4 + 4)
def lastPageNumber (b : Bytes) (p : Nat) : UInt32 := machReadFrom4 b (p + 2 + 4 + 4)
def lastOffset (b : Bytes) (p : Nat) : UInt16 := machReadFrom2 b (p + 2 + 4 + 4 + 4)

end ListBaseNode.Raw

abbrev XDesEntryList := ListBaseNode
abbrev INodeEntryList := ListBaseNode

structure Addr where
  pageNumber : UInt32
  offset : UInt16
  deriving DecidableEq, Inhabited

def Addr.valid (a : Addr) : Bool := a.pageNumber != 0xFFFFFFFF

def ListNode.nextAddr (n : ListNode) : Addr := ⟨n.nextPageNumber, n.nextOffset⟩

def ListBaseNode.firstAddr (l : ListBaseNode) : Addr := ⟨l.firstPageNumber, l.firstOffset⟩
def ListBaseNode.lastAddr (l : ListBaseNode) : Addr := ⟨l.lastPageNumber, l.lastOffset⟩

/-- `addr` is written from outside, by the accessors that hand the node out. -/
structure XDesEntryListNode extends ListNode where
  addr : Addr
  deriving DecidableEq, Inhabited

structure INodeEntryListNode extends ListNode where
  addr : Addr
  deriving DecidableEq, Inhabited

/-! ## The FIL header -/

structure FilHeader where
  checkSum : UInt32
  pageNumberOffset : UInt32
  previousPage : UInt32
  nextPage : UInt32
  lastModPageLsn : UInt64
  pageType : UInt16
  flushLsn : UInt64
  spaceId : UInt32
  deriving DecidableEq, Inhabited

namespace FilHeader

abbrev filPageSpaceOrChksum : Nat := 8
abbrev filPageOffset : Nat := 4
abbrev filPagePrev : Nat := 8
abbrev filPageNext : Nat := 12
abbrev filPageLsn : Nat := 16
abbrev filPageType : Nat := 24
abbrev filPageFileFlushLsn : Nat := 26
abbrev filPageSpaceId : Nat := 34
abbrev filPageData : Nat := 38
abbrev filPageDataEnd : Nat := 8

def initFilHeader (b : Bytes) (buf : Nat) : FilHeader where
  checkSum := machReadFrom4 b (buf + filPageSpaceOrChksum)
  pageNumberOffset := machReadFrom4 b (buf + filPageOffset)
  previousPage := machReadFrom4 b (buf + filPagePrev)
  nextPage := machReadFrom4 b (buf + filPageNext)
  lastModPageLsn := machReadFrom8 b (buf + filPageLsn)
  pageType := machReadFrom2 b (buf + filPageType)
  flushLsn := machReadFrom8 b (buf + filPageFileFlushLsn)
  spaceId := machReadFrom4 b (buf + filPageSpaceId)

end FilHeader

/-! ## The tablespace header -/

structure FspHeader where
  spaceId : UInt32
  unused : UInt32
  fspSize : UInt32
  fspFreeLimit : UInt32
  spaceFlags : UInt32
  fragNUsed : UInt32
  freeListBaseNode : XDesEntryList
  freeFragListBaseNode : XDesEntryList
  fullFragListBaseNode : XDesEntryList
  nextUnusedSegmentId : UInt64
  fullInodesListBaseNode : INodeEntryList
  freeInodesListBaseNode : INodeEntryList
  deriving DecidableEq, Inhabited

namespace FspHeader

abbrev fspSpaceId : Nat := 0
abbrev fspNotUsed : Nat := 4
abbrev fspSizeOffset : Nat := 8
abbrev fspFreeLimitOffset : Nat := 12
abbrev fspSpaceFlags : Nat := 16
abbrev fspFragNUsed : Nat := 20
abbrev fspFreeListBaseNode : Nat := 24
abbrev fspFreeFragListBaseNode : Nat := 40
abbrev fspFullFragListBaseNode : Nat := fspFreeFragListBaseNode + 16
abbrev fspNextUnusedSegmentId : Nat := fspFullFragListBaseNode + 16
abbrev fspFullInodesListBaseNode : Nat := fspNextUnusedSegmentId + 8
abbrev fspFreeInodesListBaseNode : Nat := fspFullInodesListBaseNode + 16
abbrev fspHeaderOffset : Nat := FilHeader.filPageData
abbrev fspHeaderSize : Nat := 32 + 5 * flstBaseNodeSize

def init (b : Bytes) (buf : Nat) : FspHeader where
  spaceId := machReadFrom4 b (buf + fspHeaderOffset + fspSpaceId)
  unused := machReadFrom4 b (buf + fspHeaderOffset + fspNotUsed)
  fspSize := machReadFrom4 b (buf + fspHeaderOffset + fspSizeOffset)
  fspFreeLimit := machReadFrom4 b (buf + fspHeaderOffset + fspFreeLimitOffset)
  spaceFlags := machReadFrom4 b (buf + fspHeaderOffset + fspSpaceFlags)
  fragNUsed := machReadFrom4 b (buf + fspHeaderOffset + fspFragNUsed)
  freeListBaseNode := .init b (buf + fspHeaderOffset + fspFreeListBaseNode)
  freeFragListBaseNode := .init b (buf + fspHeaderOffset + fspFreeFragListBaseNode)
  fullFragListBaseNode := .init b (buf + fspHeaderOffset + fspFullFragListBaseNode)
  nextUnusedSegmentId := machReadFrom8 b (buf + fspHeaderOffset + fspNextUnusedSegmentId)
  fullInodesListBaseNode := .init b (buf + fspHeaderOffset + fspFullInodesListBaseNode)
  freeInodesListBaseNode := .init b (buf + fspHeaderOffset + fspFreeInodesListBaseNode)

namespace Raw

def spaceId (b : Bytes) (pg : Nat) : UInt32 := machReadFrom4 b (pg + fspHeaderOffset + fspSpaceId)
def fspSize (b : Bytes) (pg : Nat) : UInt32 := machReadFrom4 b (pg + fspHeaderOffset + fspSizeOffset)
def fspFreeLimit (b : Bytes) (pg : Nat) : UInt32 := machReadFrom4 b (pg + fspHeaderOffset + fspFreeLimitOffset)
def spaceFlags (b : Bytes) (pg : Nat) : UInt32 := machReadFrom4 b (pg + fspHeaderOffset + fspSpaceFlags)
def fragNUsed (b : Bytes) (pg : Nat) : UInt32 := machReadFrom4 b (pg + fspHeaderOffset + FspHeader.fspFragNUsed)
def listBaseNodeForFreeList (pg : Nat) : Nat := pg + fspHeaderOffset + fspFreeListBaseNode
def listBaseNodeForFreeFragList (pg : Nat) : Nat := pg + fspHeaderOffset + fspFreeFragListBaseNode
def listBaseNodeForFullFragList (pg : Nat) : Nat := pg + fspHeaderOffset + fspFullFragListBaseNode
def nextUnusedSegmentId (b : Bytes) (pg : Nat) : UInt64 :=
  machReadFrom8 b (pg + fspHeaderOffset + fspNextUnusedSegmentId)
def listBaseNodeForFullInodesList (pg : Nat) : Nat := pg + fspHeaderOffset + fspFullInodesListBaseNode
def listBaseNodeForFreeInodesList (pg : Nat) : Nat := pg + fspHeaderOffset + fspFreeInodesListBaseNode

end Raw

end FspHeader

/-! ## Extent descriptors -/

structure XdesE where
  fiSegId : UInt64
  listNode : XDesEntryListNode
  state : UInt32
  pageState : Vector UInt8 16
  deriving DecidableEq

namespace XdesE

abbrev xdesESize : Nat := 40

/-- The default constructor: the segment id marks an entry not filled yet. -/
def new : XdesE where
  fiSegId := 18446744073709551615
  listNode := default
  state := 0
  pageState := Vector.replicate 16 0

def inited (e : XdesE) : Bool := e.fiSegId != 18446744073709551615

def init (e : XdesE) (b : Bytes) (buf : Nat) : XdesE where
  fiSegId := machReadFrom8 b buf
  listNode := { e.listNode with toListNode := ListNode.init b (buf + 8) }
  state := machReadFrom4 b (buf + 20)
  pageState := Vector.ofFn fun i => b (buf + 24 + i)

/-- `none` is a shift by 32 or more, the width of the `int` that is shifted.
The byte is promoted as a signed `char`. -/
def isPageFree (e : XdesE) (pageNum : UInt32) : Option Bool :=
  if h : pageNum.toNat < 64 then
    let b := e.pageState.get ⟨pageNum.toNat / 4, by omega⟩
    if (pageNum * 2).toNat < 32 then some (b.toInt8.toInt32 &&& (1 <<< (pageNum * 2).toInt32) == 0)
    else none
  else some false

theorem init_congr (e : XdesE) {b b' : Bytes} {p p' : Nat} (h : SameRun b b' p p' 40) :
    e.init b p = e.init b' p' := by
  have h0 : SameRun b b' p p' 8 := fun k hk => h k (by omega)
  have hstate : (fun i : Fin 16 => b (p + 24 + i)) = fun i : Fin 16 => b' (p' + 24 + i) := by
    funext i; exact h.sub 24 16 (by omega) i i.isLt
  rw [init, init, machReadFrom8_congr h0, ListNode.init_congr (h.sub 8 12 (by omega)),
    machReadFrom4_congr (h.sub 20 4 (by omega)), hstate]

end XdesE

/-! ## Segment inodes -/

structure INodeE where
  fsegId : UInt64
  nOfUsedPgsInNotFullList : UInt32
  freeListBaseNode : XDesEntryList
  notFullListBaseNode : XDesEntryList
  fullListBaseNode : XDesEntryList
  magicNumber : UInt32
  fragArray : List Int32
  deriving DecidableEq, Inhabited

namespace INodeE

abbrev magicNumberOffset : Nat := 60
abbrev inodeEntrySize : Nat := 192
abbrev magic : UInt32 := 97937874
abbrev fragArraySize : Nat := 32

def init (b : Bytes) (buf : Nat) : INodeE where
  fsegId := machReadFrom8 b buf
  nOfUsedPgsInNotFullList := machReadFrom4 b (buf + 8)
  freeListBaseNode := .init b (buf + 12)
  notFullListBaseNode := .init b (buf + 28)
  fullListBaseNode := .init b (buf + 44)
  magicNumber := machReadFrom4 b (buf + magicNumberOffset)
  fragArray := (List.range fragArraySize).map fun i =>
    (machReadFrom4 b (buf + magicNumberOffset + 4 + i * 4)).toInt32

def isValidInodeEntry (e : INodeE) : Bool := e.magicNumber == magic

end INodeE

/-! ## Index pages -/

structure IndexHeader where
  pageNDirSlots : UInt8
  heapTopPos : UInt16
  nOfHeapRecsOrFtFg : UInt16
  firstGarbageRecOffset : UInt16
  pgDirection : UInt16
  nOfInsertsInPgDirection : UInt16
  nOfRecs : UInt16
  maxTrxId : UInt64
  pageLevel : UInt16
  indexId : UInt64
  deriving DecidableEq, Inhabited

namespace IndexHeader

abbrev pageNDirSlotsOffset : Nat := 0
abbrev pageHeapTop : Nat := 2
abbrev pageNHeap : Nat := 4
abbrev pageFree : Nat := 6
abbrev pageDirection : Nat := 12
abbrev pageNDirection : Nat := 14
abbrev pageNRecs : Nat := 16
abbrev pageMaxTrxId : Nat := 18
abbrev pageLevelOffset : Nat := 26
abbrev pageIndexId : Nat := 28
abbrev pageHeader : Nat := FilHeader.filPageData

def init (b : Bytes) (buf : Nat) : IndexHeader where
  pageNDirSlots := machReadFrom1 b (buf + pageHeader + pageNDirSlotsOffset)
  heapTopPos := machReadFrom2 b (buf + pageHeader + pageHeapTop)
  nOfHeapRecsOrFtFg := machReadFrom2 b (buf + pageHeader + pageNHeap)
  firstGarbageRecOffset := machReadFrom2 b (buf + pageHeader + pageFree)
  pgDirection := machReadFrom2 b (buf + pageHeader + pageDirection)
  nOfInsertsInPgDirection := machReadFrom2 b (buf + pageHeader + pageNDirection)
  nOfRecs := machReadFrom2 b (buf + pageHeader + pageNRecs)
  maxTrxId := machReadFrom8 b (buf + pageHeader + pageMaxTrxId)
  pageLevel := machReadFrom2 b (buf + pageHeader + pageLevelOffset)
  indexId := machReadFrom8 b (buf + pageHeader + pageIndexId)

namespace Raw

def nOfDirSlots (b : Bytes) (pg : Nat) : UInt16 := machReadFrom2 b (pg + pageHeader + pageNDirSlotsOffset)
def heapTopPos (b : Bytes) (pg : Nat) : UInt16 := machReadFrom2 b (pg + pageHeader + pageHeapTop)
def nOfHeapRecsOrFtFg (b : Bytes) (pg : Nat) : UInt16 := machReadFrom2 b (pg + pageHeader + pageNHeap)
def firstGarbageRecOffset (b : Bytes) (pg : Nat) : UInt16 := machReadFrom2 b (pg + pageHeader + pageFree)
def pgDirection (b : Bytes) (pg : Nat) : UInt16 := machReadFrom2 b (pg + pageHeader + pageDirection)
def nOfRecs (b : Bytes) (pg : Nat) : UInt16 := machReadFrom2 b (pg + pageHeader + pageNRecs)
def maxTrxId (b : Bytes) (pg : Nat) : UInt64 := machReadFrom8 b (pg + pageHeader + pageMaxTrxId)
def pageLevel (b : Bytes) (pg : Nat) : UInt16 := machReadFrom2 b (pg + pageHeader + pageLevelOffset)
def indexId (b : Bytes) (pg : Nat) : UInt64 := machReadFrom8 b (pg + pageHeader + pageIndexId)

end Raw

end IndexHeader

structure FsegHeader where
  leafPageInodeSpaceId : UInt32
  leafPageInodeAddr : Addr
  internalPageInodeSpaceId : UInt32
  internalPageInodeAddr : Addr
  deriving DecidableEq, Inhabited

namespace FsegHeader

abbrev pageBtrSegLeaf : Nat := 36
abbrev fsegHdrLeafSpace : Nat := 0
abbrev fsegHdrLeafPageNo : Nat := 4
abbrev fsegHdrLeafOffset : Nat := 8
abbrev fsegHdrInternalPageNo : Nat := 16
abbrev fsegHdrInternalOffset : Nat := 20

def fsegHeader (pg : Nat) : Nat := pg + FspHeader.fspHeaderOffset + pageBtrSegLeaf

/-- The internal space id is read at the page number's offset. -/
def init (b : Bytes) (pg : Nat) : FsegHeader where
  leafPageInodeSpaceId := machReadFrom4 b (fsegHeader pg + fsegHdrLeafSpace)
  leafPageInodeAddr :=
    ⟨machReadFrom4 b (fsegHeader pg + fsegHdrLeafPageNo), machReadFrom2 b (fsegHdrLeafOffset + fsegHeader pg)⟩
  internalPageInodeSpaceId := machReadFrom4 b (fsegHeader pg + fsegHdrInternalPageNo)
  internalPageInodeAddr :=
    ⟨machReadFrom4 b (fsegHeader pg + fsegHdrInternalPageNo), machReadFrom2 b (fsegHeader pg + fsegHdrInternalOffset)⟩

end FsegHeader

/-! ## The dictionary header -/

structure DictHeader where
  rowId : UInt64
  tableId : UInt64
  indexId : UInt64
  maxSpaceId : UInt32
  minIdLow : UInt32
  tables : UInt32
  tableIds : UInt32
  columns : UInt32
  indexes : UInt32
  fields : UInt32
  deriving DecidableEq, Inhabited

namespace DictHeader

abbrev dictHdrRowId : Nat := 0
abbrev dictHdrTableId : Nat := 8
abbrev dictHdrIndexId : Nat := 16
abbrev dictHdrMaxSpaceId : Nat := 24
abbrev dictHdrMinIdLow : Nat := 28
abbrev dictHdrTables : Nat := 32
abbrev dictHdrTableIds : Nat := 36
abbrev dictHdrColumns : Nat := 40
abbrev dictHdrIndexes : Nat := 44
abbrev dictHdrFields : Nat := 48

def init (b : Bytes) (pg : Nat) : DictHeader where
  rowId := machReadFrom8 b (pg + dictHdrRowId)
  tableId := machReadFrom8 b (pg + dictHdrTableId)
  indexId := machReadFrom8 b (pg + dictHdrIndexId)
  maxSpaceId := machReadFrom4 b (pg + dictHdrMaxSpaceId)
  minIdLow := machReadFrom4 b (pg + dictHdrMinIdLow)
  tables := machReadFrom4 b (pg + dictHdrTables)
  tableIds := machReadFrom4 b (pg + dictHdrTableIds)
  columns := machReadFrom4 b (pg + dictHdrColumns)
  indexes := machReadFrom4 b (pg + dictHdrIndexes)
  fields := machReadFrom4 b (pg + dictHdrFields)

end DictHeader

end Innodb
