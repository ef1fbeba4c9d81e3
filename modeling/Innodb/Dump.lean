import Innodb.Lists
import Innodb.Records
import Innodb.Text

/-!
# What the dumps print (`headers.h`, `headers.cc`, `page.cc`)

A dump is the text it appends to its stream. Not every field is printed, and
`std::endl` is a newline.
-/

namespace Innodb
open Text

def endl : String := "\n"

/-! ## Lists -/

def ListNode.dump (l : ListNode) : String :=
  "ListNode: prev_page_number: " ++ num l.prevPageNumber.toNat ++ "\t" ++
    "prev_offset: " ++ num l.prevOffset.toNat ++ "\t" ++
    "next_page_number: " ++ num l.nextPageNumber.toNat ++ "\t" ++
    "next_offset: " ++ num l.nextOffset.toNat ++ endl

def ListBaseNode.dump (l : ListBaseNode) : String :=
  if l.listLength > 0 then
    "\nListBaseNode: list_length: " ++ num l.listLength.toNat ++ "\t" ++
      "first_page_number: " ++ num l.firstPageNumber.toNat ++ "\t" ++
      "first_offset: " ++ num l.firstOffset.toNat ++ "\t" ++
      "last_page_number: " ++ num l.lastPageNumber.toNat ++ "\t" ++
      "last_offset: " ++ num l.lastOffset.toNat ++ "\n"
  else "(empty list)" ++ "\n"

def Addr.dump (a : Addr) : String :=
  "Addr: page_number: " ++ num a.pageNumber.toNat ++ "\t" ++ "offset: " ++ num a.offset.toNat ++ "\t"

def XDesEntryListNode.dump (n : XDesEntryListNode) : String := "XDesEntryListNode: " ++ n.toListNode.dump

def XDesEntryList.dump (l : XDesEntryList) : String := "XDesEntryList: " ++ ListBaseNode.dump l

def INodeEntryListNode.dump (n : INodeEntryListNode) : String := "INodeListNode: " ++ n.toListNode.dump

def INodeEntryList.dump (l : INodeEntryList) : String := "INodeEntryList: " ++ ListBaseNode.dump l

/-! ## Headers -/

def pageTypeStrings : List (UInt16 × String) :=
  [(1, "FIL_PAGE_TYPE_UNUSED"), (2, "FIL_PAGE_UNDO_LOG"), (3, "FIL_PAGE_INODE"), (4, "FIL_PAGE_IBUF_FREE_LIST"),
    (0, "FIL_PAGE_TYPE_ALLOCATED"), (5, "FIL_PAGE_IBUF_BITMAP"), (6, "FIL_PAGE_TYPE_SYS"), (7, "FIL_PAGE_TYPE_TRX_SYS"),
    (8, "FIL_PAGE_TYPE_FSP_HDR"), (9, "FIL_PAGE_TYPE_XDES"), (13, "FIL_PAGE_TYPE_UNKNOWN"), (17853, "FIL_PAGE_SDI"),
    (17854, "FIL_PAGE_RTREE"), (17855, "FIL_PAGE_INDEX")]

def getPageTypeStr (pageType : UInt16) : String :=
  match pageTypeStrings.lookup pageType with
  | none => "not found type: " ++ num pageType.toNat
  | some str => str

def FilHeader.dump (h : FilHeader) : String :=
  "FilHeader:: check sum: " ++ num h.checkSum.toNat ++ "\t" ++
    "page number offset: " ++ num h.pageNumberOffset.toNat ++ "\t" ++
    "previous page: " ++ num h.previousPage.toNat ++ "\t" ++
    "next page: " ++ num h.nextPage.toNat ++ "\t" ++
    "page type: " ++ getPageTypeStr h.pageType ++ "\t\t" ++
    "flush lsn: " ++ num h.flushLsn.toNat ++ "\t" ++
    "space id: " ++ num h.spaceId.toNat ++ endl

def FspHeader.dump (h : FspHeader) : String :=
  "FSPHeader: space_id: " ++ num h.spaceId.toNat ++ "\t" ++
    "fsp_size in page: " ++ num h.fspSize.toNat ++ "\t" ++
    "fsp_free_limit: " ++ num h.fspFreeLimit.toNat ++ "\t" ++
    "flags: " ++ num h.spaceFlags.toNat ++ "\t" ++
    "frag_n_used: " ++ num h.fragNUsed.toNat ++ endl ++
    "free list: " ++ XDesEntryList.dump h.freeListBaseNode ++
    endl ++ "free frag list: " ++ XDesEntryList.dump h.freeFragListBaseNode ++
    endl ++ "full frag list: " ++ XDesEntryList.dump h.fullFragListBaseNode ++
    endl ++ "next unused segment id: " ++ num h.nextUnusedSegmentId.toNat ++
    endl ++ "free inode list: " ++ INodeEntryList.dump h.freeInodesListBaseNode ++
    endl ++ "full inode list: " ++ INodeEntryList.dump h.fullInodesListBaseNode ++
    endl

/-- The number of directory slots is a `uint8_t`, which is written as a character. -/
def IndexHeader.dump (h : IndexHeader) : String :=
  "IndexHeader: dir_slots: " ++ char h.pageNDirSlots ++ "\t" ++
    "heap_top_pos: " ++ num h.heapTopPos.toNat ++ "\t" ++
    "n_of_heap_recs_or_ft_fg: " ++ num h.nOfHeapRecsOrFtFg.toNat ++ "\t" ++
    "pg direction: " ++ num h.pgDirection.toNat ++ "\t" ++
    "n_of_records: " ++ num h.nOfRecs.toNat ++ "\t" ++
    "max_trx_id: " ++ num h.maxTrxId.toNat ++ "\t" ++
    "page_level: " ++ num h.pageLevel.toNat ++ "\t" ++
    "index id: " ++ num h.indexId.toNat ++ endl

def FsegHeader.dump (h : FsegHeader) : String :=
  "FSEG_HEADER: leaf_page_inode_space_id: " ++ num h.leafPageInodeSpaceId.toNat ++ ", leaf_page_inode_addr: " ++
    h.leafPageInodeAddr.dump ++
    ", internal_page_inode_space_id: " ++ num h.internalPageInodeSpaceId.toNat ++ ", internal_page_inode_addr: " ++
    h.internalPageInodeAddr.dump

/-! ## Descriptors and inodes -/

def XdesE.dumpPageStateBitmap (e : XdesE) : String :=
  "Page state bitmap: " ++ run (fun b => bits b.toNat 8 ++ " ") e.pageState.toList ++ endl

def XdesE.dump (e : XdesE) (a : Addr) : String :=
  "XDES_E at " ++ a.dump ++ "\nfi_seg_id: " ++ num e.fiSegId.toNat ++ ", state: " ++ num e.state.toNat ++
    ", list_node: " ++ e.listNode.dump ++ e.dumpPageStateBitmap

def INodeE.dump (e : INodeE) (a : Addr) : String :=
  "INode_E at " ++ a.dump ++
    (if e.fullListBaseNode.listLength = 0 ∧ e.nOfUsedPgsInNotFullList = 0 then " (empty inode entry)"
    else
      "\nfseg_id: " ++ num e.fsegId.toNat ++ ", n_of_used_pgs_in_not_full_list: " ++
        num e.nOfUsedPgsInNotFullList.toNat ++ ", magic_number: " ++ num e.magicNumber.toNat ++ "\n" ++
        "xdes free_list: " ++ XDesEntryList.dump e.freeListBaseNode ++
        "xdes not_full_list: " ++ XDesEntryList.dump e.notFullListBaseNode ++
        "xdes full_list: " ++ XDesEntryList.dump e.fullListBaseNode ++
        "frag_array: " ++ run (fun frag => int frag.toInt ++ " ") e.fragArray) ++
    endl

/-! ## Pages -/

/-- `dump_inode_entries`, as text. -/
def Page.dumpInodeEntriesText (pg : Page) : String :=
  "INode entries: " ++ num pg.inodeArr.length ++ "\n" ++ run (fun c => c.1.dump c.2) pg.dumpInodeEntries

/-- The class's `dump`, behind that of the base class. -/
def Page.dump (pg : Page) : String :=
  "---------------------------------------------\n" ++ pg.filHeader.dump ++
    match pg.body with
    | .fspHeaderPage h _ => h.dump
    | .inodePage node _ => "ListNode for INODE page list: " ++ node.dump ++ pg.dumpInodeEntriesText
    | .indexPage h f => h.dump ++ f.dump ++ endl
    | .ibufBitMapPage | .sdiPage | .sysPage _ => ""

/-! ## Records and the page directory

Nothing that prints a page prints these; they take the page where it is in
memory. -/

def getRecType (recT : UInt8) : String :=
  match recT with
  | 0 => "REC_STATUS_ORDINARY"
  | 1 => "REC_STATUS_NODE_PTR"
  | 2 => "REC_STATUS_INFIMUM"
  | 3 => "REC_STATUS_SUPREMUM"
  | _ => "unknown rec type"

/-- A null pointer is taken as the address 0. -/
def RecordHeader.dumpNext (b : Bytes) (rec : UInt64) : String :=
  match recStatus b rec with
  | 2 | 3 | 0 => "next_offs: " ++ num (nextOffs b rec).toNat ++ "\t"
  | 1 => "next_ptr: " ++ int ((nextPtr b rec).getD 0 - alignDown rec 16384).toInt64.toInt ++ "\t"
  | _ => ""

def RecordHeader.dump (b : Bytes) (rec : UInt64) : String :=
  "rec: off: " ++ num (rec - alignDown rec 16384).toNat ++
    "\tinfo_bits: " ++ num (infoBits b rec).toNat ++ "\t" ++
    "num_of_recs_owned: " ++ num (numOfRecsOwned b rec).toNat ++ "\t" ++
    "heap_no_new: " ++ num (heapNoNew b rec).toNat ++ "\t" ++
    "rec_status: " ++ getRecType (recStatus b rec) ++ "\t" ++
    RecordHeader.dumpNext b rec ++ endl

section
variable (content : PageBuf) (p : Placement)

/-- The text of a dump of the records, or `none` if it has not ended. -/
def Records.dumpText (n : Nat) : Except Fault (Option String) := do
  let t ← Records.dump content p n
  .ok (if atSupremum p t then some (run (RecordHeader.dump (p.mem content)) t.dumped) else none)

def IndexPageDirectory.dumpText : Except Fault String := do
  let nSlot := IndexHeader.Raw.nOfDirSlots (p.mem content) p.base.toNat
  let slots ← dumpSlots content p nSlot.toUInt64
  .ok ("page directory: n of slots: " ++ num nSlot.toNat ++ "\t" ++ run (fun off => int off.toInt ++ "\t") slots ++ endl)

end

end Innodb
