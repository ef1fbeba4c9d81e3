import Innodb.Page
import Innodb.Store
import Innodb.Loop

/-!
# The page cache (`file_space_reader.cc`)

The reader's state is its page vector and the page objects made for it, which
are never deleted: a `Page*` is an index into them. The file is fixed; `none`
is a file that is missing or cannot be opened.
-/

namespace Innodb

structure File where
  size : Nat
  get : Nat → UInt8

def File.at (f : File) (k : Nat) : UInt8 := if k < f.size then f.get k else 0

abbrev PagePtr := Nat

structure XdesPtr where
  page : PagePtr
  slot : Fin 256
  deriving DecidableEq

structure FileSpaceReader where
  isOpen : Bool
  pages : List (Option PagePtr)
  heap : List Page

def FileSpaceReader.new : FileSpaceReader := ⟨false, [], []⟩

section
variable (file : Option File)

def openFile (s : FileSpaceReader) : Int × FileSpaceReader :=
  match file with
  | none => (-1, s)
  | some _ => (0, { s with isOpen := true })

def readsome (f : File) (off : Nat) (buf : PageBuf) (size : Nat) : Nat × PageBuf :=
  let n := min size (f.size - off)
  (n, fun k => if k < n then f.get (off + k) else buf k)

/-- `read_page`. No exception is enabled on the stream, so the handler that
returns -1 is never entered. -/
def readPage (offset : Nat) (buf : PageBuf) (size : Nat) (s : FileSpaceReader) : Int × PageBuf × FileSpaceReader :=
  let (r, s) := if s.isOpen then (0, s) else openFile file s
  if r ≠ 0 then (-1, buf, s)
  else
    match file with
    | none => (-1, buf, s)
    | some f =>
      let (n, buf) := readsome f offset buf size
      (n, buf, s)

/-- `pages_.resize(index + 1, nullptr); pages_[index] = page` on the page just
made. The sum wraps. -/
def putPage (index : UInt32) (page : Page) (s : FileSpaceReader) : Except Fault (PagePtr × FileSpaceReader) :=
  let p := s.heap.length
  let pages := Store.resize s.pages (index + 1).toNat none
  if index.toNat < pages.length then
    .ok (p, { s with pages := pages.set index.toNat (some p), heap := s.heap ++ [page] })
  else .error .outOfRange

/-- `get_page`. The offset is computed in 32 bits. A short read is no error:
the rest of the buffer stays zero. -/
def getPage (index : UInt32) (s : FileSpaceReader) : Except Fault (Option PagePtr × FileSpaceReader) :=
  match s.pages[index.toNat]? with
  | some (some p) => .ok (some p, s)
  | _ => do
    let offset := (index * UInt32.ofNat pageSize).toNat
    let (n, buf, s) := readPage file offset (fun _ => 0) pageSize s
    if 0 > n then .ok (none, s)
    else
      let page ← deref .nullPage (← initPage buf)
      let (p, s) ← putPage index page s
      .ok (some p, s)

end

/-! ## Objects -/

namespace FileSpaceReader

def page (s : FileSpaceReader) (p : PagePtr) : Except Fault Page := deref .nullPage s.heap[p]?

def getXdesEntry (p : PagePtr) (index : UInt32) (s : FileSpaceReader) :
    Except Fault (Option XdesPtr × FileSpaceReader) := do
  let (i, pg) ← (← s.page p).getXdesEntry index
  .ok (i.map (⟨p, ·⟩), { s with heap := s.heap.set p pg })

def xdes (s : FileSpaceReader) (q : XdesPtr) : Except Fault XdesE := do
  match (← s.page q.page).body with
  | .fspHeaderPage _ arr => .ok (arr.get q.slot)
  | _ => .error .badCast

def stampXdes (q : XdesPtr) (a : Addr) (s : FileSpaceReader) : Except Fault FileSpaceReader := do
  let pg ← (← s.page q.page).stampXdes q.slot a
  .ok { s with heap := s.heap.set q.page pg }

def asInodePage (s : FileSpaceReader) (p : PagePtr) : Except Fault (INodeEntryListNode × List INodeE) := do
  match (← s.page p).body with
  | .inodePage node arr => .ok (node, arr)
  | _ => .error .badCast

def stampInode (p : PagePtr) (a : Addr) (s : FileSpaceReader) : Except Fault FileSpaceReader := do
  let pg ← (← s.page p).stampInode a
  .ok { s with heap := s.heap.set p pg }

end FileSpaceReader

end Innodb
