import Innodb.Reader

/-!
# Lists in a tablespace (`headers.cc`, `file_space_reader.cc`)

Extent descriptors and inode pages are linked by file addresses. The node
accessors hand out one node at a time and write the node's own address into
it; the traversals call a function for every node.
-/

namespace Innodb

/-- An address as an index of the page's descriptors, computed in
`unsigned long`. The variable it goes to is 32 bits wide, in `next` and `xdes`
a signed one. -/
def entryNum64 (a : Addr) : UInt64 :=
  (a.offset.toUInt64 - UInt64.ofNat FilHeader.filPageData - UInt64.ofNat FspHeader.fspHeaderSize) /
    UInt64.ofNat XdesE.xdesESize

def entryNum (a : Addr) : UInt32 := (entryNum64 a).toUInt32

def entryNumInt (a : Addr) : Int32 := (entryNum64 a).toUInt32.toInt32

section
variable (file : Option File)

/-! ## Extent descriptor nodes -/

def findXdes (num : UInt32) (a : Addr) (s : FileSpaceReader) : Except Fault (Option XdesPtr × FileSpaceReader) := do
  let (page, s) ← getPage file a.pageNumber s
  match page with
  | none => .ok (none, s)
  | some page => s.getXdesEntry page num

def handOutXdes (num : UInt32) (a : Addr) (s : FileSpaceReader) :
    Except Fault (Option XdesPtr × FileSpaceReader) := do
  let (q, s) ← findXdes file num a s
  match q with
  | none => .ok (none, s)
  | some q => .ok (some q, ← s.stampXdes q a)

namespace XDesEntryList

def getXdesEntryListNode (a : Addr) (s : FileSpaceReader) : Except Fault (Option XdesPtr × FileSpaceReader) :=
  handOutXdes file (entryNum a) a s

def endNode (l : XDesEntryList) (a : Addr) (s : FileSpaceReader) : Except Fault (Option XdesPtr × FileSpaceReader) :=
  if l.listLength = 0 then .ok (none, s)
  else if !a.valid then .ok (none, s)
  else getXdesEntryListNode file a s

def first (l : XDesEntryList) (s : FileSpaceReader) : Except Fault (Option XdesPtr × FileSpaceReader) :=
  endNode file l l.firstAddr s

def last (l : XDesEntryList) (s : FileSpaceReader) : Except Fault (Option XdesPtr × FileSpaceReader) :=
  endNode file l l.lastAddr s

end XDesEntryList

namespace XDesEntryListNode

def next (this : XdesPtr) (s : FileSpaceReader) : Except Fault (Option XdesPtr × FileSpaceReader) := do
  let a := (← s.xdes this).listNode.nextAddr
  if !a.valid then .ok (none, s)
  else handOutXdes file (entryNumInt a).toUInt32 a s

def xdes (this : XdesPtr) (s : FileSpaceReader) : Except Fault (Option XdesPtr × FileSpaceReader) := do
  let a := (← s.xdes this).listNode.addr
  if !a.valid then .ok (none, s)
  else findXdes file (entryNumInt a).toUInt32 a s

end XDesEntryListNode

/-! ## Inode page nodes -/

def findInode (a : Addr) (s : FileSpaceReader) : Except Fault (Option PagePtr × FileSpaceReader) := do
  let (page, s) ← getPage file a.pageNumber s
  match page with
  | none => .ok (none, s)
  | some page =>
    let _ ← s.asInodePage page
    .ok (some page, s)

def handOutInode (a : Addr) (s : FileSpaceReader) : Except Fault (Option PagePtr × FileSpaceReader) := do
  let (p, s) ← findInode file a s
  match p with
  | none => .ok (none, s)
  | some p => .ok (some p, ← s.stampInode p a)

def inodeArrAt (a : Addr) (s : FileSpaceReader) : Except Fault (Option (List INodeE) × FileSpaceReader) := do
  if !a.valid then .ok (none, s)
  else
    let (p, s) ← findInode file a s
    match p with
    | none => .ok (none, s)
    | some p => .ok (some (← s.asInodePage p).2, s)

namespace INodeEntryList

def first (l : INodeEntryList) (s : FileSpaceReader) : Except Fault (Option PagePtr × FileSpaceReader) :=
  if l.listLength = 0 then .ok (none, s)
  else if !l.firstAddr.valid then .ok (none, s)
  else handOutInode file l.firstAddr s

/-- Unlike `first` and `next` this does not write the address into the node. -/
def last (l : INodeEntryList) (s : FileSpaceReader) : Except Fault (Option PagePtr × FileSpaceReader) :=
  if l.listLength = 0 then .ok (none, s)
  else if !l.lastAddr.valid then .ok (none, s)
  else findInode file l.lastAddr s

end INodeEntryList

namespace INodeEntryListNode

def next (this : PagePtr) (s : FileSpaceReader) : Except Fault (Option PagePtr × FileSpaceReader) := do
  let a := (← s.asInodePage this).1.nextAddr
  if !a.valid then .ok (none, s)
  else handOutInode file a s

def inodeArr (this : PagePtr) (s : FileSpaceReader) : Except Fault (Option (List INodeE) × FileSpaceReader) := do
  inodeArrAt file (← s.asInodePage this).1.addr s

end INodeEntryListNode

namespace FsegHeader

def leafInode (h : FsegHeader) (s : FileSpaceReader) : Except Fault (Option (List INodeE) × FileSpaceReader) :=
  inodeArrAt file h.leafPageInodeAddr s

def externalInode (h : FsegHeader) (s : FileSpaceReader) : Except Fault (Option (List INodeE) × FileSpaceReader) :=
  inodeArrAt file h.internalPageInodeAddr s

end FsegHeader

/-! ## Traversals -/

/-- A `std::function` with captured state in `σ`; it may use the reader. -/
abbrev Func (σ ρ : Type) := ρ → Addr → σ → FileSpaceReader → Except Fault (σ × FileSpaceReader)

/-- A traversal at the head of its loop, with the calls made so far. -/
structure Traversal (σ ρ : Type) where
  cur : Addr
  calls : List (ρ × Addr)
  user : σ
  reader : FileSpaceReader

variable {σ ρ : Type}

def traverseXdesRound (func : Func σ XdesE) (t : Traversal σ XdesE) : Except Fault (Traversal σ XdesE) := do
  let (pg, s) ← getPage file t.cur.pageNumber t.reader
  let (e, s) ← s.getXdesEntry (← deref .nullPage pg) (entryNum t.cur)
  let xdesEntry ← deref .nullEntry e
  let x ← s.xdes xdesEntry
  let (u, s) ← func x t.cur t.user s
  .ok ⟨(← s.xdes xdesEntry).listNode.nextAddr, t.calls ++ [(x, t.cur)], u, s⟩

def traverseInodeRound (func : Func σ Page) (t : Traversal σ Page) : Except Fault (Traversal σ Page) := do
  let (pg, s) ← getPage file t.cur.pageNumber t.reader
  let inodePage ← deref .nullPage pg
  let _ ← s.asInodePage inodePage
  let x ← s.page inodePage
  let (u, s) ← func x t.cur t.user s
  .ok ⟨(← s.asInodePage inodePage).1.nextAddr, t.calls ++ [(x, t.cur)], u, s⟩

/-- Either traversal: at most `n` rounds of its loop, which an empty list
does not enter. -/
def traverse (round : Traversal σ ρ → Except Fault (Traversal σ ρ)) (baseNode : ListBaseNode)
    (n : Nat) (u : σ) (s : FileSpaceReader) : Except Fault (Traversal σ ρ) :=
  if baseNode.listLength > 0 then Loop.rounds (·.cur.valid) round n ⟨baseNode.firstAddr, [], u, s⟩
  else .ok ⟨⟨0, 0⟩, [], u, s⟩

def returned (baseNode : ListBaseNode) (t : Traversal σ ρ) : Bool := baseNode.listLength == 0 || !t.cur.valid

def traverseXdesList (func : Func σ XdesE) (baseNode : ListBaseNode) (n : Nat) (u : σ) (s : FileSpaceReader) :
    Except Fault (Traversal σ XdesE) :=
  traverse (traverseXdesRound file func) baseNode n u s

def traverseInodeList (func : Func σ Page) (baseNode : ListBaseNode) (n : Nat) (u : σ) (s : FileSpaceReader) :
    Except Fault (Traversal σ Page) :=
  traverse (traverseInodeRound file func) baseNode n u s

/-! ## The callbacks of `dump_space` -/

abbrev XdesDump := List (XdesE × Addr)

def dumpXdesEntry : Func XdesDump XdesE := fun xdesE addr oss s => .ok (oss ++ [(xdesE, addr)], s)

/-- A list of an entry, if it is not empty, for at most `n` rounds. -/
def dumpXdesList (n : Nat) (l : XDesEntryList) (t : XdesDump × FileSpaceReader) :
    Except Fault (XdesDump × FileSpaceReader) :=
  if l.listLength > 0 then do
    let t ← traverseXdesList file dumpXdesEntry l n t.1 t.2
    .ok (t.user, t.reader)
  else .ok t

def dumpInodeEntries (n : Nat) : Func XdesDump Page := fun inodePage _ oss s =>
  inodePage.inodeArr.foldlM (fun t inodeEntry => do
    let t ← dumpXdesList file n inodeEntry.fullListBaseNode t
    dumpXdesList file n inodeEntry.notFullListBaseNode t) (oss, s)

end

end Innodb
