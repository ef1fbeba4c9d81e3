import Innodb.Headers

/-!
# Pages (`page.h`, `page.cc`)

A page object holds its buffer and what its class parsed from it. Where the
source has undefined behaviour the model has a `Fault`.
-/

namespace Innodb

inductive Fault where
  | nullPage    -- a member used through a null `Page*`
  | nullEntry   -- a null `XDES_E*` dereferenced
  | outOfRange  -- `operator[]` at or past the vector's size
  | badCast     -- an object used as a class it was not constructed as
  | outOfPage   -- bytes read that are not in the page buffer
  | failedAssert
  deriving DecidableEq

def deref {α : Type} (e : Fault) : Option α → Except Fault α
  | some a => .ok a
  | none => .error e

abbrev PageBuf := Fin pageSize → UInt8

def bytes (buf : PageBuf) : Bytes := fun k => if h : k < pageSize then buf ⟨k, h⟩ else 0

inductive PageBody where
  | fspHeaderPage (fspHeader : FspHeader) (xdesArr : Vector XdesE 256)
  | inodePage (listNode : INodeEntryListNode) (inodeArr : List INodeE)
  | indexPage (indexHeader : IndexHeader) (fsegHeader : FsegHeader)
  | ibufBitMapPage
  | sdiPage
  | sysPage (dictHeader : DictHeader)

structure Page where
  buf : PageBuf
  filHeader : FilHeader
  body : PageBody

def Page.inodeArr (pg : Page) : List INodeE :=
  match pg.body with
  | .inodePage _ arr => arr
  | _ => []

/-! ## Constructors -/

def newPage (buf : PageBuf) (body : PageBody) : Page := ⟨buf, default, body⟩

def newFspHeaderPage (buf : PageBuf) : Page :=
  newPage buf (.fspHeaderPage default (Vector.replicate 256 XdesE.new))
def newINodePage (buf : PageBuf) : Page := newPage buf (.inodePage default [])
def newIndexPage (buf : PageBuf) : Page := newPage buf (.indexPage default default)
def newIBufBitMapPage (buf : PageBuf) : Page := newPage buf .ibufBitMapPage
def newSdiPage (buf : PageBuf) : Page := newPage buf .sdiPage
def newSysPage (buf : PageBuf) : Page := newPage buf (.sysPage default)

/-! ## `init` -/

abbrev inodeECount : Nat := 85
abbrev inodeEntryOffset : Nat := FilHeader.filPageData + ListNode.listNodeSize

def initInodeEntries (b : Bytes) : (left : Nat) → (buf : Nat) → List INodeE
  | 0, _ => []
  | left + 1, buf =>
    let inode := INodeE.init b buf
    if inode.isValidInodeEntry then inode :: initInodeEntries b left (buf + INodeE.inodeEntrySize)
    else [] -- break

def PageBody.init (b : Bytes) : PageBody → PageBody
  | .fspHeaderPage _ arr => .fspHeaderPage (FspHeader.init b 0) arr
  | .inodePage node arr =>
    .inodePage { node with toListNode := ListNode.init b FilHeader.filPageData }
      (arr ++ initInodeEntries b inodeECount inodeEntryOffset)
  | .indexPage .. => .indexPage (IndexHeader.init b 0) (FsegHeader.init b 0)
  | .ibufBitMapPage => .ibufBitMapPage
  | .sdiPage => .sdiPage
  | .sysPage _ => .sysPage (DictHeader.init b 0)

def Page.init (pg : Page) (buf : PageBuf) : Page :=
  { pg with filHeader := FilHeader.initFilHeader (bytes buf) 0, body := pg.body.init (bytes buf) }

/-- `Page::init_page`. The call of `init` comes after the switch whatever
branch was taken, so a type without a class calls it through a null pointer. -/
def initPage (buf : PageBuf) : Except Fault (Option Page) := do
  let header := FilHeader.initFilHeader (bytes buf) 0
  let p :=
    if header.pageType = filPageTypeFspHdr then some (newFspHeaderPage buf)
    else if header.pageType = filPageTypeInode then some (newINodePage buf)
    else if header.pageType = filPageIndex then some (newIndexPage buf)
    else if header.pageType = filPageIbufBitmap then some (newIBufBitMapPage buf)
    else if header.pageType = filPageTypeSdi then some (newSdiPage buf)
    else if header.pageType = filPageTypeSys then some (newSysPage buf)
    else none
  let pg ← deref .nullPage p
  .ok (some (pg.init buf))

/-- `dump_inode_entries`: what is dumped for each entry, itself and its
address. The offset is computed in 64 bits and cast to 16. -/
def Page.dumpInodeEntries (pg : Page) : List (INodeE × Addr) :=
  pg.inodeArr.mapIdx fun i inode =>
    (inode, ⟨pg.filHeader.pageNumberOffset,
      (UInt64.ofNat inodeEntryOffset + UInt64.ofNat i * UInt64.ofNat INodeE.inodeEntrySize).toUInt16⟩)

/-! ## Lazy extent descriptors -/

/-- Where `get_xdes_entry` finds descriptor `index`: 32 bits for the product,
64 for the sum. -/
def xdesEntryOffset (index : UInt32) : Nat :=
  (UInt64.ofNat (FilHeader.filPageData + FspHeader.fspHeaderSize) +
    (index * UInt32.ofNat XdesE.xdesESize).toUInt64).toNat

def Page.getXdesEntry (pg : Page) (index : UInt32) : Except Fault (Option (Fin 256) × Page) :=
  match pg.body with
  | .fspHeaderPage h arr =>
    if hi : index.toNat < 256 then
      let e := arr[index.toNat]
      if e.inited then .ok (some ⟨index.toNat, hi⟩, pg)
      else
        let e := e.init (bytes pg.buf) (xdesEntryOffset index)
        .ok (some ⟨index.toNat, hi⟩, { pg with body := .fspHeaderPage h (arr.set index.toNat e) })
    else .error .outOfRange
  | _ => .ok (none, pg)

def Page.getInodeEntry (pg : Page) (index : UInt32) : Except Fault (Option INodeE) :=
  match pg.body with
  | .inodePage _ arr =>
    -- checked against the page's capacity, not the entries found
    if index.toNat ≥ inodeECount then .ok none
    else (deref .outOfRange arr[index.toNat]?).map some
  | _ => .ok none

/-! ## Writes through `const_cast` -/

def XdesE.stamp (a : Addr) (e : XdesE) : XdesE := { e with listNode := { e.listNode with addr := a } }

def Page.stampXdes (pg : Page) (i : Fin 256) (a : Addr) : Except Fault Page :=
  match pg.body with
  | .fspHeaderPage h arr => .ok { pg with body := .fspHeaderPage h (arr.set i ((arr.get i).stamp a) i.isLt) }
  | _ => .error .badCast

def Page.stampInode (pg : Page) (a : Addr) : Except Fault Page :=
  match pg.body with
  | .inodePage node arr => .ok { pg with body := .inodePage { node with addr := a } arr }
  | _ => .error .badCast

end Innodb
