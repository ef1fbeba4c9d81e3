import Innodb.Dump
import Innodb.TableReader

/-!
# Printing a tablespace (`file_space_reader.cc`, `table_reader.cc`, `ibdata1_reader.cc`)

`dump_space` prints the first pages of a file and then all its lists, one
stretch at a time; the stretches are put together here. What goes to the log
beside them is left out. Its loops are run for at most `n` rounds each.

`printf("%s")` would stop at a zero byte. Only an index header prints a byte
as a character, and the pages with one go to `cout` as a whole string.
-/

namespace Innodb
open Text

def FileSpaceReader.asFspHeaderPage (s : FileSpaceReader) (p : PagePtr) : Except Fault FspHeader := do
  match (← s.page p).body with
  | .fspHeaderPage h _ => .ok h
  | _ => .error .badCast

section
variable (file : Option File)

/-- The page is cast without asking for its type. -/
def getFspHeaderPage (s : FileSpaceReader) : Except Fault (Option PagePtr × FileSpaceReader) := do
  let (p, s) ← getPage file 0 s
  match p with
  | none => .ok (none, s)
  | some p =>
    let _ ← s.asFspHeaderPage p
    .ok (some p, s)

def getPageCount (s : FileSpaceReader) : Except Fault (UInt32 × FileSpaceReader) := do
  let (p, s) ← getFspHeaderPage file s
  match p with
  | none => .ok (0, s)
  | some p => .ok ((← s.asFspHeaderPage p).fspSize, s)

/-! ## `dump_space` -/

/-- What is printed so far, or `none` in a loop that goes on after its `n`
rounds: nothing comes behind it. -/
abbrev Printed := Option String

namespace DumpSpace

/-- The lists of the tablespace header, with what is printed around them. -/
inductive SpaceList where
  | extents (title : String) (baseNode : FspHeader → XDesEntryList) (behind : String)
  | inodes (title : String) (baseNode : FspHeader → INodeEntryList)

def spaceLists : List SpaceList :=
  [.extents ("\n-----------------------------------\nfull frag extents: " ++ endl) (·.fullFragListBaseNode) "",
    .extents ("\n---------------------------------------\nfree frag extents: " ++ endl) (·.freeFragListBaseNode) "",
    .extents ("\n----------------------------------------\nfree extents: " ++ endl) (·.freeListBaseNode) "\n",
    .inodes ("\n -------------------------------------------------\nfull inode list: " ++ endl) (·.fullInodesListBaseNode),
    .inodes ("\n ------------------------------------------------\nfree inode list: " ++ endl) (·.freeInodesListBaseNode)]

def dumpPage (t : String × FileSpaceReader) (i : UInt32) : Except Fault (String × FileSpaceReader) := do
  let (pg, s) ← getPage file i t.2
  match pg with
  | none => .ok (t.1, s) -- continue
  | some pg => .ok (t.1 ++ ("page: " ++ num i.toNat ++ endl ++ (← s.page pg).dump) ++ endl, s)

def dumpXdesEntry : Func String XdesE := fun xdesE addr oss s => .ok (oss ++ xdesE.dump addr, s)

def dumpXdesList (n : Nat) (title : String) (l : XDesEntryList) (behind : String) (oss : String)
    (s : FileSpaceReader) : Except Fault (Printed × FileSpaceReader) := do
  let t ← traverseXdesList file dumpXdesEntry l n (oss ++ title) s
  .ok (if returned l t then some (t.user ++ behind) else none, t.reader)

def fullListTitle (e : INodeE) : String :=
  "xdes full list with size: " ++ num e.fullListBaseNode.listLength.toNat ++ ": "

def notFullListTitle (e : INodeE) : String :=
  "------------------------------------------------------" ++ endl ++
    "xdes not full list with size: " ++ num e.notFullListBaseNode.listLength.toNat ++ ": "

/-- A list of an inode entry, if it is not empty. -/
def dumpEntryList (n : Nat) (title : String) (l : XDesEntryList) (t : Printed × FileSpaceReader) :
    Except Fault (Printed × FileSpaceReader) :=
  match t.1 with
  | none => .ok t
  | some oss => if l.listLength > 0 then dumpXdesList file n title l endl oss t.2 else .ok t

def dumpInodeEntry (n : Nat) (t : Printed × FileSpaceReader) (e : INodeE) :
    Except Fault (Printed × FileSpaceReader) := do
  let t ← dumpEntryList file n (fullListTitle e) e.fullListBaseNode t
  dumpEntryList file n (notFullListTitle e) e.notFullListBaseNode t

def dumpInodeEntries (n : Nat) : Func Printed Page := fun inodePage addr oss s =>
  inodePage.inodeArr.foldlM (dumpInodeEntry file n) (oss.map (· ++ ("inode page at: " ++ addr.dump ++ endl)), s)

/-- The traversal of the inode pages; it is where its callback is when a loop
in there goes on. -/
def dumpInodeList (n : Nat) (title : String) (l : INodeEntryList) (oss : String) (s : FileSpaceReader) :
    Except Fault (Printed × FileSpaceReader) :=
  if l.listLength > 0 then do
    let t ← Loop.rounds (fun t => t.cur.valid && t.user.isSome) (traverseInodeRound file (dumpInodeEntries file n)) n
      ⟨l.firstAddr, [], some (oss ++ title), s⟩
    .ok (if t.cur.valid then none else t.user, t.reader)
  else .ok (some (oss ++ title), s)

/-- The header is read again before each list, through the pointer. -/
def dumpList (n : Nat) (p : PagePtr) (t : Printed × FileSpaceReader) (l : SpaceList) :
    Except Fault (Printed × FileSpaceReader) :=
  match t.1 with
  | none => .ok t
  | some oss => do
    let h ← t.2.asFspHeaderPage p
    match l with
    | .extents title baseNode behind => dumpXdesList file n title (baseNode h) behind oss t.2
    | .inodes title baseNode => dumpInodeList file n title (baseNode h) oss t.2

end DumpSpace

def dumpSpace (fileName : String) (n : Nat) (s : FileSpaceReader) : Except Fault (Printed × FileSpaceReader) := do
  let oss := "space file: " ++ fileName ++ endl
  let (fspHeaderPage, s) ← getFspHeaderPage file s
  let p ← deref .nullPage fspHeaderPage
  let oss := oss ++ ("fsp header page: " ++ "\n" ++ (← s.page p).dump)
  let (oss, s) ← [1, 2, 3, 4].foldlM (DumpSpace.dumpPage file) (oss, s)
  let oss := oss ++ "============================================" ++ endl
  DumpSpace.spaceLists.foldlM (DumpSpace.dumpList file n p) (some oss, s)

end

/-! ## Table readers -/

inductive LogLine where
  | info (text : String)
  | error (text : String)
  deriving DecidableEq

/-- `disk` is what is under a path. -/
abbrev Disk := String → Option File

namespace TableReader

def dumpPage (disk : Disk) (index : UInt32) (t : TableReader) : Except Fault (LogLine × TableReader) := do
  let (page, s) ← getPage (disk t.fileName) index t.fspReader
  let t := { t with fspReader := s }
  match page with
  | some page =>
    .ok (.info ("Dumping page " ++ num index.toNat ++ " from table: " ++ t.fileName ++ "\n" ++ (← s.page page).dump), t)
  | none => .ok (.error ("Failed to get page " ++ num index.toNat ++ " from table: " ++ t.fileName), t)

def dump (disk : Disk) (n : Nat) (t : TableReader) : Except Fault (Printed × TableReader) := do
  let (out, s) ← dumpSpace (disk t.fileName) t.fileName n t.fspReader
  .ok (out, { t with fspReader := s })

end TableReader

/-! ## The reader of the system tablespace -/

namespace Ibdata1Reader

abbrev fspDictHdrPageNo : UInt32 := 7

/-- `init`, which the constructor calls: what is printed, if there is nothing to log. -/
def init (file : Option File) (s : FileSpaceReader) : Except Fault ((LogLine ⊕ String) × FileSpaceReader) := do
  let (fspHeaderPage, s) ← getFspHeaderPage file s
  match fspHeaderPage with
  | none => .ok (.inl (.error "Failed to get FSP header page from ibdata1 file."), s)
  | some _ =>
    let (dictHdrPage, s) ← getPage file fspDictHdrPageNo s
    match dictHdrPage with
    | none => .ok (.inl (.error "Failed to get dictionary header page from ibdata1 file."), s)
    | some p => .ok (.inr ("Dictionary Header Page:\n" ++ (← s.page p).dump ++ endl), s)

end Ibdata1Reader

end Innodb
