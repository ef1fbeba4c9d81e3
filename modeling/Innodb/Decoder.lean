import Innodb.Space
import Innodb.CacheSound

/-!
# A reader without a state

What the file reader is for: every page asked for is decoded afresh from the
file, every descriptor afresh from its page. There is no cache and no pointer,
and nothing is written into what is handed out.
-/

namespace Innodb
open Text

namespace Decoder
section
variable (file : Option File)

def page (i : UInt32) : Except Fault (Option Page) :=
  match image file i with
  | none => .ok none
  | some buf => do
    let pg ← deref .nullPage (← initPage buf)
    if i = 0xFFFFFFFF then .error .outOfRange else .ok (some pg)

def xdesEntry (pg : Page) (index : UInt32) : Except Fault (Option XdesE) :=
  match pg.body with
  | .fspHeaderPage .. => if index.toNat < 256 then .ok (some (xdesAt pg.buf index.toNat)) else .error .outOfRange
  | _ => .ok none

def asInodePage (pg : Page) : Except Fault (INodeEntryListNode × List INodeE) :=
  match pg.body with
  | .inodePage node arr => .ok (node, arr)
  | _ => .error .badCast

def asFspHeaderPage (pg : Page) : Except Fault FspHeader :=
  match pg.body with
  | .fspHeaderPage h _ => .ok h
  | _ => .error .badCast

/-! ## Traversals -/

abbrev Func (σ ρ : Type) := ρ → Addr → σ → Except Fault σ

structure Visit (σ ρ : Type) where
  cur : Addr
  calls : List (ρ × Addr)
  user : σ

variable {σ ρ : Type}

def xdesRound (func : Func σ XdesE) (t : Visit σ XdesE) : Except Fault (Visit σ XdesE) := do
  let pg ← deref .nullPage (← page file t.cur.pageNumber)
  let x ← deref .nullEntry (← xdesEntry pg (entryNum t.cur))
  let u ← func x t.cur t.user
  .ok ⟨x.listNode.nextAddr, t.calls ++ [(x, t.cur)], u⟩

def inodeRound (func : Func σ Page) (t : Visit σ Page) : Except Fault (Visit σ Page) := do
  let pg ← deref .nullPage (← page file t.cur.pageNumber)
  let r ← asInodePage pg
  let u ← func pg t.cur t.user
  .ok ⟨r.1.nextAddr, t.calls ++ [(pg, t.cur)], u⟩

def traverse (round : Visit σ ρ → Except Fault (Visit σ ρ)) (baseNode : ListBaseNode) (n : Nat) (u : σ) :
    Except Fault (Visit σ ρ) :=
  if baseNode.listLength > 0 then Loop.rounds (·.cur.valid) round n ⟨baseNode.firstAddr, [], u⟩
  else .ok ⟨⟨0, 0⟩, [], u⟩

def returned (baseNode : ListBaseNode) (t : Visit σ ρ) : Bool := baseNode.listLength == 0 || !t.cur.valid

/-! ## Printing -/

def fspHeaderPage : Except Fault (Option (Page × FspHeader)) := do
  match ← page file 0 with
  | none => .ok none
  | some pg => .ok (some (pg, ← asFspHeaderPage pg))

def pageCount : Except Fault UInt32 := do
  match ← fspHeaderPage file with
  | none => .ok 0
  | some p => .ok p.2.fspSize

def dumpPage (oss : String) (i : UInt32) : Except Fault String := do
  match ← page file i with
  | none => .ok oss
  | some pg => .ok (oss ++ ("page: " ++ num i.toNat ++ endl ++ pg.dump) ++ endl)

def dumpXdesEntry : Func String XdesE := fun xdesE addr oss => .ok (oss ++ xdesE.dump addr)

def dumpXdesList (n : Nat) (title : String) (l : XDesEntryList) (behind oss : String) : Except Fault Printed := do
  let t ← traverse (xdesRound file dumpXdesEntry) l n (oss ++ title)
  .ok (if returned l t then some (t.user ++ behind) else none)

def dumpEntryList (n : Nat) (title : String) (l : XDesEntryList) (t : Printed) : Except Fault Printed :=
  match t with
  | none => .ok none
  | some oss => if l.listLength > 0 then dumpXdesList file n title l endl oss else .ok (some oss)

def dumpInodeEntry (n : Nat) (t : Printed) (e : INodeE) : Except Fault Printed := do
  let t ← dumpEntryList file n (DumpSpace.fullListTitle e) e.fullListBaseNode t
  dumpEntryList file n (DumpSpace.notFullListTitle e) e.notFullListBaseNode t

def dumpInodeEntries (n : Nat) : Func Printed Page := fun inodePage addr oss =>
  inodePage.inodeArr.foldlM (dumpInodeEntry file n) (oss.map (· ++ ("inode page at: " ++ addr.dump ++ endl)))

def dumpInodeList (n : Nat) (title : String) (l : INodeEntryList) (oss : String) : Except Fault Printed :=
  if l.listLength > 0 then do
    let t ← Loop.rounds (fun t => t.cur.valid && t.user.isSome) (inodeRound file (dumpInodeEntries file n)) n
      ⟨l.firstAddr, [], some (oss ++ title)⟩
    .ok (if t.cur.valid then none else t.user)
  else .ok (some (oss ++ title))

def dumpList (n : Nat) (h : FspHeader) (t : Printed) (l : DumpSpace.SpaceList) : Except Fault Printed :=
  match t with
  | none => .ok none
  | some oss =>
    match l with
    | .extents title baseNode behind => dumpXdesList file n title (baseNode h) behind oss
    | .inodes title baseNode => dumpInodeList file n title (baseNode h) oss

def dumpSpace (fileName : String) (n : Nat) : Except Fault Printed := do
  let p ← deref .nullPage (← fspHeaderPage file)
  let oss := "space file: " ++ fileName ++ endl ++ ("fsp header page: " ++ "\n" ++ p.1.dump)
  let oss ← [1, 2, 3, 4].foldlM (dumpPage file) oss
  let oss := oss ++ "============================================" ++ endl
  DumpSpace.spaceLists.foldlM (dumpList file n p.2) (some oss)

end

/-! ## Requests -/

def logPage (file : Option File) (fileName : String) (index : UInt32) : Except Fault LogLine := do
  match ← page file index with
  | some pg => .ok (.info ("Dumping page " ++ num index.toNat ++ " from table: " ++ fileName ++ "\n" ++ pg.dump))
  | none => .ok (.error ("Failed to get page " ++ num index.toNat ++ " from table: " ++ fileName))

def initSystem (file : Option File) : Except Fault (LogLine ⊕ String) := do
  match ← fspHeaderPage file with
  | none => .ok (.inl (.error "Failed to get FSP header page from ibdata1 file."))
  | some _ =>
    match ← page file Ibdata1Reader.fspDictHdrPageNo with
    | none => .ok (.inl (.error "Failed to get dictionary header page from ibdata1 file."))
    | some pg => .ok (.inr ("Dictionary Header Page:\n" ++ pg.dump ++ endl))

end Decoder

end Innodb
