import Innodb.Page
import Innodb.Loop

/-!
# Records and the page directory of an index page (`headers.h`, `headers.cc`)

These functions work on addresses: they mask the pointer they are given to
find the page it is in.
-/

namespace Innodb

/-- An address at which `calloc` may place a page buffer. -/
structure Placement where
  base : UInt64
  nonnull : base ≠ 0
  aligned : base.toNat % 16 = 0
  fits : base.toNat + pageSize ≤ 2 ^ 64

def Placement.mem (p : Placement) (content : PageBuf) : Bytes :=
  fun k => bytes content (UInt64.ofNat k - p.base).toNat

theorem Placement.mem_add (p : Placement) (content : PageBuf) {k : Nat} (hk : k < 2 ^ 64) :
    p.mem content (p.base.toNat + k) = bytes content k := by
  have h : UInt64.ofNat (p.base.toNat + k) - p.base = UInt64.ofNat k := by
    rw [UInt64.ofNat_add, UInt64.ofNat_toNat, UInt64.add_comm, UInt64.add_sub_cancel]
  unfold Placement.mem
  rw [h, UInt64.toNat_ofNat_of_lt' hk]

/-! ## Record headers -/

abbrev recStatusOrdinary : UInt8 := 0
abbrev recStatusNodePtr : UInt8 := 1
abbrev recStatusInfimum : UInt8 := 2

abbrev pageData : UInt64 := 38 + 36 + 2 * 10
abbrev recNExtraBytes : UInt64 := 5
abbrev pageNewInfimum : UInt64 := pageData + recNExtraBytes
abbrev pageNewSupremum : UInt64 := pageData + 2 * recNExtraBytes + 8
abbrev pageNewSupremumEnd : UInt64 := pageNewSupremum + 8

namespace RecordHeader

abbrev recNewInfoBits : UInt64 := 5
abbrev recInfoBitsMask : UInt64 := 0xF0
abbrev recInfoBitsShift : UInt64 := 0
abbrev recNewNOwned : UInt64 := 5
abbrev recNOwnedMask : UInt64 := 0xF
abbrev recNOwnedShift : UInt64 := 0
abbrev recNewHeapNo : UInt64 := 4
abbrev recHeapNoMask : UInt64 := 0xFFF8
abbrev recHeapNoShift : UInt64 := 3
abbrev recNewStatus : UInt64 := 3
abbrev recNewStatusMask : UInt64 := 0x7
abbrev recNewStatusShift : UInt64 := 0
abbrev recNext : UInt64 := 2

def infoBits (b : Bytes) (rec : UInt64) : UInt8 :=
  (recGetBitField1 b rec recNewInfoBits recInfoBitsMask recInfoBitsShift).toUInt8

def numOfRecsOwned (b : Bytes) (rec : UInt64) : UInt8 :=
  (recGetBitField1 b rec recNewNOwned recNOwnedMask recNOwnedShift).toUInt8

def heapNoNew (b : Bytes) (rec : UInt64) : UInt16 :=
  recGetBitField2 b rec recNewHeapNo recHeapNoMask recHeapNoShift

def recStatus (b : Bytes) (rec : UInt64) : UInt8 :=
  (recGetBitField1 b rec recNewStatus recNewStatusMask recNewStatusShift).toUInt8

def nextOffs (b : Bytes) (rec : UInt64) : UInt16 :=
  let fieldValue := (machReadFrom2 b (rec - recNext).toNat).toUInt64
  if fieldValue = 0 then 0 else (alignOffset (rec + fieldValue) 16384).toUInt16

def nextPtr (b : Bytes) (rec : UInt64) : Option UInt64 :=
  let fieldValue := (machReadFrom2 b (rec - recNext).toNat).toUInt64
  if fieldValue = 0 then none else some (alignDown rec 16384 + alignOffset (rec + fieldValue) 16384)

end RecordHeader

/-! ## The page directory -/

namespace IndexPageDirectory

abbrev pageDirSlotSize : UInt64 := 2
abbrev pageDir : UInt64 := UInt64.ofNat FilHeader.filPageDataEnd

def getNthSlot (pg n : UInt64) : UInt64 := pg + 16384 - pageDir - (n + 1) * pageDirSlotSize

def getSlotRec (b : Bytes) (slot : UInt64) : UInt64 := pageAlign slot + (machReadFrom2 b slot.toNat).toUInt64

section
variable (content : PageBuf) (p : Placement)

def slotInPage (slot : UInt64) : Bool := decide ((slot - p.base).toNat + 2 ≤ pageSize)

def dumpSlot (i : Nat) : Except Fault Int64 :=
  let slot := getNthSlot p.base (UInt64.ofNat i)
  if slotInPage p slot then .ok (getSlotRec (p.mem content) slot - p.base).toInt64 else .error .outOfPage

def dumpSlots (nSlot : UInt64) : Except Fault (List Int64) := (List.range nSlot.toNat).mapM (dumpSlot content p)

def dump : Except Fault (List Int64) :=
  dumpSlots content p (IndexHeader.Raw.nOfDirSlots (p.mem content) p.base.toNat).toUInt64

end

end IndexPageDirectory

/-! ## The record chain -/

namespace Records

structure DumpState where
  cur : Option UInt64
  dumped : List UInt64

section
variable (content : PageBuf) (p : Placement)

def headerInPage (rec : UInt64) : Bool :=
  decide (5 ≤ (rec - p.base).toNat) && decide ((rec - p.base).toNat ≤ pageSize)

/-- One round. The header is read in any case, so a null record and one whose
header is not in the page are read out of the page. -/
def dumpRound (t : DumpState) : Except Fault DumpState := do
  let cur ← deref .outOfPage t.cur
  if !headerInPage p cur then .error .outOfPage
  else
    let b := p.mem content
    let status := RecordHeader.recStatus b cur
    if status = recStatusOrdinary ∨ status = recStatusInfimum then
      .ok ⟨some (p.base + (RecordHeader.nextOffs b cur).toUInt64), t.dumped ++ [cur]⟩
    else if status = recStatusNodePtr then .ok ⟨RecordHeader.nextPtr b cur, t.dumped ++ [cur]⟩
    else .error .failedAssert

def atSupremum (t : DumpState) : Bool := t.cur == some (p.base + pageNewSupremum)

/-- At most `n` rounds from the infimum; behind the loop the supremum is
dumped too. -/
def dump (n : Nat) : Except Fault DumpState := do
  let t ← Loop.rounds (!atSupremum p ·) (dumpRound content p) n ⟨some (p.base + pageNewInfimum), []⟩
  if atSupremum p t then .ok { t with dumped := t.dumped ++ [p.base + pageNewSupremum] } else .ok t

end

end Records

end Innodb
