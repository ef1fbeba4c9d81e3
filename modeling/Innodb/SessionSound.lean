import Innodb.DecoderSound
import Innodb.TableReaderSound

/-!
# Sessions

A caller puts one query after another to a reader, or one request after
another to the reader of a data directory, and sees the answers. They are what
each query and each request is answered by itself, from the files alone; the
caches do not show in them. Loops are run for at most `n` rounds, and nothing
is asked after one that goes on.
-/

namespace Innodb
open Agree

/-! ## Queries to a reader -/

inductive Query where
  | page (index : UInt32)
  | pageCount
  | xdesEntry (page index : UInt32)
  | inodeEntry (page index : UInt32)
  | leafInode (h : FsegHeader)
  | externalInode (h : FsegHeader)
  | xdesList (l : XDesEntryList)
  | inodeList (l : INodeEntryList)
  | space (fileName : String)

/-- What is seen of the result: of a page what it was made with, of a
descriptor what is decoded. -/
inductive Answer where
  | page (pg : Option Page)
  | pageCount (n : UInt32)
  | xdesEntry (e : Option XdesE)
  | inodeEntry (e : Option INodeE)
  | inodeArr (arr : Option (List INodeE))
  | xdesList (calls : List (XdesE × Addr)) (returned : Bool)
  | inodeList (calls : List (Page × Addr)) (returned : Bool)
  | space (text : Printed)

def Answer.last : Answer → Bool
  | .xdesList _ ret | .inodeList _ ret => !ret
  | .space text => text.isNone
  | _ => false

section
variable (file : Option File) (n : Nat)

def Query.ask : Query → FileSpaceReader → Except Fault (Answer × FileSpaceReader)
  | .page index, s => do
    let (p, s) ← getPage file index s
    match p with
    | none => .ok (.page none, s)
    | some p => .ok (.page (some (← s.page p).asMade), s)
  | .pageCount, s => do
    let (count, s) ← getPageCount file s
    .ok (.pageCount count, s)
  | .xdesEntry i index, s => do
    let (p, s) ← getPage file i s
    let (q, s) ← s.getXdesEntry (← deref .nullPage p) index
    match q with
    | none => .ok (.xdesEntry none, s)
    | some q => .ok (.xdesEntry (some (← s.xdes q).decoded), s)
  | .inodeEntry i index, s => do
    let (p, s) ← getPage file i s
    let pg ← s.page (← deref .nullPage p)
    .ok (.inodeEntry (← pg.getInodeEntry index), s)
  | .leafInode h, s => do
    let (arr, s) ← h.leafInode file s
    .ok (.inodeArr arr, s)
  | .externalInode h, s => do
    let (arr, s) ← h.externalInode file s
    .ok (.inodeArr arr, s)
  | .xdesList l, s => do
    let t ← traverseXdesList file (Callback.ignore file XdesE).run l n () s
    .ok (.xdesList (t.calls.map fun c => (c.1.decoded, c.2)) (returned l t), t.reader)
  | .inodeList l, s => do
    let t ← traverseInodeList file (Callback.ignore file Page).run l n () s
    .ok (.inodeList (t.calls.map fun c => (c.1.asMade, c.2)) (returned l t), t.reader)
  | .space fileName, s => do
    let (text, s) ← dumpSpace file fileName n s
    .ok (.space text, s)

namespace Decoder

def findInode (a : Addr) : Except Fault (Option (List INodeE)) := do
  match ← page file a.pageNumber with
  | none => .ok none
  | some pg => .ok (some (← asInodePage pg).2)

def inodeArrAt (a : Addr) : Except Fault (Option (List INodeE)) :=
  if !a.valid then .ok none else findInode file a

def ask : Query → Except Fault Answer
  | .page index => do .ok (.page (← page file index))
  | .pageCount => do .ok (.pageCount (← pageCount file))
  | .xdesEntry i index => do .ok (.xdesEntry (← xdesEntry (← deref .nullPage (← page file i)) index))
  | .inodeEntry i index => do .ok (.inodeEntry (← (← deref .nullPage (← page file i)).getInodeEntry index))
  | .leafInode h => do .ok (.inodeArr (← inodeArrAt file h.leafPageInodeAddr))
  | .externalInode h => do .ok (.inodeArr (← inodeArrAt file h.internalPageInodeAddr))
  | .xdesList l => do
    let t ← traverse (xdesRound file fun _ _ u => .ok u) l n ()
    .ok (.xdesList t.calls (returned l t))
  | .inodeList l => do
    let t ← traverse (inodeRound file fun _ _ u => .ok u) l n ()
    .ok (.inodeList t.calls (returned l t))
  | .space fileName => do .ok (.space (← dumpSpace file fileName n))

end Decoder

end

/-! ## Each query -/

section
variable {file : Option File} {s : FileSpaceReader}

theorem Page.getInodeEntry_asMade (pg : Page) (index : UInt32) : pg.asMade.getInodeEntry index = pg.getInodeEntry index := by
  obtain ⟨buf, fil, body⟩ := pg
  cases body <;> rfl

theorem findInode_agrees (hs : Reachable file s) (a : Addr) :
    Agrees (After file s fun s' => Both fun p arr => ∃ pg r, PageAt s' p pg ∧ Decoder.asInodePage pg = .ok r ∧ r.2 = arr)
      (findInode file a s) (Decoder.findInode file a) := by
  refine after_bind hs (getPage_agrees hs _) fun r b s₁ hst₁ hs₁ hpg => ?_
  cases hpg with
  | none => exact .ok ⟨hst₁, .none⟩
  | some hp =>
    refine hp.asInodePage.bind_eq fun x y _ hy _ => ?_
    exact .ok ⟨hst₁, .some ⟨_, y, hp, hy, rfl⟩⟩

theorem inodeArrAt_agrees (hs : Reachable file s) (a : Addr) :
    Agrees (Same file s) (inodeArrAt file a s) (Decoder.inodeArrAt file a) := by
  unfold inodeArrAt Decoder.inodeArrAt
  by_cases hv : (!a.valid) = true
  · rw [if_pos hv, if_pos hv]
    exact .ok ⟨.refl, rfl⟩
  · rw [if_neg hv, if_neg hv]
    refine (findInode_agrees hs a).bind_left fun r b h => ?_
    obtain ⟨p, s₁⟩ := r
    obtain ⟨hst₁, h⟩ := h
    cases h with
    | none => exact .ok ⟨hst₁, rfl⟩
    | some h =>
      obtain ⟨pg, x, hp, hx, rfl⟩ := h
      have hin := hp.asInodePage
      rw [hx] at hin
      obtain ⟨y, hy, -, harr⟩ := hin.to_ok
      simp only [hy, Loop.ok_bind, harr]
      exact .ok ⟨hst₁, rfl⟩

theorem Query.ask_agrees (hs : Reachable file s) (n : Nat) (q : Query) :
    Agrees (Same file s) (q.ask file n s) (Decoder.ask file n q) := by
  cases q with
  | page index =>
    refine after_bind hs (getPage_agrees hs index) fun r b s₁ hst₁ hs₁ hpg => ?_
    cases hpg with
    | none => exact .ok ⟨hst₁, rfl⟩
    | some hp =>
      obtain ⟨pg, hpg, rfl⟩ := hp.read
      simp only [hpg, Loop.ok_bind]
      exact .ok ⟨hst₁, rfl⟩
  | pageCount =>
    exact (pageCount_agrees hs).bind fun r b h => .ok ⟨h.1, congrArg Answer.pageCount h.2⟩
  | xdesEntry i index =>
    refine after_bind hs (getPage_agrees hs i) fun r b s₁ hst₁ hs₁ hpg => ?_
    refine (hpg.deref _).bind fun p pg hp => ?_
    refine after_bind hs₁ (getXdesEntry_agrees hs₁ hp index) fun r b s₂ hst₂ hs₂ hx => ?_
    cases hx with
    | none => exact .ok ⟨hst₁.trans hst₂, rfl⟩
    | some hq =>
      obtain ⟨e, he, rfl⟩ := hq.read
      simp only [he, Loop.ok_bind]
      exact .ok ⟨hst₁.trans hst₂, rfl⟩
  | inodeEntry i index =>
    refine after_bind hs (getPage_agrees hs i) fun r b s₁ hst₁ hs₁ hpg => ?_
    refine (hpg.deref _).bind fun p pg hp => ?_
    obtain ⟨pg', hp', rfl⟩ := hp.read
    simp only [hp', Loop.ok_bind, pg'.getInodeEntry_asMade]
    cases pg'.getInodeEntry index with
    | error e => exact .error e
    | ok e => exact .ok ⟨hst₁, rfl⟩
  | leafInode h =>
    exact (inodeArrAt_agrees hs h.leafPageInodeAddr).bind fun r b h => .ok ⟨h.1, congrArg Answer.inodeArr h.2⟩
  | externalInode h =>
    exact (inodeArrAt_agrees hs h.internalPageInodeAddr).bind fun r b h => .ok ⟨h.1, congrArg Answer.inodeArr h.2⟩
  | xdesList l =>
    have hf : FuncAgrees file XdesE.decoded Eq (Callback.ignore file XdesE).run fun _ _ u => .ok u :=
      fun _ _ _ _ _ _ huv => .ok ⟨.refl, huv⟩
    refine (traverse_agrees (fun t v h => xdesRound_agrees hf hs h) l n rfl).bind fun t v h => ?_
    rw [h.calls, h.returned]
    exact .ok ⟨h.steps, rfl⟩
  | inodeList l =>
    have hf : FuncAgrees file Page.asMade Eq (Callback.ignore file Page).run fun _ _ u => .ok u :=
      fun _ _ _ _ _ _ huv => .ok ⟨.refl, huv⟩
    refine (traverse_agrees (fun t v h => inodeRound_agrees hf hs h) l n rfl).bind fun t v h => ?_
    rw [h.calls, h.returned]
    exact .ok ⟨h.steps, rfl⟩
  | space fileName =>
    exact (dumpSpace_agrees hs fileName n).bind fun r b h => .ok ⟨h.1, congrArg Answer.space h.2⟩

/-- **Any queries.** The answers do not depend on what the reader did before. -/
theorem queries_afresh (hs : Reachable file s) (n : Nat) (qs : List Query) :
    answers (Query.ask file n) Answer.last qs s = afresh (Decoder.ask file n) Answer.last qs :=
  answers_eq_afresh (fun q _ ht => (q.ask_agrees ht n).mono fun _ _ h => ⟨ht.steps h.1, h.2⟩) _ qs s hs

theorem queries_afresh_four : answers (Query.ask (some onePageFile) 2) Answer.last
    [.xdesEntry 0 3, .pageCount, .xdesEntry 0 256, .pageCount] .new =
      [.ok (.xdesEntry (some (xdesAt (onePageFile.block 0) 3))), .ok (.pageCount 0), .error .outOfRange] :=
  (queries_afresh .refl 2 _).trans (by rfl)

end

/-! ## Requests to a data directory -/

inductive TableCall where
  | dumpPage (index : UInt32)
  | dump

structure Request where
  dbName : String
  tableName : String
  call : TableCall

inductive Output where
  | logged (line : LogLine)
  | printed (text : Printed)
  | noReader

def Output.last : Output → Bool
  | .printed text => text.isNone
  | _ => false

def TableReader.answer (disk : Disk) (n : Nat) : TableCall → TableReader → Except Fault (Output × TableReader)
  | .dumpPage index, t => do
    let (line, t) ← t.dumpPage disk index
    .ok (.logged line, t)
  | .dump, t => do
    let (text, t) ← t.dump disk n
    .ok (.printed text, t)

/-- The table's reader is asked for, and called. -/
def MySQLDataReader.serve (disk : Disk) (n : Nat) (q : Request) (r : MySQLDataReader) :
    Except Fault (Output × MySQLDataReader) :=
  let (p, r) := r.getTableReader q.dbName q.tableName
  match p.bind fun p => r.heap[p]?.map (p, ·) with
  | none => .ok (.noReader, r)
  | some (p, t) => do
    let (out, t) ← t.answer disk n q.call
    .ok (out, { r with heap := r.heap.set p t })

def Request.path (dir : String) (q : Request) : String :=
  if q.tableName = "ibdata1" then dir ++ "/ibdata1" else tablePath dir q.dbName q.tableName

def Decoder.serve (disk : Disk) (dir : String) (n : Nat) (q : Request) : Except Fault Output :=
  let path := q.path dir
  match q.call with
  | .dumpPage index => do .ok (.logged (← logPage (disk path) path index))
  | .dump => do .ok (.printed (← dumpSpace (disk path) path n))

/-- What holds of a data directory's reader throughout. -/
structure Ready (disk : Disk) (dir : String) (r : MySQLDataReader) : Prop where
  registry : MySQLDataReader.Registry dir r
  readers : ∀ t ∈ r.heap, Reachable (disk t.fileName) t.fspReader

section
variable {disk : Disk} {dir : String} {r : MySQLDataReader}

theorem Ready.new (disk : Disk) (dir : String) : Ready disk dir (MySQLDataReader.new dir) := by
  refine ⟨MySQLDataReader.registry_new dir, fun t ht => ?_⟩
  obtain rfl := List.mem_singleton.mp ht
  exact .refl

theorem getTableReader_heap (r : MySQLDataReader) (db table : String) {t : TableReader}
    (ht : t ∈ (r.getTableReader db table).2.heap) : t ∈ r.heap ∨ t.fspReader = .new := by
  by_cases hne : table = "ibdata1"
  · rw [MySQLDataReader.getTableReader, if_pos hne] at ht
    exact .inl ht
  · cases hp : r.tableReaders.lookup (tablePath r.dataDir db table) with
    | some p =>
      rw [MySQLDataReader.getTableReader_hit hne hp] at ht
      exact .inl ht
    | none =>
      rw [MySQLDataReader.getTableReader_miss hne hp] at ht
      rcases List.mem_append.mp ht with h | h
      · exact .inl h
      · exact .inr (List.mem_singleton.mp h ▸ rfl)

theorem Ready.getTableReader (hr : Ready disk dir r) (q : Request) : ∃ p t r',
    r.getTableReader q.dbName q.tableName = (some p, r') ∧ r'.heap[p]? = some t ∧ t.fileName = q.path dir ∧
      Ready disk dir r' := by
  obtain ⟨p, r', hget, hserves, hreg, -⟩ := MySQLDataReader.getTableReader_serves hr.registry (q.dbName, q.tableName)
  have hready : Ready disk dir r' := by
    refine ⟨hreg, fun t ht => ?_⟩
    rcases getTableReader_heap r q.dbName q.tableName (t := t) (by rw [hget]; exact ht) with h | h
    · exact hr.readers t h
    · rw [h]; exact .refl
  unfold MySQLDataReader.Serves at hserves
  unfold Request.path
  split at hserves
  · obtain ⟨t, ht, hname⟩ := hreg.systemFile
    subst hserves
    exact ⟨0, t, r', hget, ht, by rw [if_pos ‹_›]; exact hname, hready⟩
  · obtain ⟨-, t, ht, hname⟩ := hreg.entry hserves
    exact ⟨p, t, r', hget, ht, by rw [if_neg ‹_›]; exact hname, hready⟩

theorem Ready.set (hr : Ready disk dir r) {p : TableReaderPtr} {t : TableReader} (hp : r.heap[p]? = some t)
    {s : FileSpaceReader} (hs : Reachable (disk t.fileName) s) :
    Ready disk dir { r with heap := r.heap.set p { t with fspReader := s } } := by
  have hkeep : ∀ {p' : TableReaderPtr} {t' : TableReader}, r.heap[p']? = some t' →
      ∃ u : TableReader, (r.heap.set p { t with fspReader := s })[p']? = some u ∧ u.fileName = t'.fileName := by
    intro p' t' hp'
    by_cases h : p = p'
    · subst h
      rw [hp] at hp'
      cases hp'
      exact ⟨_, List.getElem?_set_self (List.getElem?_eq_some_iff.mp hp).1, rfl⟩
    · exact ⟨t', by rw [List.getElem?_set_ne h]; exact hp', rfl⟩
  refine ⟨⟨hr.registry.dataDir, hr.registry.system, ?_, fun hlookup => ?_⟩, Store.forall_set hr.readers hs⟩
  · obtain ⟨t₀, h₀, hname⟩ := hr.registry.systemFile
    obtain ⟨u, hu, hsame⟩ := hkeep h₀
    exact ⟨u, hu, hsame.trans hname⟩
  · obtain ⟨hne, t', ht', hname⟩ := hr.registry.entry hlookup
    obtain ⟨u, hu, hsame⟩ := hkeep ht'
    exact ⟨hne, u, hu, hsame.trans hname⟩

/-- The same answer, from a table's reader with nothing else changed but its file's reader. -/
def OfTable (disk : Disk) (t : TableReader) {α : Type} (x : α × TableReader) (a : α) : Prop :=
  (∃ s, Reachable (disk t.fileName) s ∧ x.2 = { t with fspReader := s }) ∧ x.1 = a

theorem tableReader_dumpPage_agrees {t : TableReader} (ht : Reachable (disk t.fileName) t.fspReader) (index : UInt32) :
    Agrees (OfTable disk t) (t.dumpPage disk index) (Decoder.logPage (disk t.fileName) t.fileName index) := by
  refine after_bind ht (getPage_agrees ht index) fun r b s₁ _ hs₁ hpg => ?_
  cases hpg with
  | none => exact .ok ⟨⟨s₁, hs₁, rfl⟩, rfl⟩
  | some hp =>
    obtain ⟨pg, hpg, rfl⟩ := hp.read
    simp only [hpg, Loop.ok_bind, pg.dump_asMade]
    exact .ok ⟨⟨s₁, hs₁, rfl⟩, rfl⟩

theorem tableReader_dump_agrees {t : TableReader} (ht : Reachable (disk t.fileName) t.fspReader) (n : Nat) :
    Agrees (OfTable disk t) (t.dump disk n) (Decoder.dumpSpace (disk t.fileName) t.fileName n) :=
  (dumpSpace_agrees ht t.fileName n).bind_left fun x _ h => .ok ⟨⟨x.2, ht.steps h.1, rfl⟩, h.2⟩

theorem Ready.serve (hr : Ready disk dir r) (n : Nat) (q : Request) :
    Agrees (fun x out => Ready disk dir x.2 ∧ x.1 = out) (r.serve disk n q) (Decoder.serve disk dir n q) := by
  obtain ⟨p, t, r', hget, hp, hname, hr'⟩ := hr.getTableReader q
  have ht := hr'.readers t (List.mem_of_getElem? hp)
  have hanswer : Agrees (OfTable disk t) (t.answer disk n q.call) (Decoder.serve disk dir n q) := by
    unfold TableReader.answer Decoder.serve
    rw [← hname]
    cases q.call with
    | dumpPage index =>
      exact (tableReader_dumpPage_agrees ht index).bind fun x a h => .ok ⟨h.1, congrArg Output.logged h.2⟩
    | dump => exact (tableReader_dump_agrees ht n).bind fun x a h => .ok ⟨h.1, congrArg Output.printed h.2⟩
  unfold MySQLDataReader.serve
  simp only [hget, Option.bind_some, hp, Option.map_some]
  refine hanswer.bind_left fun x out h => ?_
  obtain ⟨⟨s, hs, hx⟩, hout⟩ := h
  exact .ok ⟨hx ▸ hr'.set hp hs, hout⟩

/-- **Any requests.** What is dumped, and the line that a page is logged with,
come from the file under the request's own path, whatever other tables were
asked for before. The log lines of `get_table_reader`, which tell whether a
reader was cached, are not among the answers. -/
theorem requests_afresh (disk : Disk) (dir : String) (n : Nat) (qs : List Request) :
    answers (MySQLDataReader.serve disk n) Output.last qs (MySQLDataReader.new dir) =
      afresh (Decoder.serve disk dir n) Output.last qs :=
  answers_eq_afresh (fun q _ hr => hr.serve n q) _ qs _ (Ready.new disk dir)

end

end Innodb
