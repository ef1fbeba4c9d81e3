import Innodb.TableReader

/-!
# One reader for each table

The path under which a table's reader is kept determines the database and the
table, so that two tables are never served by one reader, and one table is
always served by the same.
-/

namespace Innodb

def tablePath (dataDir db table : String) : String := dataDir ++ "/" ++ db ++ "/" ++ table ++ ".ibd"

theorem tablePath_inj {dataDir db table db' table' : String} (hdb : '/' ∉ db.toList) (htable : '/' ∉ table.toList) :
    tablePath dataDir db table = tablePath dataDir db' table' ↔ db = db' ∧ table = table' := by
  refine ⟨fun h => ?_, fun h => by rw [h.1, h.2]⟩
  have hlist := congrArg String.toList h
  have hslash : "/".toList = ['/'] := by decide
  have hibd : '/' ∉ ".ibd".toList := by decide
  simp only [tablePath, String.toList_append, hslash, List.append_assoc, List.cons_append,
    List.nil_append, List.append_cancel_left_eq, List.cons.injEq, true_and] at hlist
  have hrest : '/' ∉ table.toList ++ ".ibd".toList := fun hmem => (List.mem_append.mp hmem).elim htable hibd
  obtain ⟨hdbs, _, htables⟩ := (List.append_cons_inj_of_notMem hdb hrest).mp hlist
  exact ⟨String.toList_inj.mp hdbs, String.toList_inj.mp (List.append_cancel_right htables)⟩

namespace MySQLDataReader

def getTableReaders : List (String × String) → MySQLDataReader → List (Option TableReaderPtr) × MySQLDataReader
  | [], r => ([], r)
  | (dbName, tableName) :: calls, r =>
    let (result, r) := r.getTableReader dbName tableName
    let (results, r) := getTableReaders calls r
    (result :: results, r)

/-- What holds of the reader of a data directory throughout: reader 0 is the
system tablespace's, and every other reader kept is for the path it is kept
under. -/
structure Registry (dir : String) (r : MySQLDataReader) : Prop where
  dataDir : r.dataDir = dir
  system : r.ibdata1Reader = some 0
  systemFile : ∃ t, r.heap[0]? = some t ∧ t.fileName = dir ++ "/ibdata1"
  entry : ∀ {path p}, r.tableReaders.lookup path = some p →
    p ≠ 0 ∧ ∃ t, r.heap[p]? = some t ∧ t.fileName = path

theorem registry_new (dir : String) : Registry dir (new dir) :=
  ⟨rfl, rfl, ⟨_, rfl, rfl⟩, fun h => by simp [new] at h⟩

theorem Registry.eq_iff {dir : String} {r : MySQLDataReader} (hr : Registry dir r) {path path' : String}
    {p p' : TableReaderPtr} (hp : r.tableReaders.lookup path = some p) (hp' : r.tableReaders.lookup path' = some p') :
    p = p' ↔ path = path' := by
  constructor
  · intro h
    obtain ⟨-, t, ht, hname⟩ := hr.entry hp
    obtain ⟨-, t', ht', hname'⟩ := hr.entry hp'
    rw [← h, ht] at ht'
    rw [← hname, ← hname', Option.some.inj ht']
  · intro h
    rw [h, hp'] at hp
    exact (Option.some.inj hp).symm

/-- The reader `c` is to be given: the system's, or the one under its path. -/
def Serves (dir : String) (r : MySQLDataReader) (c : String × String) (p : TableReaderPtr) : Prop :=
  if c.2 = "ibdata1" then p = 0 else r.tableReaders.lookup (tablePath dir c.1 c.2) = some p

def Keeps (r r' : MySQLDataReader) : Prop :=
  ∀ path p, r.tableReaders.lookup path = some p → r'.tableReaders.lookup path = some p

theorem Keeps.serves {r r' : MySQLDataReader} (hk : Keeps r r') {dir : String} {c : String × String}
    {p : TableReaderPtr} (h : Serves dir r c p) : Serves dir r' c p := by
  unfold Serves at *
  split at h
  · rwa [if_pos ‹_›]
  · rw [if_neg ‹_›]
    exact hk _ _ h

theorem Registry.add {dir : String} {r : MySQLDataReader} (hr : Registry dir r) {path : String}
    (hnew : r.tableReaders.lookup path = none) {t : TableReader} (ht : t.fileName = path) :
    Registry dir { r with heap := r.heap ++ [t], tableReaders := r.tableReaders.insert path r.heap.length } ∧
      Keeps r { r with heap := r.heap ++ [t], tableReaders := r.tableReaders.insert path r.heap.length } := by
  obtain ⟨t₀, ht₀, hname₀⟩ := hr.systemFile
  have hlt : 0 < r.heap.length := (List.getElem?_eq_some_iff.mp ht₀).1
  constructor
  · refine ⟨hr.dataDir, hr.system, ⟨t₀, List.getElem?_append_left hlt ▸ ht₀, hname₀⟩, fun {path' p} hp => ?_⟩
    by_cases hpath : path' = path
    · subst hpath
      rw [AList.lookup_insert] at hp
      rw [← Option.some.inj hp]
      exact ⟨hlt.ne', t, List.getElem?_concat_length, ht⟩
    · rw [AList.lookup_insert_ne hpath] at hp
      obtain ⟨hne, u, hu, hname⟩ := hr.entry hp
      have hin := (List.getElem?_eq_some_iff.mp hu).1
      exact ⟨hne, u, List.getElem?_append_left hin ▸ hu, hname⟩
  · intro path' p hp
    have hpath : path' ≠ path := fun h => by rw [h, hnew] at hp; cases hp
    exact (AList.lookup_insert_ne hpath).trans hp

theorem getTableReader_hit {r : MySQLDataReader} {db table : String} (hne : table ≠ "ibdata1") {p : TableReaderPtr}
    (hp : r.tableReaders.lookup (tablePath r.dataDir db table) = some p) :
    r.getTableReader db table = (some p, r) := by
  rw [tablePath] at hp
  simp only [getTableReader, if_neg hne, hp]

/-- On a miss the path is not in the map, so that `emplace` puts it there. -/
theorem getTableReader_miss {r : MySQLDataReader} {db table : String} (hne : table ≠ "ibdata1")
    (hnew : r.tableReaders.lookup (tablePath r.dataDir db table) = none) :
    r.getTableReader db table = (some r.heap.length,
      { r with
        heap := r.heap ++ [TableReader.new (tablePath r.dataDir db table) r.ibdata1Reader]
        tableReaders := r.tableReaders.insert (tablePath r.dataDir db table) r.heap.length }) := by
  rw [tablePath] at *
  simp only [getTableReader, if_neg hne, emplace, hnew, if_true]

theorem getTableReader_serves {dir : String} {r : MySQLDataReader} (hr : Registry dir r) (c : String × String) :
    ∃ p r', r.getTableReader c.1 c.2 = (some p, r') ∧ Serves dir r' c p ∧ Registry dir r' ∧ Keeps r r' := by
  have hrefl : Keeps r r := fun _ _ h => h
  obtain rfl := hr.dataDir
  unfold Serves
  by_cases hsys : c.2 = "ibdata1"
  · refine ⟨0, r, ?_, by rw [if_pos hsys], hr, hrefl⟩
    rw [getTableReader, if_pos hsys, hr.system]
  · cases hp : r.tableReaders.lookup (tablePath r.dataDir c.1 c.2) with
    | some p => exact ⟨p, r, getTableReader_hit hsys hp, by rwa [if_neg hsys], hr, hrefl⟩
    | none =>
      refine ⟨_, _, getTableReader_miss hsys hp, ?_, hr.add hp rfl⟩
      rw [if_neg hsys]
      exact AList.lookup_insert _

/-- Each call returns the reader it is to be given, which is still there at the end. -/
theorem getTableReaders_serves {dir : String} {r : MySQLDataReader} (hr : Registry dir r)
    (calls : List (String × String)) :
    ∃ ps r', getTableReaders calls r = (ps.map some, r') ∧ List.Forall₂ (Serves dir r') calls ps ∧
      Registry dir r' ∧ Keeps r r' := by
  induction calls generalizing r with
  | nil => exact ⟨[], r, rfl, .nil, hr, fun _ _ h => h⟩
  | cons c calls ih =>
    obtain ⟨p, r₁, hp, hserves, hr₁, hk₁⟩ := getTableReader_serves hr c
    obtain ⟨ps, r₂, hps, hall, hr₂, hk₂⟩ := ih hr₁
    refine ⟨p :: ps, r₂, ?_, .cons (hk₂.serves hserves) hall, hr₂, fun path q h => hk₂ _ _ (hk₁ path q h)⟩
    simp only [getTableReaders, hp, hps, List.map_cons]

/-- **One reader for each table.** `sys` is the reader of the system tablespace. -/
theorem getTableReaders_one_each (dir : String) (calls : List (String × String))
    (hcalls : ∀ c ∈ calls, '/' ∉ c.1.toList ∧ '/' ∉ c.2.toList) :
    ∃ (sys : TableReaderPtr) (ps : List TableReaderPtr) (r : MySQLDataReader), (new dir).ibdata1Reader = some sys ∧
      (∃ t, r.heap[sys]? = some t ∧ t.fileName = dir ++ "/ibdata1") ∧
      getTableReaders calls (new dir) = (ps.map some, r) ∧ ps.length = calls.length ∧
      (∀ (i : Nat) c p, calls[i]? = some c → ps[i]? = some p →
        if c.2 = "ibdata1" then p = sys
        else p ≠ sys ∧ ∃ t, r.heap[p]? = some t ∧ t.fileName = dir ++ "/" ++ c.1 ++ "/" ++ c.2 ++ ".ibd") ∧
      ∀ (i j : Nat) c c' p p', calls[i]? = some c → calls[j]? = some c' → ps[i]? = some p → ps[j]? = some p' →
        c.2 ≠ "ibdata1" → c'.2 ≠ "ibdata1" → (p = p' ↔ c.1 = c'.1 ∧ c.2 = c'.2) := by
  obtain ⟨ps, r, hrun, hall, hr, -⟩ := getTableReaders_serves (registry_new dir) calls
  have hserves : ∀ (i : Nat) c p, calls[i]? = some c → ps[i]? = some p → Serves dir r c p := by
    intro i c p hc hp
    obtain ⟨hi, rfl⟩ := List.getElem?_eq_some_iff.mp hc
    obtain ⟨hi', rfl⟩ := List.getElem?_eq_some_iff.mp hp
    exact (List.forall₂_iff_get.mp hall).2 i hi hi'
  refine ⟨0, ps, r, rfl, hr.systemFile, hrun, hall.length_eq.symm, fun i c p hc hp => ?_,
    fun i j c c' p p' hc hc' hp hp' hne hne' => ?_⟩
  · have h := hserves i c p hc hp
    unfold Serves at h
    split at h
    · rwa [if_pos ‹_›]
    · rw [if_neg ‹_›]
      exact hr.entry h
  · have h := hserves i c p hc hp
    have h' := hserves j c' p' hc' hp'
    simp only [Serves, if_neg hne] at h
    simp only [Serves, if_neg hne'] at h'
    obtain ⟨hdb, htable⟩ := hcalls c (List.mem_of_getElem? hc)
    exact (hr.eq_iff h h').trans (tablePath_inj hdb htable)

theorem getTableReaders_one_each_sample :
    ∃ p q r, getTableReaders [("shop", "orders"), ("shop", "ibdata1"), ("shop", "orders")] (new "/data") =
      ([some p, some q, some p], r) ∧ p ≠ q := by
  obtain ⟨sys, ps, r, -, -, hrun, hlen, hserved, hsame⟩ :=
    getTableReaders_one_each "/data" [("shop", "orders"), ("shop", "ibdata1"), ("shop", "orders")] (by decide)
  obtain ⟨p, q, p', rfl⟩ := List.length_eq_three.mp hlen
  have hp := hserved 0 _ p rfl rfl
  have hq := hserved 1 _ q rfl rfl
  obtain rfl := (hsame 0 2 _ _ p p' rfl rfl rfl rfl (by decide) (by decide)).mpr ⟨rfl, rfl⟩
  rw [if_neg (by decide)] at hp
  rw [if_pos rfl] at hq
  exact ⟨p, q, r, hrun, hq ▸ hp.1⟩

end MySQLDataReader

end Innodb
