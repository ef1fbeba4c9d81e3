import Innodb.Reader
import Mathlib.Data.List.AList

/-!
# Table readers (`table_reader.h`, `table_reader.cc`)

The reader of a data directory makes a table's reader when it is first asked
for and keeps it under the path of the table's file. It deletes none while it
lives: a `TableReader*` is an index into those made. A character of a name
stands for a `char` of the C string. What `get_table_reader` writes to the log
is left out.
-/

namespace Innodb

abbrev TableReaderPtr := Nat

structure TableReader where
  fileName : String
  fspReader : FileSpaceReader
  ibdata1Reader : Option TableReaderPtr

def TableReader.new (file : String) (ibdata1Reader : Option TableReaderPtr) : TableReader :=
  ⟨file, .new, ibdata1Reader⟩

abbrev TableReaders := AList fun _ : String => TableReaderPtr

/-- `emplace`: what is under the key afterwards, and whether it was put there. -/
def emplace (key : String) (p : TableReaderPtr) (m : TableReaders) : (TableReaderPtr × Bool) × TableReaders :=
  match m.lookup key with
  | some q => ((q, false), m)
  | none => ((p, true), m.insert key p)

structure MySQLDataReader where
  dataDir : String
  tableReaders : TableReaders
  ibdata1File : String
  ibdata1Reader : Option TableReaderPtr
  heap : List TableReader

namespace MySQLDataReader

def new (dataDir : String) : MySQLDataReader :=
  let ibdata1File := dataDir ++ "/ibdata1"
  ⟨dataDir, ∅, ibdata1File, some 0, [TableReader.new ibdata1File none]⟩

def getTableReader (dbName tableName : String) (r : MySQLDataReader) : Option TableReaderPtr × MySQLDataReader :=
  if tableName = "ibdata1" then (r.ibdata1Reader, r)
  else
    let fullPath := r.dataDir ++ "/" ++ dbName ++ "/" ++ tableName ++ ".ibd"
    match r.tableReaders.lookup fullPath with
    | some p => (some p, r)
    | none =>
      let tableReader := r.heap.length
      let r := { r with heap := r.heap ++ [TableReader.new fullPath r.ibdata1Reader] }
      let (result, readers) := emplace fullPath tableReader r.tableReaders
      let r := { r with tableReaders := readers }
      if result.2 then (some result.1, r) else (none, r)

end MySQLDataReader

end Innodb
