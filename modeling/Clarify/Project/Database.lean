import Clarify.Naming.Mapping
import Clarify.Naming.Suspects
import Clarify.Project.RunRecord

/-!
# The database of a project

Three tables: the mapping of names, the suspects, and the history of runs. A manual entry of the
mapping is replaced only by another manual one. Origins and statuses are held as they were
written, and are understood when the tables are read. Runs are numbered, and no number is used
twice. A table may be missing or damaged, which is told when it is needed.

Results:
* `row_upsert_self`, `row_upsert_of_ne`: what a write does to the row of each name.
-/

namespace Clarify

/-- Why a database is of no use (`DbError`). -/
inductive DatabaseError where
  | unknownOrigin (text : String)
  | unknownStatus
  | unsupportedVersion (found : Int)
  | cannotOpen (path : String)
  /-- There is no room beside the file for what is needed while it is changed. -/
  | cannotChange
  /-- Another file is in the place of the one that was opened. -/
  | moved
  | noDatabase
  | malformed
  | noTable (name : String)
  /-- A value is not of the kind that a column is for. -/
  | wrongKind (kind : String) (index : Nat) (column : String)
  | badText (index : Nat) (problem : String)
deriving Repr, DecidableEq

namespace DatabaseError

/-- The latest version of the tables (`CURRENT_SCHEMA_VERSION`). -/
def currentVersion : Int := 1

/-- What is wrong, in the words of the store behind the tables. -/
def storeChain : DatabaseError → List String
  | unknownOrigin text =>
    ["Conversion error from type Text at index: 2, " ++ Origin.unknownMessage text,
      Origin.unknownMessage text]
  | unknownStatus => ["Query is not read-only"]
  | unsupportedVersion _ => []
  | cannotOpen path =>
    ["unable to open database file: " ++ path, "Error code 14: Unable to open the database file"]
  | cannotChange =>
    ["unable to open database file", "Error code 14: Unable to open the database file"]
  | moved =>
    ["attempt to write a readonly database",
      "Error code 1032: Database cannot be modified because database file has moved"]
  | noDatabase =>
    ["file is not a database", "Error code 26: File opened that is not a database file"]
  | malformed =>
    ["database disk image is malformed", "Error code 11: The database disk image is malformed"]
  | noTable name => ["no such table: " ++ name, "Error code 1: SQL error or missing database"]
  | wrongKind kind index column =>
    [s!"Invalid column type {kind} at index: {index}, name: {column}"]
  | badText index problem =>
    [s!"Conversion error from type Text at index: {index}, {problem}", problem]

/-- An error and the causes behind it. -/
def chain (e : DatabaseError) : List String :=
  match e.storeChain with
  | cause :: causes => ("SQLite error: " ++ cause) :: cause :: causes
  | [] =>
    match e with
    | unsupportedVersion found =>
      [s!"Unsupported schema version {found}; supported range is 0..={currentVersion}"]
    | _ => []

/-- The wording of an error. -/
def message (e : DatabaseError) : String := e.chain.headD ""

end DatabaseError

/-- A row of the mapping under its old name. -/
structure MappingRow where
  newName : String
  /-- The origin as it is written. -/
  origin : String
  updatedAt : String
deriving Repr, DecidableEq

/-- An entry of the mapping, as it is listed. -/
structure MappingRecord where
  oldName : String
  newName : String
  origin : Origin
  updatedAt : String
deriving Repr, DecidableEq

/-- An entry to be printed. -/
def MappingRecord.toOutput (r : MappingRecord) : Json.Output :=
  .record [
    ("old_name", .text r.oldName), ("new_name", .text r.newName), ("origin", .text r.origin.word),
    ("updated_at", .text r.updatedAt)]

/-- A run in the history under its number, with its status as it is written. -/
structure RunRow where
  number : Int
  record : RunRecord
  status : String
deriving Repr, DecidableEq

/-- The tables by what they hold. -/
inductive Database.Table where
  | mappings
  | suspects
  | runs
deriving Repr, DecidableEq

/-- The name of a table. -/
def Database.Table.name : Table → String
  | mappings => "name_mappings"
  | suspects => "suspect_methods"
  | runs => "deobf_runs"

/-- The tables (`ProjectDb`). -/
structure Database where
  version : Int
  mappings : Std.TreeMap String MappingRow
  suspects : Suspects
  /-- The runs, the earliest first. -/
  runs : List RunRow
  /-- The largest number that a run ever had. -/
  lastRun : Int
  /-- Why a table is of no use, if it is. -/
  fault? : Database.Table → Option DatabaseError

namespace Database

/-- A database without tables. -/
def blank : Database where
  version := 0
  mappings := ∅
  suspects := .empty
  runs := []
  lastRun := 0
  fault? table := some (.noTable table.name)

/-- Every table. -/
def tables : List Table := [.mappings, .suspects, .runs]

/-- The database with its tables in place, unless it is of a later version (`apply_migrations`). -/
def migrate (d : Database) : Except DatabaseError Database :=
  if DatabaseError.currentVersion < d.version then .error (.unsupportedVersion d.version)
  else if d.version = DatabaseError.currentVersion then .ok d
  else if tables.any fun table => d.fault? table = some .malformed then .error .malformed
  else .ok { d with version := DatabaseError.currentVersion, fault? := fun _ => none }

/-- The database marked with another version. One that is too large to be written down counts as
zero. -/
def withVersion (d : Database) (version : Int) : Database :=
  { d with version := if -0x80000000 ≤ version ∧ version < 0x80000000 then version else 0 }

/-! ## The mapping -/

/-- The row of an old name. -/
def row? (d : Database) (old : String) : Option MappingRow := d.mappings[old]?

/-- The row for an entry. -/
def rowOf (r : MappingRecord) : MappingRow := ⟨r.newName, r.origin.word, r.updatedAt⟩

/-- Whether an entry may be written over what is there. -/
def mayWrite (d : Database) (r : MappingRecord) : Bool :=
  match d.row? r.oldName with
  | some row => row.origin ≠ Origin.manual.word || r.origin = .manual
  | none => true

/-- Writes an entry, if it may be written; tells whether it was (`ProjectDb::upsert_mapping`). -/
def upsert (d : Database) (r : MappingRecord) : Bool × Database :=
  if d.mayWrite r then (true, { d with mappings := d.mappings.insert r.oldName (rowOf r) })
  else (false, d)

/-- Writes entries one after the other; tells how many were written (`ProjectDb::save_mappings`). -/
def save (d : Database) (records : List MappingRecord) : Nat × Database :=
  records.foldl (fun (count, d) r =>
    let (written, d) := d.upsert r
    (if written then count + 1 else count, d)) (0, d)

/-- All entries, ordered by old name (`ProjectDb::list_mappings`). -/
def listMappings (d : Database) : Except DatabaseError (List MappingRecord) :=
  d.mappings.toList.mapM fun (old, row) =>
    match Origin.ofText? row.origin with
    | some origin => .ok ⟨old, row.newName, origin, row.updatedAt⟩
    | none => .error (.unknownOrigin row.origin)

/-- Deletes an entry; tells how many there were (`ProjectDb::delete_mapping`). -/
def delete (d : Database) (old : String) : Nat × Database :=
  (if d.mappings.contains old then 1 else 0, { d with mappings := d.mappings.erase old })

/-! ## Suspects and runs -/

/-- Adds a suspect; tells whether the name is new (`ProjectDb::add_suspect`). -/
def addSuspect (d : Database) (name : String) : Bool × Database :=
  (!d.suspects.contains name, { d with suspects := d.suspects.insert name })

/-- Adds a run; tells its number (`ProjectDb::insert_run`). -/
def insertRun (d : Database) (r : RunRecord) : Int × Database :=
  let number := d.lastRun + 1
  (number, { d with runs := d.runs ++ [⟨number, r, r.status.word⟩], lastRun := number })

/-- All runs, the earliest first (`ProjectDb::list_runs`). -/
def listRuns (d : Database) : Except DatabaseError (List RunRecord) :=
  d.runs.mapM fun row =>
    match RunStatus.ofText? row.status with
    | some status => .ok { row.record with status }
    | none => .error .unknownStatus

/-- The database with another origin in all rows of the mapping. -/
def forceOrigin (d : Database) (origin : String) : Database :=
  { d with mappings := d.mappings.map fun _ row => { row with origin } }

/-- The database with another status in all runs. -/
def forceStatus (d : Database) (status : String) : Database :=
  { d with runs := d.runs.map fun row => { row with status } }

/-! ## To and from the mapping of a run -/

/-- A mapping that takes in the entries of the database; tells how many there are
(`MappingStore::load_from_db`). -/
def loadInto (d : Database) (m : Mapping) : Except DatabaseError (Nat × Mapping) := do
  let records ← d.listMappings
  return (records.length, records.foldl (fun m r => m.load r.oldName r.newName r.origin) m)

/-- Writes all entries of a mapping; tells how many were written (`MappingStore::save_to_db`). -/
def saveFrom (d : Database) (m : Mapping) (updatedAt : String) : Nat × Database :=
  d.save (m.toList.map fun (old, entry) => ⟨old, entry.newName, entry.origin, updatedAt⟩)

/-! ## What a write does -/

theorem row_upsert_self (d : Database) (r : MappingRecord) :
    (d.upsert r).2.row? r.oldName =
      if d.mayWrite r then some (rowOf r) else d.row? r.oldName := by
  unfold upsert
  split <;> simp [row?]

theorem row_upsert_of_ne (d : Database) (r : MappingRecord) {old : String} (h : r.oldName ≠ old) :
    (d.upsert r).2.row? old = d.row? old := by
  unfold upsert
  split <;> simp [row?, Std.TreeMap.getElem?_insert, h]

end Database

end Clarify
