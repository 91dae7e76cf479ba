import Clarify.Disk.Files
import Clarify.Disk.Path
import Clarify.Project.Database
import Clarify.Tables.PageDraft

/-!
# Database files

A database is kept in one file of pages, which is read before each use and written when something
changed. An empty file is a database without tables. The mapping and the suspects are in the order
of their names, and the runs in that of their numbers; another table tells the largest number that
was ever used.
-/

namespace Clarify.Database

open Tables (Cell PageFile TableDraft)

/-! ## Values -/

/-- Reading of rows, which fails at a value that does not fit. -/
abbrev Fitting := Except DatabaseError

/-- The column of the given number in a row. A row may be shorter than its table. -/
def cellAt (row : PageFile.Row) (index : Nat) : Cell := row.cells.getD index .null

/-- The text in a value. -/
def textOf (f : PageFile) (columns : List String) (index : Nat) (cell : Cell) : Fitting String :=
  match cell with
  | .text bytes => (f.encoding.decode bytes).mapError fun fault => .badText index fault.message
  | other => .error (.wrongKind other.word index (columns.getD index ""))

/-- How many numbers a counter can tell apart. -/
def counterBound : Int := 0x10000000000000000

/-- The count in a value. Counts from a certain one on are written as negative numbers. -/
def countOf (columns : List String) (index : Nat) (cell : Cell) : Fitting Nat :=
  match cell with
  | .integer n => .ok (n % counterBound).toNat
  | other => .error (.wrongKind other.word index (columns.getD index ""))

/-- A text to be written. -/
def textCell (text : String) : Cell := .text (Utf8.encode text)

/-- A count to be written. -/
def countCell (n : Nat) : Cell := .integer (Int.bmod n counterBound.toNat)

/-! ## Rows -/

/-- The columns of the mapping. -/
def mappingColumns : List String := ["old_name", "new_name", "origin", "updated_at"]

/-- The entry of the mapping in a row. -/
def mappingOf (f : PageFile) (row : PageFile.Row) : Fitting (String × MappingRow) := do
  let text (index : Nat) : Fitting String := textOf f mappingColumns index (cellAt row index)
  let origin ← text 2
  return (← text 0, { newName := ← text 1, origin, updatedAt := ← text 3 })

/-- An entry of the mapping as a row. -/
def mappingCells (old : String) (row : MappingRow) : List Cell :=
  [old, row.newName, row.origin, row.updatedAt].map textCell

/-- The suspect in a row. -/
def suspectOf (f : PageFile) (row : PageFile.Row) : Fitting String :=
  textOf f ["name"] 0 (cellAt row 0)

/-- The run in a row. Its number is that of the row. -/
def runOf (f : PageFile) (row : PageFile.Row) : Fitting RunRow := do
  let cell (index : Nat) : Cell := cellAt row (index + 1)
  let text (index : Nat) : Fitting String := textOf f RunRecord.fields index (cell index)
  let count (index : Nat) : Fitting Nat := countOf RunRecord.fields index (cell index)
  let status ← text 2
  return {
    number := row.number?.getD 0, status
    record := {
      input := ← text 0, output := ← text 1, status := (RunStatus.ofText? status).getD .failed
      transformed := ← count 3, skipped := ← count 4, literalsRecovered := ← count 5
      methodsRemoved := ← count 6, startedAt := ← text 7, finishedAt := ← text 8 } }

/-- A run as a row. -/
def runCells (row : RunRow) : List Cell :=
  let r := row.record
  [.null, textCell r.input, textCell r.output, textCell row.status, countCell r.transformed,
    countCell r.skipped, countCell r.literalsRecovered, countCell r.methodsRemoved,
    textCell r.startedAt, textCell r.finishedAt]

/-! ## Reading -/

/-- The name of the table with the largest numbers that were ever used. -/
def sequenceName : String := "sqlite_sequence"

/-- The rows of a table. -/
def rowsOf (f : PageFile) (places : Option (List (String × Nat))) (name : String) :
    Fitting (List PageFile.Row) :=
  match places with
  | none => .error .malformed
  | some places =>
    match places.lookup name with
    | none => .error (.noTable name)
    | some page =>
      match f.rows? page with
      | some rows => .ok rows
      | none => .error .malformed

/-- The largest number that was ever used for a run, by the table that tells of it. -/
def lastRunOf (f : PageFile) (rows : List PageFile.Row) : Int :=
  rows.foldl (fun last row =>
    match row.cells with
    | [name, .integer n] => if f.text? name = some Table.runs.name then max last n else last
    | _ => last) 0

/-- Why something could not be read. -/
def faultOf {α : Type} : Fitting α → Option DatabaseError
  | .ok _ => none
  | .error e => some e

/-- The database in a file of pages. -/
def ofPages (f : PageFile) : Database :=
  let places := f.tables?
  let rows (name : String) : Fitting (List PageFile.Row) := rowsOf f places name
  let mappings := do (← rows Table.mappings.name).mapM (mappingOf f)
  let suspects := do (← rows Table.suspects.name).mapM (suspectOf f)
  let runs := do (← rows Table.runs.name).mapM (runOf f)
  let numbers := (runs.toOption.getD []).map RunRow.number
  { version := f.version
    mappings := .ofList (mappings.toOption.getD [])
    suspects := Suspects.empty.insertAll (suspects.toOption.getD [])
    runs := runs.toOption.getD []
    lastRun := numbers.foldl max (lastRunOf f ((rows sequenceName).toOption.getD []))
    fault? := fun
      | .mappings => faultOf mappings
      | .suspects => faultOf suspects
      | .runs => faultOf runs }

/-- The length up to which a file counts as empty. -/
def emptyLength : Nat := 1

/-- The database in the bytes of a file. -/
def decode (bytes : Bytes) : Except DatabaseError Database :=
  if bytes.length ≤ emptyLength then .ok blank
  else
    match PageFile.ofBytes bytes.toArray with
    | .ok f => .ok (ofPages f)
    | .error .foreign => .error .noDatabase
    | .error .malformed => .error .malformed

/-! ## Writing -/

/-- A table of rows in the order of their first column. -/
def keyedTable (name columns : String) (rows : List (List Cell)) : TableDraft where
  name := name
  statement := s!"CREATE TABLE {name} ({columns}) WITHOUT ROWID"
  isNumbered := false
  rows := rows.map fun cells => { number? := none, cells }

/-- A table of rows with numbers. -/
def numberedTable (name columns : String) (rows : List (Int × List Cell)) : TableDraft where
  name := name
  statement := s!"CREATE TABLE {name}({columns})"
  isNumbered := true
  rows := rows.map fun (n, cells) => { number? := some n, cells }

/-- The draft of a table. -/
def draftOf (d : Database) : Table → TableDraft
  | .mappings =>
    keyedTable Table.mappings.name
      ("old_name TEXT PRIMARY KEY, new_name TEXT NOT NULL, origin TEXT NOT NULL, "
        ++ "updated_at TEXT NOT NULL")
      (d.mappings.toList.map fun (old, row) => mappingCells old row)
  | .suspects =>
    keyedTable Table.suspects.name "name TEXT PRIMARY KEY"
      (d.suspects.toList.map fun name => [textCell name])
  | .runs =>
    numberedTable Table.runs.name
      ("id INTEGER PRIMARY KEY AUTOINCREMENT, input TEXT NOT NULL, output TEXT NOT NULL, "
        ++ "status TEXT NOT NULL, transformed INTEGER NOT NULL DEFAULT 0, "
        ++ "skipped INTEGER NOT NULL DEFAULT 0, literals_recovered INTEGER NOT NULL DEFAULT 0, "
        ++ "methods_removed INTEGER NOT NULL DEFAULT 0, started_at TEXT NOT NULL, "
        ++ "finished_at TEXT NOT NULL")
      (d.runs.map fun row => (row.number, runCells row))

/-- The draft of the table with the largest numbers that were ever used. -/
def sequenceDraft (d : Database) : TableDraft :=
  let rows := if d.lastRun = 0 then [] else
    [((1 : Int), [textCell Table.runs.name, .integer d.lastRun])]
  numberedTable sequenceName "name,seq" rows

/-- The bytes of a database. A table that is of no use is left out. -/
def encode (d : Database) : Bytes :=
  let useful := tables.filter fun table => (d.fault? table).isNone
  Tables.PageDraft.fileOf d.version (useful.map d.draftOf ++ [d.sequenceDraft])

/-! ## Where a database is -/

/-- The number of bytes that the path of a database may not reach. -/
def pathLimit : Nat := 512

/-- What is put behind the path of a database for a file that is needed while it is changed. -/
def journalEnding : String := "-journal"

variable {m : Type → Type} [Monad m] [Files m]

/-- The path that is reached by steps from a row of names, the last one first. Two dots lead out
of whatever there is, and names that nothing is found for do no harm. -/
def follow (names : List String) : List String → m (Option (List String))
  | [] => return some names
  | step :: rest => do
    if step = "." then follow names rest
    else if step = ".." then follow names.tail rest
    else
      let names := step :: names
      let path := "/" ++ "/".intercalate names.reverse
      if pathLimit ≤ path.utf8ByteSize then return none
      match ← Files.kind path with
      | .ok _ | .error .missing => follow names rest
      | .error _ => return none

/-- The path of a database without detours. -/
def locate (path : String) : m (Except DatabaseError String) := do
  let here ← Files.workingDirectory
  let above := if Path.isAbsolute path then [] else Path.pieces here
  match ← follow [] (above ++ Path.pieces path) with
  | some (name :: names) =>
    let place := "/" ++ "/".intercalate (name :: names).reverse
    if pathLimit < place.utf8ByteSize + journalEnding.length then return .error (.cannotOpen path)
    return .ok place
  | _ => return .error (.cannotOpen path)

/-! ## Access -/

/-- The database in a file, and where that is; a file that is missing is begun. -/
def read (path : String) : m (Except DatabaseError (String × Database)) := do
  match ← locate path with
  | .error e => return .error e
  | .ok place =>
    match ← Files.read place with
    | .ok bytes => return (decode bytes).map fun d => (place, d)
    | .error .missing =>
      match ← Files.write place [] with
      | .ok () => return .ok (place, blank)
      | .error _ => return .error (.cannotOpen path)
    | .error _ => return .error (.cannotOpen path)

/-- Puts a database into its file. -/
def write (place : String) (d : Database) : m (Except DatabaseError Unit) := do
  match ← Files.kind (place ++ journalEnding) with
  | .error .nameTooLong => return .error .cannotChange
  | _ =>
    match ← Files.write place d.encode with
    | .ok () => return .ok ()
    | .error _ => return .error .cannotChange

/-- Makes sure that a file holds a database with its tables in place (`ProjectDb::open`). -/
def «open» (path : String) : m (Except DatabaseError Unit) := do
  match ← read path with
  | .error e => return .error e
  | .ok (place, d) =>
    match d.migrate with
    | .error e => return .error e
    | .ok migrated => if migrated.version = d.version then return .ok () else write place migrated

/-- Asks something of a table of the database in a file. -/
def query {α : Type} (path : String) (table : Table)
    (question : Database → Except DatabaseError α) : m (Except DatabaseError α) := do
  match ← read path with
  | .error e => return .error e
  | .ok (_, d) =>
    match d.fault? table with
    | some e => return .error e
    | none => return question d

/-- Changes a table of the database in a file; tells what comes of it. -/
def update {α : Type} (path : String) (table : Table) (change : Database → α × Database) :
    m (Except DatabaseError α) := do
  match ← read path with
  | .error e => return .error e
  | .ok (place, d) =>
    match d.fault? table with
    | some e => return .error e
    | none =>
      let (result, d) := change d
      match ← write place d with
      | .error e => return .error e
      | .ok () => return .ok result

end Clarify.Database
