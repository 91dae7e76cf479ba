import Clarify.Project.Database
import Clarify.Run.RunError

/-!
# Why work on a project fails

An error says what was being done and what went wrong with it, and is told as a row of sentences,
each one the cause of the one before.
-/

namespace Clarify

/-- What was being done. -/
inductive Activity where
  | readConfig (path : String)
  | understandConfig
  | writeConfig (path : String)
  | createMetaDirectory (path : String)
  | createOutputsDirectory (path : String)
  | openDatabase (path : String)
  | createDatabase (path : String)
  | openLog (path : String)
  | readLog (path : String)
  | loadMappings
  | loadSuspects
  | saveMappings
  | recordRun
  | deobfuscate (input : String)
  | listMappings
  | listSuspects
  | listRuns
  | storeMapping
  | storeImported (old : String)
  | deleteMapping
  | addSuspect
  | readMappingFile (path : String)
  | understandMappingFile
  | writeMappingFile (path : String)
deriving Repr, DecidableEq

/-- The wording of a failure of what was being done. -/
def Activity.message : Activity → String
  | readConfig path => "Failed to read project config at " ++ path
  | understandConfig => "Failed to parse project config JSON"
  | writeConfig path => "Failed to write project config: " ++ path
  | createMetaDirectory path => "Failed to create meta dir: " ++ path
  | createOutputsDirectory path => "Failed to create outputs dir: " ++ path
  | openDatabase path => "Failed to open project database at " ++ path
  | createDatabase path => "Failed to initialize project database at " ++ path
  | openLog path => "Failed to open log " ++ path
  | readLog path => "Failed to read log " ++ path
  | loadMappings => "Failed to load name mappings"
  | loadSuspects => "Failed to load suspect methods"
  | saveMappings => "Failed to save name mappings"
  | recordRun => "Failed to record run"
  | deobfuscate input => s!"Deobfuscation of {input} failed"
  | listMappings => "Failed to list name mappings"
  | listSuspects => "Failed to list suspect methods"
  | listRuns => "Failed to list runs"
  | storeMapping => "Failed to store mapping"
  | storeImported old => "Failed to store mapping " ++ old
  | deleteMapping => "Failed to delete mapping"
  | addSuspect => "Failed to add suspect method"
  | readMappingFile path => "Failed to read mapping file " ++ path
  | understandMappingFile => "Mapping file must be a JSON object of strings"
  | writeMappingFile path => "Failed to write mapping file " ++ path

/-- What went wrong. -/
inductive Mishap where
  | file (e : FileError)
  | database (e : DatabaseError)
  | run (e : RunError)
  /-- A text has not the form that it should have. -/
  | form
deriving Repr, DecidableEq

/-- A mishap and the causes behind it. -/
def Mishap.chain : Mishap → List String
  | file e => [e.message]
  | database e => e.chain
  | run e => e.chain
  | form => ["unexpected value"]

/-- Why work on a project fails. -/
inductive ProjectError where
  | failed (activity : Activity) (mishap : Mishap)
  /-- A mapping that may not be stored, and the file that it stands in. -/
  | invalidMapping (old new : String) (file : Option String)
  | blankSuspect
  | noInput (path : String)
  /-- The run was broken off. -/
  | overflow
deriving Repr, DecidableEq

namespace ProjectError

/-- An error and the causes behind it. -/
def chain : ProjectError → List String
  | failed activity mishap => activity.message :: mishap.chain
  | invalidMapping old new file =>
    let place := match file with
      | some path => " in " ++ path
      | none => ""
    [s!"Invalid mapping '{old}' -> '{new}'{place}"]
  | blankSuspect => ["Suspect method name must not be empty"]
  | noInput path => ["Input archive does not exist: " ++ path]
  | overflow => [RunError.overflow.message]

/-- A cause with its lines indented, behind a number if there are several. -/
def indented (number : Option Nat) (cause : String) : String :=
  match number with
  | none => "    " ++ cause.replace "\n" "\n    "
  | some n => s!"    {n}: " ++ cause.replace "\n" "\n       "

/-- The lines that tell the causes of an error. -/
def causeLines : List String → List String
  | [] => []
  | [cause] => ["", "Caused by:", indented none cause]
  | causes => ["", "Caused by:"] ++ causes.zipIdx.map fun (cause, i) => indented (some i) cause

/-- An error as it is told to the user. -/
def render (e : ProjectError) : String :=
  match e.chain with
  | [] => "Error: "
  | message :: causes => "\n".intercalate (("Error: " ++ message) :: causeLines causes)

/-- An error in one line. -/
def oneLine (e : ProjectError) : String := ": ".intercalate e.chain

end ProjectError

end Clarify
