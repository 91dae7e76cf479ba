import Clarify.Project.MappingFile
import Clarify.Project.Project
import Clarify.Project.ReportOutput
import Clarify.Text.Blank

/-!
# Commands

What can be done with a project from the command line. A command works on the files of a project
and answers with lines of text.
-/

namespace Clarify

/-- A command. All but the first find the project at a root that is given as it was typed. -/
inductive Command where
  | create (name : Option String)
  | info (json : Bool)
  | run (input : String) (output : Option String) (overrides : RunOverrides) (json : Bool)
  | setMapping (old new : String)
  | listMappings (json : Bool)
  | deleteMapping (old : String)
  | importMappings (file : String)
  | exportMappings (file : Option String)
  | addSuspect (name : String)
  | listSuspects
  | listRuns (json : Bool)
  | showLog (tail : Option Nat)
deriving Repr, DecidableEq

namespace Command

variable {m : Type → Type} [Monad m] [Files m]

/-- The root that is meant by what was typed: a single dot is the working directory, and a path to
nothing is taken as it is (`canonicalize_or_current`). -/
def findRoot (root : String) : m String := do
  let here ← Files.workingDirectory
  if Path.same root "." then return here
  return (← Files.canonical? root).getD (Path.join here root)

/-- The layout of the project at a root. -/
def layoutAt (root : String) : m Layout := return ⟨← findRoot root⟩

/-- Opens the project at a root (`open_project`). -/
def openAt (root : String) : Work m Project := do
  Project.open (← (layoutAt root : m _))

/-! ## Making and describing projects -/

/-- Makes a project (`init_project_command`). -/
def createProject (root : String) (name : Option String) : Work m (List String) := do
  let l ← (layoutAt root : m _)
  let name := name.getD l.projectName
  Project.during (.createMetaDirectory l.metaDirectory) .file
    (Files.createDirectories l.metaDirectory)
  Project.during (.createOutputsDirectory l.outputsDirectory) .file
    (Files.createDirectories l.outputsDirectory)
  let config := ProjectConfig.new name (l.relative l.databasePath) (l.relative l.logPath)
  Project.during (.writeConfig l.configPath) .file (Project.writeText l.configPath config.print)
  Project.during (.createDatabase l.databasePath) .database (Database.open l.databasePath)
  return [
    "Initialized unravel project:",
    "  Name: " ++ name,
    "  Root: " ++ l.root,
    "  Config: " ++ l.configPath,
    "  DB path (relative): " ++ config.databasePath,
    "  Log path (relative): " ++ config.logPath,
    "  Outputs dir: " ++ l.outputsDirectory]

/-- A description of a project to be printed. -/
def infoOutput (p : Project) (mappings : Nat) (suspects : List String) (runs : Nat) :
    Json.Output :=
  .record [
    ("name", .text p.config.name),
    ("root", .text p.layout.root),
    ("config_file", .text p.layout.configPath),
    ("config_version", .text p.config.version),
    ("db_path", .text p.config.databasePath),
    ("log_path", .text p.config.logPath),
    ("pipeline", p.config.pipeline.output),
    ("layout", .record [
      ("meta_dir", .text p.layout.metaDirectory),
      ("outputs_dir", .text p.layout.outputsDirectory)]),
    ("mappings", .nat mappings),
    ("suspects", .list (suspects.map .text)),
    ("runs", .nat runs)]

/-- Whether a directory is there, in a line (`print_dir_status`). -/
def directoryLine (label path : String) (kind : Option FileKind) : String :=
  let found := if kind = some .directory then "OK" else "MISSING"
  s!"- {label}: {found} ({path})"

/-- Describes a project (`project_info_command`). -/
def describeProject (root : String) (json : Bool) : Work m (List String) := do
  let p ← openAt root
  let mappings ← Project.during .listMappings .database
    (Database.query p.databasePath .mappings Database.listMappings)
  let suspects ← Project.during .listSuspects .database
    (Database.query p.databasePath .suspects fun d => .ok d.suspects.toList)
  let runs ← (Database.query p.databasePath .runs Database.listRuns : m _)
  let runCount := match runs with
    | .ok runs => runs.length
    | .error _ => 0
  if json then return [(infoOutput p mappings.length suspects runCount).pretty]
  let metaKind ← (Files.kind? p.layout.metaDirectory : m _)
  let outputsKind ← (Files.kind? p.layout.outputsDirectory : m _)
  let c := p.config.pipeline
  let ml := if c.predicts then "on" else "off"
  return [
    "unravel Project Info",
    "====================",
    "Name: " ++ p.config.name,
    "Root: " ++ p.layout.root,
    "Config file: " ++ p.layout.configPath,
    "Config version: " ++ p.config.version,
    "DB path (config): " ++ p.config.databasePath,
    "Log path (config): " ++ p.config.logPath,
    s!"Pipeline: workers={c.workers} queue={c.queueCapacity} timeout={c.timeoutSeconds}s ml={ml}",
    "",
    "Directories:",
    directoryLine "Meta dir (.unravel)" p.layout.metaDirectory metaKind,
    directoryLine "Outputs dir" p.layout.outputsDirectory outputsKind,
    "",
    s!"Persisted mappings: {mappings.length}",
    s!"Suspect methods: {suspects.length}",
    s!"Runs: {runCount}"]

/-! ## Runs -/

/-- Runs over an archive of a project (`run_command`). -/
def runProject (d : Disturbance) (root input : String) (output : Option String)
    (overrides : RunOverrides) (json : Bool) : Work m (List String) := do
  let p ← openAt root
  let input := p.layout.resolve input
  if (← (Files.kind? input : m _)) ≠ some .file then throw (.noInput input)
  let report ← p.run d input (output.map p.layout.resolve) overrides
  return if json then [report.toOutput.pretty] else report.lines

/-- A run of the history in a line. -/
def runLine (r : RunRecord) : String :=
  s!"  - [{r.status.word}] {r.input} -> {r.output} transformed={r.transformed} "
    ++ s!"skipped={r.skipped} literals={r.literalsRecovered} removed={r.methodsRemoved} "
    ++ s!"at {r.finishedAt}"

/-- The lines of a list under a heading. -/
def listing (heading : String) (items : List String) : List String :=
  s!"{heading} ({items.length}):" :: if items.isEmpty then ["  (none)"] else items

/-- Lists the history of a project (`runs_list_command`). -/
def listProjectRuns (root : String) (json : Bool) : Work m (List String) := do
  let p ← openAt root
  let runs ← Project.during .listRuns .database
    (Database.query p.databasePath .runs Database.listRuns)
  if json then return [(Json.Output.list (runs.map RunRecord.toOutput)).pretty]
  return listing "Runs" (runs.map runLine)

/-- Shows the run log of a project (`log_show_command`). -/
def showProjectLog (root : String) (tail : Option Nat) : Work m (List String) := do
  let p ← openAt root
  if (← (Files.kind? p.logPath : m _)).isNone then return [s!"(log is empty: {p.logPath})"]
  Project.during (.readLog p.logPath) .file (Project.tail p.logPath tail)

/-! ## The mapping -/

/-- Sets a manual mapping (`map_set_command`). -/
def setProjectMapping (root old new : String) : Work m (List String) := do
  if !MappingFile.isStorable old new then throw (.invalidMapping old new none)
  let p ← openAt root
  let now ← (Files.now : m _)
  let _ ← Project.during .storeMapping .database
    (Database.update p.databasePath .mappings fun d => d.setManual old new now)
  return [s!"Mapped {old} -> {new} (manual)"]

/-- A mapping in a line. -/
def mappingLine (r : MappingRecord) : String :=
  s!"  - {r.oldName} -> {r.newName} [{r.origin.word}]"

/-- Lists the mapping of a project (`map_list_command`). -/
def listProjectMappings (root : String) (json : Bool) : Work m (List String) := do
  let p ← openAt root
  let mappings ← Project.during .listMappings .database
    (Database.query p.databasePath .mappings Database.listMappings)
  if json then return [(Json.Output.list (mappings.map MappingRecord.toOutput)).pretty]
  return listing "Mappings" (mappings.map mappingLine)

/-- Deletes a mapping, whatever its origin (`map_delete_command`). -/
def deleteProjectMapping (root old : String) : Work m (List String) := do
  let p ← openAt root
  let deleted ← Project.during .deleteMapping .database
    (Database.update p.databasePath .mappings fun d => d.delete old)
  return [if deleted = 0 then "No mapping for " ++ old else "Deleted mapping for " ++ old]

/-- Takes in manual mappings from a file: all of them or, if one may not be stored, none
(`map_import_command`). -/
def importProjectMappings (root file : String) : Work m (List String) := do
  let p ← openAt root
  let path := p.layout.resolve file
  let text ← Project.during (.readMappingFile path) .file (Project.readText path)
  match MappingFile.parse? text with
  | none => throw (.failed .understandMappingFile .form)
  | some entries =>
    match MappingFile.refused? entries with
    | some (old, new) => throw (.invalidMapping old new (some path))
    | none =>
      let now ← (Files.now : m _)
      if let (first, _) :: _ := entries.toList then
        discard (Project.during (.storeImported first) .database
          (Database.update p.databasePath .mappings fun d => d.takeIn entries now))
      return [s!"Imported {entries.size} mapping(s) from {path}"]

/-- Writes the mapping of a project to a file or to the answer (`map_export_command`). -/
def exportProjectMappings (root : String) (file : Option String) : Work m (List String) := do
  let p ← openAt root
  let mappings ← Project.during .listMappings .database
    (Database.query p.databasePath .mappings Database.listMappings)
  let text := MappingFile.print mappings
  match file with
  | none => return [text]
  | some file =>
    let path := p.layout.resolve file
    Project.during (.writeMappingFile path) .file (Project.writeText path text)
    return [s!"Exported {mappings.length} mapping(s) to {path}"]

/-! ## Suspects -/

/-- Adds a suspect (`suspect_add_command`). -/
def addProjectSuspect (root name : String) : Work m (List String) := do
  if (Text.trimmed name).isEmpty then throw .blankSuspect
  let p ← openAt root
  let added ← Project.during .addSuspect .database
    (Database.update p.databasePath .suspects fun d => d.addSuspect name)
  return [if added then "Added suspect method: " ++ name
    else "Suspect method already listed: " ++ name]

/-- Lists the suspects: the built-in ones and those of the project (`suspect_list_command`). -/
def listProjectSuspects (root : String) : Work m (List String) := do
  let p ← openAt root
  let stored ← Project.during .listSuspects .database
    (Database.query p.databasePath .suspects fun d => .ok d.suspects.toList)
  return s!"Suspect methods ({Suspects.builtIn.length + stored.length}):"
    :: Suspects.builtIn.map (fun name => s!"  - {name} [built-in]")
    ++ stored.map fun name => "  - " ++ name

/-! ## All commands -/

/-- Does what a command says in the project at a root, and answers with lines. -/
def execute (d : Disturbance) (root : String) : Command → Work m (List String)
  | create name => createProject root name
  | info json => describeProject root json
  | run input output overrides json => runProject d root input output overrides json
  | setMapping old new => setProjectMapping root old new
  | listMappings json => listProjectMappings root json
  | deleteMapping old => deleteProjectMapping root old
  | importMappings file => importProjectMappings root file
  | exportMappings file => exportProjectMappings root file
  | addSuspect name => addProjectSuspect root name
  | listSuspects => listProjectSuspects root
  | listRuns json => listProjectRuns root json
  | showLog tail => showProjectLog root tail

end Command

end Clarify
