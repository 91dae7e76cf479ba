import Clarify.Json.Reader
import Clarify.Project.Config
import Clarify.Project.DatabaseFile
import Clarify.Project.Layout
import Clarify.Project.ProjectError
import Clarify.Run.FileRun

/-!
# Projects

A project is a directory with a configuration, a database and a run log. A run starts from the
mapping and the suspects in the database, and leaves the mapping that it ends with and a record
of itself there, whether or not it succeeds. A run that is broken off leaves nothing there.
-/

namespace Clarify

/-- A project that was opened (`ProjectContext`). -/
structure Project where
  layout : Layout
  config : ProjectConfig
  databasePath : String
  logPath : String

/-- Work on the files of a project. -/
abbrev Work (m : Type → Type) := ExceptT ProjectError m

namespace Project

variable {m : Type → Type} [Monad m] [Files m]

/-- Work that is part of some activity, where a mishap makes it fail. -/
def during {ε α : Type} (activity : Activity) (mishap : ε → Mishap) (work : m (Except ε α)) :
    Work m α :=
  ExceptT.mk do
    match ← work with
    | .ok a => return .ok a
    | .error e => return .error (.failed activity (mishap e))

/-- The text in a file. -/
def readText (path : String) : m (Except FileError String) := do
  match ← Files.read path with
  | .error e => return .error e
  | .ok bytes =>
    match Utf8.decode bytes with
    | .ok text => return .ok text
    | .error _ => return .error .notText

/-- Puts a text into a file. -/
def writeText (path text : String) : m (Except FileError Unit) :=
  Files.write path (Utf8.encode text)

/-! ## Opening -/

/-- The configuration of a project (`load_project_config`). -/
def readConfig (l : Layout) : Work m ProjectConfig := do
  let text ← during (.readConfig l.configPath) .file (readText l.configPath)
  match (Json.parse? text).bind ProjectConfig.ofJson? with
  | some config => return config
  | none => throw (.failed .understandConfig .form)

/-- Opens the project of a layout (`ProjectContext::from_root`). -/
def «open» (l : Layout) : Work m Project := do
  let config ← readConfig l
  let databasePath := l.resolve config.databasePath
  during (.openDatabase databasePath) .database (Database.open databasePath)
  return { layout := l, config, databasePath, logPath := l.resolve config.logPath }

/-! ## The log -/

/-- Opens a log for appending. -/
def openLog (path : String) : m (Except FileError RunLog) := do
  let above : Except FileError Unit ←
    match Path.parent? path with
    | some above => if above.isEmpty then pure (.ok ()) else Files.createDirectories above
    | none => pure (.ok ())
  match above with
  | .error e => return .error e
  | .ok () =>
    match ← Files.append path [] with
    | .error e => return .error e
    | .ok () => return .ok (.open path [])

/-- The last lines of a log, or all of them. A log that is missing has no lines. -/
def tail (path : String) (count : Option Nat) : m (Except FileError (List String)) := do
  match ← Files.read path with
  | .error .missing => return .ok []
  | .error e => return .error e
  | .ok bytes =>
    match RunLog.tail? bytes count with
    | some lines => return .ok lines
    | none => return .error .notText

/-! ## Runs -/

/-- The mapping that a run starts from: the dictionary with the entries of the database
(`ProjectRunner::load_store`). -/
def loadMapping (p : Project) : Work m Mapping :=
  during .loadMappings .database (Database.query p.databasePath .mappings fun d =>
    (d.loadInto .withDictionary).map Prod.snd)

/-- The suspects of a run: the built-in ones and those of the database
(`ProjectRunner::load_suspects`). -/
def loadSuspects (p : Project) : Work m Suspects :=
  during .loadSuspects .database (Database.query p.databasePath .suspects fun d =>
    .ok (Suspects.withBuiltIn.insertAll d.suspects.toList))

/-- The classifier in a model file, or what is wrong with it (`LogisticPredictor::load`). -/
def loadModel (path : String) : m (Except ClassifierError Classifier) := do
  match ← readText path with
  | .error e => return .error (.unreadable path e.message)
  | .ok text =>
    match (Json.parse? text).bind Classifier.Model.ofJson? with
    | none => return .error (.unparsable path)
    | some model => return Classifier.ofModel model

/-- The predictor of a run; without the one that is wanted, a silent one and a remark
(`init_predictor`). -/
def predictor (p : Project) (c : PipelineConfig) : m (Predictor × List Note) := do
  if !c.predicts then return (.silent, [])
  let made ← match c.modelPath with
    | some path => loadModel (p.layout.resolve path)
    | none => pure Classifier.builtIn
  match made with
  | .ok classifier => return (.classifier classifier, [])
  | .error e =>
    return (.silent, [⟨.warn, e.message ++ "; continuing with dictionary and default naming"⟩])

/-- What a run works with. -/
def setup (c : PipelineConfig) (suspects : Suspects) (predictor : Predictor) : RunSetup where
  suspects := suspects
  policy := ⟨predictor, c.minConfidence, c.maxObfuscatedLength⟩
  workers := c.workers
  queueCapacity := c.queueCapacity
  timeoutSeconds := c.timeoutSeconds

/-- Runs over the archive in a file. -/
def run (p : Project) (d : Disturbance) (input : String) (output : Option String)
    (overrides : RunOverrides) : Work m RunReport := do
  let config := overrides.apply p.config.pipeline
  let output := output.getD (p.layout.defaultOutput input)
  let log ← during (.openLog p.logPath) .file (openLog p.logPath)
  let store ← p.loadMapping
  let suspects ← p.loadSuspects
  let (predictor, remarks) ← (p.predictor config : m _)
  let startedAt ← (Files.now : m _)
  let remarked := FileRun.appendAll log startedAt remarks
  (FileRun.writeLines log remarked : m _)
  let isOutput ← (FileRun.isOneFile p.databasePath output : m _)
  let (outcome, s) ←
    (FileRun.run d (setup config suspects predictor) ⟨store, remarked⟩ input output : m _)
  if outcome matches .error .overflow then throw .overflow
  if isOutput && outcome matches .ok _ then throw (.failed .saveMappings (.database .moved))
  let finishedAt ← (Files.now : m _)
  discard (during .saveMappings .database
    (Database.update p.databasePath .mappings fun d => d.saveFrom s.store finishedAt))
  let record := match outcome with
    | .ok report => RunRecord.ofReport report
    | .error _ => RunRecord.ofFailure input output startedAt finishedAt
  discard (during .recordRun .database
    (Database.update p.databasePath .runs fun d => d.insertRun record))
  during (.deobfuscate input) .run (pure outcome)

end Project

end Clarify
