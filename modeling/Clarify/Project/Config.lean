import Clarify.Json
import Clarify.Json.Printer

/-!
# Project configuration

The settings of a project, as they stand in its configuration file. The settings of runs have
defaults, each on its own, and can be overridden for a single run.

Results:
* `apply_none`: without overrides the settings stay as they are.
-/

namespace Clarify

/-- The settings of runs. -/
structure PipelineConfig where
  workers : Nat
  queueCapacity : Nat
  timeoutSeconds : Nat
  /-- Whether names are predicted. -/
  predicts : Bool
  /-- The path of a model in place of the built-in one. -/
  modelPath : Option String
  minConfidence : Float
  maxObfuscatedLength : Nat

namespace PipelineConfig

/-- The settings where nothing is said (`PipelineConfig::default`). -/
def standard : PipelineConfig where
  workers := 4
  queueCapacity := 64
  timeoutSeconds := 60
  predicts := true
  modelPath := none
  minConfidence := 0
  maxObfuscatedLength := 2

/-- The names of the settings, in the order in which they are written. -/
def fields : List String := [
  "workers", "queue_capacity", "timeout_secs", "enable_ml", "model_path", "min_confidence",
  "obfuscated_name_max_len"]

/-- The value of a field, where a missing one has a default. -/
def field {α : Type} (read : Json → Option α) (default : α) : Option Json → Option α
  | none => some default
  | some value => read value

/-- A text or nothing. -/
def optionalText : Json → Option (Option String)
  | .null => some none
  | value => value.text?.map some

/-- The settings in a JSON value. -/
def ofJson? (j : Json) : Option PipelineConfig := do
  match ← j.record? fields with
  | [workers, queue, timeout, predicts, model, confidence, length] =>
    return {
      workers := ← field Json.word? standard.workers workers
      queueCapacity := ← field Json.word? standard.queueCapacity queue
      timeoutSeconds := ← field Json.word? standard.timeoutSeconds timeout
      predicts := ← field Json.bool? standard.predicts predicts
      modelPath := ← field optionalText standard.modelPath model
      minConfidence := ← field Json.float? standard.minConfidence confidence
      maxObfuscatedLength := ← field Json.word? standard.maxObfuscatedLength length }
  | _ => none

/-- A text or nothing, to be printed. -/
def optionalOutput : Option String → Json.Output
  | some text => .text text
  | none => .null

/-- The settings to be printed. -/
def output (c : PipelineConfig) : Json.Output :=
  .record (fields.zip [
    .nat c.workers, .nat c.queueCapacity, .nat c.timeoutSeconds, .bool c.predicts,
    optionalOutput c.modelPath, .float c.minConfidence, .nat c.maxObfuscatedLength])

end PipelineConfig

/-- Settings for a single run. -/
structure RunOverrides where
  workers : Option Nat
  timeoutSeconds : Option Nat
  withoutPredictor : Bool
deriving Repr, DecidableEq

namespace RunOverrides

/-- No settings. -/
def none : RunOverrides := ⟨Option.none, Option.none, false⟩

/-- The settings of a project with those of a run in force. -/
def apply (o : RunOverrides) (c : PipelineConfig) : PipelineConfig :=
  { c with
    workers := o.workers.getD c.workers
    timeoutSeconds := o.timeoutSeconds.getD c.timeoutSeconds
    predicts := c.predicts && !o.withoutPredictor }

theorem apply_none (c : PipelineConfig) : none.apply c = c := by
  simp [apply, none]

end RunOverrides

/-- The configuration of a project. -/
structure ProjectConfig where
  name : String
  description : Option String
  /-- The version of the form of the configuration. -/
  version : String
  /-- The path of the database, as a rule relative to the root of the project. -/
  databasePath : String
  /-- The path of the run log, as a rule relative to the root of the project. -/
  logPath : String
  pipeline : PipelineConfig

namespace ProjectConfig

/-- The version of the form that is written. -/
def currentVersion : String := "0.1.0"

/-- The configuration of a new project. -/
def new (name databasePath logPath : String) : ProjectConfig :=
  { name, description := none, version := currentVersion, databasePath, logPath
    pipeline := .standard }

/-- The names of the fields, in the order in which they are written. -/
def fields : List String := ["name", "description", "config_version", "db", "log", "pipeline"]

/-- The path in a section. -/
def sectionPath? (j : Json) : Option String := do
  match ← j.record? ["path"] with
  | [some path] => path.text?
  | _ => none

/-- A section with a path, to be printed. -/
def sectionOutput (path : String) : Json.Output := .record [("path", .text path)]

/-- The configuration in a JSON value. -/
def ofJson? (j : Json) : Option ProjectConfig := do
  match ← j.record? fields with
  | [some name, description, some version, some database, some log, pipeline] =>
    return {
      name := ← name.text?
      description := ← PipelineConfig.field PipelineConfig.optionalText none description
      version := ← version.text?
      databasePath := ← sectionPath? database
      logPath := ← sectionPath? log
      pipeline := ← PipelineConfig.field PipelineConfig.ofJson? .standard pipeline }
  | _ => none

/-- The configuration to be printed. -/
def output (c : ProjectConfig) : Json.Output :=
  .record (fields.zip [
    .text c.name, PipelineConfig.optionalOutput c.description, .text c.version,
    sectionOutput c.databasePath, sectionOutput c.logPath, c.pipeline.output])

/-- The configuration as it stands in its file. -/
def print (c : ProjectConfig) : String := c.output.pretty

end ProjectConfig

end Clarify
