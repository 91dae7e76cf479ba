import Clarify.Json
import Clarify.Json.Printer
import Clarify.Run.Report

/-!
# Records of runs

What is kept of a run in the history of a project.
-/

namespace Clarify

/-- A run in the history. -/
structure RunRecord where
  input : String
  output : String
  status : RunStatus
  transformed : Nat
  skipped : Nat
  literalsRecovered : Nat
  methodsRemoved : Nat
  startedAt : String
  finishedAt : String
deriving Repr, DecidableEq

namespace RunRecord

/-- The record of a run that reached its end (part of `ProjectRunner::run`). -/
def ofReport (r : RunReport) : RunRecord where
  input := r.input
  output := r.output
  status := r.status
  transformed := r.transformed
  skipped := r.skipped
  literalsRecovered := r.counts.literalsRecovered
  methodsRemoved := r.counts.methodsRemoved
  startedAt := r.startedAt
  finishedAt := r.finishedAt

/-- The record of a run that failed (part of `ProjectRunner::run`). -/
def ofFailure (input output startedAt finishedAt : String) : RunRecord where
  input := input
  output := output
  status := .failed
  transformed := 0
  skipped := 0
  literalsRecovered := 0
  methodsRemoved := 0
  startedAt := startedAt
  finishedAt := finishedAt

/-- The names of the fields, in the order in which they are written. -/
def fields : List String := [
  "input", "output", "status", "transformed", "skipped", "literals_recovered", "methods_removed",
  "started_at", "finished_at"]

/-- The status of a word as it is written. -/
def statusOfWord? (word : String) : Option RunStatus := RunStatus.all.find? fun s => s.word == word

/-- The record in a JSON value. -/
def ofJson? (j : Json) : Option RunRecord := do
  match ← (← j.record? fields).mapM id with
  | [input, output, status, transformed, skipped, literals, methods, started, finished] =>
    return {
      input := ← input.text?
      output := ← output.text?
      status := ← status.variant? >>= statusOfWord?
      transformed := ← transformed.word?
      skipped := ← skipped.word?
      literalsRecovered := ← literals.word?
      methodsRemoved := ← methods.word?
      startedAt := ← started.text?
      finishedAt := ← finished.text? }
  | _ => none

/-- The record to be printed. -/
def toOutput (r : RunRecord) : Json.Output :=
  .record (fields.zip [
    .text r.input, .text r.output, .text r.status.word, .nat r.transformed, .nat r.skipped,
    .nat r.literalsRecovered, .nat r.methodsRemoved, .text r.startedAt, .text r.finishedAt])

end RunRecord

end Clarify
