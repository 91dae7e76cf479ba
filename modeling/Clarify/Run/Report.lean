import Clarify.Pass.Unit
import Clarify.Text.Case

/-!
# Run reports

What a run did, as it is shown and recorded.

Results:
* `ofText?_word`: the word of a status is read back.
-/

namespace Clarify

/-- How a run ended. -/
inductive RunStatus where
  /-- Every class was clarified. -/
  | completed
  /-- Some classes were passed through as they were. -/
  | degraded
  /-- There is no output. -/
  | failed
deriving Repr, DecidableEq

namespace RunStatus

/-- The word for a status (`RunStatus::as_str`). -/
def word : RunStatus → String
  | completed => "completed"
  | degraded => "degraded"
  | failed => "failed"

/-- Every status. -/
def all : List RunStatus := [completed, degraded, failed]

/-- The status that a text names, in whatever case (`RunStatusString::from_str`). -/
def ofText? (text : String) : Option RunStatus :=
  let word := Text.lowerCase text
  all.find? fun s => s.word == word

theorem ofText?_word (s : RunStatus) : ofText? s.word = some s := by
  cases s <;> rfl

end RunStatus

/-- What a run did. -/
structure RunReport where
  input : String
  output : String
  logPath : Option String
  status : RunStatus
  entries : Nat
  /-- The classes that could be read. -/
  units : Nat
  transformed : Nat
  skipped : Nat
  predictedMappings : Nat
  collisions : Nat
  timedOut : Bool
  counts : ChangeCounts
  startedAt : String
  finishedAt : String
deriving Repr, DecidableEq

/-- A report in one line (`RunReport::summary`). -/
def RunReport.summary (r : RunReport) : String :=
  s!"{r.transformed} transformed, {r.skipped} skipped, "
    ++ s!"{r.counts.literalsRecovered} literal(s) recovered, "
    ++ s!"{r.counts.methodsRemoved} method(s) removed -> {r.output}"

end Clarify
