import Clarify.Pass.UnitError
import Std.Data.TreeMap

/-!
# Scheduling jobs

A coordinator hands jobs to workers, only so many at a time, and collects their replies by name.
Jobs reply in any order and at any time. When no reply is there and the deadline has passed, the
coordinator gives up: whatever is not settled then counts as timed out.

A state of this game and its events are all there is: `step?` says what an event does, and a row
of events is one of the possible courses.

Results:
* `weight_step?`: every event uses up weight, so every course ends.
-/

namespace Clarify

/-- How a job ends. -/
inductive JobEnd (α : Type) where
  | value (a : α)
  | failure (e : UnitError)
  /-- A panic, with its text if it has one. -/
  | panic (text : Option String)

/-- What is reported for a job. -/
def JobEnd.outcome {α : Type} : JobEnd α → Except UnitError α
  | value a => .ok a
  | failure e => .error e
  | panic text => .error (.crashed (text.getD "unknown panic payload"))

/-- A job under its name. -/
structure Job (α : Type) where
  name : String
  ending : JobEnd α

/-- What is known about all jobs in the end. -/
structure Batch (α : Type) where
  results : Std.TreeMap String (Except UnitError α)
  timedOut : Bool

/-- A state of the game. -/
structure Schedule (α : Type) where
  /-- How many jobs may be submitted and not settled. -/
  limit : Nat
  /-- The jobs not submitted yet. -/
  waiting : List (Job α)
  /-- The jobs submitted that have not replied, in order. -/
  running : List (Job α)
  /-- The replies not received yet, the earliest first. -/
  replies : List (String × Except UnitError α)
  /-- The names submitted and not settled. -/
  inFlight : List String
  results : Std.TreeMap String (Except UnitError α)
  /-- Whether the deadline has passed. -/
  isLate : Bool
  /-- Whether the coordinator has given up. -/
  timedOut : Bool

namespace Schedule

variable {α : Type}

/-- The workers there are if `count` are asked for (`Scheduler::new`). -/
def workers (count : Nat) : Nat := max count 1

/-- The state before anything happens (part of `Scheduler::run`). -/
def start (workerCount queueCapacity : Nat) (jobs : List (Job α)) : Schedule α where
  limit := workers workerCount + queueCapacity
  waiting := jobs
  running := []
  replies := []
  inFlight := []
  results := ∅
  isLate := false
  timedOut := false

/-- Something that happens: a running job replies, the deadline passes, or the coordinator does
its next step. -/
inductive Event where
  | reply (index : Nat)
  | expire
  | coordinate
deriving Repr, DecidableEq

/-- The coordinator receives the next reply, or gives up if there is none after the deadline
(`wait_one`). Before the deadline it has to wait. -/
def receive? (s : Schedule α) : Option (Schedule α) :=
  match s.replies with
  | (name, outcome) :: replies =>
    some { s with
      replies, inFlight := s.inFlight.erase name, results := s.results.insert name outcome }
  | [] => if s.isLate then some { s with timedOut := true } else none

/-- The next step of the coordinator: to submit a job if there is room, else to receive a reply;
once it has given up, to settle the jobs that were not submitted (part of `Scheduler::run`). No step
is left when all jobs are settled or the coordinator has given up. -/
def coordinate? (s : Schedule α) : Option (Schedule α) :=
  match s.waiting with
  | job :: waiting =>
    if s.timedOut then
      some { s with waiting, results := s.results.insert job.name (.error .timeout) }
    else if s.inFlight.length < s.limit then
      some { s with
        waiting, running := s.running ++ [job], inFlight := job.name :: s.inFlight }
    else s.receive?
  | [] => if s.timedOut || s.inFlight.isEmpty then none else s.receive?

/-- What an event does; none if it cannot happen. -/
def step? (s : Schedule α) : Event → Option (Schedule α)
  | .reply index =>
    (s.running[index]?).map fun job => { s with
      running := s.running.eraseIdx index
      replies := s.replies ++ [(job.name, job.ending.outcome)] }
  | .expire => if s.isLate then none else some { s with isLate := true }
  | .coordinate => s.coordinate?

/-- The state after a row of events. -/
def run? (s : Schedule α) (events : List Event) : Option (Schedule α) := events.foldlM step? s

/-- Whether the coordinator is done. -/
def isOver (s : Schedule α) : Bool := s.waiting.isEmpty && (s.timedOut || s.inFlight.isEmpty)

/-- What is known in the end: jobs that were not settled have timed out (part of
`Scheduler::run`). -/
def batch (s : Schedule α) : Batch α where
  results :=
    if s.timedOut then
      s.inFlight.foldl (fun results name => results.insert name (.error .timeout)) s.results
    else s.results
  timedOut := s.timedOut

/-! ## A course without delays -/

/-- The event that happens next if `count` workers take the jobs in order, the quick ones reply as
soon as a worker has them, the others never do, and the deadline passes when nothing else
happens. -/
def promptEvent (count : Nat) (quick : String → Bool) (s : Schedule α) : Event :=
  match (s.running.take count).findIdx? fun job => quick job.name with
  | some index => .reply index
  | none => if s.coordinate?.isSome then .coordinate else .expire

/-- What the events still to come can use up: three parts for a job that waits, two for one that
runs, one for a reply and for each of the two flags. -/
def weight (s : Schedule α) : Nat :=
  3 * s.waiting.length + 2 * s.running.length + s.replies.length
    + (if s.isLate then 0 else 1) + (if s.timedOut then 0 else 1)

/-- The last state of the course without delays, within a number of steps. -/
def promptly (count : Nat) (quick : String → Bool) (steps : Nat) (s : Schedule α) :
    Schedule α :=
  match steps with
  | 0 => s
  | steps + 1 =>
    match if s.isOver then none else s.step? (s.promptEvent count quick) with
    | some next => promptly count quick steps next
    | none => s

/-- The batch of the course without delays. -/
def promptBatch (workerCount queueCapacity : Nat) (quick : String → Bool)
    (jobs : List (Job α)) : Batch α :=
  let s := start workerCount queueCapacity jobs
  (promptly (workers workerCount) quick s.weight s).batch

/-! ## Courses end -/

theorem weight_receive? {s s' : Schedule α} (h : s.receive? = some s')
    (going : s.timedOut = false) : s'.weight < s.weight := by
  unfold receive? at h
  split at h
  · next name outcome replies eq =>
    injection h with h
    subst h
    simp [weight, eq]
  · next eq =>
    split at h
    · injection h with h
      subst h
      simp [weight, going]
    · contradiction

theorem weight_coordinate? {s s' : Schedule α} (h : s.coordinate? = some s') :
    s'.weight < s.weight := by
  unfold coordinate? at h
  split at h
  · next job waiting eq =>
    split at h
    · injection h with h
      subst h
      simp only [weight, eq, List.length_cons]
      omega
    · split at h
      · injection h with h
        subst h
        simp only [weight, eq, List.length_cons, List.length_append, List.length_nil]
        omega
      · exact weight_receive? h (by simpa using ‹¬ s.timedOut = true›)
  · split at h
    · contradiction
    · next going =>
      rw [Bool.or_eq_true, not_or] at going
      exact weight_receive? h (by simpa using going.1)

theorem weight_step? {s s' : Schedule α} {e : Event} (h : s.step? e = some s') :
    s'.weight < s.weight := by
  cases e with
  | reply index =>
    simp only [step?, Option.map_eq_some_iff] at h
    obtain ⟨job, isThere, rfl⟩ := h
    obtain ⟨inBounds, _⟩ := List.getElem?_eq_some_iff.1 isThere
    simp only [weight, List.length_append, List.length_cons, List.length_nil,
      List.length_eraseIdx, inBounds, if_true]
    omega
  | expire =>
    simp only [step?] at h
    split at h
    · contradiction
    · next early =>
      injection h with h
      subst h
      simp [weight, early]
  | coordinate => exact weight_coordinate? h

end Schedule

end Clarify
