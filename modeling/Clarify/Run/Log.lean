import Clarify.Text
import Clarify.Text.Utf8
import Std.Data.TreeMap

/-!
# The run log

Every event of a run is a line of the log: a time, a level, and a message without line breaks.
Lines go to the log file and to all subscribers; subscribers are also told when a run is over.
Workers append through the session that was opened for their run, and what they append after its
end is dropped.

A log may be opened again. Each opening has a handle of its own, with its own sessions, subscribers
and latest lines; what goes through any of them is added to the one file.

Results:
* `handle_change`: what goes through a handle leaves the others as they are.
-/

namespace Clarify

/-- How important a line is. -/
inductive Level where
  | error
  | warn
  | info
  | debug
deriving Repr, DecidableEq

/-- The word for a level. -/
def Level.word : Level → String
  | .error => "ERROR"
  | .warn => "WARN"
  | .info => "INFO"
  | .debug => "DEBUG"

/-- Something to be logged. -/
structure Note where
  level : Level
  message : String
deriving Repr, DecidableEq

/-- A line of the log. -/
structure LogLine where
  time : String
  level : Level
  message : String
deriving Repr, DecidableEq

/-- A message without line breaks. -/
def oneLine (message : String) : String :=
  message.map fun c => if c = '\n' ∨ c = '\r' then ' ' else c

/-- The line for a note. -/
def Note.lineAt (n : Note) (time : String) : LogLine :=
  { time, level := n.level, message := oneLine n.message }

/-- The line as it stands in the log file (`LogLine::render`). -/
def LogLine.render (l : LogLine) : String :=
  l.time ++ " [" ++ l.level.word ++ "] " ++ l.message

/-- What subscribers are told. -/
inductive RunEvent where
  | line (l : LogLine)
  | finished (summary : String)
  | failed (reason : String)
deriving Repr, DecidableEq

/-- A subscriber with the events that it has not taken yet, the latest first. It hears only of
what goes through the handle that it subscribed to. -/
structure Mailbox where
  handle : Nat
  events : List RunEvent
deriving Repr, DecidableEq

/-- A session: the handle that it was opened through, and its number among the sessions there
(`RunSession`). -/
structure Session where
  handle : Nat
  number : Nat
deriving Repr, DecidableEq, Inhabited

/-- How many lines a handle remembers (`HISTORY_LIMIT`). -/
def historyLimit : Nat := 4096

/-- What one opening of a log knows (`Inner`). -/
structure Handle where
  /-- The latest lines written through it, the oldest first. -/
  history : List LogLine
  /-- The number of its latest session, or zero before there is any. -/
  session : Nat
  /-- Whether that session is open. -/
  isOpen : Bool

namespace Handle

/-- A handle that nothing went through yet. -/
def fresh : Handle := { history := [], session := 0, isOpen := false }

/-- The handle with one more line, for which the oldest one is forgotten where there is no room. -/
def remember (h : Handle) (line : LogLine) : Handle :=
  let kept := if h.history.length = historyLimit then h.history.drop 1 else h.history
  { h with history := kept ++ [line] }

/-- Whether the session of a number is open. -/
def keeps (h : Handle) (number : Nat) : Bool := h.isOpen && h.session == number

end Handle

/-- A log with its handles. -/
structure RunLog where
  /-- The path of the log file, if there is one. -/
  path : Option String
  /-- What stands in the log file in front of the lines, as far as it is known. -/
  stored : Bytes
  /-- The lines written since then, the latest first. -/
  written : List LogLine
  mailboxes : List Mailbox
  /-- The number of the latest handle. -/
  latest : Nat
  /-- The handles that something went through, by their numbers. -/
  handles : Std.TreeMap Nat Handle

namespace RunLog

/-! ## Opening -/

/-- A log in a file with the given contents, or in none. -/
def fresh (path : Option String) (stored : Bytes) : RunLog :=
  { path, stored, written := [], mailboxes := [], latest := 0, handles := ∅ }

/-- A log in a file with the given contents (`RunLog::open`). -/
def «open» (path : String) (stored : Bytes) : RunLog := fresh (some path) stored

/-- A log without a file (`RunLog::in_memory`). -/
def inMemory : RunLog := fresh none []

/-- Lines, the latest first, as they stand in the log file. -/
def textOf (lines : List LogLine) : String :=
  lines.reverse.foldl (fun text l => text ++ l.render ++ "\n") ""

/-- What was written since the log was `earlier`, as text. -/
def textSince (log earlier : RunLog) : String :=
  textOf (log.written.take (log.written.length - earlier.written.length))

/-- What the log file holds. -/
def fileBytes (log : RunLog) : Bytes :=
  if log.path.isSome then log.stored ++ Utf8.encode (textOf log.written) else log.stored

/-- The handle of a number. -/
def handle (log : RunLog) (k : Nat) : Handle := log.handles.getD k .fresh

/-- Changes a handle. -/
def change (log : RunLog) (k : Nat) (f : Handle → Handle) : RunLog :=
  { log with handles := log.handles.insert k (f (log.handle k)) }

/-- The log with a new handle. -/
def reopen (log : RunLog) : RunLog := { log with latest := log.latest + 1 }

/-! ## Through a handle -/

/-- Tells the subscribers of a handle of an event (`broadcast`). -/
def tell (log : RunLog) (k : Nat) (e : RunEvent) : RunLog :=
  { log with
    mailboxes := log.mailboxes.map fun b =>
      if b.handle == k then { b with events := e :: b.events } else b }

/-- Appends a line (`Inner::push`). -/
def appendThrough (log : RunLog) (k : Nat) (time : String) (n : Note) : RunLog :=
  let line := n.lineAt time
  ({ log with written := line :: log.written }.change k fun h => h.remember line).tell k
    (.line line)

/-- Opens a new session with a first line (`RunLog::begin`). -/
def beginThrough (log : RunLog) (k : Nat) (time message : String) : Session × RunLog :=
  let number := (log.handle k).session + 1
  (⟨k, number⟩, (log.change k fun h => { h with session := number, isOpen := true }).appendThrough k
    time ⟨.info, message⟩)

/-- Appends a line in a session; a session that is not open any more has no effect
(`RunLog::append_in`). -/
def appendIn (log : RunLog) (s : Session) (time : String) (n : Note) : RunLog :=
  if (log.handle s.handle).keeps s.number then log.appendThrough s.handle time n else log

/-- Appends a last line, closes the session and tells the subscribers why (`Inner::close`). -/
def closeThrough (log : RunLog) (k : Nat) (time : String) (last : Note) (e : RunEvent) : RunLog :=
  ((log.appendThrough k time last).change k fun h => { h with isOpen := false }).tell k e

/-- Closes the session with its summary (`RunLog::finish`). -/
def finishThrough (log : RunLog) (k : Nat) (time summary : String) : RunLog :=
  log.closeThrough k time ⟨.info, summary⟩ (.finished summary)

/-- Closes the session with the reason why it failed (`RunLog::fail`). -/
def failThrough (log : RunLog) (k : Nat) (time reason : String) : RunLog :=
  log.closeThrough k time ⟨.error, reason⟩ (.failed reason)

/-- The log with another subscriber, who hears of all that goes through the handle later
(`RunLog::subscribe`). -/
def subscribeThrough (log : RunLog) (k : Nat) : RunLog :=
  { log with mailboxes := log.mailboxes ++ [{ handle := k, events := [] }] }

/-! ## Through the latest handle -/

/-- Appends a line. -/
def append (log : RunLog) (time : String) (n : Note) : RunLog :=
  log.appendThrough log.latest time n

/-- Opens a new session with a first line. -/
def begin (log : RunLog) (time message : String) : Session × RunLog :=
  log.beginThrough log.latest time message

/-- Closes the session with its summary. -/
def finish (log : RunLog) (time summary : String) : RunLog :=
  log.finishThrough log.latest time summary

/-- Closes the session with the reason why it failed. -/
def fail (log : RunLog) (time reason : String) : RunLog := log.failThrough log.latest time reason

/-- The log with another subscriber. -/
def subscribe (log : RunLog) : RunLog := log.subscribeThrough log.latest

/-! ## Subscribers -/

/-- The log without a subscriber. -/
def unsubscribe (log : RunLog) (index : Nat) : RunLog :=
  { log with mailboxes := log.mailboxes.eraseIdx index }

/-- The events that a subscriber has not taken yet, and the log where they are taken. -/
def take (log : RunLog) (index : Nat) : List RunEvent × RunLog :=
  match log.mailboxes[index]? with
  | some b =>
    (b.events.reverse, { log with mailboxes := log.mailboxes.set index { b with events := [] } })
  | none => ([], log)

/-! ## Looking back -/

/-- The latest lines written through the latest handle. -/
def lines (log : RunLog) : List LogLine := (log.handle log.latest).history

/-- Whether a remembered line contains a text. -/
def contains (log : RunLog) (part : String) : Bool :=
  log.lines.any fun l => Text.contains l.message part

/-- The last lines of a log file, or all of them; no result for a file that is no text
(`read_tail`). -/
def tail? (file : Bytes) (count : Option Nat) : Option (List String) :=
  match Utf8.decode file with
  | .ok text =>
    let lines := Text.lines text
    some (lines.drop (lines.length - count.getD lines.length))
  | .error _ => none

/-! ## What changes -/

section Changes

variable (log : RunLog) (k j : Nat) (f : Handle → Handle) (e : RunEvent)

@[simp] theorem handle_fresh (path : Option String) (stored : Bytes) :
    (fresh path stored).handle k = .fresh :=
  Std.TreeMap.getD_emptyc

@[simp] theorem handle_tell : (log.tell k e).handle j = log.handle j := rfl

@[simp] theorem written_tell : (log.tell k e).written = log.written := rfl

@[simp] theorem written_change : (log.change k f).written = log.written := rfl

@[simp] theorem mailboxes_change : (log.change k f).mailboxes = log.mailboxes := rfl

theorem handle_change :
    (log.change k f).handle j = if k = j then f (log.handle j) else log.handle j := by
  unfold handle change
  rw [Std.TreeMap.getD_insert]
  by_cases same : k = j
  · subst same
    rw [if_pos Std.ReflCmp.compare_self, if_pos rfl]
    rfl
  · rw [if_neg (by rwa [Std.compare_eq_iff_eq]), if_neg same]

end Changes

end RunLog

end Clarify
