import Clarify.Run.Log

/-!
# Calls on a log

Whoever writes to a log does so through a handle, or in a session that was handed out earlier, at
any time and in any order. What a call records, and who hears of it, follows from the calls before
it alone: a line of a session is recorded exactly if the session is the latest one of its handle and
nothing has closed it. Everything else is recorded as it comes.

Calls name handles by their numbers. A log that was opened once has one handle; each further opening
brings the next number into use, and handles do not see each other's sessions and subscribers.

Results:
* `follows_after`: the session counter and the flag of a handle tell what the calls so far say.
* `written_after`: the recorded lines are those of the calls, in order.
* `mailboxes_after`: a subscriber is told what goes through its handle, and nothing else.
* `written_and_heard`: all of this, from a log that was just opened.
-/

namespace Clarify.RunLog

/-! ## Calls -/

/-- What can be asked of a log. -/
inductive Call where
  | begin (handle : Nat) (time message : String)
  | append (handle : Nat) (time : String) (n : Note)
  | appendIn (s : Session) (time : String) (n : Note)
  | finish (handle : Nat) (time summary : String)
  | fail (handle : Nat) (time reason : String)
  | subscribe (handle : Nat)
  /-- The subscriber at the position leaves. -/
  | unsubscribe (index : Nat)
  | reopen
deriving Repr, DecidableEq

/-- The log after a call. -/
def perform (log : RunLog) : Call → RunLog
  | .begin k time message => (log.beginThrough k time message).2
  | .append k time n => log.appendThrough k time n
  | .appendIn s time n => log.appendIn s time n
  | .finish k time summary => log.finishThrough k time summary
  | .fail k time reason => log.failThrough k time reason
  | .subscribe k => log.subscribeThrough k
  | .unsubscribe index => log.unsubscribe index
  | .reopen => log.reopen

/-- The log after a row of calls. -/
def after (log : RunLog) (calls : List Call) : RunLog := calls.foldl perform log

/-! ## What the calls say -/

namespace Call

/-- Whether a call opens a session. -/
def isBegin : Call → Bool
  | .begin .. => true
  | _ => false

/-- Whether a call opens a session of the handle. -/
def begins (k : Nat) : Call → Bool
  | .begin handle .. => handle == k
  | _ => false

/-- Whether a call opens a session of the handle, or closes the one that is open. -/
def turns (k : Nat) : Call → Bool
  | .begin handle .. | .finish handle .. | .fail handle .. => handle == k
  | _ => false

/-- The handle that a call goes through. -/
def handle? : Call → Option Nat
  | .begin handle .. | .append handle .. | .finish handle .. | .fail handle .. => some handle
  | .appendIn s .. => some s.handle
  | .subscribe _ | .unsubscribe _ | .reopen => none

end Call

/-- The call that was the last to open or to close a session of a handle. -/
def lastTurn? (calls : List Call) (k : Nat) : Option Call := calls.reverse.find? (Call.turns k)

/-- Whether a handle has an open session. -/
def hasOpened (calls : List Call) (k : Nat) : Bool := (lastTurn? calls k).any Call.isBegin

/-- Whether a session is the latest one of its handle, and open. -/
def isOpened (calls : List Call) (s : Session) : Bool :=
  hasOpened calls s.handle && calls.countP (Call.begins s.handle) == s.number

/-- The session is the one that the latest `begin` through its handle opened, and no call through
this handle has closed it since. -/
def Opened (calls : List Call) (s : Session) : Prop :=
  ∃ before time message since, calls = before ++ .begin s.handle time message :: since ∧
    before.countP (Call.begins s.handle) + 1 = s.number ∧ ∀ c ∈ since, c.turns s.handle = false

namespace Call

/-- The lines that a call records behind other calls. -/
def lines (before : List Call) : Call → List LogLine
  | .begin _ time message => [Note.lineAt ⟨.info, message⟩ time]
  | .append _ time n => [n.lineAt time]
  | .appendIn s time n => if isOpened before s then [n.lineAt time] else []
  | .finish _ time summary => [Note.lineAt ⟨.info, summary⟩ time]
  | .fail _ time reason => [Note.lineAt ⟨.error, reason⟩ time]
  | .subscribe _ | .unsubscribe _ | .reopen => []

/-- The lines that a call records through a handle. -/
def linesOf (k : Nat) (before : List Call) (c : Call) : List LogLine :=
  if c.handle? = some k then c.lines before else []

/-- What subscribers are told behind the closing line of a session. -/
def notice : Call → List RunEvent
  | .finish _ _ summary => [.finished summary]
  | .fail _ _ reason => [.failed reason]
  | _ => []

/-- What the subscribers of a handle hear of a call. -/
def events (k : Nat) (before : List Call) (c : Call) : List RunEvent :=
  if c.handle? = some k then (c.lines before).map .line ++ c.notice else []

/-- What becomes of the subscribers with a call: one comes, one leaves, or they stay. -/
def resettle : Call → List Mailbox → List Mailbox
  | .subscribe k, boxes => boxes ++ [{ handle := k, events := [] }]
  | .unsubscribe index, boxes => boxes.eraseIdx index
  | _, boxes => boxes

end Call

/-- What each call of a row brings, where that depends on the calls before it. -/
def along {α : Type} (f : List Call → Call → List α) (before : List Call) : List Call → List α
  | [] => []
  | c :: since => f before c ++ along f (before ++ [c]) since

/-- Where the subscriber at a position stands after more calls, if it has not left. -/
def place? (position : Nat) : List Call → Option Nat
  | [] => some position
  | .unsubscribe index :: since =>
    if index = position then none
    else place? (if index < position then position - 1 else position) since
  | _ :: since => place? position since

/-! ## Sessions -/

section Sessions

variable {calls : List Call} {c : Call} {k : Nat}

theorem lastTurn?_concat (calls : List Call) (c : Call) (k : Nat) :
    lastTurn? (calls ++ [c]) k = if c.turns k then some c else lastTurn? calls k := by
  simp only [lastTurn?, List.reverse_append, List.reverse_singleton, List.singleton_append,
    List.find?_cons]
  cases c.turns k <;> rfl

theorem hasOpened_concat (calls : List Call) (c : Call) (k : Nat) :
    hasOpened (calls ++ [c]) k = if c.turns k then c.isBegin else hasOpened calls k := by
  simp only [hasOpened, lastTurn?_concat]
  cases c.turns k <;> rfl

theorem begins_of_turns (turns : c.turns k = true) (isBegin : c.isBegin = true) :
    ∃ time message, c = .begin k time message := by
  cases c with
  | begin handle time message =>
    simp only [Call.turns, beq_iff_eq] at turns
    exact ⟨time, message, by rw [turns]⟩
  | _ => simp [Call.isBegin] at isBegin

theorem countP_begins_eq_zero (quiet : ∀ c ∈ calls, c.turns k = false) :
    calls.countP (Call.begins k) = 0 := by
  rw [List.countP_eq_zero]
  intro c mem begins
  have turns := quiet c mem
  cases c <;> simp_all [Call.begins, Call.turns]

/-- The latest session of a handle is open exactly if the call that opened it was the last one that
opened or closed a session there. -/
theorem isOpened_iff {s : Session} : isOpened calls s = true ↔ Opened calls s := by
  rw [isOpened, Bool.and_eq_true, beq_iff_eq, hasOpened, Option.any_eq_true]
  constructor
  · rintro ⟨⟨c, last, isBegin⟩, number⟩
    obtain ⟨turns, later, earlier, row, quiet⟩ := List.find?_eq_some_iff_append.1 last
    obtain ⟨time, message, rfl⟩ := begins_of_turns turns isBegin
    have row : calls = earlier.reverse ++ .begin s.handle time message :: later.reverse := by
      rw [← List.reverse_reverse calls, row]
      simp
    have quiet : ∀ c ∈ later.reverse, c.turns s.handle = false := by simpa using quiet
    refine ⟨earlier.reverse, time, message, later.reverse, row, ?_, quiet⟩
    rw [← number, row, List.countP_append, List.countP_cons, countP_begins_eq_zero quiet]
    simp [Call.begins]
  · rintro ⟨before, time, message, since, rfl, number, quiet⟩
    refine ⟨⟨.begin s.handle time message, ?_, rfl⟩, ?_⟩
    · apply List.find?_eq_some_iff_append.2
      refine ⟨by simp [Call.turns], since.reverse, before.reverse, by simp, ?_⟩
      simpa using quiet
    · rw [List.countP_append, List.countP_cons, countP_begins_eq_zero quiet, ← number]
      simp [Call.begins]

end Sessions

/-! ## One call -/

section Step

variable (log : RunLog) (k j : Nat) (time : String) (n : Note)

@[simp] theorem written_appendThrough :
    (log.appendThrough k time n).written = n.lineAt time :: log.written := rfl

@[simp] theorem mailboxes_appendThrough : (log.appendThrough k time n).mailboxes =
    (log.tell k (.line (n.lineAt time))).mailboxes := rfl

theorem handle_appendThrough : (log.appendThrough k time n).handle j =
    if k = j then (log.handle j).remember (n.lineAt time) else log.handle j := by
  unfold appendThrough
  rw [handle_tell, handle_change]
  rfl

/-- The handles are as a row of calls says: each has the number of its latest session, and knows
whether that one is open. -/
structure Follows (calls : List Call) (log : RunLog) : Prop where
  session : ∀ k, (log.handle k).session = calls.countP (Call.begins k)
  isOpen : ∀ k, (log.handle k).isOpen = hasOpened calls k

theorem follows_fresh (path : Option String) (stored : Bytes) : Follows [] (fresh path stored) where
  session k := by rw [handle_fresh]; rfl
  isOpen k := by rw [handle_fresh]; rfl

variable {log} {calls : List Call} {c : Call} (follows : Follows calls log)

include follows

/-- A session is kept by its handle exactly if the calls say that it is open. -/
theorem Follows.keeps (s : Session) : (log.handle s.handle).keeps s.number = isOpened calls s := by
  rw [Handle.keeps, follows.session, follows.isOpen, isOpened]

theorem Follows.appendIn_eq (s : Session) : log.appendIn s time n =
    if isOpened calls s then log.appendThrough s.handle time n else log := by
  rw [appendIn, follows.keeps]

/-- What a call makes of the latest session of a handle. -/
theorem Follows.handle_perform (c : Call) :
    ((perform log c).handle k).session =
      (log.handle k).session + (if c.begins k then 1 else 0) ∧
    ((perform log c).handle k).isOpen = if c.turns k then c.isBegin else (log.handle k).isOpen := by
  cases c with
  | begin handle time message =>
    by_cases same : handle = k <;>
      simp [perform, beginThrough, handle_appendThrough, handle_change, same, Call.begins,
        Call.turns, Call.isBegin, Handle.remember]
  | append handle time n =>
    by_cases same : handle = k <;>
      simp [perform, handle_appendThrough, same, Call.begins, Call.turns, Handle.remember]
  | appendIn s time n =>
    rw [perform, follows.appendIn_eq]
    by_cases same : s.handle = k <;> cases isOpened calls s <;>
      simp [handle_appendThrough, same, Call.begins, Call.turns, Handle.remember]
  | finish handle time summary | fail handle time reason =>
    by_cases same : handle = k <;>
      simp [perform, finishThrough, failThrough, closeThrough, handle_appendThrough, handle_change,
        same, Call.begins, Call.turns, Call.isBegin, Handle.remember]
  | subscribe handle | unsubscribe index | reopen => exact ⟨rfl, rfl⟩

theorem Follows.step (c : Call) : Follows (calls ++ [c]) (perform log c) where
  session k := by
    rw [(follows.handle_perform k c).1, follows.session, List.countP_append,
      List.countP_singleton]
  isOpen k := by
    rw [(follows.handle_perform k c).2, follows.isOpen, hasOpened_concat]

/-- A call adds its lines to the record. -/
theorem Follows.written_perform (c : Call) :
    (perform log c).written = (c.lines calls).reverse ++ log.written := by
  cases c with
  | appendIn s time n =>
    rw [perform, follows.appendIn_eq, Call.lines]
    cases isOpened calls s <;> rfl
  | _ => rfl

/-- A call tells the subscribers of its handle; then a subscriber may come or leave. -/
theorem Follows.mailboxes_perform (c : Call) :
    (perform log c).mailboxes = c.resettle (log.mailboxes.map fun b =>
      { b with events := (c.events b.handle calls).reverse ++ b.events }) := by
  have told (handle : Nat) (b : Mailbox) : (b.handle == handle) = decide (handle = b.handle) := by
    rw [Bool.eq_iff_iff, beq_iff_eq, decide_eq_true_iff]
    exact eq_comm
  cases c with
  | begin handle time message | append handle time n =>
    apply List.map_congr_left
    intro b _
    by_cases here : handle = b.handle <;>
      simp [told, here, Call.events, Call.lines, Call.notice, Call.handle?]
  | appendIn s time n =>
    rw [perform, follows.appendIn_eq]
    cases opened : isOpened calls s with
    | false => simp [Call.resettle, Call.events, Call.lines, Call.notice, opened]
    | true =>
      apply List.map_congr_left
      intro b _
      by_cases here : s.handle = b.handle <;>
        simp [told, here, Call.events, Call.lines, Call.notice, Call.handle?, opened]
  | finish handle time summary | fail handle time reason =>
    refine (List.map_map ..).trans (List.map_congr_left ?_)
    intro b _
    by_cases here : handle = b.handle <;>
      simp [told, here, Call.events, Call.lines, Call.notice, Call.handle?]
  | subscribe handle | unsubscribe index | reopen =>
    simp [perform, subscribeThrough, unsubscribe, reopen, Call.resettle, Call.events, Call.handle?]

end Step

/-! ## All calls -/

/-- A subscriber is found where it stands when another one comes or leaves. -/
theorem getElem?_resettle {boxes : List Mailbox} {position j : Nat} {b : Mailbox} {c : Call}
    {since : List Call} (here : boxes[position]? = some b)
    (stays : place? position (c :: since) = some j) :
    ∃ position', place? position' since = some j ∧ (c.resettle boxes)[position']? = some b := by
  cases c with
  | subscribe handle =>
    have inside : position < boxes.length := (List.getElem?_eq_some_iff.1 here).1
    refine ⟨position, stays, ?_⟩
    rw [Call.resettle, List.getElem?_append_left inside, here]
  | unsubscribe index =>
    rw [place?] at stays
    split at stays
    · cases stays
    · next other =>
      refine ⟨_, stays, ?_⟩
      rw [Call.resettle, List.getElem?_eraseIdx]
      by_cases before : index < position
      · rw [if_pos before, if_neg (by omega), Nat.sub_add_cancel (by omega), here]
      · rw [if_neg before, if_pos (by omega), here]
  | _ => exact ⟨position, stays, here⟩

section Run

variable {log : RunLog} {before : List Call} (follows : Follows before log)

include follows

theorem follows_after (since : List Call) : Follows (before ++ since) (after log since) := by
  induction since generalizing log before with
  | nil =>
    rw [List.append_nil]
    exact follows
  | cons c since ih =>
    have all := ih (follows.step c)
    rwa [List.append_assoc] at all

/-- The recorded lines are those of the calls, in order. -/
theorem written_after (since : List Call) :
    (after log since).written = (along Call.lines before since).reverse ++ log.written := by
  induction since generalizing log before with
  | nil => rfl
  | cons c since ih =>
    show (after (perform log c) since).written = _
    rw [ih (follows.step c), follows.written_perform, along]
    simp

/-- A subscriber is told what goes through its handle, and nothing else. -/
theorem mailboxes_after {position j : Nat} {b : Mailbox}
    (here : log.mailboxes[position]? = some b) (since : List Call)
    (stays : place? position since = some j) : (after log since).mailboxes[j]? = some
      { b with events := (along (Call.events b.handle) before since).reverse ++ b.events } := by
  induction since generalizing log before position b with
  | nil =>
    cases stays
    exact here
  | cons c since ih =>
    have told : (log.mailboxes.map fun b =>
        { b with events := (c.events b.handle before).reverse ++ b.events })[position]? =
        some { b with events := (c.events b.handle before).reverse ++ b.events } := by
      rw [List.getElem?_map, here]
      rfl
    obtain ⟨position', stays', here'⟩ := getElem?_resettle told stays
    rw [← follows.mailboxes_perform] at here'
    show (after (perform log c) since).mailboxes[j]? = _
    rw [ih (follows.step c) here' stays', along]
    simp

end Run

/-- What is recorded, which sessions are open, and what subscribers hear. The row of calls may come
from any number of workers: each call is one step.

* Every `begin`, `append`, `finish` and `fail` records its line, and a line of a session is recorded
  exactly if the session is the one that the latest `begin` opened, and nothing has closed it since.
* The sessions of a handle are numbered by its `begin`s.
* A subscriber that has not left was told each line that was recorded through its handle since it
  came, and behind the last line of a run how the run ended. -/
theorem written_and_heard (path : Option String) (stored : Bytes) (calls : List Call) :
    (after (fresh path stored) calls).written.reverse = along Call.lines [] calls ∧
    (∀ s time n,
      (Opened calls s → ((after (fresh path stored) calls).appendIn s time n).written =
        n.lineAt time :: (after (fresh path stored) calls).written) ∧
      (¬Opened calls s → (after (fresh path stored) calls).appendIn s time n =
        after (fresh path stored) calls)) ∧
    (∀ k time message, ((after (fresh path stored) calls).beginThrough k time message).1 =
      ⟨k, calls.countP (Call.begins k) + 1⟩) ∧
    ∀ before k since j, calls = before ++ .subscribe k :: since →
      place? (after (fresh path stored) before).mailboxes.length since = some j →
      (after (fresh path stored) calls).mailboxes[j]? = some
        { handle := k
          events := (along (Call.events k) (before ++ [.subscribe k]) since).reverse } := by
  have start := follows_fresh path stored
  have follows : Follows calls (after (fresh path stored) calls) := follows_after start calls
  refine ⟨?_, fun s time n => ⟨fun opened => ?_, fun closed => ?_⟩, fun k time message => ?_, ?_⟩
  · rw [written_after start calls, List.reverse_append, List.reverse_reverse]
    exact List.nil_append _
  · rw [follows.appendIn_eq, if_pos (isOpened_iff.2 opened)]
    rfl
  · rw [follows.appendIn_eq, if_neg fun opened => closed (isOpened_iff.1 opened)]
  · rw [beginThrough, follows.session]
  · rintro before k since j rfl stays
    have earlier : Follows before (after (fresh path stored) before) := follows_after start before
    have here : (perform (after (fresh path stored) before) (.subscribe k)).mailboxes[
        (after (fresh path stored) before).mailboxes.length]? =
          some { handle := k, events := [] } :=
      List.getElem?_concat_length
    have told := mailboxes_after (earlier.step (.subscribe k)) here since stays
    rw [List.append_nil] at told
    rw [after, List.foldl_append]
    exact told

/-- Two runs. A worker of the first one appends lines after its end, and again in the second one. -/
def stragglers : List Call := [
  .subscribe 0,
  .begin 0 "t" "start one",
  .appendIn ⟨0, 1⟩ "t" ⟨.info, "working"⟩,
  .finish 0 "t" "done one",
  .appendIn ⟨0, 1⟩ "t" ⟨.warn, "straggler"⟩,
  .begin 0 "t" "start two",
  .appendIn ⟨0, 1⟩ "t" ⟨.warn, "older straggler"⟩,
  .appendIn ⟨0, 2⟩ "t" ⟨.info, "fresh"⟩]

/-- Nothing that the straggler appends is recorded or heard. -/
theorem written_and_heard_stragglers :
    (after (fresh none []) stragglers).written.reverse.map LogLine.message =
      ["start one", "working", "done one", "start two", "fresh"] ∧
    (after (fresh none []) stragglers).appendIn ⟨0, 1⟩ "t" ⟨.warn, "late"⟩ =
      after (fresh none []) stragglers ∧
    (after (fresh none []) stragglers).mailboxes[0]? = some {
      handle := 0
      events := [.line ⟨"t", .info, "fresh"⟩, .line ⟨"t", .info, "start two"⟩,
        .finished "done one", .line ⟨"t", .info, "done one"⟩, .line ⟨"t", .info, "working"⟩,
        .line ⟨"t", .info, "start one"⟩] } := by
  obtain ⟨written, sessions, -, heard⟩ := written_and_heard none [] stragglers
  have closed : ¬Opened stragglers ⟨0, 1⟩ := by
    rw [← isOpened_iff]
    decide
  refine ⟨?_, (sessions ⟨0, 1⟩ "t" ⟨.warn, "late"⟩).2 closed, ?_⟩
  · rw [written]
    decide +kernel
  · rw [heard [] 0 stragglers.tail 0 rfl rfl]
    decide +kernel

end Clarify.RunLog
