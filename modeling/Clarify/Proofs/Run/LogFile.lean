import Clarify.Proofs.Run.Sessions
import Clarify.Proofs.Text.Reading

/-!
# What a log file holds

Every line of the log is one line of its file, whatever the message is: line breaks in it become
blanks before the line is written, and a line that is read ends at a newline only. So the file can
be read back line by line, through however many handles it was written, as long as it was empty or
ended with a newline to begin with. A handle remembers the last lines of those that it wrote itself;
when there is no room for one more line it forgets the oldest one.

Results:
* `oneLine_render`: a line of the log is read back as one line.
* `latest_remember`: a handle forgets the oldest line, and only if it has to.
* `textOf_after`: what is to be added to the file is the text of the new lines.
* `tail?_fileBytes`: the file, its tail and the lines that a handle remembers agree.
-/

namespace Clarify

/-! ## Lines -/

theorem toList_oneLine (message : String) : (oneLine message).toList =
    message.toList.map fun c => if c = '\n' ∨ c = '\r' then ' ' else c :=
  String.toList_map

theorem not_mem_oneLine (message : String) {c : Char} (h : c = '\n' ∨ c = '\r') :
    c ∉ (oneLine message).toList := by
  rw [toList_oneLine, List.mem_map]
  rintro ⟨d, -, eq⟩
  split at eq
  · subst eq
    revert h
    decide
  · next other =>
    subst eq
    exact other h

/-- A line of the log is read back as one line, whatever its message was. -/
theorem oneLine_render {time : String} (one : '\n' ∉ time.toList) (level : Level)
    (message : String) : Text.OneLine (LogLine.render ⟨time, level, oneLine message⟩) := by
  have word : '\n' ∉ level.word.toList := by cases level <;> decide
  have text : (LogLine.render ⟨time, level, oneLine message⟩).toList =
      (time.toList ++ [' ', '['] ++ level.word.toList ++ [']']) ++
        ' ' :: (oneLine message).toList := by
    simp only [LogLine.render, String.toList_append]
    show _ ++ [' ', '['] ++ _ ++ [']', ' '] ++ _ = _
    simp
  have newline := not_mem_oneLine message (.inl rfl)
  have returns := not_mem_oneLine message (.inr rfl)
  constructor
  · rw [text]
    simp [one, word, newline]
  · rw [text, List.getLast?_append, List.getLast?_cons, Option.some_or]
    intro last
    cases final : (oneLine message).toList.getLast? with
    | none => simp [final] at last
    | some c =>
      simp only [final, Option.getD_some, Option.some.injEq] at last
      subst last
      exact returns (List.mem_of_getLast? final)

theorem textOf_eq (lines : List LogLine) :
    RunLog.textOf lines = Text.unlines (lines.reverse.map LogLine.render) := by
  rw [RunLog.textOf, Text.unlines, List.foldl_map]

/-! ## What a handle remembers -/

/-- The last items of a row: as many as there are, up to a number. -/
def Latest {α : Type} (n : Nat) (row last : List α) : Prop :=
  last <:+ row ∧ last.length = min n row.length

theorem latest_drop {α : Type} (n : Nat) (row : List α) :
    Latest n row (row.drop (row.length - n)) := by
  refine ⟨List.drop_suffix _ _, ?_⟩
  rw [List.length_drop]
  omega

/-- A handle forgets the oldest line, and only if it has to. -/
theorem latest_remember {row : List LogLine} {h : Handle}
    (latest : Latest historyLimit row h.history) (line : LogLine) :
    Latest historyLimit (row ++ [line]) (h.remember line).history := by
  obtain ⟨⟨older, rfl⟩, length⟩ := latest
  unfold Handle.remember
  dsimp only
  split
  · next full =>
    refine ⟨?_, ?_⟩
    · refine ⟨older ++ h.history.take 1, ?_⟩
      rw [← List.append_assoc, List.append_assoc older, List.take_append_drop]
    · simp only [List.length_append, List.length_drop, List.length_singleton] at length ⊢
      have : 0 < historyLimit := by decide
      omega
  · next room =>
    refine ⟨?_, ?_⟩
    · exact ⟨older, by simp⟩
    · simp only [List.length_append, List.length_singleton] at length ⊢
      omega

theorem latest_foldl_remember {row : List LogLine} {h : Handle}
    (latest : Latest historyLimit row h.history) (lines : List LogLine) :
    Latest historyLimit (row ++ lines) (lines.foldl Handle.remember h).history := by
  induction lines generalizing row h with
  | nil => simpa using latest
  | cons line lines ih => simpa using ih (latest_remember latest line)

namespace RunLog

/-- When a call is made; the calls that record nothing have no time. -/
def Call.time : Call → String
  | .begin _ time _ | .append _ time _ | .appendIn _ time _ | .finish _ time _ | .fail _ time _ =>
    time
  | .subscribe _ | .unsubscribe _ | .reopen => ""

section Step

variable {log : RunLog} {calls : List Call} (follows : Follows calls log)

include follows

/-- A handle remembers the lines that go through it. -/
theorem Follows.history_perform (k : Nat) (c : Call) : ((perform log c).handle k).history =
    ((c.linesOf k calls).foldl Handle.remember (log.handle k)).history := by
  cases c with
  | begin handle time message =>
    by_cases same : handle = k <;>
      simp [perform, beginThrough, handle_appendThrough, handle_change, same, Call.linesOf,
        Call.lines, Call.handle?, Handle.remember]
  | append handle time n =>
    by_cases same : handle = k <;>
      simp [perform, handle_appendThrough, same, Call.linesOf, Call.lines, Call.handle?]
  | appendIn s time n =>
    rw [perform, follows.appendIn_eq]
    by_cases same : s.handle = k <;> cases opened : isOpened calls s <;>
      simp [handle_appendThrough, same, Call.linesOf, Call.lines, Call.handle?, opened]
  | finish handle time summary | fail handle time reason =>
    by_cases same : handle = k <;>
      simp [perform, finishThrough, failThrough, closeThrough, handle_appendThrough, handle_change,
        same, Call.linesOf, Call.lines, Call.handle?]
  | subscribe handle | unsubscribe index | reopen => rfl

end Step

section Run

variable {log : RunLog} {before : List Call} (follows : Follows before log)

include follows

theorem latest_after {k : Nat} {row : List LogLine}
    (latest : Latest historyLimit row (log.handle k).history) (since : List Call) :
    Latest historyLimit (row ++ along (Call.linesOf k) before since)
      ((after log since).handle k).history := by
  induction since generalizing log before row with
  | nil =>
    rw [along, List.append_nil]
    exact latest
  | cons c since ih =>
    have first : Latest historyLimit (row ++ c.linesOf k before)
        ((perform log c).handle k).history := by
      rw [follows.history_perform]
      exact latest_foldl_remember latest _
    have rest := ih (follows.step c) first
    rwa [List.append_assoc] at rest

/-- What is to be added to the file is the text of the new lines. -/
theorem textOf_after (since : List Call) : textOf (after log since).written =
    textOf log.written ++ (after log since).textSince log := by
  have new : (after log since).written.take
      ((after log since).written.length - log.written.length) =
        (along Call.lines before since).reverse := by
    rw [written_after follows, List.length_append, Nat.add_sub_cancel, List.take_left]
  rw [textSince, new, written_after follows, textOf_eq, textOf_eq, textOf_eq, List.reverse_append,
    List.map_append, Text.unlines_append]

end Run

/-! ## The file -/

theorem tail?_eq (file : Bytes) (count : Option Nat) : tail? file count =
    (Utf8.decode file).toOption.map fun text =>
      (Text.lines text).drop ((Text.lines text).length - count.getD (Text.lines text).length) := by
  unfold tail?
  cases Utf8.decode file <;> rfl

theorem tail?_none (file : Bytes) :
    tail? file none = (Utf8.decode file).toOption.map Text.lines := by
  simp [tail?_eq]

theorem tail?_some (file : Bytes) (n : Nat) :
    tail? file (some n) = (tail? file none).map fun all => all.drop (all.length - n) := by
  rw [tail?_none, tail?_eq, Option.map_map]
  rfl

/-- A file that is empty or ends with a newline, with more text behind. -/
theorem tail?_append {stored : Bytes} (ended : stored = [] ∨ stored.getLast? = some 0x0A)
    (text : String) : tail? (stored ++ Utf8.encode text) none =
      (tail? stored none).map fun old => old ++ Text.lines text := by
  rw [tail?_none, tail?_none]
  obtain rfl | last := ended
  · rw [List.nil_append, Utf8.decode_encode]
    simp [Utf8.decode, Utf8.decodeOnto, Except.toOption, Text.lines, Text.linesOnto]
  · obtain ⟨front, rfl⟩ := List.getLast?_eq_some_iff.1 last
    have alone := Utf8.toOption_decode_newline front ""
    simp only [Utf8.encode_eq "", String.toList_empty, List.flatMap_nil, String.append_empty]
      at alone
    rw [List.append_assoc, List.singleton_append, Utf8.toOption_decode_newline, alone,
      Option.map_map, Option.map_map, Option.map_map]
    cases (Utf8.decode front).toOption with
    | none => rfl
    | some before => simp [Text.lines_append]

theorem mem_lines {before : List Call} {c : Call} {line : LogLine} (mem : line ∈ c.lines before) :
    ∃ level message, line = ⟨c.time, level, oneLine message⟩ := by
  cases c with
  | appendIn s time n =>
    rw [Call.lines] at mem
    split at mem
    · exact ⟨n.level, n.message, List.mem_singleton.1 mem⟩
    · cases mem
  | begin handle time message | append handle time n | finish handle time message
  | fail handle time message => exact ⟨_, _, List.mem_singleton.1 mem⟩
  | subscribe handle | unsubscribe index | reopen => cases mem

theorem oneLine_of_mem_along {before since : List Call}
    (times : ∀ c ∈ since, '\n' ∉ c.time.toList) :
    ∀ row ∈ (along Call.lines before since).map LogLine.render, Text.OneLine row := by
  induction since generalizing before with
  | nil => simp [along]
  | cons c since ih =>
    obtain ⟨one, rest⟩ := List.forall_mem_cons.1 times
    rw [along, List.map_append]
    intro row mem
    obtain here | later := List.mem_append.1 mem
    · obtain ⟨line, inside, rfl⟩ := List.mem_map.1 here
      obtain ⟨level, message, rfl⟩ := mem_lines inside
      exact oneLine_render one level message
    · exact ih rest row later

/-- The log, its file and the number of its latest handle, apart from the lines. -/
theorem frame_perform (log : RunLog) (c : Call) :
    (perform log c).path = log.path ∧ (perform log c).stored = log.stored ∧
      (perform log c).latest = log.latest + if c = .reopen then 1 else 0 := by
  cases c with
  | appendIn s time n =>
    rw [perform, appendIn]
    split <;> exact ⟨rfl, rfl, rfl⟩
  | _ => exact ⟨rfl, rfl, rfl⟩

theorem frame_after (log : RunLog) (calls : List Call) :
    (after log calls).path = log.path ∧ (after log calls).stored = log.stored ∧
      (after log calls).latest = log.latest + calls.count .reopen := by
  induction calls generalizing log with
  | nil => exact ⟨rfl, rfl, rfl⟩
  | cons c calls ih =>
    obtain ⟨path, stored, latest⟩ := ih (perform log c)
    obtain ⟨path', stored', latest'⟩ := frame_perform log c
    refine ⟨path.trans path', stored.trans stored', latest.trans ?_⟩
    rw [latest', List.count_cons]
    by_cases same : c = .reopen
    · rw [if_pos same, if_pos (beq_iff_eq.2 same), Nat.add_assoc, Nat.add_comm 1]
    · rw [if_neg same, if_neg (mt beq_iff_eq.1 same), Nat.add_zero, Nat.add_zero]

/-- A log file that was empty or ended with a newline when it was opened, and that calls have been
added to through any number of handles.

* All its lines are those that it had, and behind them one for each line that was recorded.
* Its tail is the last of them, as many as are asked for or as there are.
* A handle remembers the last lines of those that went through it, so the log has the last ones of
  its latest handle. -/
theorem tail?_fileBytes (path : String) {stored : Bytes}
    (ended : stored = [] ∨ stored.getLast? = some 0x0A) {calls : List Call}
    (times : ∀ c ∈ calls, '\n' ∉ c.time.toList) :
    tail? (after (.open path stored) calls).fileBytes none =
      (tail? stored none).map (fun old => old ++ (along Call.lines [] calls).map LogLine.render) ∧
    (∀ n all, tail? (after (.open path stored) calls).fileBytes none = some all → ∃ last,
      tail? (after (.open path stored) calls).fileBytes (some n) = some last ∧ Latest n all last) ∧
    (∀ k, Latest historyLimit (along (Call.linesOf k) [] calls)
      ((after (.open path stored) calls).handle k).history) ∧
    Latest historyLimit (along (Call.linesOf (calls.count .reopen)) [] calls)
      (after (.open path stored) calls).lines := by
  have start := follows_fresh (some path) stored
  obtain ⟨isFile, before, latest⟩ := frame_after (.open path stored) calls
  have lines : (after (.open path stored) calls).written.reverse = along Call.lines [] calls := by
    rw [RunLog.open, written_after start calls, List.reverse_append, List.reverse_reverse]
    exact List.nil_append _
  have file : (after (.open path stored) calls).fileBytes = stored ++
      Utf8.encode (Text.unlines ((along Call.lines [] calls).map LogLine.render)) := by
    rw [fileBytes, isFile, before, textOf_eq, lines]
    rfl
  have remembered (k : Nat) : Latest historyLimit (along (Call.linesOf k) [] calls)
      ((after (.open path stored) calls).handle k).history := by
    have none : Latest historyLimit [] ((fresh (some path) stored).handle k).history := by
      rw [handle_fresh]
      exact ⟨List.suffix_refl _, rfl⟩
    exact latest_after start none calls
  refine ⟨?_, fun n all whole => ?_, remembered, ?_⟩
  · rw [file, tail?_append ended, Text.lines_unlines (oneLine_of_mem_along times)]
  · refine ⟨all.drop (all.length - n), ?_, latest_drop n all⟩
    rw [tail?_some, whole]
    rfl
  · have number : (after (.open path stored) calls).latest = calls.count .reopen :=
      latest.trans (Nat.zero_add _)
    rw [RunLog.lines, number]
    exact remembered (calls.count .reopen)

/-- A message with line breaks, and one more through another handle. -/
def reopened : List Call :=
  [.append 0 "t" ⟨.info, "one\ntwo\r"⟩, .reopen, .append 1 "t" ⟨.warn, "three"⟩]

/-- Behind the line that was there, the file has two lines, of which the new handle knows one. -/
theorem tail?_fileBytes_reopened :
    tail? (after (.open "log" (Utf8.encode "old\n")) reopened).fileBytes none =
      some ["old", "t [INFO] one two ", "t [WARN] three"] ∧
    (∃ last, tail? (after (.open "log" (Utf8.encode "old\n")) reopened).fileBytes (some 2) =
      some last ∧ Latest 2 ["old", "t [INFO] one two ", "t [WARN] three"] last) ∧
    (after (.open "log" (Utf8.encode "old\n")) reopened).lines = [⟨"t", .warn, "three"⟩] := by
  have ended : (Utf8.encode "old\n").getLast? = some 0x0A := by decide +kernel
  have times : ∀ c ∈ reopened, '\n' ∉ c.time.toList := by decide +kernel
  obtain ⟨whole, tail, -, lines⟩ := tail?_fileBytes "log" (.inr ended) times
  rw [tail?_none (Utf8.encode _), Utf8.decode_encode] at whole
  have all : tail? (after (.open "log" (Utf8.encode "old\n")) reopened).fileBytes none =
      some ["old", "t [INFO] one two ", "t [WARN] three"] :=
    whole.trans (by decide +kernel)
  have own : along (Call.linesOf 1) [] reopened = [⟨"t", .warn, "three"⟩] := by decide +kernel
  rw [show reopened.count .reopen = 1 from rfl, own] at lines
  exact ⟨all, tail 2 _ all, lines.1.eq_of_length lines.2⟩

end RunLog

end Clarify
