import Clarify.Proofs.ClassFile.Layout

/-!
# Machines that run method bodies

A machine gives meaning to the instructions of a body. What an instruction without control does is
its own affair and may end in an exception; how control moves is the same for all machines. A run
ends when the body returns or when an exception leaves it. Its trace lists what happened to the
data: the effects, each with the bytes of its instruction and the state before, and the removals of
operands. A `nop` leaves no trace.

Results:
* `Runs.transfer`: a body that follows each step of another one ends as the other one does.
-/

namespace Clarify

/-- The part of an instruction in the flow of control. -/
inductive Role where
  | nop
  /-- Removes operands from the stack. -/
  | drop (count : Nat)
  /-- Removes operands, and goes to the target or on. -/
  | branch (count target : Nat)
  | jump (target : Nat)
  /-- A switch or a subroutine call, which goes where the state says. -/
  | select
  /-- The return from a subroutine. -/
  | ret
  /-- The return from the method. -/
  | leave
  | raise
  /-- Everything else, which goes on behind itself. -/
  | effect
deriving Repr, DecidableEq

/-- The number of operands of a conditional branch. -/
def Opcode.operandCount (op : UInt8) : Nat := if isBinaryBranch op then 2 else 1

/-- Whether the handler covers the offset. -/
def Handler.covers (h : Handler) (pc : Nat) : Bool := h.start.toNat ≤ pc && pc < h.stop.toNat

/-- The role of an instruction of the code. A return from a subroutine can be widened. -/
def Code.roleOf (code : Array UInt8) (i : Instruction) : Role :=
  if i.opcode = Opcode.nop then .nop
  else if i.opcode = Opcode.pop then .drop 1
  else if i.opcode = Opcode.pop2 then .drop 2
  else
    match i.operand with
    | .branch t =>
      if Opcode.isConditional i.opcode then .branch (Opcode.operandCount i.opcode) t
      else if Opcode.isGoto i.opcode then .jump t
      else .select
    | .switch .. => .select
    | _ =>
      if i.opcode = Opcode.ret ∨
          i.opcode = Opcode.wide ∧ byteAt code (i.offset + 1) = Opcode.ret then .ret
      else if Opcode.isReturn i.opcode then .leave
      else if i.opcode = Opcode.athrow then .raise
      else .effect

/-- The bytes of an instruction of the code. -/
def Code.bytesOf (code : Array UInt8) (i : Instruction) : Array UInt8 :=
  code.extract i.offset i.next

/-! ## Roles -/

namespace Opcode

theorem not_pop_of_isConditional : ∀ op, Opcode.isConditional op = true →
    op ≠ Opcode.nop ∧ op ≠ Opcode.pop ∧ op ≠ Opcode.pop2 :=
  forall_byte (by decide +kernel)

theorem not_pop_of_isGoto : ∀ op, Opcode.isGoto op = true → op ≠ Opcode.nop ∧
    op ≠ Opcode.pop ∧ op ≠ Opcode.pop2 ∧ Opcode.isConditional op = false :=
  forall_byte (by decide +kernel)

end Opcode

namespace Code

/-- The role of an instruction is that of its bytes. -/
theorem roleOf_shift {a b : Array UInt8} {p q : Nat} {i : Instruction}
    (h : instructionAt a p = .ok i) (same : SameBytes a p b q i.length) :
    roleOf b { i with offset := q } = roleOf a i := by
  by_cases wide : i.opcode = Opcode.wide
  · have second := same 1 (two_le_length_of_wide h wide)
    rw [← offset_of_instructionAt h] at second
    simp only [roleOf, second]
  · simp only [roleOf, wide, false_and]

theorem bytesOf_shift {a b : Array UInt8} {q : Nat} {i : Instruction}
    (same : SameBytes a i.offset b q i.length) (ha : i.next ≤ a.size)
    (hb : q + i.length ≤ b.size) : bytesOf b { i with offset := q } = bytesOf a i :=
  (extract_eq_extract_iff ha hb).2 same

theorem roleOf_eq_branch {code : Array UInt8} {i : Instruction} {n t : Nat}
    (h : roleOf code i = .branch n t) : i.operand = .branch t := by
  unfold roleOf at h
  grind

theorem roleOf_eq_jump {code : Array UInt8} {i : Instruction} {t : Nat}
    (h : roleOf code i = .jump t) : i.operand = .branch t := by
  unfold roleOf at h
  grind

theorem targets_ne_nil_of_select {code : Array UInt8} {i : Instruction}
    (h : roleOf code i = .select) : i.targets ≠ [] := by
  unfold roleOf at h
  unfold Instruction.targets
  grind

theorem roleOf_of_isConditional {code : Array UInt8} {i : Instruction} {t : Nat}
    (conditional : Opcode.isConditional i.opcode = true) (target : i.operand = .branch t) :
    roleOf code i = .branch (Opcode.operandCount i.opcode) t := by
  obtain ⟨nop, pop, pop2⟩ := Opcode.not_pop_of_isConditional _ conditional
  simp only [roleOf, nop, pop, pop2, target, conditional, if_true, if_false]

theorem roleOf_of_isGoto {code : Array UInt8} {i : Instruction} {t : Nat}
    (jump : Opcode.isGoto i.opcode = true) (target : i.operand = .branch t) :
    roleOf code i = .jump t := by
  obtain ⟨nop, pop, pop2, conditional⟩ := Opcode.not_pop_of_isGoto _ jump
  simp [roleOf, nop, pop, pop2, target, conditional, jump]

end Code

/-! ## Machines -/

/-- Something that happened to the data, with the state before. -/
inductive Event (State : Type) where
  | effect (bytes : Array UInt8) (before : State)
  | drop (count : Nat) (before : State)

/-- How a run ends. -/
inductive Ending (State Exn Result : Type) where
  | returned (result : Result)
  | thrown (e : Exn) (s : State)

/-- What one instruction leads to. -/
inductive Step (State Exn Result : Type) where
  | next (events : List (Event State)) (pc : Nat) (s : State)
  | stop (events : List (Event State)) (ending : Ending State Exn Result)
  | stuck

/-- The meaning of instructions on states. An exception comes with the state that it left. -/
structure Machine (State Value Exn Result : Type) where
  /-- The effect of an instruction with the given bytes. -/
  effect : Array UInt8 → State → Except (Exn × State) State
  /-- Takes a number of operands from the stack. -/
  take : Nat → State → Except (Exn × State) (List Value × State)
  /-- Whether a branch with the given opcode is taken. -/
  holds : UInt8 → List Value → Bool
  /-- Where a switch or a subroutine call goes. -/
  select : Instruction → State → Nat × State
  /-- Where the return from a subroutine with the given bytes goes. -/
  ret : Array UInt8 → State → Nat × State
  /-- The result of a return with the given bytes. -/
  leave : Array UInt8 → State → Except (Exn × State) Result
  /-- The exception that the state holds. -/
  raise : State → Exn × State
  /-- Whether a handler for the given type takes an exception. -/
  catches : UInt16 → Exn → State → Bool
  /-- The state in which a handler starts. -/
  enter : Exn → State → State

namespace Machine

variable {State Value Exn Result : Type} (m : Machine State Value Exn Result)

/-- Goes to the first handler that covers `pc` and takes the exception, or leaves the body. -/
def throwAt (c : Code) (pc : Nat) (events : List (Event State)) (x : Exn × State) :
    Step State Exn Result :=
  match c.handlers.find? fun h => h.covers pc && m.catches h.catchType x.1 x.2 with
  | some h => .next events h.target.toNat (m.enter x.1 x.2)
  | none => .stop events (.thrown x.1 x.2)

/-- Carries out an instruction of the body. -/
def exec (c : Code) (i : Instruction) (s : State) : Step State Exn Result :=
  match Code.roleOf c.bytes i with
  | .nop => .next [] i.next s
  | .drop n =>
    match m.take n s with
    | .ok (_, s') => .next [.drop n s] i.next s'
    | .error x => m.throwAt c i.offset [.drop n s] x
  | .branch n t =>
    match m.take n s with
    | .ok (values, s') => .next [.drop n s] (if m.holds i.opcode values then t else i.next) s'
    | .error x => m.throwAt c i.offset [.drop n s] x
  | .jump t => .next [] t s
  | .select => .next [] (m.select i s).1 (m.select i s).2
  | .ret => .next [] (m.ret (Code.bytesOf c.bytes i) s).1 (m.ret (Code.bytesOf c.bytes i) s).2
  | .leave =>
    match m.leave (Code.bytesOf c.bytes i) s with
    | .ok result => .stop [] (.returned result)
    | .error x => m.throwAt c i.offset [] x
  | .raise => m.throwAt c i.offset [] (m.raise s)
  | .effect =>
    match m.effect (Code.bytesOf c.bytes i) s with
    | .ok s' => .next [.effect (Code.bytesOf c.bytes i) s] i.next s'
    | .error x => m.throwAt c i.offset [.effect (Code.bytesOf c.bytes i) s] x

/-- Carries out the instruction at `pc`; behind the code and between instructions there is none. -/
def step (c : Code) (pc : Nat) (s : State) : Step State Exn Result :=
  if pc < c.bytes.size then
    match Code.instructionAt c.bytes pc with
    | .ok i => m.exec c i s
    | .error _ => .stuck
  else .stuck

/-- From `pc` and the state, the body ends with the given trace and ending. -/
inductive Runs (c : Code) : Nat → State → List (Event State) → Ending State Exn Result → Prop
  | stop {pc : Nat} {s : State} {events : List (Event State)} {ending : Ending State Exn Result} :
      m.step c pc s = .stop events ending → Runs c pc s events ending
  | next {pc pc' : Nat} {s s' : State} {events rest : List (Event State)}
      {ending : Ending State Exn Result} : m.step c pc s = .next events pc' s' →
      Runs c pc' s' rest ending → Runs c pc s (events ++ rest) ending

/-- Control only goes to offsets where an instruction of the body starts. -/
structure Fits (c : Code) (instructions : Array Instruction) : Prop where
  isStart_select : ∀ i ∈ instructions, Code.roleOf c.bytes i = .select →
    ∀ s, Code.IsStart instructions (m.select i s).1
  isStart_ret : ∀ bytes s, Code.IsStart instructions (m.ret bytes s).1
  isStart_handler : ∀ h ∈ c.handlers, Code.IsStart instructions h.target.toNat

/-! ## Steps -/

variable {m} {a b c : Code} {i : Instruction} {pc pc' q : Nat} {s s' : State}
  {events trace : List (Event State)} {ending : Ending State Exn Result}

theorem step_of_read (read : Code.instructionAt c.bytes pc = .ok i)
    (inside : pc < c.bytes.size) : m.step c pc s = m.exec c i s := by
  simp only [step, inside, if_true, read]

theorem step_of_isConditional (read : Code.instructionAt c.bytes i.offset = .ok i)
    (inside : i.offset < c.bytes.size) (conditional : Opcode.isConditional i.opcode = true)
    {t : Nat} (target : i.operand = .branch t) :
    m.step c i.offset s =
      match m.take (Opcode.operandCount i.opcode) s with
      | .ok (values, s') => .next [.drop (Opcode.operandCount i.opcode) s]
          (if m.holds i.opcode values then t else i.next) s'
      | .error x => m.throwAt c i.offset [.drop (Opcode.operandCount i.opcode) s] x := by
  rw [step_of_read read inside, exec, Code.roleOf_of_isConditional conditional target]

theorem step_of_isGoto (read : Code.instructionAt c.bytes i.offset = .ok i)
    (inside : i.offset < c.bytes.size) (jump : Opcode.isGoto i.opcode = true) {t : Nat}
    (target : i.operand = .branch t) : m.step c i.offset s = .next [] t s := by
  rw [step_of_read read inside, exec, Code.roleOf_of_isGoto jump target]

theorem throwAt_congr (handlers : b.handlers = a.handlers) : m.throwAt b = m.throwAt a := by
  funext pc events x
  simp only [throwAt, handlers]

theorem exec_congr (handlers : b.handlers = a.handlers)
    (read : Code.instructionAt a.bytes i.offset = .ok i)
    (same : Code.SameBytes a.bytes i.offset b.bytes i.offset i.length)
    (ha : i.next ≤ a.bytes.size) (hb : i.next ≤ b.bytes.size) : m.exec b i s = m.exec a i s := by
  have role : Code.roleOf b.bytes i = Code.roleOf a.bytes i := Code.roleOf_shift read same
  have bytes : Code.bytesOf b.bytes i = Code.bytesOf a.bytes i := Code.bytesOf_shift same ha hb
  simp only [exec, role, bytes, throwAt_congr handlers]

/-- The same bytes make the same step. -/
theorem step_congr (handlers : b.handlers = a.handlers) (size : b.bytes.size = a.bytes.size)
    (read : Code.instructionAt a.bytes i.offset = .ok i) (inside : i.offset < a.bytes.size)
    (same : Code.SameBytes a.bytes i.offset b.bytes i.offset i.length) :
    m.step b i.offset s = m.step a i.offset s := by
  have room := Code.next_le_size read inside
  rw [step_of_read read inside, step_of_read (Code.instructionAt_congr read inside size same)
    (size ▸ inside), exec_congr handlers read same room (size ▸ room)]

theorem step_of_size_le (outside : c.bytes.size ≤ pc) : m.step c pc s = .stuck :=
  if_neg (by omega)

theorem throwAt_eq_next {x : Exn × State} {before : List (Event State)}
    (h : m.throwAt c pc before x = .next events q s') : ∃ h ∈ c.handlers, h.target.toNat = q := by
  unfold throwAt at h
  split at h
  · next found =>
    cases h
    exact ⟨_, List.mem_of_find?_eq_some found, rfl⟩
  · cases h

theorem throwAt_of_not_covers (uncovered : ∀ h ∈ c.handlers, h.covers pc = false)
    (before : List (Event State)) (x : Exn × State) :
    m.throwAt c pc before x = .stop before (.thrown x.1 x.2) := by
  have none : (c.handlers.find? fun h => h.covers pc && m.catches h.catchType x.1 x.2) = none := by
    refine List.find?_eq_none.2 fun h mem => ?_
    rw [uncovered h mem]
    exact Bool.false_ne_true
  simp only [throwAt, none]

/-- Where control can go: to an instruction or behind the code. -/
def Reachable (c : Code) (instructions : Array Instruction) (pc : Nat) : Prop :=
  Code.IsStart instructions pc ∨ pc = c.bytes.size

/-- From an instruction, control goes to an instruction or behind the code. -/
theorem Fits.reachable {instructions : Array Instruction} (fits : m.Fits c instructions)
    (h : c.instructions = .ok instructions) (hi : i ∈ instructions)
    (moves : m.exec c i s = .next events q s') : Reachable c instructions q := by
  have next : Reachable c instructions i.next :=
    (Code.next_eq_size_or_isStart h hi).symm
  have throws {before : List (Event State)} {x : Exn × State}
      (h : m.throwAt c i.offset before x = .next events q s') : Reachable c instructions q := by
    obtain ⟨handler, mem, rfl⟩ := throwAt_eq_next h
    exact .inl (fits.isStart_handler handler mem)
  have target {t : Nat} (operand : i.operand = .branch t) : Reachable c instructions t :=
    .inl (Code.isStart_of_mem_targets h hi (by simp [Instruction.targets, operand]))
  unfold exec at moves
  split at moves
  case h_1 => cases moves; exact next
  case h_2 =>
    split at moves
    · cases moves; exact next
    · exact throws moves
  case h_3 role =>
    split at moves
    · cases moves
      split
      · exact target (Code.roleOf_eq_branch role)
      · exact next
    · exact throws moves
  case h_4 role => cases moves; exact target (Code.roleOf_eq_jump role)
  case h_5 role =>
    cases moves
    exact .inl (fits.isStart_select i hi role s)
  case h_6 => cases moves; exact .inl (fits.isStart_ret _ _)
  case h_7 =>
    split at moves
    · cases moves
    · exact throws moves
  case h_8 => exact throws moves
  case h_9 =>
    split at moves
    · cases moves; exact next
    · exact throws moves

theorem Fits.reachable_of_step {instructions : Array Instruction} (fits : m.Fits c instructions)
    (h : c.instructions = .ok instructions) (hi : i ∈ instructions)
    (moves : m.step c i.offset s = .next events q s') : Reachable c instructions q := by
  rw [step_of_read (Code.instructionAt_of_mem h hi) (Code.offset_lt_of_mem h hi)] at moves
  exact fits.reachable h hi moves

/-! ## Runs of one body -/

theorem Runs.of_next (h : m.step c pc s = .next events pc' s')
    (run : m.Runs c pc s trace ending) :
    ∃ rest, trace = events ++ rest ∧ m.Runs c pc' s' rest ending := by
  cases run with
  | stop h' => rw [h] at h'; cases h'
  | next h' rest => rw [h] at h'; cases h'; exact ⟨_, rfl, rest⟩

/-- Runs are the same from where the next steps are. -/
theorem runs_iff_of_step_eq (h : m.step c pc' s = m.step c pc s) :
    m.Runs c pc s trace ending ↔ m.Runs c pc' s trace ending := by
  constructor <;> intro run <;> cases run with
  | stop step => exact .stop (by simpa only [h] using step)
  | next step rest => exact .next (by simpa only [h] using step) rest

theorem runs_iff_of_steps {q q' : Nat} (h : m.step c pc s = .next events q s')
    (h' : m.step c pc' s = .next events q' s')
    (same : ∀ trace ending, m.Runs c q s' trace ending ↔ m.Runs c q' s' trace ending) :
    m.Runs c pc s trace ending ↔ m.Runs c pc' s trace ending := by
  constructor
  · intro run
    obtain ⟨rest, rfl, behind⟩ := run.of_next h
    exact .next h' ((same _ _).1 behind)
  · intro run
    obtain ⟨rest, rfl, behind⟩ := run.of_next h'
    exact .next h ((same _ _).2 behind)

/-- A step without a trace can be left out. -/
theorem runs_iff_of_next (h : m.step c pc s = .next [] pc' s') :
    m.Runs c pc s trace ending ↔ m.Runs c pc' s' trace ending := by
  constructor
  · intro run
    obtain ⟨rest, rfl, run⟩ := run.of_next h
    exact run
  · exact fun run => .next h run

/-! ## Following another body -/

/-- From `p` on, the body `b` follows a step of another body, up to positions that `R` relates. -/
inductive Follows (m : Machine State Value Exn Result) (b : Code) (R : Nat → Nat → Prop) (p : Nat)
    (s : State) : Step State Exn Result → Prop
  | stuck : Follows m b R p s .stuck
  | stop {events : List (Event State)} {ending : Ending State Exn Result} :
      m.step b p s = .stop events ending → Follows m b R p s (.stop events ending)
  /-- The other body does nothing that would show. -/
  | stay {q : Nat} : R q p → Follows m b R p s (.next [] q s)
  /-- Both do the same, and `b` ends from where it goes as from the place that is related. -/
  | next {q p' p'' : Nat} {events : List (Event State)} {s' : State} :
      m.step b p s = .next events p'' s' → R q p' →
      (∀ trace ending, m.Runs b p' s' trace ending → m.Runs b p'' s' trace ending) →
      Follows m b R p s (.next events q s')

/-- The same step follows itself. -/
theorem Follows.of_eq {R : Nat → Nat → Prop} {p : Nat} {step : Step State Exn Result}
    (same : m.step b p s = step)
    (related : ∀ events q s', step = .next events q s' → R q q) : Follows m b R p s step := by
  cases step with
  | stuck => exact .stuck
  | stop => exact .stop same
  | next events q s' => exact .next same (related events q s' rfl) fun _ _ run => run

/-- An exception that is thrown in the same place goes to the same handler. -/
theorem Follows.of_throwAt {instructions : Array Instruction} (fits : m.Fits c instructions)
    (handlersA : a.handlers = c.handlers) (handlersB : b.handlers = c.handlers)
    {R : Nat → Nat → Prop} {p : Nat} {before : List (Event State)} {x : Exn × State}
    (thrown : m.step b p s = m.throwAt b pc before x)
    (related : ∀ q, Code.IsStart instructions q → R q q) :
    Follows m b R p s (m.throwAt a pc before x) := by
  refine .of_eq ?_ fun events q s' moves => related q ?_
  · rw [thrown, throwAt_congr (handlersB.trans handlersA.symm)]
  · obtain ⟨handler, mem, rfl⟩ := throwAt_eq_next moves
    exact fits.isStart_handler handler (handlersA ▸ mem)

/-- A body that follows each step of another one ends as the other one does. -/
theorem Runs.transfer {R : Nat → Nat → Prop}
    (follows : ∀ q p, R q p → ∀ s, Follows m b R p s (m.step a q s)) {q p : Nat} (related : R q p)
    (run : m.Runs a q s trace ending) : m.Runs b p s trace ending := by
  induction run generalizing p with
  | @stop q s events ending h =>
    have step := follows q p related s
    rw [h] at step
    cases step with
    | stop h' => exact .stop h'
  | @next q q' s s' events rest ending h _ ih =>
    have step := follows q p related s
    rw [h] at step
    cases step with
    | stay related => exact ih related
    | next h' related same => exact .next h' (same _ _ (ih related))

end Machine

end Clarify
