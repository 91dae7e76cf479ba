import Clarify.Proofs.Flow.Chain
import Clarify.Proofs.Flow.Machine

/-!
# Straight lines of code

Two straight lines of the same bytes that leave the method and that no handler covers do the same,
wherever they stand.

Results:
* `runs_iff_of_sameBlocks`: they have the same runs.
-/

namespace Clarify.Flow

/-- A straight line of code from one offset to another, at the end of which the method is left. -/
inductive Line (instructions : Array Instruction) : Nat → Nat → Prop
  | last {i : Instruction} : i ∈ instructions → leaves i = true → Line instructions i.offset i.next
  | cons {i : Instruction} {e : Nat} : i ∈ instructions → leaves i = false →
      transfers i = false → Line instructions i.next e → Line instructions i.offset e

/-! ## Finding lines -/

section Decoded

variable {code : Array UInt8} {instructions : Array Instruction}

theorem line_of_lineEnd? (h : Code.decode code = .ok instructions) {k e : Nat}
    (found : lineEnd? instructions k = some e) :
    ∃ i, instructions[k]? = some i ∧ Line instructions i.offset e := by
  induction k using lineEnd?.induct instructions with
  | case1 k inside i leaving =>
    rw [lineEnd?, dif_pos inside] at found
    simp only at found
    rw [if_pos leaving] at found
    cases found
    exact ⟨i, Array.getElem?_eq_getElem inside, .last (Array.getElem_mem inside) leaving⟩
  | case2 k inside i staying moving =>
    rw [lineEnd?, dif_pos inside] at found
    simp only at found
    rw [if_neg staying, if_pos moving] at found
    cases found
  | case3 k inside i staying straight ih =>
    rw [lineEnd?, dif_pos inside] at found
    simp only at found
    rw [if_neg staying, if_neg straight] at found
    obtain ⟨j, hj, line⟩ := ih found
    have here : instructions[k]? = some i := Array.getElem?_eq_getElem inside
    refine ⟨i, here, .cons (Array.getElem_mem inside) (Bool.not_eq_true _ ▸ staying)
      (Bool.not_eq_true _ ▸ straight) ?_⟩
    have next := (Code.tiles_of_decode h).getElem?_succ (k := k) (i := i)
      (by rw [Array.getElem?_toList]; exact here)
    rw [Array.getElem?_toList, hj] at next
    exact next ▸ line
  | case4 k outside =>
    rw [lineEnd?, dif_neg outside] at found
    cases found

theorem line_of_blockEnd? (h : Code.decode code = .ok instructions) {o e : Nat}
    (found : (ofInstructions code.size instructions).blockEnd? o = some e) :
    Line instructions o e := by
  rw [blockEnd?, Option.bind_eq_bind, Option.bind_eq_some_iff] at found
  obtain ⟨k, position, found⟩ := found
  obtain ⟨i, hi, line⟩ := line_of_lineEnd? h found
  obtain ⟨j, hj, rfl⟩ := (position?_eq_some_iff h).1 position
  obtain rfl : i = j := Option.some.inj (hi.symm.trans hj)
  exact line

theorem Line.lt {o e : Nat} (line : Line instructions o e) : o < e := by
  induction line with
  | @last i => have := i.length_pos; rw [Instruction.next]; omega
  | @cons i => have := i.length_pos; rw [Instruction.next] at *; omega

theorem Line.le_size (h : Code.decode code = .ok instructions) {o e : Nat}
    (line : Line instructions o e) : e ≤ code.size := by
  induction line with
  | last hi => exact Code.next_le_of_mem h hi
  | cons _ _ _ _ ih => exact ih

end Decoded

/-! ## Moving lines -/

open Machine

variable {State Value Exn Result : Type} {m : Machine State Value Exn Result} {c x : Code}
  {instructions : Array Instruction} {i : Instruction} {s : State} {trace : List (Event State)}
  {ending : Ending State Exn Result}

theorem shape?_of_leaves : ∀ op, (Opcode.isReturn op || op == Opcode.athrow) = true →
    Opcode.shape? op = some .bare ∧ op ≠ Opcode.nop ∧ op ≠ Opcode.pop ∧ op ≠ Opcode.pop2 ∧
      op ≠ Opcode.ret ∧ op ≠ Opcode.wide :=
  forall_byte (by decide +kernel)

theorem operand_of_leaves {code : Array UInt8} (read : Code.instructionAt code i.offset = .ok i)
    (leaving : leaves i = true) : i.operand = .bare := by
  obtain ⟨read, -, opcode⟩ := Code.instructionAt_eq_ok_iff.1 read
  obtain ⟨shape, -⟩ := shape?_of_leaves _ leaving
  rw [Code.operandAt, ← opcode, shape] at read
  exact (congrArg Prod.fst (Except.ok.inj read)).symm

theorem roleOf_of_leaves {code : Array UInt8} (read : Code.instructionAt code i.offset = .ok i)
    (leaving : leaves i = true) (at' : Array UInt8) :
    Code.roleOf at' i = .leave ∨ Code.roleOf at' i = .raise := by
  obtain ⟨-, nop, pop, pop2, ret, wide⟩ := shape?_of_leaves _ leaving
  simp only [Code.roleOf, operand_of_leaves read leaving, nop, pop, pop2, ret, wide, if_false,
    false_or, false_and]
  by_cases returns : Opcode.isReturn i.opcode = true
  · rw [if_pos returns]
    exact .inl rfl
  · have throws : i.opcode = Opcode.athrow := by simpa [leaves, returns] using leaving
    rw [if_neg returns, if_pos throws]
    exact .inr rfl

/-- An instruction that is moved out of all handlers ends the run in the same way, goes to the
same place or goes on behind itself. -/
theorem exec_shift {q : Nat} (flat : i.targets = [])
    (role : Code.roleOf x.bytes { i with offset := q } = Code.roleOf x.bytes i)
    (bytes : Code.bytesOf x.bytes { i with offset := q } = Code.bytesOf x.bytes i)
    (here : ∀ h ∈ x.handlers, h.covers i.offset = false)
    (there : ∀ h ∈ x.handlers, h.covers q = false) :
    m.exec x { i with offset := q } s = m.exec x i s ∨
      (Code.roleOf x.bytes i ≠ .leave ∧ Code.roleOf x.bytes i ≠ .raise) ∧ ∃ events s',
        m.exec x i s = .next events i.next s' ∧
          m.exec x { i with offset := q } s = .next events (q + i.length) s' := by
  have throws {events : List (Event State)} {e : Exn × State} :
      m.throwAt x q events e = m.throwAt x i.offset events e := by
    rw [throwAt_of_not_covers here, throwAt_of_not_covers there]
  simp only [exec, role, bytes]
  cases kind : Code.roleOf x.bytes i with
  | nop => exact .inr ⟨by simp, [], s, rfl, rfl⟩
  | drop n =>
    rcases taken : m.take n s with e | ⟨values, s'⟩
    · simp only [taken]; exact .inl throws
    · simp only [taken]; exact .inr ⟨by simp, _, s', rfl, rfl⟩
  | branch n t =>
    rw [Instruction.targets, Code.roleOf_eq_branch kind] at flat
    cases flat
  | jump t =>
    rw [Instruction.targets, Code.roleOf_eq_jump kind] at flat
    cases flat
  | select => exact absurd flat (Code.targets_ne_nil_of_select kind)
  | ret => exact .inl rfl
  | leave =>
    rcases m.leave (Code.bytesOf x.bytes i) s with e | result
    · simp only; exact .inl throws
    · simp only; exact .inl trivial
  | raise => exact .inl throws
  | effect =>
    rcases m.effect (Code.bytesOf x.bytes i) s with e | s'
    · simp only; exact .inl throws
    · simp only; exact .inr ⟨by simp, _, s', rfl, rfl⟩

/-! ## Runs of equal lines -/

/-- Outside of all handlers from one offset to another. -/
def Uncovered (x : Code) (o e : Nat) : Prop :=
  ∀ h ∈ x.handlers, ∀ pc, o ≤ pc → pc < e → h.covers pc = false

theorem Uncovered.behind {o n e : Nat} (h : Uncovered x o e) : Uncovered x (o + n) e :=
  fun handler mem pc lo hi => h handler mem pc (by omega) hi

/-- A body with the instructions of another one that cannot send control elsewhere. -/
structure KeepsFlat (c x : Code) (instructions : Array Instruction) : Prop where
  size : x.bytes.size = c.bytes.size
  same : ∀ i ∈ instructions, i.targets = [] →
    Code.SameBytes c.bytes i.offset x.bytes i.offset i.length

section Moving

variable {j : Instruction}

theorem KeepsFlat.step_eq (h : c.instructions = .ok instructions)
    (keeps : KeepsFlat c x instructions) (hi : i ∈ instructions) (flat : i.targets = []) :
    m.step x i.offset s = m.exec x i s := by
  have inside := Code.offset_lt_of_mem h hi
  have read := Code.instructionAt_congr (Code.instructionAt_of_mem h hi) inside keeps.size
    (keeps.same i hi flat)
  exact step_of_read read (keeps.size ▸ inside)

/-- Where the bytes of an instruction stand again, there is the same instruction. -/
theorem eq_of_sameBytes (h : c.instructions = .ok instructions) (hi : i ∈ instructions)
    (flat : i.targets = []) (hj : j ∈ instructions)
    (same : Code.SameBytes c.bytes i.offset c.bytes j.offset i.length)
    (room : j.offset + i.length ≤ c.bytes.size) : j = { i with offset := j.offset } := by
  have read := Code.instructionAt_shift (Code.instructionAt_of_mem h hi) flat same room
  rw [Code.instructionAt_of_mem h hj] at read
  exact Except.ok.inj read

theorem KeepsFlat.shift (h : c.instructions = .ok instructions) (keeps : KeepsFlat c x instructions)
    (hi : i ∈ instructions) (flat : i.targets = []) (hj : j ∈ instructions)
    (moved : j = { i with offset := j.offset })
    (same : Code.SameBytes c.bytes i.offset c.bytes j.offset i.length) :
    Code.roleOf x.bytes { i with offset := j.offset } = Code.roleOf x.bytes i ∧
      Code.bytesOf x.bytes { i with offset := j.offset } = Code.bytesOf x.bytes i := by
  have length : j.length = i.length := by rw [moved]; rfl
  have flat' : j.targets = [] := by rw [moved]; exact flat
  have there := keeps.same j hj flat'
  rw [length] at there
  have same' := ((keeps.same i hi flat).symm.trans same).trans there
  have read := Code.instructionAt_congr (Code.instructionAt_of_mem h hi)
    (Code.offset_lt_of_mem h hi) keeps.size (keeps.same i hi flat)
  have room := Code.next_le_of_mem h hj
  rw [Instruction.next, length, ← keeps.size] at room
  exact ⟨Code.roleOf_shift read same',
    Code.bytesOf_shift same' (keeps.size ▸ Code.next_le_of_mem h hi) room⟩

/-- The instructions at the heads of equal lines end the run in the same way, go to the same place
or go on behind themselves. -/
theorem KeepsFlat.steps (h : c.instructions = .ok instructions) (keeps : KeepsFlat c x instructions)
    (hi : i ∈ instructions) (flat : i.targets = []) (hj : j ∈ instructions)
    (moved : j = { i with offset := j.offset })
    (same : Code.SameBytes c.bytes i.offset c.bytes j.offset i.length)
    (here : ∀ h ∈ x.handlers, h.covers i.offset = false)
    (there : ∀ h ∈ x.handlers, h.covers j.offset = false) :
    m.step x j.offset s = m.step x i.offset s ∨ leaves i = false ∧ ∃ events s',
      m.step x i.offset s = .next events i.next s' ∧
        m.step x j.offset s = .next events j.next s' := by
  have length : j.length = i.length := by rw [moved]; rfl
  have flat' : j.targets = [] := by rw [moved]; exact flat
  have again : m.step x j.offset s = m.exec x { i with offset := j.offset } s :=
    (keeps.step_eq h hj flat').trans (congrArg (m.exec x · s) moved)
  obtain ⟨role, bytes⟩ := keeps.shift h hi flat hj moved same
  rw [again, keeps.step_eq h hi flat, Instruction.next.eq_def j, length]
  obtain eq | ⟨goesOn, moves⟩ := exec_shift (m := m) (s := s) flat role bytes here there
  · exact .inl eq
  · refine .inr ⟨?_, moves⟩
    by_contra leaving
    rw [Bool.not_eq_false] at leaving
    obtain kind | kind := roleOf_of_leaves (Code.instructionAt_of_mem h hi) leaving x.bytes
    · exact goesOn.1 kind
    · exact goesOn.2 kind

theorem KeepsFlat.heads (h : c.instructions = .ok instructions)
    (keeps : KeepsFlat c x instructions) (hi : i ∈ instructions) (flat : i.targets = [])
    (hj : j ∈ instructions) {aEnd bEnd : Nat} (right : Line instructions j.offset bEnd)
    (length : bEnd + i.offset = aEnd + j.offset) (within : i.next ≤ aEnd)
    (same : Code.SameBytes c.bytes i.offset c.bytes j.offset (aEnd - i.offset))
    (here : Uncovered x i.offset aEnd) (there : Uncovered x j.offset bEnd) :
    j = { i with offset := j.offset } ∧
      (m.step x j.offset s = m.step x i.offset s ∨ leaves i = false ∧ ∃ events s',
        m.step x i.offset s = .next events i.next s' ∧
          m.step x j.offset s = .next events j.next s') := by
  have room := right.le_size h
  have := right.lt
  have := i.length_pos
  rw [Instruction.next] at within
  have same := same.mono (show i.length ≤ aEnd - i.offset by omega)
  have moved := eq_of_sameBytes h hi flat hj same (by omega)
  exact ⟨moved, keeps.steps h hi flat hj moved same
    (fun handler mem => here handler mem _ (Nat.le_refl _) (by omega))
    fun handler mem => there handler mem _ (Nat.le_refl _) right.lt⟩

end Moving

theorem targets_of_leaves {code : Array UInt8} (read : Code.instructionAt code i.offset = .ok i)
    (leaving : leaves i = true) : i.targets = [] := by
  rw [Instruction.targets, operand_of_leaves read leaving]

theorem targets_of_not_transfers (straight : transfers i = false) : i.targets = [] := by
  unfold transfers at straight
  simp only [Bool.or_eq_false_iff, Bool.not_eq_false', List.isEmpty_iff] at straight
  exact straight.1.1

/-- A line begins with an instruction, behind which it goes on if the instruction does not leave
the method. -/
theorem Line.head {o e : Nat} (line : Line instructions o e) :
    ∃ i ∈ instructions, i.offset = o ∧ i.next ≤ e ∧
      (leaves i = false → Line instructions i.next e) := by
  cases line with
  | @last i hi leaving =>
    refine ⟨i, hi, rfl, Nat.le_refl _, fun staying => ?_⟩
    rw [leaving] at staying
    cases staying
  | @cons i e hi staying straight rest => exact ⟨i, hi, rfl, Nat.le_of_lt rest.lt, fun _ => rest⟩

/-- Equal lines outside of all handlers have the same runs. -/
theorem Line.runs_iff (h : c.instructions = .ok instructions) (keeps : KeepsFlat c x instructions)
    {a b aEnd bEnd : Nat} (left : Line instructions a aEnd) (right : Line instructions b bEnd)
    (length : bEnd + a = aEnd + b) (same : Code.SameBytes c.bytes a c.bytes b (aEnd - a))
    (here : Uncovered x a aEnd) (there : Uncovered x b bEnd) :
    m.Runs x a s trace ending ↔ m.Runs x b s trace ending := by
  induction left generalizing b s trace ending with
  | @last i hi leaving =>
    obtain ⟨j, hj, rfl, within, -⟩ := right.head
    have flat := targets_of_leaves (Code.instructionAt_of_mem h hi) leaving
    obtain ⟨moved, steps⟩ := keeps.heads h hi flat hj right length (Nat.le_refl _) same here there
    obtain eq | ⟨staying, -⟩ := steps
    · exact runs_iff_of_step_eq eq
    · rw [leaving] at staying
      cases staying
  | @cons i e hi staying straight rest ih =>
    obtain ⟨j, hj, rfl, within, behind⟩ := right.head
    have flat := targets_of_not_transfers straight
    obtain ⟨moved, steps⟩ := keeps.heads h hi flat hj right length (Nat.le_of_lt rest.lt) same here
      there
    obtain eq | ⟨-, events, s', move, move'⟩ := steps
    · exact runs_iff_of_step_eq eq
    · have sameLength : j.length = i.length := by rw [moved]; rfl
      have staying' : leaves j = false := by rw [moved]; exact staying
      rw [Instruction.next] at rest
      refine runs_iff_of_steps move move' fun trace ending =>
        ih (behind staying') ?_ ?_ ?_ ?_
      · rw [Instruction.next, Instruction.next]; omega
      · have := same.drop i.length
        rw [Instruction.next, Instruction.next, sameLength, Nat.sub_add_eq]
        exact this
      · exact here.behind
      · exact there.behind

theorem uncovered_of_isCovered {o e : Nat} (h : c.isCovered o e = false)
    (handlers : x.handlers = c.handlers) : Uncovered x o e := by
  intro handler mem pc lo hi
  rw [handlers] at mem
  rw [Code.isCovered, List.any_eq_false] at h
  have outside := h handler mem
  simp only [Bool.and_eq_true, decide_eq_true_eq, not_and] at outside
  rw [Handler.covers, Bool.and_eq_false_iff, decide_eq_false_iff_not, decide_eq_false_iff_not]
  omega

/-- Equal blocks have the same runs. -/
theorem runs_iff_of_sameBlocks (h : c.instructions = .ok instructions)
    (keeps : KeepsFlat c x instructions) (handlers : x.handlers = c.handlers) {a b : Nat}
    (same : sameBlocks c (ofInstructions c.bytes.size instructions) a b = true) :
    m.Runs x a s trace ending ↔ m.Runs x b s trace ending := by
  unfold sameBlocks at same
  split at same
  · next aEnd bEnd left right =>
    simp only [Bool.and_eq_true, beq_iff_eq, Bool.not_eq_true'] at same
    obtain ⟨⟨same, here⟩, there⟩ := same
    have left := line_of_blockEnd? h left
    have right := line_of_blockEnd? h right
    have length := congrArg Array.size same
    have := left.lt
    have := right.lt
    have leftRoom := left.le_size h
    have rightRoom := right.le_size h
    rw [Array.size_extract, Array.size_extract] at length
    have bEnds : b + (aEnd - a) = bEnd := by omega
    have aEnds : a + (aEnd - a) = aEnd := by omega
    have same : Code.SameBytes c.bytes a c.bytes b (aEnd - a) := by
      rw [← Code.extract_eq_extract_iff (by omega) (by omega), aEnds, bEnds, same]
    exact left.runs_iff h keeps right (by omega) same (uncovered_of_isCovered here handlers)
      (uncovered_of_isCovered there handlers)
  · cases same

end Clarify.Flow
