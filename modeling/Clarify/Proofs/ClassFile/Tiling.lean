import Clarify.Proofs.ClassFile.Fetching

/-!
# Which code is refused

Decoding goes from one instruction to the next, so the offsets that it comes to are the ends of the
rows of instructions that start with the code. It refuses the code at the first of them where there
is a fault. What a fault is can be told from the bytes there, without decoding: `Spans` lists the
bytes that an instruction has to have, and `Distance` the distances in it.

Results:
* `fault_of_operandAt`, `not_fault_of_operandAt`: an operand is refused exactly if there is a fault.
* `Tiles.unique`: only one row of instructions tiles the code.
* `refusal_of_decode`, `exists_error_of_refusal`: code is refused exactly if the row of instructions
  comes to a fault, or has a target where none of them starts.
* `decode_tiles`: decoding stays inside the code, when it succeeds, and why it does not.
-/

namespace Clarify.Code

/-! ## Faults -/

/-- The number of bytes of an instruction, where the shape of its operand alone tells it. -/
def shapeLength? : Opcode.Shape → Option Nat
  | .bare => some 1
  | .byte | .narrowIndex | .slot | .arrayType => some 2
  | .short | .index | .increment | .branch => some 3
  | .multiArray => some 4
  | .callSite | .wideBranch => some 5
  | .tableSwitch | .lookupSwitch | .wide => none

/-- The instruction at `pc` has a number of bytes at an offset. For a switch, the bounds of its
table or the number of its pairs tell how many targets follow. -/
inductive Spans (code : Array UInt8) (pc : Nat) : Nat → Nat → Prop
  | fixed {shape : Opcode.Shape} {length : Nat} :
      Opcode.shape? (byteAt code pc) = some shape → shapeLength? shape = some length →
      Spans code pc pc length
  | widened : Opcode.shape? (byteAt code pc) = some .wide → Spans code pc pc 2
  | widenedIncrement : Opcode.shape? (byteAt code pc) = some .wide → pc + 2 ≤ code.size →
      byteAt code (pc + 1) = Opcode.iinc → Spans code pc pc 6
  | widenedAccess : Opcode.shape? (byteAt code pc) = some .wide → pc + 2 ≤ code.size →
      byteAt code (pc + 1) ≠ Opcode.iinc → Opcode.isLocalAccess (byteAt code (pc + 1)) = true →
      Spans code pc pc 4
  | tableHeader : Opcode.shape? (byteAt code pc) = some .tableSwitch →
      Spans code pc (pc + 1 + padding pc) 12
  | tableTargets {count : Nat} : Opcode.shape? (byteAt code pc) = some .tableSwitch →
      pc + 1 + padding pc + 12 ≤ code.size →
      intAt code (pc + 1 + padding pc + 8) - intAt code (pc + 1 + padding pc + 4) + 1 = count →
      Spans code pc (pc + 1 + padding pc + 12) (count * 4)
  | lookupHeader : Opcode.shape? (byteAt code pc) = some .lookupSwitch →
      Spans code pc (pc + 1 + padding pc) 8
  | lookupPairs {count : Nat} : Opcode.shape? (byteAt code pc) = some .lookupSwitch →
      pc + 1 + padding pc + 8 ≤ code.size → intAt code (pc + 1 + padding pc + 4) = count →
      Spans code pc (pc + 1 + padding pc + 8) (count * 8)

/-- A distance in the operand of the instruction at `pc`. -/
inductive Distance (code : Array UInt8) (pc : Nat) : Int → Prop
  | branch : Opcode.shape? (byteAt code pc) = some .branch → pc + 3 ≤ code.size →
      Distance code pc (shortAt code (pc + 1))
  | wideBranch : Opcode.shape? (byteAt code pc) = some .wideBranch → pc + 5 ≤ code.size →
      Distance code pc (intAt code (pc + 1))
  | tableDefault : Opcode.shape? (byteAt code pc) = some .tableSwitch →
      pc + 1 + padding pc + 12 ≤ code.size → Distance code pc (intAt code (pc + 1 + padding pc))
  | tableTarget {count i : Nat} : Opcode.shape? (byteAt code pc) = some .tableSwitch →
      intAt code (pc + 1 + padding pc + 8) - intAt code (pc + 1 + padding pc + 4) + 1 = count →
      pc + 1 + padding pc + 12 + count * 4 ≤ code.size → i < count →
      Distance code pc (intAt code (pc + 1 + padding pc + 12 + i * 4))
  | lookupDefault : Opcode.shape? (byteAt code pc) = some .lookupSwitch →
      pc + 1 + padding pc + 8 ≤ code.size → Distance code pc (intAt code (pc + 1 + padding pc))
  | lookupTarget {count i : Nat} : Opcode.shape? (byteAt code pc) = some .lookupSwitch →
      intAt code (pc + 1 + padding pc + 4) = count →
      pc + 1 + padding pc + 8 + count * 8 ≤ code.size → i < count →
      Distance code pc (intAt code (pc + 1 + padding pc + 12 + i * 8))

/-- What can be wrong with the instruction at `pc`. -/
inductive Fault (code : Array UInt8) (pc : Nat) : FormatError → Prop
  | unassigned : Opcode.shape? (byteAt code pc) = none →
      Fault code pc (.badOpcode (byteAt code pc) pc)
  | notWidened : Opcode.shape? (byteAt code pc) = some .wide → pc + 2 ≤ code.size →
      byteAt code (pc + 1) ≠ Opcode.iinc → Opcode.isLocalAccess (byteAt code (pc + 1)) = false →
      Fault code pc (.badOpcode (byteAt code (pc + 1)) (pc + 1))
  | truncated {offset length : Nat} : Spans code pc offset length →
      code.size < offset + length →
      Fault code pc (.truncated offset (offset + length - code.size))
  | emptyTable : Opcode.shape? (byteAt code pc) = some .tableSwitch →
      pc + 1 + padding pc + 12 ≤ code.size →
      intAt code (pc + 1 + padding pc + 8) < intAt code (pc + 1 + padding pc + 4) →
      Fault code pc (.malformedCode (.emptyTable pc))
  | negativePairs : Opcode.shape? (byteAt code pc) = some .lookupSwitch →
      pc + 1 + padding pc + 8 ≤ code.size → intAt code (pc + 1 + padding pc + 4) < 0 →
      Fault code pc (.malformedCode (.negativePairs pc))
  | outside {distance : Int} : Distance code pc distance →
      ¬(0 ≤ pc + distance ∧ pc + distance < code.size) →
      Fault code pc (.badBranch pc (pc + distance))

/-! ## Refused operands -/

section Operand

variable {code : Array UInt8} {pc : Nat} {e : FormatError}

theorem need_eq_error_iff {offset length : Nat} : need code offset length = .error e ↔
    code.size < offset + length ∧ e = .truncated offset (offset + length - code.size) := by
  unfold need
  split
  · next room => simp [Nat.not_lt.2 room]
  · next short => simp [Nat.lt_of_not_le short, eq_comm]

theorem target_eq_error_iff {distance : Int} : target code pc distance = .error e ↔
    ¬(0 ≤ pc + distance ∧ pc + distance < code.size) ∧ e = .badBranch pc (pc + distance) := by
  simp only [target]
  split
  · next inside => simp [inside]
  · next outside => simp [outside, eq_comm]

theorem exists_of_targetsFrom {start stride count : Nat}
    (h : targetsFrom code pc start stride count = .error e) :
    ∃ i < count, target code pc (intAt code (start + i * stride)) = .error e := by
  obtain ⟨i, mem, fails⟩ := Except.exists_of_mapM_eq_error h
  exact ⟨i, List.mem_range.1 mem, fails⟩

theorem fault_of_wideAt (shape : Opcode.shape? (byteAt code pc) = some .wide)
    (h : wideAt code pc = .error e) : Fault code pc e := by
  unfold wideAt at h
  simp only [Except.bind_eq_error_iff, need_eq_error_iff, need_eq_ok_iff, exists_const] at h
  obtain ⟨short, rfl⟩ | ⟨room, h⟩ := h
  · exact .truncated (.widened shape) short
  split at h
  · next increment =>
    simp only [Except.bind_eq_error_iff, need_eq_error_iff, Except.pure_eq_error_iff, and_false,
      exists_false, or_false] at h
    obtain ⟨short, rfl⟩ := h
    exact .truncated (.widenedIncrement shape room increment) short
  · next other =>
    split at h
    · next access =>
      simp only [Except.bind_eq_error_iff, need_eq_error_iff, Except.pure_eq_error_iff, and_false,
        exists_false, or_false] at h
      obtain ⟨short, rfl⟩ := h
      exact .truncated (.widenedAccess shape room other access) short
    · next unwidened =>
      obtain rfl := Except.throw_eq_error_iff.1 h
      exact .notWidened shape room other (eq_false_of_ne_true unwidened)

theorem fault_of_tableSwitchAt (shape : Opcode.shape? (byteAt code pc) = some .tableSwitch)
    (h : tableSwitchAt code pc = .error e) : Fault code pc e := by
  unfold tableSwitchAt at h
  simp only [Except.bind_eq_error_iff, need_eq_error_iff, need_eq_ok_iff, exists_const] at h
  obtain ⟨short, rfl⟩ | ⟨room, outside | ⟨default, -, h⟩⟩ := h
  · exact .truncated (.tableHeader shape) short
  · obtain ⟨astray, rfl⟩ := target_eq_error_iff.1 outside
    exact .outside (.tableDefault shape room) astray
  split at h
  · next empty =>
    simp only [Except.bind_eq_error_iff, Except.throw_eq_error_iff, Except.throw_eq_ok_iff,
      false_and, exists_false, or_false] at h
    subst h
    exact .emptyTable shape room empty
  · next ordered =>
    have count := Int.toNat_of_nonneg (a := intAt code (pc + 1 + padding pc + 8) -
      intAt code (pc + 1 + padding pc + 4) + 1) (by omega)
    simp only [Except.bind_eq_error_iff, need_eq_error_iff, need_eq_ok_iff, exists_const,
      Except.pure_eq_error_iff, and_false, or_false] at h
    obtain ⟨short, rfl⟩ | ⟨rows, h⟩ := h
    · exact .truncated (.tableTargets shape room count.symm) short
    · obtain ⟨i, before, outside⟩ := exists_of_targetsFrom h
      obtain ⟨astray, rfl⟩ := target_eq_error_iff.1 outside
      exact .outside (.tableTarget shape count.symm rows before) astray

theorem fault_of_lookupSwitchAt (shape : Opcode.shape? (byteAt code pc) = some .lookupSwitch)
    (h : lookupSwitchAt code pc = .error e) : Fault code pc e := by
  unfold lookupSwitchAt at h
  simp only [Except.bind_eq_error_iff, need_eq_error_iff, need_eq_ok_iff, exists_const] at h
  obtain ⟨short, rfl⟩ | ⟨room, outside | ⟨default, -, h⟩⟩ := h
  · exact .truncated (.lookupHeader shape) short
  · obtain ⟨astray, rfl⟩ := target_eq_error_iff.1 outside
    exact .outside (.lookupDefault shape room) astray
  split at h
  · next negative =>
    simp only [Except.bind_eq_error_iff, Except.throw_eq_error_iff, Except.throw_eq_ok_iff,
      false_and, exists_false, or_false] at h
    subst h
    exact .negativePairs shape room negative
  · next natural =>
    have count := Int.toNat_of_nonneg (a := intAt code (pc + 1 + padding pc + 4)) (by omega)
    simp only [Except.bind_eq_error_iff, need_eq_error_iff, need_eq_ok_iff, exists_const,
      Except.pure_eq_error_iff, and_false, or_false] at h
    obtain ⟨short, rfl⟩ | ⟨rows, h⟩ := h
    · exact .truncated (.lookupPairs shape room count.symm) short
    · obtain ⟨i, before, outside⟩ := exists_of_targetsFrom h
      obtain ⟨astray, rfl⟩ := target_eq_error_iff.1 outside
      exact .outside (.lookupTarget shape count.symm rows before) astray

/-- Where an operand is refused there is a fault. -/
theorem fault_of_operandAt (h : operandAt code pc = .error e) : Fault code pc e := by
  unfold operandAt at h
  dsimp only at h
  rcases shape : Opcode.shape? (byteAt code pc) with _ | s
  · rw [shape] at h
    cases h
    exact .unassigned shape
  rw [shape] at h
  cases s with
  | bare => cases h
  | tableSwitch => exact fault_of_tableSwitchAt shape h
  | lookupSwitch => exact fault_of_lookupSwitchAt shape h
  | wide => exact fault_of_wideAt shape h
  | branch =>
    simp only [Except.bind_eq_error_iff, need_eq_error_iff, need_eq_ok_iff, target_eq_error_iff,
      exists_const, Except.pure_eq_error_iff, and_false, or_false] at h
    obtain ⟨short, rfl⟩ | ⟨room, outside, rfl⟩ := h
    · exact .truncated (.fixed shape rfl) short
    · exact .outside (.branch shape room) outside
  | wideBranch =>
    simp only [Except.bind_eq_error_iff, need_eq_error_iff, need_eq_ok_iff, target_eq_error_iff,
      exists_const, Except.pure_eq_error_iff, and_false, or_false] at h
    obtain ⟨short, rfl⟩ | ⟨room, outside, rfl⟩ := h
    · exact .truncated (.fixed shape rfl) short
    · exact .outside (.wideBranch shape room) outside
  | byte | short | narrowIndex | index | callSite | slot | increment | arrayType | multiArray =>
    simp only [Except.bind_eq_error_iff, need_eq_error_iff, Except.pure_eq_error_iff, and_false,
      exists_false, or_false] at h
    obtain ⟨short, rfl⟩ := h
    exact .truncated (.fixed shape rfl) short

variable {o : Operand} {n : Nat}

/-- Where an operand is read, the instruction has all its bytes. -/
theorem le_size_of_spans (h : operandAt code pc = .ok (o, n)) (inside : pc < code.size)
    {offset length : Nat} (spans : Spans code pc offset length) : offset + length ≤ code.size := by
  unfold operandAt at h
  dsimp only at h
  cases spans with
  | @fixed s length shape known =>
    rw [shape] at h
    cases s with
    | bare =>
      cases known
      exact inside
    | tableSwitch | lookupSwitch | wide => cases known
    | _ =>
      cases known
      simp only [Except.bind_eq_ok_iff, need_eq_ok_iff] at h
      obtain ⟨-, room, -⟩ := h
      exact room
  | widened shape =>
    rw [shape] at h
    obtain ⟨room, ⟨-, -, rfl⟩ | ⟨-, -, -, rfl⟩⟩ := wideAt_eq_ok_iff.1 h <;> omega
  | widenedIncrement shape _ increment =>
    rw [shape] at h
    obtain ⟨room, ⟨-, -, rfl⟩ | ⟨other, -⟩⟩ := wideAt_eq_ok_iff.1 h
    · exact room
    · exact absurd increment other
  | widenedAccess shape _ other =>
    rw [shape] at h
    obtain ⟨room, ⟨increment, -⟩ | ⟨-, -, -, rfl⟩⟩ := wideAt_eq_ok_iff.1 h
    · exact absurd increment other
    · exact room
  | tableHeader shape =>
    rw [shape] at h
    obtain ⟨-, -, count, -, rfl, room, -⟩ := tableSwitchAt_eq_ok_iff.1 h
    omega
  | tableTargets shape header number =>
    rw [shape] at h
    obtain ⟨-, -, count, -, rfl, room, -, number', -⟩ := tableSwitchAt_eq_ok_iff.1 h
    omega
  | lookupHeader shape =>
    rw [shape] at h
    obtain ⟨-, -, count, -, rfl, room, -⟩ := lookupSwitchAt_eq_ok_iff.1 h
    omega
  | lookupPairs shape header number =>
    rw [shape] at h
    obtain ⟨-, -, count, -, rfl, room, number', -⟩ := lookupSwitchAt_eq_ok_iff.1 h
    omega

/-- Where targets are read, each distance leads to an offset in the code. -/
theorem inside_of_targetsFrom {start stride count i : Nat} {targets : List Nat}
    (h : targetsFrom code pc start stride count = .ok targets) (before : i < count) :
    ∃ t, target code pc (intAt code (start + i * stride)) = .ok t := by
  obtain ⟨t, -, read⟩ := Except.getElem?_of_mapM h (List.getElem?_range before)
  exact ⟨t, read⟩

/-- Where an operand is read, each distance in it leads to an offset in the code. -/
theorem exists_target_of_distance (h : operandAt code pc = .ok (o, n)) {distance : Int}
    (there : Distance code pc distance) : ∃ t, target code pc distance = .ok t := by
  unfold operandAt at h
  dsimp only at h
  cases there with
  | branch shape | wideBranch shape =>
    rw [shape] at h
    simp only [Except.bind_eq_ok_iff] at h
    obtain ⟨-, -, t, read, -⟩ := h
    exact ⟨t, read⟩
  | tableDefault shape =>
    rw [shape] at h
    obtain ⟨t, -, -, -, -, -, -, -, read, -⟩ := tableSwitchAt_eq_ok_iff.1 h
    exact ⟨t, read⟩
  | @tableTarget count i shape number room before =>
    rw [shape] at h
    obtain ⟨-, targets, count', -, -, -, -, number', -, read⟩ := tableSwitchAt_eq_ok_iff.1 h
    exact inside_of_targetsFrom read (by omega)
  | lookupDefault shape =>
    rw [shape] at h
    obtain ⟨t, -, -, -, -, -, -, read, -⟩ := lookupSwitchAt_eq_ok_iff.1 h
    exact ⟨t, read⟩
  | @lookupTarget count i shape number room before =>
    rw [shape] at h
    obtain ⟨-, targets, count', -, -, -, number', -, read⟩ := lookupSwitchAt_eq_ok_iff.1 h
    exact inside_of_targetsFrom read (by omega)

/-- Where an operand is read there is no fault. -/
theorem not_fault_of_operandAt (h : operandAt code pc = .ok (o, n)) (inside : pc < code.size) :
    ¬Fault code pc e := by
  intro fault
  cases fault with
  | unassigned shape =>
    rw [operandAt, shape] at h
    cases h
  | notWidened shape room other unwidened =>
    rw [operandAt, shape] at h
    obtain ⟨-, ⟨increment, -⟩ | ⟨-, access, -⟩⟩ := wideAt_eq_ok_iff.1 h
    · exact other increment
    · rw [unwidened] at access
      cases access
  | truncated spans short => exact Nat.not_lt.2 (le_size_of_spans h inside spans) short
  | emptyTable shape room empty =>
    rw [operandAt, shape] at h
    obtain ⟨-, -, count, -, -, -, positive, number, -⟩ := tableSwitchAt_eq_ok_iff.1 h
    omega
  | negativePairs shape room negative =>
    rw [operandAt, shape] at h
    obtain ⟨-, -, count, -, -, -, number, -⟩ := lookupSwitchAt_eq_ok_iff.1 h
    omega
  | outside there astray =>
    obtain ⟨t, read⟩ := exists_target_of_distance h there
    obtain ⟨same, inside⟩ := target_eq_ok_iff.1 read
    omega

end Operand

/-! ## Rows of instructions from the start -/

/-- A row of instructions that starts with the code and ends at an offset. -/
inductive Reaches (code : Array UInt8) : List Instruction → Nat → Prop
  | start : Reaches code [] 0
  | step {row : List Instruction} {pc : Nat} {i : Instruction} : Reaches code row pc →
      pc < code.size → instructionAt code pc = .ok i → Reaches code (row ++ [i]) i.next

section Rows

variable {code : Array UInt8} {pc : Nat} {row rest : List Instruction} {e : FormatError}

/-- A row that tiles the code begins with every row that starts with the code. -/
theorem Reaches.exists_rest (h : Reaches code row pc) {all : List Instruction}
    (tiles : Tiles code 0 all) : ∃ rest, all = row ++ rest ∧ Tiles code pc rest := by
  induction h with
  | start => exact ⟨all, rfl, tiles⟩
  | @step row pc i _ below read ih =>
    obtain ⟨rest, rfl, behind⟩ := ih
    cases behind with
    | nil => exact absurd below (Nat.lt_irrefl _)
    | @cons _ j rest _ read' behind =>
      rw [read] at read'
      cases read'
      exact ⟨rest, (List.append_assoc row [i] rest).symm, behind⟩

theorem Tiles.reaches (h : Tiles code pc rest) (before : Reaches code row pc) :
    Reaches code (row ++ rest) code.size := by
  induction h generalizing row with
  | nil => rwa [List.append_nil]
  | @cons pc i rest below read _ ih =>
    have := ih (before.step below read)
    rwa [List.append_assoc, List.singleton_append] at this

/-- Only one row of instructions tiles the code. -/
theorem Tiles.unique {row' : List Instruction} (h : Tiles code 0 row) (h' : Tiles code 0 row') :
    row' = row := by
  obtain ⟨rest, rfl, tiles⟩ := (h.reaches .start).exists_rest h'
  cases tiles with
  | nil => exact List.append_nil row
  | cons below => exact absurd below (Nat.lt_irrefl _)

/-- The last instruction of a row that tiles the code ends with the code. -/
theorem Tiles.next_getLast? (h : Tiles code pc row) {i : Instruction}
    (last : row.getLast? = some i) : i.next = code.size := by
  rw [List.getLast?_eq_getElem?] at last
  have behind := h.getElem?_succ last
  rw [List.getElem?_eq_none (by omega)] at behind
  exact behind

theorem exists_reaches_of_instructionsFrom {found : Array Instruction}
    (h : instructionsFrom code pc found = .error e) (before : Reaches code found.toList pc) :
    ∃ row pc, Reaches code row pc ∧ pc < code.size ∧ instructionAt code pc = .error e := by
  induction pc, found using instructionsFrom.induct code with
  | case1 pc found below i read ih =>
    rw [instructionsFrom, dif_pos below, read] at h
    refine ih h ?_
    rw [Array.toList_push, ← offset_of_instructionAt read]
    exact before.step below read
  | case2 pc found below e' read =>
    rw [instructionsFrom, dif_pos below, read] at h
    cases h
    exact ⟨_, pc, before, below, read⟩
  | case3 pc found below =>
    rw [instructionsFrom, dif_neg below] at h
    cases h

end Rows

/-! ## Refused code -/

/-- What can be wrong with code: a fault at an offset that the row of instructions comes to, or a
target of one of them where none of them starts. -/
inductive Refusal (code : Array UInt8) : FormatError → Prop
  | fault {row : List Instruction} {pc : Nat} {e : FormatError} : Reaches code row pc →
      pc < code.size → Fault code pc e → Refusal code e
  | astray {row : List Instruction} {i : Instruction} {t : Nat} : Tiles code 0 row → i ∈ row →
      t ∈ i.targets → (∀ j ∈ row, j.offset ≠ t) → Refusal code (.badBranch i.offset t)

section Refused

variable {code : Array UInt8} {e : FormatError}

theorem instructionAt_eq_error_iff {pc : Nat} :
    instructionAt code pc = .error e ↔ operandAt code pc = .error e := by
  simp only [instructionAt, Except.bind_eq_error_iff, Except.pure_eq_error_iff, and_false,
    exists_false, or_false]

/-- An error of decoding tells what is wrong with the code. -/
theorem refusal_of_decode (h : decode code = .error e) : Refusal code e := by
  unfold decode at h
  obtain unread | ⟨instructions, read, h⟩ := Except.bind_eq_error_iff.1 h
  · obtain ⟨row, pc, reaches, below, unread⟩ := exists_reaches_of_instructionsFrom unread .start
    exact .fault reaches below (fault_of_operandAt (instructionAt_eq_error_iff.1 unread))
  obtain ⟨row, tiles, rfl⟩ : ∃ row, Tiles code 0 row ∧ instructions.toList = row := by
    obtain ⟨row, tiles, eq⟩ := (instructionsFrom_eq_ok_iff (Nat.zero_le _)).1 read
    exact ⟨row, tiles, eq⟩
  obtain unchecked | ⟨-, -, no⟩ := Except.bind_eq_error_iff.1 h
  · rw [Except.forM_toList] at unchecked
    obtain ⟨i, mem, unchecked⟩ := Except.exists_of_forM_eq_error unchecked
    obtain ⟨t, target, unchecked⟩ := Except.exists_of_forM_eq_error unchecked
    split at unchecked
    · cases unchecked
    · next unmarked =>
      cases unchecked
      refine .astray tiles mem target fun j hj at' => unmarked ((getD_marks ..).2 ⟨?_, j, ?_, at'⟩)
      · rw [← at']
        exact tiles.offset_lt hj
      · exact Array.mem_toList_iff.1 hj
  · cases no

/-- Code with which something is wrong is refused. -/
theorem exists_error_of_refusal (h : Refusal code e) : ∃ e', decode code = .error e' := by
  rcases decoded : decode code with e' | instructions
  · exact ⟨e', rfl⟩
  exfalso
  obtain ⟨tiles, targets⟩ := decode_eq_ok_iff.1 decoded
  cases h with
  | fault reaches below fault =>
    obtain ⟨rest, -, tiles⟩ := reaches.exists_rest tiles
    cases tiles with
    | nil => exact Nat.lt_irrefl _ below
    | cons _ read _ =>
      exact not_fault_of_operandAt (instructionAt_eq_ok_iff.1 read).1 below fault
  | astray tiles' mem target astray =>
    obtain rfl := tiles.unique tiles'
    obtain ⟨j, hj, at'⟩ := targets _ (Array.mem_toList_iff.1 mem) _ target
    exact astray j (Array.mem_toList_iff.2 hj) at'

end Refused

/-- Decoding asks for no byte behind the end of the code. It succeeds exactly with the one row of
instructions that tiles the code and has all its targets in itself; each of them has a byte at
least, and the last one ends with the code. It fails exactly if there is a fault at an offset that
the row comes to, or a target where no instruction starts, and the error tells one of these. -/
theorem decode_tiles (code : Array UInt8) :
    (∀ fetch : Fetch, (∀ at' < code.size, fetch at' = .ok (byteAt code at')) →
      decodeWith fetch code.size = (decode code).mapError .refused) ∧
    (∀ instructions, decode code = .ok instructions ↔ Tiles code 0 instructions.toList ∧
      ∀ i ∈ instructions, ∀ t ∈ i.targets, ∃ j ∈ instructions, j.offset = t) ∧
    (∀ row, Tiles code 0 row → (∀ row', Tiles code 0 row' → row' = row) ∧
      (∀ i ∈ row, 0 < i.length) ∧ ∀ i, row.getLast? = some i → i.next = code.size) ∧
    (∀ e, decode code = .error e → Refusal code e) ∧
    ∀ e, Refusal code e → ∃ e', decode code = .error e' :=
  ⟨fun _ has => decodeWith_eq has, fun _ => decode_eq_ok_iff,
    fun _ tiles => ⟨fun _ tiles' => tiles.unique tiles', fun i _ => i.length_pos,
      fun _ last => tiles.next_getLast? last⟩,
    fun _ => refusal_of_decode, fun _ => exists_error_of_refusal⟩

end Clarify.Code
