import Clarify.Proofs.Flow.Again

/-!
# Simplifying changes code in place

Simplifying a body never fails and moves no instruction. Each instruction still stands where it
stood, or is a branch with another target, or is a conditional branch in place of which there is the
removal of its operands. Since the instructions tile the code, no byte changes but those of such
branches.

Results:
* `Flow.remains_simplify`: what remains of each instruction.
* `simplify_in_place`: what changes and what does not.
-/

namespace Clarify

namespace Flow

/-- What remains of an instruction of `a` in the code `b`. -/
inductive Remains (a b : Array UInt8) (i : Instruction) : Prop
  /-- The instruction itself. -/
  | kept : Code.SameBytes a i.offset b i.offset i.length → Remains a b i
  /-- A branch, with another target. -/
  | redirected {t : Nat} : isThreadable i = true →
      Code.instructionAt b i.offset = .ok { i with operand := .branch t } → Remains a b i
  /-- The removal of the operands of a conditional branch. -/
  | dropped : Opcode.isConditional i.opcode = true → Emptied b i → Remains a b i

variable {c x y : Code} {a b : Array UInt8} {instructions straight : Array Instruction}
  {i : Instruction}

/-! ## Each instruction -/

/-- In place of an instruction there is one that ends where it does, or there are instructions
without operands. -/
theorem Remains.exists_next (h : Remains a b i) (read : Code.instructionAt a i.offset = .ok i)
    (inside : i.offset < a.size) (size : b.size = a.size) :
    (∃ j, Code.instructionAt b i.offset = .ok j ∧ j.next = i.next) ∨
      Code.Bare b i.offset i.next := by
  cases h with
  | kept same => exact .inl ⟨i, Code.instructionAt_congr read inside size same, rfl⟩
  | redirected _ read' => exact .inl ⟨_, read', rfl⟩
  | dropped _ emptied => exact .inr emptied.bare

/-- The bytes that change are those of the operand of a branch that has another target, and those
of a conditional branch in place of which its operands are removed. -/
theorem Remains.of_byteAt_ne (h : Remains a b i) (read : Code.instructionAt a i.offset = .ok i)
    {k : Nat} (lo : i.offset ≤ k) (hi : k < i.next)
    (changed : Code.byteAt b k ≠ Code.byteAt a k) :
    (k ≠ i.offset ∧ isThreadable i = true ∧
        ∃ t, Code.instructionAt b i.offset = .ok { i with operand := .branch t }) ∨
      Opcode.isConditional i.opcode = true ∧ Emptied b i := by
  cases h with
  | kept same =>
    obtain ⟨n, rfl⟩ := Nat.exists_eq_add_of_le lo
    rw [Instruction.next] at hi
    exact absurd (same n (by omega)) changed
  | @redirected t threadable read' =>
    refine .inl ⟨?_, threadable, t, read'⟩
    rintro rfl
    -- The opcode is the one that is read in both.
    have opcode := (Code.instructionAt_eq_ok_iff.1 read).2.2
    have opcode' := (Code.instructionAt_eq_ok_iff.1 read').2.2
    exact changed (opcode'.symm.trans opcode)
  | dropped conditional emptied => exact .inr ⟨conditional, emptied⟩

/-! ## Both changes -/

theorem Straightened.remains (h : Straightened (ofInstructions a.size instructions) a b i) :
    Remains a b i := by
  obtain same | ⟨t, d, threadable, -, -, read⟩ := h
  · exact .kept same
  · exact .redirected threadable read

/-- What remains of each instruction when jumps are threaded and branches collapsed. -/
theorem remains_simplify (h : c.instructions = .ok instructions)
    (decoded : (c.threadJumps instructions).1.instructions = .ok straight)
    (hi : i ∈ instructions) :
    Remains c.bytes ((c.threadJumps instructions).1.collapseBranches straight).1.bytes i := by
  have sx := straightens_threadJumps h
  obtain ⟨straight', decoded', starts⟩ := sx.decode h
  cases decoded.symm.trans decoded'
  have cx := collapses_collapseBranches decoded
  obtain ⟨o, read⟩ := (sx.straightened i hi).read h sx.size hi
  have mem := mem_of_instructionAt decoded ((starts i.offset).2 ⟨i, hi, rfl⟩) read
  obtain same | ⟨isIdle, emptied⟩ := cx.collapsed _ mem
  · cases (sx.straightened i hi).remains with
    | kept before => exact .kept (before.trans same)
    | @redirected t threadable read' =>
      rw [read] at read'
      cases read'
      have inside := Code.offset_lt_of_mem decoded mem
      exact .redirected threadable (Code.instructionAt_congr read inside cx.size same)
    | dropped conditional before => exact .dropped conditional (before.of_sameBytes same)
  · exact .dropped (isConditional_of_isIdle isIdle).1 ⟨emptied.first, emptied.rest⟩

end Flow

namespace Code

variable {c : Code} {instructions : Array Instruction}

/-- A body that differs from another one only in bytes of its code, each of them in the operand of
a branch or in a conditional branch that was removed. -/
structure InPlace (c x : Code) (instructions : Array Instruction) : Prop where
  rest : x = { c with bytes := x.bytes }
  size : x.bytes.size = c.bytes.size
  /-- The code can be decoded, with instructions at all offsets at which there were some. -/
  starts : ∃ result, x.instructions = .ok result ∧
    ∀ i ∈ instructions, ∃ j ∈ result, j.offset = i.offset
  remains : ∀ i ∈ instructions, Flow.Remains c.bytes x.bytes i
  /-- The operand is that of a conditional branch or a jump. What was removed is a conditional
  branch, in place of which the removal of its operands and then `nop`s stand. -/
  changed : ∀ k, byteAt x.bytes k ≠ byteAt c.bytes k →
    ∃ i ∈ instructions, i.offset ≤ k ∧ k < i.next ∧
      ((k ≠ i.offset ∧ Flow.isThreadable i = true ∧
          ∃ t, instructionAt x.bytes i.offset = .ok { i with operand := .branch t }) ∨
        Opcode.isConditional i.opcode = true ∧ Flow.Emptied x.bytes i)

/-- Simplifying never fails and moves no instruction: it changes the code in place. -/
theorem simplify_in_place (decoded : c.instructions = .ok instructions) :
    ∃ simple counts, c.simplify = .ok (simple, counts) ∧ c.InPlace simple instructions := by
  obtain ⟨straight, result, decoded', decoded'', simplified⟩ := simplify_eq_ok decoded
  have remains (i : Instruction) (hi : i ∈ instructions) :=
    Flow.remains_simplify decoded decoded' hi
  have size := ((Flow.collapses_collapseBranches decoded').size).trans
    (Flow.straightens_threadJumps decoded).size
  have tiles := tiles_of_decode decoded
  refine ⟨_, _, simplified, rfl, size, ⟨result, decoded'', fun i hi => ?_⟩, remains,
    fun k changed => ?_⟩
  · have starts := tiles.exists_start (tiles_of_decode decoded'') size
      (fun j hj => next_le_of_mem decoded (Array.mem_toList_iff.1 hj)) fun j hj =>
        have mem := Array.mem_toList_iff.1 hj
        (remains j mem).exists_next (instructionAt_of_mem decoded mem)
          (offset_lt_of_mem decoded mem) size
    obtain ⟨j, hj, same⟩ := starts i (Array.mem_toList_iff.2 hi)
    exact ⟨j, Array.mem_toList_iff.1 hj, same⟩
  · have inside : k < c.bytes.size := by
      by_contra outside
      rw [byteAt, byteAt, Array.getD, Array.getD, dif_neg outside, dif_neg (by omega)] at changed
      exact changed rfl
    obtain ⟨i, hi, lo, hi'⟩ := Flow.exists_covering tiles (Nat.zero_le k) inside
    have mem := Array.mem_toList_iff.1 hi
    exact ⟨i, mem, lo, hi',
      (remains i mem).of_byteAt_ne (instructionAt_of_mem decoded mem) lo hi' changed⟩

theorem simplify_in_place_idleBody : ∃ simple counts, idleBody.simplify = .ok (simple, counts) ∧
    idleBody.InPlace simple idleInstructions :=
  simplify_in_place (Except.eq_ok_of_toOption (by decide +kernel))

end Code

end Clarify
