import Clarify.Proofs.ClassFile.Patch
import Clarify.Proofs.Flow.Chain

/-!
# Conditional branches that were removed

Collapsing leaves the bytes of an instruction as they are, or puts the removal of its operands and
`nop`s in place of a conditional branch that does not matter.

Results:
* `collapses_collapseBranches`: what collapsing makes of each instruction.
-/

namespace Clarify.Flow

/-- The removal of the operands of a conditional branch. -/
def dropOf (i : Instruction) : UInt8 :=
  if Opcode.isBinaryBranch i.opcode then Opcode.pop2 else Opcode.pop

/-- The code has the removal of the operands in place of the instruction. -/
structure Emptied (code : Array UInt8) (i : Instruction) : Prop where
  first : Code.byteAt code i.offset = dropOf i
  rest : ∀ k, i.offset < k → k < i.next → Code.byteAt code k = Opcode.nop

/-- A body in which some conditional branches that do not matter are removed. -/
structure Collapses (c x : Code) (instructions : Array Instruction) : Prop where
  size : x.bytes.size = c.bytes.size
  handlers : x.handlers = c.handlers
  collapsed : ∀ i ∈ instructions, Code.SameBytes c.bytes i.offset x.bytes i.offset i.length ∨
    isIdle c (ofInstructions c.bytes.size instructions)
        (ofInstructions c.bytes.size instructions).ends i = true ∧ Emptied x.bytes i

/-! ## One branch after the other -/

theorem size_collapse (code : Array UInt8) (i : Instruction) :
    (collapse code i).size = code.size := by
  rw [collapse, Array.size_setIfInBounds, Code.size_nopOut]

theorem byteAt_setIfInBounds_of_ne {code : Array UInt8} {b : UInt8} {o k : Nat} (ne : o ≠ k) :
    Code.byteAt (code.setIfInBounds o b) k = Code.byteAt code k := by
  rw [Code.byteAt, Code.byteAt, Array.getD_eq_getD_getElem?, Array.getD_eq_getD_getElem?,
    Array.getElem?_setIfInBounds_ne ne]

theorem emptied_collapse {code : Array UInt8} {i : Instruction} (room : i.next ≤ code.size) :
    Emptied (collapse code i) i where
  first := by
    have := i.length_pos
    rw [Instruction.next] at room
    have inside : i.offset < (Code.nopOut code i).size := by rw [Code.size_nopOut]; omega
    rw [collapse, Code.byteAt, Array.getD_eq_getD_getElem?,
      Array.getElem?_setIfInBounds_self_of_lt inside]
    rfl
  rest k lo hi := by
    rw [collapse, byteAt_setIfInBounds_of_ne (by omega)]
    exact Code.byteAt_nopOut (by omega) hi room

/-- Bytes outside of a removed branch stay as they are. -/
theorem sameBytes_collapse {code : Array UInt8} {i : Instruction} {p n : Nat}
    (apart : p + n ≤ i.offset ∨ i.next ≤ p) : Code.SameBytes code p (collapse code i) p n := by
  intro k hk
  have := i.length_pos
  rw [Instruction.next] at apart
  rw [collapse, byteAt_setIfInBounds_of_ne (by omega), Code.nopOut,
    Code.byteAt_overwrite_of_outside (by rw [List.length_replicate]; omega)]

theorem Emptied.of_sameBytes {a b : Array UInt8} {i : Instruction} (h : Emptied a i)
    (same : Code.SameBytes a i.offset b i.offset i.length) : Emptied b i where
  first := (same 0 i.length_pos).trans h.first
  rest k lo hi := by
    obtain ⟨j, rfl⟩ := Nat.exists_eq_add_of_lt lo
    rw [← h.rest _ lo hi, Nat.add_assoc]
    rw [Instruction.next] at hi
    exact same (j + 1) (by omega)

/-- What collapsing makes of each instruction. -/
theorem collapses_collapseBranches {c : Code} {instructions : Array Instruction}
    (h : c.instructions = .ok instructions) :
    Collapses c (c.collapseBranches instructions).1 instructions := by
  let idle (i : Instruction) := isIdle c (ofInstructions c.bytes.size instructions)
    (ofInstructions c.bytes.size instructions).ends i
  have fold (row : List Instruction) (b : Array UInt8) (size : b.size = c.bytes.size)
      (all : ∀ j ∈ instructions, Code.SameBytes c.bytes j.offset b j.offset j.length ∨
        idle j = true ∧ Emptied b j)
      (valid : ∀ i ∈ row, i ∈ instructions ∧ idle i = true) :
      (row.foldl collapse b).size = c.bytes.size ∧ ∀ j ∈ instructions,
        Code.SameBytes c.bytes j.offset (row.foldl collapse b) j.offset j.length ∨
          idle j = true ∧ Emptied (row.foldl collapse b) j := by
    induction row generalizing b with
    | nil => exact ⟨size, all⟩
    | cons i row ih =>
      rw [List.foldl_cons]
      obtain ⟨hi, isIdle⟩ := valid i (by simp)
      refine ih _ ((size_collapse b i).trans size) (fun j hj => ?_)
        fun k hk => valid k (by simp [hk])
      by_cases here : j = i
      · subst here
        exact .inr ⟨isIdle, emptied_collapse (size ▸ Code.next_le_of_mem h hi)⟩
      · have same : Code.SameBytes b j.offset (collapse b i) j.offset j.length :=
          sameBytes_collapse (Code.next_le_or_next_le h hj hi here)
        obtain keeps | ⟨isIdle, emptied⟩ := all j hj
        · exact .inl (keeps.trans same)
        · exact .inr ⟨isIdle, emptied.of_sameBytes same⟩
  obtain ⟨size, all⟩ := fold (instructions.toList.filter idle) c.bytes rfl
    (fun _ _ => .inl (Code.SameBytes.refl _ _ _)) fun i hi => by
      obtain ⟨mem, isIdle⟩ := List.mem_filter.1 hi
      exact ⟨Array.mem_toList_iff.1 mem, isIdle⟩
  exact ⟨size, rfl, all⟩

end Clarify.Flow
