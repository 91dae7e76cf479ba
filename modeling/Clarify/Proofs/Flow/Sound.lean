import Clarify.Proofs.ClassFile.Soundness
import Clarify.Proofs.ClassFile.Splice
import Clarify.Proofs.Flow.Collapsing
import Clarify.Proofs.Flow.Threading

/-!
# Simplified bodies can be decoded

Results:
* `Code.Sound.simplify`: a simplified body can be written, and takes as many bytes.
-/

namespace Clarify

namespace Flow

variable {code : Array UInt8} {i : Instruction}

/-- The removal of the operands of a branch is made of instructions without operands. -/
theorem Emptied.bare (h : Emptied code i) : Code.Bare code i.offset i.next := by
  intro k lo hi
  rcases Nat.eq_or_lt_of_le lo with rfl | behind
  · rw [h.first, dropOf]
    split <;> decide
  · rw [h.rest k behind hi]
    decide

theorem bared_collapse (room : i.next ≤ code.size) : Code.Bared code (collapse code i) i where
  size := size_collapse code i
  outside k out := by
    have apart : k + 1 ≤ i.offset ∨ i.next ≤ k := by omega
    exact sameBytes_collapse apart 0 Nat.one_pos
  bare := (emptied_collapse room).bare

/-- Taking out one conditional branch after the other. -/
theorem exists_decode_foldl_collapse {row : List Instruction} {instructions : Array Instruction}
    (decoded : Code.decode code = .ok instructions) (mem : ∀ i ∈ row, i ∈ instructions)
    (different : row.Nodup) :
    (row.foldl collapse code).size = code.size ∧
      ∃ instructions', Code.decode (row.foldl collapse code) = .ok instructions' ∧
        ∀ j ∈ instructions, j ∉ row → j ∈ instructions' := by
  induction row generalizing code instructions with
  | nil => exact ⟨rfl, instructions, decoded, fun j hj _ => hj⟩
  | cons i row ih =>
    obtain ⟨here, others⟩ := List.forall_mem_cons.1 mem
    obtain ⟨notMem, different⟩ := List.nodup_cons.1 different
    obtain ⟨instructions', decoded', kept⟩ :=
      (bared_collapse (Code.next_le_of_mem decoded here)).exists_decode decoded here
    obtain ⟨size, instructions'', decoded'', kept'⟩ := ih decoded'
      (fun j hj => kept j (others j hj) fun same => notMem (same ▸ hj)) different
    refine ⟨size.trans (size_collapse code i), instructions'', decoded'', fun j hj out => ?_⟩
    exact kept' j (kept j hj (List.ne_of_not_mem_cons out)) (List.not_mem_of_not_mem_cons out)

end Flow

namespace Code

variable {c : Code} {instructions : Array Instruction}

theorem Sound.threadJumps (h : c.Sound) (decoded : c.instructions = .ok instructions) :
    (c.threadJumps instructions).1.Sound ∧
      (c.threadJumps instructions).1.write.length = c.write.length := by
  have straightens := Flow.straightens_threadJumps decoded
  obtain ⟨straight, decoded', -⟩ := straightens.decode decoded
  exact h.bytes straightens.size ⟨straight, decoded'⟩

theorem Sound.collapseBranches (h : c.Sound) (decoded : c.instructions = .ok instructions) :
    (c.collapseBranches instructions).1.Sound ∧
      (c.collapseBranches instructions).1.write.length = c.write.length := by
  obtain ⟨size, simple, decoded', -⟩ := Flow.exists_decode_foldl_collapse decoded
    (fun i mem => Array.mem_toList_iff.1 (List.mem_filter.1 mem).1)
    ((nodup_of_decode decoded).filter _)
  exact h.bytes size ⟨simple, decoded'⟩

/-- A simplified body is the body with its jumps threaded and then its branches collapsed. -/
theorem exists_of_simplify {simple : Code} {counts : FlowCounts}
    (eq : c.simplify = .ok (simple, counts)) :
    ∃ instructions straight, c.instructions = .ok instructions ∧
      (c.threadJumps instructions).1.instructions = .ok straight ∧
      ((c.threadJumps instructions).1.collapseBranches straight).1 = simple := by
  obtain ⟨instructions, decoded, eq⟩ := Except.bind_eq_ok_iff.1 eq
  obtain ⟨straight, decoded', eq⟩ := Except.bind_eq_ok_iff.1 eq
  exact ⟨instructions, straight, decoded, decoded',
    congrArg Prod.fst (Except.pure_eq_ok_iff.1 eq)⟩

/-- A simplified body can be written, and takes as many bytes. -/
theorem Sound.simplify {simple : Code} {counts : FlowCounts} (h : c.Sound)
    (eq : c.simplify = .ok (simple, counts)) :
    simple.Sound ∧ simple.write.length = c.write.length := by
  obtain ⟨instructions, straight, decoded, decoded', rfl⟩ := exists_of_simplify eq
  obtain ⟨sound, length⟩ := h.threadJumps decoded
  obtain ⟨sound', length'⟩ := sound.collapseBranches decoded'
  exact ⟨sound', length'.trans length⟩

end Code

end Clarify
