import Clarify.Proofs.ClassFile.Patch
import Clarify.Proofs.Flow.Chain

/-!
# Branches sent straight to their destination

Threading leaves the bytes of an instruction as they are, or sends a branch to the end of the chain
of jumps at its target.

Results:
* `straightens_threadJumps`: what threading makes of each instruction.
* `Straightens.decode`: the threaded code has the same starts of instructions.
-/

namespace Clarify.Flow

/-- The code has an instruction as it was, or a branch with the end of a chain as its target. -/
def Straightened (f : Flow) (code changed : Array UInt8) (i : Instruction) : Prop :=
  Code.SameBytes code i.offset changed i.offset i.length ∨
    ∃ t d, isThreadable i = true ∧ i.target? = some t ∧ f.EndsAt t d ∧
      Code.instructionAt changed i.offset = .ok { i with operand := .branch d }

/-- A body all instructions of which are straightened ones of another body. -/
structure Straightens (c x : Code) (instructions : Array Instruction) : Prop where
  size : x.bytes.size = c.bytes.size
  handlers : x.handlers = c.handlers
  straightened : ∀ i ∈ instructions,
    Straightened (ofInstructions c.bytes.size instructions) c.bytes x.bytes i

theorem Straightens.refl (c : Code) (instructions : Array Instruction) :
    Straightens c c instructions where
  size := rfl
  handlers := rfl
  straightened _ _ := .inl (Code.SameBytes.refl _ _ _)

/-! ## One branch after the other -/

section Decoded

variable {code b : Array UInt8} {instructions : Array Instruction} {i j : Instruction}

/-- A straightened instruction still has its place, its opcode and its length. -/
theorem Straightened.read {f : Flow} (h : Code.decode code = .ok instructions)
    (size : b.size = code.size) (hi : i ∈ instructions) (s : Straightened f code b i) :
    ∃ o, Code.instructionAt b i.offset = .ok { i with operand := o } := by
  obtain same | ⟨t, d, -, -, -, read⟩ := s
  · exact ⟨i.operand, Code.instructionAt_congr (Code.instructionAt_of_mem h hi)
      (Code.offset_lt_of_mem h hi) size same⟩
  · exact ⟨_, read⟩

/-- Sending another branch elsewhere keeps an instruction straightened. -/
theorem Straightened.retarget? {f : Flow} {changed : Array UInt8} {t : Int}
    (h : Code.decode code = .ok instructions) (size : b.size = code.size)
    (hi : i ∈ instructions) (hj : j ∈ instructions) (ne : j ≠ i)
    (si : Straightened f code b i) (sj : Straightened f code b j)
    (eq : Code.retarget? b i t = some changed) : Straightened f code changed j := by
  obtain ⟨o, read⟩ := si.read h size hi
  have same : Code.SameBytes b j.offset changed j.offset j.length :=
    Code.sameBytes_retarget? (i := { i with operand := o }) read eq
      (show j.next ≤ i.offset ∨ i.next ≤ j.offset from Code.next_le_or_next_le h hj hi ne)
  obtain keeps | ⟨t, d, threadable, target, ends, read'⟩ := sj
  · exact .inl (keeps.trans same)
  · refine .inr ⟨t, d, threadable, target, ends, ?_⟩
    refine Code.instructionAt_congr read' ?_ (Code.size_retarget? eq) same
    rw [size]
    exact Code.offset_lt_of_mem h hj

theorem straightened_thread (h : Code.decode code = .ok instructions) {n t d : Nat}
    (size : b.size = code.size)
    (all : ∀ j ∈ instructions, Straightened (ofInstructions code.size instructions) code b j)
    (hi : i ∈ instructions) (threadable : isThreadable i = true) (target : i.target? = some t)
    (ends : (ofInstructions code.size instructions).EndsAt t d) :
    (thread (b, n) (i, d)).1.size = code.size ∧ ∀ j ∈ instructions,
      Straightened (ofInstructions code.size instructions) code (thread (b, n) (i, d)).1 j := by
  unfold thread
  split
  · next changed eq =>
    refine ⟨(Code.size_retarget? eq).trans size, fun j hj => ?_⟩
    by_cases same : j = i
    · subst same
      obtain ⟨o, read⟩ := (all j hj).read h size hj
      refine .inr ⟨t, d, threadable, target, ends, ?_⟩
      have inside : j.offset < b.size := by rw [size]; exact Code.offset_lt_of_mem h hj
      refine Code.instructionAt_retarget? (i := { j with operand := o }) read inside eq ?_
      obtain ⟨k, hk, rfl⟩ := ends.isStart h (isStart_of_target? h hj target)
      rw [size]
      exact Code.offset_lt_of_mem h hk
    · exact (all i hi).retarget? h size hi hj same (all j hj) eq
  · exact ⟨size, all⟩

theorem mem_detours {f : Flow} {d : Nat} (h : (i, d) ∈ f.detours) :
    i ∈ f.instructions ∧ isThreadable i = true ∧ ∃ t, i.target? = some t ∧ f.EndsAt t d := by
  rw [detours, List.mem_filterMap] at h
  obtain ⟨j, hj, eq⟩ := h
  split at eq
  · next threadable =>
    rw [Option.bind_eq_bind, Option.bind_eq_some_iff] at eq
    obtain ⟨t, target, eq⟩ := eq
    simp only at eq
    split at eq
    · next ne =>
      cases eq
      have ends := (f.destination_eq_or_endsAt t).resolve_left ne
      exact ⟨Array.mem_toList_iff.1 hj, threadable, t, target, ends⟩
    · cases eq
  · cases eq

end Decoded

/-- What threading makes of each instruction. -/
theorem straightens_threadJumps {c : Code} {instructions : Array Instruction}
    (h : c.instructions = .ok instructions) :
    Straightens c (c.threadJumps instructions).1 instructions := by
  have fold (detours : List (Instruction × Nat)) (b : Array UInt8) (n : Nat)
      (size : b.size = c.bytes.size)
      (all : ∀ j ∈ instructions,
        Straightened (ofInstructions c.bytes.size instructions) c.bytes b j)
      (valid : ∀ x ∈ detours, x ∈ (ofInstructions c.bytes.size instructions).detours) :
      (detours.foldl thread (b, n)).1.size = c.bytes.size ∧ ∀ j ∈ instructions,
        Straightened (ofInstructions c.bytes.size instructions) c.bytes
          (detours.foldl thread (b, n)).1 j := by
    induction detours generalizing b n with
    | nil => exact ⟨size, all⟩
    | cons x detours ih =>
      obtain ⟨i, d⟩ := x
      obtain ⟨hi, threadable, t, target, ends⟩ := mem_detours (valid (i, d) (by simp))
      obtain ⟨size', all'⟩ := straightened_thread (n := n) h size all hi threadable target ends
      rw [List.foldl_cons]
      exact ih _ _ size' all' fun y hy => valid y (by simp [hy])
  obtain ⟨size, all⟩ := fold _ c.bytes 0 rfl
    (fun _ _ => .inl (Code.SameBytes.refl _ _ _)) fun _ hx => hx
  exact ⟨size, rfl, all⟩

/-- The threaded code has the same starts of instructions. -/
theorem Straightens.decode {c x : Code} {instructions : Array Instruction}
    (h : c.instructions = .ok instructions) (s : Straightens c x instructions) :
    ∃ straight, x.instructions = .ok straight ∧
      ∀ o, Code.IsStart straight o ↔ Code.IsStart instructions o := by
  let found (i : Instruction) : Instruction :=
    (Code.instructionAt x.bytes i.offset).toOption.getD i
  have read {i j : Instruction} (h : Code.instructionAt x.bytes i.offset = .ok j) :
      found i = j := by
    simp only [found, h, Except.toOption, Option.getD_some]
  refine ⟨instructions.map found, Code.decode_map h s.size (fun i hi => ?_) ?_, fun o => ?_⟩
  · obtain ⟨o, eq⟩ := (s.straightened i hi).read h s.size hi
    rw [read eq]
    exact ⟨eq, rfl⟩
  · intro i hi t ht
    obtain same | ⟨u, d, -, target, ends, eq⟩ := s.straightened i hi
    · rw [read (Code.instructionAt_congr (Code.instructionAt_of_mem h hi)
        (Code.offset_lt_of_mem h hi) s.size same)] at ht
      exact Code.isStart_of_mem_targets h hi ht
    · rw [read eq] at ht
      obtain rfl := List.mem_singleton.1 ht
      exact ends.isStart h (isStart_of_target? h hi target)
  · simp only [Code.IsStart, Array.mem_map, exists_exists_and_eq_and]
    refine exists_congr fun i => and_congr_right fun hi => ?_
    obtain ⟨o, eq⟩ := (s.straightened i hi).read h s.size hi
    rw [read eq]

end Clarify.Flow
