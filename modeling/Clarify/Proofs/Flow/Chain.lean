import Clarify.Proofs.ClassFile.Layout
import Clarify.Pass.Flow
import Mathlib.Logic.Function.Iterate

/-!
# Chains of unconditional jumps

What the tables of a body hold: the instruction at an offset, and the end of a chain of jumps.

Results:
* `at?_eq_some_iff`: the instruction found at an offset is the one that starts there.
* `destination_eq_or_endsAt`: a destination is the end of the chain, or the offset itself.
-/

namespace Clarify

theorem Instruction.target?_eq_some_iff {i : Instruction} {t : Nat} :
    i.target? = some t ↔ i.operand = .branch t := by
  unfold Instruction.target?
  split <;> simp_all

namespace Flow

/-! ## Finding instructions -/

/-- Writing positions into a table leaves the others as they are. -/
theorem getElem?_foldl_setIfInBounds_of_ne {row : List (Instruction × Nat)} {o : Nat}
    (ne : ∀ x ∈ row, x.1.offset ≠ o) (table : Array (Option Nat)) :
    (row.foldl (fun t x => t.setIfInBounds x.1.offset (some x.2)) table)[o]? = table[o]? := by
  induction row generalizing table with
  | nil => rfl
  | cons x row ih =>
    rw [List.foldl_cons, ih (fun y hy => ne y (by simp [hy])),
      Array.getElem?_setIfInBounds_ne (ne x (by simp))]

theorem getElem?_foldl_setIfInBounds {row : List (Instruction × Nat)}
    (distinct : row.Pairwise fun x y => x.1.offset ≠ y.1.offset) {i : Instruction} {k : Nat}
    (mem : (i, k) ∈ row) (table : Array (Option Nat)) (inside : i.offset < table.size) :
    (row.foldl (fun t x => t.setIfInBounds x.1.offset (some x.2)) table)[i.offset]? =
      some (some k) := by
  induction distinct generalizing table with
  | nil => cases mem
  | @cons x row ne _ ih =>
    rw [List.foldl_cons]
    obtain rfl | mem := List.mem_cons.1 mem
    · rw [getElem?_foldl_setIfInBounds_of_ne fun y hy => (ne y hy).symm,
        Array.getElem?_setIfInBounds_self_of_lt inside]
    · exact ih mem _ (by rwa [Array.size_setIfInBounds])

section Decoded

variable {code : Array UInt8} {instructions : Array Instruction}

theorem pairwise_zipIdx (h : Code.decode code = .ok instructions) :
    instructions.toList.zipIdx.Pairwise fun x y => x.1.offset ≠ y.1.offset := by
  have apart : (instructions.toList.zipIdx.map Prod.fst).Pairwise
      fun i j => i.offset ≠ j.offset := by
    rw [List.zipIdx_map_fst]
    refine (Code.tiles_of_decode h).pairwise.imp fun {i j} le => ?_
    have := i.length_pos
    rw [Instruction.next] at le
    omega
  rw [List.pairwise_map] at apart
  exact apart

theorem position?_eq_some_iff (h : Code.decode code = .ok instructions) {o k : Nat} :
    (ofInstructions code.size instructions).position? o = some k ↔
      ∃ i, instructions[k]? = some i ∧ i.offset = o := by
  have written {i : Instruction} {k : Nat} (mem : (i, k) ∈ instructions.toList.zipIdx) :
      (positionsOf code.size instructions)[i.offset]? = some (some k) := by
    refine getElem?_foldl_setIfInBounds (pairwise_zipIdx h) mem _ ?_
    rw [Array.size_replicate]
    refine Code.offset_lt_of_mem h ?_
    rw [List.mem_zipIdx_iff_getElem?, Array.getElem?_toList] at mem
    exact Array.mem_of_getElem? mem
  show (positionsOf code.size instructions)[o]?.join = some k ↔ _
  rw [Option.join_eq_some_iff]
  constructor
  · intro found
    by_cases any : ∃ x ∈ instructions.toList.zipIdx, x.1.offset = o
    · obtain ⟨⟨i, n⟩, mem, rfl⟩ := any
      rw [written mem] at found
      cases found
      rw [List.mem_zipIdx_iff_getElem?, Array.getElem?_toList] at mem
      exact ⟨i, mem, rfl⟩
    · have blank : (positionsOf code.size instructions)[o]? =
          (Array.replicate code.size none)[o]? :=
        getElem?_foldl_setIfInBounds_of_ne (fun x hx here => any ⟨x, hx, here⟩) _
      rw [blank, Array.getElem?_replicate] at found
      split at found <;> cases found
  · rintro ⟨i, hi, rfl⟩
    refine written ?_
    rw [List.mem_zipIdx_iff_getElem?, Array.getElem?_toList]
    exact hi

/-- The instruction found at an offset is the one that starts there. -/
theorem at?_eq_some_iff (h : Code.decode code = .ok instructions) {o : Nat} {i : Instruction} :
    (ofInstructions code.size instructions).at? o = some i ↔ i ∈ instructions ∧ i.offset = o := by
  rw [at?, Option.bind_eq_bind, Option.bind_eq_some_iff]
  simp only [position?_eq_some_iff h]
  show (∃ k, (∃ j : Instruction, instructions[k]? = some j ∧ j.offset = o) ∧
    instructions[k]? = some i) ↔ _
  constructor
  · rintro ⟨k, ⟨j, hj, rfl⟩, hi⟩
    obtain rfl : j = i := Option.some.inj (hj.symm.trans hi)
    exact ⟨Array.mem_of_getElem? hi, rfl⟩
  · rintro ⟨mem, rfl⟩
    obtain ⟨k, hk⟩ := Array.getElem?_of_mem mem
    exact ⟨k, ⟨i, hk, rfl⟩, hk⟩

theorem jump?_eq_some_iff (h : Code.decode code = .ok instructions) {o t : Nat} :
    (ofInstructions code.size instructions).jump? o = some t ↔
      ∃ i ∈ instructions, i.offset = o ∧ Opcode.isGoto i.opcode = true ∧ i.target? = some t := by
  rw [jump?, Option.bind_eq_bind, Option.bind_eq_some_iff]
  simp only [at?_eq_some_iff h]
  refine exists_congr fun i => ?_
  rw [and_assoc]
  refine and_congr_right fun _ => and_congr_right fun _ => ?_
  split <;> simp [*]

end Decoded

/-! ## The end of a chain -/

/-- The chain of jumps at an offset ends at an offset without a jump. -/
inductive EndsAt (f : Flow) : Nat → Nat → Prop
  | here {o : Nat} : f.jump? o = none → EndsAt f o o
  | jump {o t d : Nat} : f.jump? o = some t → EndsAt f t d → EndsAt f o d

variable (f : Flow)

theorem getD_doubled (table : Array Nat) (o : Nat) :
    (doubled table).getD o o = table.getD (table.getD o o) (table.getD o o) := by
  simp only [Array.getD_eq_getD_getElem?, getElem?_doubled]
  rcases h : table[o]? with _ | next
  · simp [h]
  · rfl

/-- A table doubled `n` times makes `2 ^ n` steps at once. -/
theorem getD_repeat_doubled (table : Array Nat) (n o : Nat) :
    (n.repeat doubled table).getD o o = (fun o => table.getD o o)^[Nat.pow 2 n] o := by
  induction n generalizing o with
  | zero => rfl
  | succ n ih =>
    rw [Nat.repeat, getD_doubled, ih, ih, ← Function.iterate_add_apply, ← Nat.mul_two]
    rfl

theorem hop_of_size_le {o : Nat} (outside : f.positions.size ≤ o) : f.hop o = o := by
  simp [hop, jump?, at?, position?, outside]

theorem getD_ends (o : Nat) :
    f.ends.getD o o = f.hop^[Nat.pow 2 (f.instructions.size.log2 + 1)] o := by
  have one : (fun o => ((Array.range f.positions.size).map f.hop).getD o o) = f.hop := by
    funext o
    by_cases inside : o < f.positions.size
    · simp [Array.getD, inside]
    · rw [f.hop_of_size_le (by omega)]
      simp [Array.getD, inside]
  rw [ends, getD_repeat_doubled, one]

variable {f} in
theorem hop_of_jump? {o t : Nat} (next : f.jump? o = some t) : f.hop o = t := by
  rw [hop, next]
  rfl

variable {f} in
theorem hop_of_jump?_eq_none {o : Nat} (still : f.jump? o = none) : f.hop o = o := by
  rw [hop, still]
  rfl

theorem endsAt_iterate_hop {o n : Nat} (still : f.jump? (f.hop^[n] o) = none) :
    f.EndsAt o (f.hop^[n] o) := by
  induction n generalizing o with
  | zero => exact .here still
  | succ n ih =>
    rw [Function.iterate_succ_apply] at still ⊢
    rcases next : f.jump? o with _ | t
    · rw [hop_of_jump?_eq_none next] at still ⊢
      exact ih still
    · rw [hop_of_jump? next] at still ⊢
      exact .jump next (ih still)

/-- A destination is the end of the chain, or the offset itself. -/
theorem destination_eq_or_endsAt (o : Nat) :
    f.destination f.ends o = o ∨ f.EndsAt o (f.destination f.ends o) := by
  simp only [destination, getD_ends]
  split
  · exact .inl rfl
  · next still =>
    rw [Option.not_isSome_iff_eq_none] at still
    exact .inr (f.endsAt_iterate_hop still)

theorem isStart_of_target? {code : Array UInt8} {instructions : Array Instruction}
    (decoded : Code.decode code = .ok instructions) {i : Instruction} (hi : i ∈ instructions)
    {t : Nat} (target : i.target? = some t) : Code.IsStart instructions t := by
  refine Code.isStart_of_mem_targets decoded hi ?_
  rw [Instruction.targets, Instruction.target?_eq_some_iff.1 target]
  exact List.mem_singleton_self _

/-- From an instruction, a chain leads to an instruction. -/
theorem EndsAt.isStart {code : Array UInt8} {instructions : Array Instruction}
    (decoded : Code.decode code = .ok instructions) {o d : Nat}
    (h : (ofInstructions code.size instructions).EndsAt o d) (start : Code.IsStart instructions o) :
    Code.IsStart instructions d := by
  induction h with
  | here => exact start
  | jump next _ ih =>
    obtain ⟨i, hi, -, -, target⟩ := (jump?_eq_some_iff decoded).1 next
    exact ih (isStart_of_target? decoded hi target)

theorem EndsAt.unique {f : Flow} {o d d' : Nat} (h : f.EndsAt o d) (h' : f.EndsAt o d') :
    d = d' := by
  induction h with
  | here still =>
    cases h' with
    | here => rfl
    | jump next => rw [still] at next; cases next
  | jump next _ ih =>
    cases h' with
    | here still => rw [still] at next; cases next
    | jump next' rest =>
      rw [next] at next'
      cases next'
      exact ih rest

end Flow

end Clarify
