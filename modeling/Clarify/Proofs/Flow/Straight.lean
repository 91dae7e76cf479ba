import Clarify.Proofs.Flow.Again
import Mathlib.Logic.Relation

/-!
# Straight ways through simplified bodies

A chain of jumps ends at an offset without a jump, or it runs into a circle and never ends. Both are
said here of the instructions alone, without the tables that are used to find out. In a simplified
body every branch leads straight to the end of the chain at its target, as far as there is an end
and its operand has room for the way there. Chains end where they ended before, and the arms of a
conditional branch do not lead to the same end.

Results:
* `chainEnds_iff_endsAt`, `circles_iff`: a chain ends, or runs into a circle.
* `Code.simplify_straight`: chains of jumps in a simplified body.
-/

namespace Clarify

namespace Flow

/-! ## Specification -/

/-- There is an unconditional jump from an offset to another one. -/
def JumpsTo (instructions : Array Instruction) (o t : Nat) : Prop :=
  ∃ i ∈ instructions, i.offset = o ∧ Opcode.isGoto i.opcode = true ∧ i.target? = some t

/-- The chain of jumps at an offset ends at an offset without a jump. -/
def ChainEnds (instructions : Array Instruction) (o d : Nat) : Prop :=
  Relation.ReflTransGen (JumpsTo instructions) o d ∧ ∀ t, ¬JumpsTo instructions d t

/-- The chain of jumps at an offset runs into a circle of jumps. -/
def Circles (instructions : Array Instruction) (o : Nat) : Prop :=
  ∃ p, Relation.ReflTransGen (JumpsTo instructions) o p ∧
    Relation.TransGen (JumpsTo instructions) p p

/-- All branches of a simplified body lead straight to the ends of chains that the body had. -/
structure Straight (instructions simple : Array Instruction) : Prop where
  /-- There is no jump at the target of a branch, or only jumps that run into a circle, or there is
  no room for the way to the end of the chain. -/
  threaded : ∀ i ∈ simple, isThreadable i = true → ∃ t, i.target? = some t ∧
    ((∀ u, ¬JumpsTo simple t u) ∨ Circles simple t ∨
      ∃ d, ChainEnds simple t d ∧ ¬Code.HasRoom i.opcode (d - i.offset))
  chainEnds_iff : ∀ o d, ChainEnds simple o d ↔ ChainEnds instructions o d
  circles_iff : ∀ o, Circles simple o ↔ Circles instructions o
  /-- The arms of a conditional branch do not lead to the same place. -/
  apart : ∀ i ∈ simple, Opcode.isConditional i.opcode = true → ∀ t, i.target? = some t →
    ∀ d, ChainEnds simple t d → ¬ChainEnds simple i.next d

/-! ## Chains by the tables -/

section Decoded

variable {c : Code} {instructions : Array Instruction} {o d : Nat}

theorem chainEnds_iff_endsAt (h : c.instructions = .ok instructions) :
    ChainEnds instructions o d ↔ (ofInstructions c.bytes.size instructions).EndsAt o d := by
  constructor
  · rintro ⟨steps, last⟩
    induction steps using Relation.ReflTransGen.head_induction_on with
    | refl =>
      refine .here (Option.eq_none_iff_forall_ne_some.2 fun t next => ?_)
      exact last t ((jump?_eq_some_iff h).1 next)
    | head next _ ih => exact .jump ((jump?_eq_some_iff h).2 next) ih
  · intro ends
    induction ends with
    | here still =>
      refine ⟨.refl, fun t next => ?_⟩
      rw [(jump?_eq_some_iff h).2 next] at still
      cases still
    | jump next _ ih => exact ⟨.head ((jump?_eq_some_iff h).1 next) ih.1, ih.2⟩

theorem reflTransGen_iterate_hop (h : c.instructions = .ok instructions) (n o : Nat) :
    Relation.ReflTransGen (JumpsTo instructions) o
      ((ofInstructions c.bytes.size instructions).hop^[n] o) := by
  induction n generalizing o with
  | zero => exact .refl
  | succ n ih =>
    rw [Function.iterate_succ_apply]
    rcases next : (ofInstructions c.bytes.size instructions).jump? o with _ | t
    · rw [hop_of_jump?_eq_none next]
      exact ih o
    · rw [hop_of_jump? next]
      exact .head ((jump?_eq_some_iff h).1 next) (ih t)

/-- A chain that ends does not run into a circle: each jump of a circle has another one behind
it. -/
theorem EndsAt.not_circles (h : c.instructions = .ok instructions)
    (ends : (ofInstructions c.bytes.size instructions).EndsAt o d) :
    ¬Circles instructions o := by
  induction ends with
  | @here o still =>
    have none (t : Nat) : ¬JumpsTo instructions o t := by
      intro next
      rw [(jump?_eq_some_iff h).2 next] at still
      cases still
    rintro ⟨p, steps, circle⟩
    rcases Relation.ReflTransGen.cases_head steps with rfl | ⟨t, next, -⟩
    · obtain ⟨t, next, -⟩ := Relation.TransGen.head'_iff.1 circle
      exact none t next
    · exact none t next
  | @jump o t d next _ ih =>
    have only {u : Nat} (next' : JumpsTo instructions o u) : u = t := by
      rw [(jump?_eq_some_iff h).2 next'] at next
      exact Option.some.inj next
    rintro ⟨p, steps, circle⟩
    apply ih
    rcases Relation.ReflTransGen.cases_head steps with rfl | ⟨u, first, steps⟩
    · obtain ⟨u, first, back⟩ := Relation.TransGen.head'_iff.1 circle
      exact ⟨o, only first ▸ back, circle⟩
    · exact ⟨p, only first ▸ steps, circle⟩

/-- A chain that does not end comes to a jump twice. -/
theorem circles_of_not_endsAt (h : c.instructions = .ok instructions)
    (endless : ∀ d, ¬(ofInstructions c.bytes.size instructions).EndsAt o d) :
    Circles instructions o := by
  have jumps (k : Nat) : (ofInstructions c.bytes.size instructions).jump?
      ((ofInstructions c.bytes.size instructions).hop^[k] o) ≠ none :=
    fun still => endless _ (endsAt_iterate_hop _ still)
  obtain ⟨k, l, lt, -, same⟩ := exists_hop_eq h (fun k _ => jumps k)
    (Nat.lt_succ_self instructions.size)
  obtain ⟨t, next⟩ := Option.ne_none_iff_exists'.1 (jumps k)
  obtain ⟨n, rfl⟩ := Nat.exists_eq_add_of_lt lt
  refine ⟨_, reflTransGen_iterate_hop h k o, .head' ((jump?_eq_some_iff h).1 next) ?_⟩
  have back : (ofInstructions c.bytes.size instructions).hop^[n] t =
      (ofInstructions c.bytes.size instructions).hop^[k] o := by
    rw [← hop_of_jump? next, ← Function.iterate_succ_apply, ← Function.iterate_add_apply,
      show n + 1 + k = k + n + 1 by omega]
    exact same.symm
  exact back ▸ reflTransGen_iterate_hop h n t

/-- A chain runs into a circle if and only if it does not end. -/
theorem circles_iff (h : c.instructions = .ok instructions) :
    Circles instructions o ↔
      ∀ d, ¬(ofInstructions c.bytes.size instructions).EndsAt o d :=
  ⟨fun circles _ ends => ends.not_circles h circles, circles_of_not_endsAt h⟩

end Decoded

/-! ## Branches -/

section Branches

variable {code : Array UInt8} {instructions : Array Instruction} {i : Instruction}

theorem shape?_of_isThreadable (h : isThreadable i = true) :
    Opcode.shape? i.opcode = some .branch ∨ Opcode.shape? i.opcode = some .wideBranch := by
  rw [Opcode.shape?_eq_branch_iff, Opcode.shape?_eq_wideBranch_iff]
  obtain conditional | jump := Bool.or_eq_true_iff.1 h
  · exact .inl (.inl conditional)
  · rw [Opcode.isGoto, Bool.or_eq_true_iff, beq_iff_eq, beq_iff_eq] at jump
    obtain short | wide := jump
    · exact .inl (.inr (.inl short))
    · exact .inr (.inl wide)

theorem exists_target?_of_isThreadable (h : Code.decode code = .ok instructions)
    (hi : i ∈ instructions) (threadable : isThreadable i = true) : ∃ t, i.target? = some t := by
  obtain ⟨read, -, opcode⟩ := Code.instructionAt_eq_ok_iff.1 (Code.instructionAt_of_mem h hi)
  have shape := shape?_of_isThreadable threadable
  rw [opcode] at shape
  obtain shape | shape := shape
  · obtain ⟨-, t, -, operand, -⟩ := (Code.operandAt_of_branch shape).1 read
    exact ⟨t, Instruction.target?_eq_some_iff.2 operand.symm⟩
  · obtain ⟨-, t, -, operand, -⟩ := (Code.operandAt_of_wideBranch shape).1 read
    exact ⟨t, Instruction.target?_eq_some_iff.2 operand.symm⟩

end Branches

/-! ## Simplified bodies -/

section Simplified

variable {c : Code} {instructions straight simple : Array Instruction} {i : Instruction}
  (h : c.instructions = .ok instructions)
  (decoded : (c.threadJumps instructions).1.instructions = .ok straight)
  (decoded' : ((c.threadJumps instructions).1.collapseBranches straight).1.instructions =
    .ok simple)

include h decoded decoded'

theorem chainEnds_simplify_iff (o d : Nat) :
    ChainEnds simple o d ↔ ChainEnds instructions o d := by
  rw [chainEnds_iff_endsAt decoded', chainEnds_iff_endsAt h, endsAt_collapsed decoded decoded']
  exact (straightens_threadJumps h).endsAt_iff h decoded o d

/-- A branch to a jump goes into a circle, or it could not be sent to the end of the chain. -/
theorem threaded_simplify (hi : i ∈ simple) (threadable : isThreadable i = true) {t : Nat}
    (target : i.target? = some t) :
    (∀ u, ¬JumpsTo simple t u) ∨ Circles simple t ∨
      ∃ d, ChainEnds simple t d ∧ ¬Code.HasRoom i.opcode (d - i.offset) := by
  by_cases circles : Circles simple t
  · exact .inr (.inl circles)
  · rw [circles_iff decoded', not_forall] at circles
    obtain ⟨d, ends⟩ := circles
    rw [not_not] at ends
    have chain := (chainEnds_iff_endsAt decoded').2 ends
    by_cases here : d = t
    · exact .inl (here ▸ chain.2)
    · have detour := mem_detours_iff.2 ⟨hi, threadable, t, target, ends.destination decoded', here⟩
      have stuck := stuck_of_mem_detours h decoded decoded' detour
      rw [Code.branchOperand?_eq_none_iff (shape?_of_isThreadable threadable)] at stuck
      exact .inr (.inr ⟨d, chain, stuck⟩)

omit h in
/-- A conditional branch whose arms lead to the same place has been removed. -/
theorem apart_simplify (hi : i ∈ simple) (conditional : Opcode.isConditional i.opcode = true)
    {t d : Nat} (target : i.target? = some t) (taken : ChainEnds simple t d) :
    ¬ChainEnds simple i.next d := by
  intro passed
  rw [chainEnds_iff_endsAt decoded', endsAt_collapsed decoded decoded'] at taken passed
  obtain ⟨-, busy⟩ := busy_of_isConditional decoded decoded' hi conditional
  have together := (taken.destination decoded).trans (passed.destination decoded).symm
  rw [idle_of_destination_eq conditional target together] at busy
  cases busy

end Simplified

end Flow

namespace Code

variable {c : Code} {instructions : Array Instruction}

/-- Chains of jumps are threaded completely. In a simplified body every branch leads straight to
the end of the chain at its target if there is one, and room for the way; all chains end where they
ended before, and run into circles where they did before; and no conditional branch has arms that
lead to the same place. -/
theorem simplify_straight (decoded : c.instructions = .ok instructions) :
    ∃ y counts simple, c.simplify = .ok (y, counts) ∧ y.instructions = .ok simple ∧
      Flow.Straight instructions simple := by
  obtain ⟨straight, simple, decoded', decoded'', simplified⟩ := simplify_eq_ok decoded
  have ends := Flow.chainEnds_simplify_iff decoded decoded' decoded''
  refine ⟨_, _, simple, simplified, decoded'', ?_, ends, fun o => ?_, ?_⟩
  · intro i hi threadable
    obtain ⟨t, target⟩ := Flow.exists_target?_of_isThreadable decoded'' hi threadable
    exact ⟨t, target, Flow.threaded_simplify decoded decoded' decoded'' hi threadable target⟩
  · rw [Flow.circles_iff decoded'', Flow.circles_iff decoded]
    refine forall_congr' fun d => not_congr ?_
    rw [← Flow.chainEnds_iff_endsAt decoded'', ← Flow.chainEnds_iff_endsAt decoded]
    exact ends o d
  · intro i hi conditional t target d taken
    exact Flow.apart_simplify decoded' decoded'' hi conditional target taken

/-- A body with a branch to a jump, behind which a jump leads into a circle. -/
def circlingBody : Code where
  maxStack := 1
  maxLocals := 1
  bytes := #[0x1a, 0x99, 0x00, 0x06, 0xa7, 0x00, 0x06, 0xa7, 0x00, 0x06, 0xa7, 0x00, 0x00, 0xb1]
  handlers := []
  attributes := []

/-- The instructions of that body. -/
def circlingInstructions : Array Instruction :=
  #[⟨0, 0x1a, 0, .bare⟩, ⟨1, 0x99, 2, .branch 7⟩, ⟨4, 0xa7, 2, .branch 10⟩,
    ⟨7, 0xa7, 2, .branch 13⟩, ⟨10, 0xa7, 2, .branch 10⟩, ⟨13, 0xb1, 0, .bare⟩]

theorem simplify_straight_circlingBody : ∃ y counts simple,
    circlingBody.simplify = .ok (y, counts) ∧ y.instructions = .ok simple ∧
      Flow.Straight circlingInstructions simple :=
  simplify_straight (Except.eq_ok_of_toOption (by decide +kernel))

end Code

end Clarify
