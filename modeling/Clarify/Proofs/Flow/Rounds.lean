import Clarify.Proofs.Flow.Straight

/-!
# Rounds of simplification

Branches are looked at once, in the body before any of them is removed. When a branch in one of the
arms of another branch is removed, the arm becomes a straight line of code, and only now it can be
compared with the other arm. So simplifying a second time can remove more branches, and it is in
such arms alone that it does. Since every round but the last removes a branch, rounds come to an
end.

Results:
* `idle_collapsed_iff`: in a collapsed body, a branch does not matter exactly if its arms lead to
  equal lines.
* `exists_idle_of_twinArms`: one of these lines was not straight before.
* `Code.simplify_repeated`: what further rounds of simplification do.
-/

namespace Clarify

namespace Flow

/-! ## Specification -/

/-- Two straight lines of the same bytes, at the ends of which the method is left, and no byte of
which is covered by a handler. -/
structure Twins (c : Code) (instructions : Array Instruction) (a aEnd b bEnd : Nat) : Prop where
  left : Line instructions a aEnd
  right : Line instructions b bEnd
  same : c.bytes.extract a aEnd = c.bytes.extract b bEnd
  leftFree : c.isCovered a aEnd = false
  rightFree : c.isCovered b bEnd = false

/-- The arms of a conditional branch lead to such lines. -/
def TwinArms (c : Code) (instructions : Array Instruction) (i : Instruction)
    (a aEnd b bEnd : Nat) : Prop :=
  Opcode.isConditional i.opcode = true ∧ (∃ t, i.target? = some t ∧ ChainEnds instructions t a) ∧
    ChainEnds instructions i.next b ∧ Twins c instructions a aEnd b bEnd

/-- The number of conditional branches. -/
def conditionals (instructions : Array Instruction) : Nat :=
  instructions.toList.countP fun i => Opcode.isConditional i.opcode

/-! ## Finding lines -/

section Lines

variable {code : Array UInt8} {c : Code} {instructions : Array Instruction} {i : Instruction}
  {o e a b : Nat}

theorem lineEnd?_of_line (h : Code.decode code = .ok instructions) (line : Line instructions o e)
    {k : Nat} (hi : instructions[k]? = some i) (here : i.offset = o) :
    lineEnd? instructions k = some e := by
  induction line generalizing k i with
  | @last j hj leaving =>
    obtain rfl := Code.eq_of_offset_eq h (Array.mem_of_getElem? hi) hj here
    obtain ⟨inside, rfl⟩ := Array.getElem?_eq_some_iff.1 hi
    rw [lineEnd?, dif_pos inside]
    exact if_pos leaving
  | @cons j e hj staying straight rest ih =>
    obtain rfl := Code.eq_of_offset_eq h (Array.mem_of_getElem? hi) hj here
    -- The line goes on, so there is an instruction behind this one.
    obtain ⟨m, hm, place, -⟩ := rest.head
    have inside' := Code.offset_lt_of_mem h hm
    have next := (Code.tiles_of_decode h).getElem?_succ (k := k) (i := i)
      (by rw [Array.getElem?_toList]; exact hi)
    rw [Array.getElem?_toList] at next
    rcases behind : instructions[k + 1]? with _ | n
    · simp only [behind] at next
      omega
    · simp only [behind] at next
      have found := ih behind next
      obtain ⟨inside, rfl⟩ := Array.getElem?_eq_some_iff.1 hi
      rw [lineEnd?, dif_pos inside]
      simp only
      rw [if_neg (Bool.eq_false_iff.1 staying), if_neg (Bool.eq_false_iff.1 straight)]
      exact found

theorem blockEnd?_eq_some_iff (h : Code.decode code = .ok instructions) :
    (ofInstructions code.size instructions).blockEnd? o = some e ↔ Line instructions o e := by
  constructor
  · exact line_of_blockEnd? h
  · intro line
    obtain ⟨i, mem, here, -⟩ := line.head
    obtain ⟨k, hk⟩ := Array.getElem?_of_mem mem
    rw [blockEnd?, (position?_eq_some_iff h).2 ⟨i, hk, here⟩]
    exact lineEnd?_of_line h line hk here

theorem sameBlocks_eq_true_iff (h : c.instructions = .ok instructions) :
    sameBlocks c (ofInstructions c.bytes.size instructions) a b = true ↔
      ∃ aEnd bEnd, Twins c instructions a aEnd b bEnd := by
  constructor
  · intro same
    rcases left : (ofInstructions c.bytes.size instructions).blockEnd? a with _ | aEnd
    · simp only [sameBlocks, left, Bool.false_eq_true] at same
    rcases right : (ofInstructions c.bytes.size instructions).blockEnd? b with _ | bEnd
    · simp only [sameBlocks, left, right, Bool.false_eq_true] at same
    simp only [sameBlocks, left, right, Bool.and_eq_true, beq_iff_eq, Bool.not_eq_true'] at same
    obtain ⟨⟨same, leftFree⟩, rightFree⟩ := same
    exact ⟨aEnd, bEnd, line_of_blockEnd? h left, line_of_blockEnd? h right, same, leftFree,
      rightFree⟩
  · rintro ⟨aEnd, bEnd, twins⟩
    simp only [sameBlocks, (blockEnd?_eq_some_iff h).2 twins.left,
      (blockEnd?_eq_some_iff h).2 twins.right, twins.same, twins.leftFree, twins.rightFree,
      beq_self_eq_true, Bool.not_false, Bool.and_self]

/-- A line does not begin with a jump. -/
theorem Line.not_jumpsTo (h : Code.decode code = .ok instructions) (line : Line instructions o e)
    (t : Nat) : ¬JumpsTo instructions o t := by
  rintro ⟨j, hj, here, -, target⟩
  have leads : j.targets = [t] := by
    rw [Instruction.targets, Instruction.target?_eq_some_iff.1 target]
  cases line with
  | @last i hi leaving =>
    obtain rfl := Code.eq_of_offset_eq h hj hi here
    rw [targets_of_leaves (Code.instructionAt_of_mem h hj) leaving] at leads
    cases leads
  | @cons i e hi _ straight _ =>
    obtain rfl := Code.eq_of_offset_eq h hj hi here
    rw [targets_of_not_transfers straight] at leads
    cases leads

/-- Where a line begins, a chain of jumps has ended. -/
theorem Line.chainEnds_of_destination (h : c.instructions = .ok instructions)
    (line : Line instructions ((ofInstructions c.bytes.size instructions).destination
      (ofInstructions c.bytes.size instructions).ends o) e) :
    ChainEnds instructions o ((ofInstructions c.bytes.size instructions).destination
      (ofInstructions c.bytes.size instructions).ends o) := by
  obtain here | ends := (ofInstructions c.bytes.size instructions).destination_eq_or_endsAt o
  · rw [here] at line ⊢
    exact ⟨.refl, line.not_jumpsTo h⟩
  · exact (chainEnds_iff_endsAt h).2 ends

end Lines

/-! ## Branches that do not matter -/

section Idle

variable {c : Code} {instructions : Array Instruction} {i : Instruction} {a aEnd b bEnd : Nat}

theorem TwinArms.idle (h : c.instructions = .ok instructions)
    (arms : TwinArms c instructions i a aEnd b bEnd) : idle c instructions i = true := by
  obtain ⟨conditional, ⟨t, target, taken⟩, passed, twins⟩ := arms
  rw [chainEnds_iff_endsAt h] at taken passed
  simp only [Flow.idle, isIdle, target, taken.destination h, passed.destination h, conditional,
    (sameBlocks_eq_true_iff h).2 ⟨aEnd, bEnd, twins⟩, Bool.or_true, Bool.and_self]

/-- A branch does not matter if its arms come together or lead to equal lines. -/
theorem same_or_twinArms_of_idle (h : c.instructions = .ok instructions)
    (isIdle : idle c instructions i = true) :
    (∃ t, i.target? = some t ∧
      (ofInstructions c.bytes.size instructions).destination
          (ofInstructions c.bytes.size instructions).ends t =
        (ofInstructions c.bytes.size instructions).destination
          (ofInstructions c.bytes.size instructions).ends i.next) ∨
      ∃ a aEnd b bEnd, TwinArms c instructions i a aEnd b bEnd := by
  obtain ⟨conditional, t, target, same | blocks⟩ := isConditional_of_isIdle isIdle
  · exact .inl ⟨t, target, same⟩
  · obtain ⟨aEnd, bEnd, twins⟩ := (sameBlocks_eq_true_iff h).1 blocks
    exact .inr ⟨_, aEnd, _, bEnd, conditional, ⟨t, target, twins.left.chainEnds_of_destination h⟩,
      twins.right.chainEnds_of_destination h, twins⟩

end Idle

/-! ## Lines before branches were removed -/

section Collapsed

variable {x : Code} {straight simple : Array Instruction} {i : Instruction} {o e : Nat}
  (h : x.instructions = .ok straight)
  (decoded : (x.collapseBranches straight).1.instructions = .ok simple)

include h decoded

/-- An instruction that was not removed is still there. -/
theorem mem_straight_of_busy (start : Code.IsStart straight o) (hi : i ∈ simple)
    (here : i.offset = o) (busy : ∀ j ∈ straight, j.offset = o → idle x straight j = false) :
    i ∈ straight := by
  obtain ⟨j, hj, rfl⟩ := start
  have kept := mem_collapsed h decoded hj (busy j hj rfl)
  rwa [Code.eq_of_offset_eq decoded hi kept here]

omit decoded in
theorem sameBytes_of_busy (hi : i ∈ straight) (busy : idle x straight i = false) :
    Code.SameBytes x.bytes i.offset (x.collapseBranches straight).1.bytes i.offset i.length := by
  obtain same | ⟨isIdle, -⟩ := (collapses_collapseBranches h).collapsed i hi
  · exact same
  · rw [idle, isIdle] at busy
    cases busy

/-- A line in which no branch was removed was there before, with the same bytes. -/
theorem Line.of_collapsed (line : Line simple o e) (start : Code.IsStart straight o)
    (busy : ∀ j ∈ straight, o ≤ j.offset → j.offset < e → idle x straight j = false) :
    Line straight o e ∧
      Code.SameBytes x.bytes o (x.collapseBranches straight).1.bytes o (e - o) := by
  induction line with
  | @last i hi leaving =>
    have room : i.offset < i.next := Nat.lt_add_of_pos_right i.length_pos
    have mem := mem_straight_of_busy h decoded start hi rfl fun j hj here =>
      busy j hj (Nat.le_of_eq here.symm) (here ▸ room)
    have same := sameBytes_of_busy h mem (busy i mem (Nat.le_refl _) room)
    refine ⟨.last mem leaving, ?_⟩
    rwa [Instruction.next, Nat.add_sub_cancel_left]
  | @cons i e hi staying flat rest ih =>
    have room : i.offset < i.next := Nat.lt_add_of_pos_right i.length_pos
    have further := rest.lt
    have mem := mem_straight_of_busy h decoded start hi rfl fun j hj here =>
      busy j hj (Nat.le_of_eq here.symm) (by omega)
    have same := sameBytes_of_busy h mem (busy i mem (Nat.le_refl _) (by omega))
    have start' : Code.IsStart straight i.next := by
      refine (Code.next_eq_size_or_isStart h mem).resolve_left fun last => ?_
      obtain ⟨j, hj, place, -⟩ := rest.head
      have inside := Code.offset_lt_of_mem decoded hj
      rw [(collapses_collapseBranches h).size] at inside
      omega
    obtain ⟨line, same'⟩ := ih start' fun j hj lo hi => busy j hj (by omega) hi
    refine ⟨.cons mem staying flat line, fun k hk => ?_⟩
    by_cases first : k < i.length
    · exact same k first
    · rw [Instruction.next] at *
      have := same' (k - i.length) (by omega)
      rwa [show i.offset + i.length + (k - i.length) = i.offset + k by omega] at this

/-- Equal lines in which no branch was removed were equal lines before. -/
theorem Twins.of_collapsed
    (twins : Twins (x.collapseBranches straight).1 simple a aEnd b bEnd)
    (left : Code.IsStart straight a) (right : Code.IsStart straight b)
    (busy : ∀ j ∈ straight, a ≤ j.offset ∧ j.offset < aEnd ∨ b ≤ j.offset ∧ j.offset < bEnd →
      idle x straight j = false) : Twins x straight a aEnd b bEnd := by
  obtain ⟨leftLine, leftSame⟩ := twins.left.of_collapsed h decoded left
    fun j hj lo hi => busy j hj (.inl ⟨lo, hi⟩)
  obtain ⟨rightLine, rightSame⟩ := twins.right.of_collapsed h decoded right
    fun j hj lo hi => busy j hj (.inr ⟨lo, hi⟩)
  have extract {o e : Nat} (line : Line straight o e)
      (same : Code.SameBytes x.bytes o (x.collapseBranches straight).1.bytes o (e - o)) :
      x.bytes.extract o e = (x.collapseBranches straight).1.bytes.extract o e := by
    have size := (collapses_collapseBranches h).size
    have room := line.le_size h
    obtain ⟨n, rfl⟩ := Nat.exists_eq_add_of_le (Nat.le_of_lt line.lt)
    rw [Nat.add_sub_cancel_left] at same
    exact ((Code.extract_eq_extract_iff room (size ▸ room)).2 same).symm
  refine ⟨leftLine, rightLine, ?_, twins.leftFree, twins.rightFree⟩
  rw [extract leftLine leftSame, extract rightLine rightSame]
  exact twins.same

/-- Collapsing takes as many conditional branches away as it says. -/
theorem conditionals_collapsed :
    conditionals simple + (x.collapseBranches straight).2 = conditionals straight := by
  have count : (x.collapseBranches straight).2 =
      (straight.toList.filter (idle x straight)).countP fun i => Opcode.isConditional i.opcode := by
    refine Eq.symm (List.countP_eq_length.2 fun i hi => ?_)
    exact isConditional_of_idle (List.mem_filter.1 hi).2
  have rest : ((straight.toList.filter fun i => !idle x straight i).filter
        fun i => Opcode.isConditional i.opcode).Perm
      (simple.toList.filter fun i => Opcode.isConditional i.opcode) := by
    refine (List.perm_ext_iff_of_nodup (((Code.nodup_of_decode h).filter _).filter _)
      ((Code.nodup_of_decode decoded).filter _)).2 fun i => ?_
    simp only [List.mem_filter, Array.mem_toList_iff, Bool.not_eq_true']
    refine and_congr_left fun conditional => ⟨fun ⟨hi, busy⟩ => ?_, fun hi => ?_⟩
    · exact mem_collapsed h decoded hi busy
    · exact busy_of_isConditional h decoded hi conditional
  rw [conditionals, conditionals, List.countP_eq_countP_filter_add straight.toList _
    (idle x straight), count, Nat.add_comm, List.countP_eq_length_filter (l := simple.toList),
    ← rest.length_eq, ← List.countP_eq_length_filter]

/-! ## Collapsing again -/

/-- In a collapsed body a branch does not matter exactly if its arms lead to equal lines. -/
theorem idle_collapsed_iff (hi : i ∈ simple) :
    idle (x.collapseBranches straight).1 simple i = true ↔
      ∃ a aEnd b bEnd, TwinArms (x.collapseBranches straight).1 simple i a aEnd b bEnd := by
  constructor
  · intro isIdle
    refine (same_or_twinArms_of_idle decoded isIdle).resolve_left ?_
    rintro ⟨t, target, same⟩
    have conditional := isConditional_of_idle isIdle
    obtain ⟨-, busy⟩ := busy_of_isConditional h decoded hi conditional
    -- Chains end where they ended before, so the arms came together before as well.
    have ends := destination_congr h decoded (endsAt_collapsed h decoded)
    rw [ends, ends] at same
    rw [idle_of_destination_eq conditional target same] at busy
    cases busy
  · rintro ⟨a, aEnd, b, bEnd, arms⟩
    exact arms.idle decoded

/-- Where the arms of a branch of a collapsed body lead to equal lines, a branch was removed in one
of these lines. -/
theorem exists_idle_of_twinArms (hi : i ∈ simple)
    (arms : TwinArms (x.collapseBranches straight).1 simple i a aEnd b bEnd) :
    ∃ j ∈ straight, idle x straight j = true ∧
      (a ≤ j.offset ∧ j.offset < aEnd ∨ b ≤ j.offset ∧ j.offset < bEnd) := by
  obtain ⟨conditional, ⟨t, target, taken⟩, passed, twins⟩ := arms
  obtain ⟨mem, busy⟩ := busy_of_isConditional h decoded hi conditional
  rw [chainEnds_iff_endsAt decoded, endsAt_collapsed h decoded] at taken passed
  have left : Code.IsStart straight a := taken.isStart h (isStart_of_target? h mem target)
  have right : Code.IsStart straight b := by
    obtain last | start := Code.next_eq_size_or_isStart h mem
    · -- Behind the code there is neither a jump nor a line.
      have still : (ofInstructions x.bytes.size straight).jump? i.next = none := by
        refine Option.eq_none_iff_forall_ne_some.2 fun u next => ?_
        obtain ⟨j, hj, place, -⟩ := (jump?_eq_some_iff h).1 next
        have := Code.offset_lt_of_mem h hj
        omega
      obtain rfl := passed.unique (.here still)
      obtain ⟨j, hj, place, -⟩ := twins.right.head
      have inside := Code.offset_lt_of_mem decoded hj
      rw [(collapses_collapseBranches h).size] at inside
      omega
    · exact passed.isStart h start
  by_contra none
  have twins := twins.of_collapsed h decoded left right fun j hj inside =>
    Bool.eq_false_iff.2 fun isIdle => none ⟨j, hj, isIdle, inside⟩
  rw [← chainEnds_iff_endsAt h] at taken passed
  have arms : TwinArms x straight i a aEnd b bEnd :=
    ⟨conditional, ⟨t, target, taken⟩, passed, twins⟩
  rw [arms.idle h] at busy
  cases busy

end Collapsed

end Flow

namespace Code

open Clarify.Flow

variable {c x y z : Code} {instructions simple : Array Instruction} {counts : FlowCounts}

/-- The body after a number of rounds of simplification. -/
def simplifyTimes (c : Code) : Nat → Except FormatError Code
  | 0 => .ok c
  | n + 1 => do (← c.simplify).1.simplifyTimes n

/-! ## Rounds -/

theorem hasIdle_iff (decoded : y.instructions = .ok simple) :
    y.HasIdle ↔ ∃ i ∈ simple, idle y simple i = true := by
  constructor
  · rintro ⟨simple', decoded', isIdle⟩
    cases decoded.symm.trans decoded'
    exact isIdle
  · intro isIdle
    exact ⟨simple, decoded, isIdle⟩

theorem collapseBranches_snd_eq_zero_iff (decoded : y.instructions = .ok simple) :
    (y.collapseBranches simple).2 = 0 ↔ ¬y.HasIdle := by
  show (simple.toList.filter (idle y simple)).length = 0 ↔ _
  rw [List.length_eq_zero_iff, List.filter_eq_nil_iff, hasIdle_iff decoded]
  simp only [Array.mem_toList_iff, not_exists, not_and]

/-- Simplifying a simplified body changes nothing exactly if all its branches matter. -/
theorem simplify_again_eq_self_iff (h : c.simplify = .ok (y, counts))
    (decoded : y.instructions = .ok simple) : y.simplify = .ok (y, .none) ↔ ¬y.HasIdle := by
  rw [simplify_again h decoded, Except.ok.injEq, Prod.mk.injEq, FlowCounts.none,
    FlowCounts.mk.injEq, collapseBranches_eq_self_iff decoded,
    collapseBranches_snd_eq_zero_iff decoded]
  simp only [true_and, and_self]

/-- Rounds of simplification come to an end: each of them but the last removes a branch. -/
theorem exists_simplifyTimes (h : c.simplify = .ok (y, counts))
    (decoded : y.instructions = .ok simple) :
    ∃ n ≤ conditionals simple, ∃ z, y.simplifyTimes n = .ok z ∧ z.simplify = .ok (z, .none) := by
  induction size : conditionals simple using Nat.strong_induction_on
    generalizing c y counts simple with
  | _ size ih =>
    by_cases left : y.HasIdle
    · have again := simplify_again h decoded
      obtain ⟨simple', decoded'⟩ := exists_decode_collapseBranches decoded
      have count := conditionals_collapsed decoded decoded'
      have removed := mt (collapseBranches_snd_eq_zero_iff decoded).1 (not_not.2 left)
      obtain ⟨n, few, z, rounds, last⟩ := ih (conditionals simple') (by omega) again decoded' rfl
      refine ⟨n + 1, by omega, z, ?_, last⟩
      rw [simplifyTimes, again]
      exact rounds
    · exact ⟨0, Nat.zero_le _, y, rfl, (simplify_again_eq_self_iff h decoded).2 left⟩

/-- Simplifying a simplified body sends no branch elsewhere, and changes nothing exactly if there is
no conditional branch whose arms lead to equal lines. Where there is one, a branch was removed in
one of these lines by the first round. After at most as many further rounds as there are conditional
branches, nothing is left to be done. -/
theorem simplify_repeated (decoded : c.instructions = .ok instructions) :
    ∃ y counts simple, c.simplify = .ok (y, counts) ∧ y.instructions = .ok simple ∧
      (∃ z collapsed, y.simplify = .ok (z, ⟨0, collapsed⟩)) ∧
      (y.simplify = .ok (y, .none) ↔
        ∀ i ∈ simple, ∀ a aEnd b bEnd, ¬TwinArms y simple i a aEnd b bEnd) ∧
      (∀ i ∈ simple, ∀ a aEnd b bEnd, TwinArms y simple i a aEnd b bEnd →
        ∃ j ∈ instructions, Opcode.isConditional j.opcode = true ∧ Emptied y.bytes j ∧
          (a ≤ j.offset ∧ j.offset < aEnd ∨ b ≤ j.offset ∧ j.offset < bEnd)) ∧
      ∃ n ≤ conditionals simple, ∃ z, y.simplifyTimes n = .ok z ∧
        z.simplify = .ok (z, .none) := by
  obtain ⟨straight, simple, decoded', decoded'', simplified⟩ := simplify_eq_ok decoded
  refine ⟨_, _, simple, simplified, decoded'', ⟨_, _, simplify_again simplified decoded''⟩, ?_, ?_,
    exists_simplifyTimes simplified decoded''⟩
  · rw [simplify_again_eq_self_iff simplified decoded'', hasIdle_iff decoded'']
    constructor
    · intro none i hi a aEnd b bEnd arms
      exact none ⟨i, hi, arms.idle decoded''⟩
    · rintro none ⟨i, hi, isIdle⟩
      obtain ⟨a, aEnd, b, bEnd, arms⟩ := (idle_collapsed_iff decoded' decoded'' hi).1 isIdle
      exact none i hi a aEnd b bEnd arms
  · intro i hi a aEnd b bEnd arms
    obtain ⟨j, hj, isIdle, inside⟩ := exists_idle_of_twinArms decoded' decoded'' hi arms
    have emptied := emptied_foldl_collapse decoded' mem_of_mem_idle rfl hj
      (.inr (List.mem_filter.2 ⟨Array.mem_toList_iff.2 hj, isIdle⟩))
    have conditional := isConditional_of_idle isIdle
    obtain old | ⟨k, hk, t, d, -, -, rfl⟩ :=
      (straightens_threadJumps decoded).exists_of_mem decoded decoded' hj
    · exact ⟨j, old, conditional, emptied, inside⟩
    · exact ⟨k, hk, conditional, ⟨emptied.first, emptied.rest⟩, inside⟩

/-- Three branches, the last two of which go on behind themselves either way. They are in the arms
of the first. -/
def nestedBody : Code where
  maxStack := 1
  maxLocals := 1
  bytes := #[0x1a, 0x99, 0x00, 0x08, 0x1a, 0x99, 0x00, 0x03, 0xb1, 0x1a, 0x99, 0x00, 0x03, 0xb1]
  handlers := []
  attributes := []

/-- The instructions of that body. -/
def nestedInstructions : Array Instruction :=
  #[⟨0, 0x1a, 0, .bare⟩, ⟨1, 0x99, 2, .branch 9⟩, ⟨4, 0x1a, 0, .bare⟩, ⟨5, 0x99, 2, .branch 8⟩,
    ⟨8, 0xb1, 0, .bare⟩, ⟨9, 0x1a, 0, .bare⟩, ⟨10, 0x99, 2, .branch 13⟩, ⟨13, 0xb1, 0, .bare⟩]

theorem simplify_repeated_nestedBody : ∃ y counts n z,
    nestedBody.simplify = .ok (y, counts) ∧ y.simplifyTimes n = .ok z ∧
      z.simplify = .ok (z, .none) := by
  have decoded : nestedBody.instructions = .ok nestedInstructions :=
    Except.eq_ok_of_toOption (by decide +kernel)
  obtain ⟨y, counts, simple, simplified, -, -, -, -, n, -, z, rounds, last⟩ :=
    simplify_repeated decoded
  exact ⟨y, counts, n, z, simplified, rounds, last⟩

/-- The same body without the branches in the arms. -/
def outerBody : Code :=
  { nestedBody with
    bytes := #[0x1a, 0x99, 0x00, 0x08, 0x1a, 0x57, 0x00, 0x00, 0xb1, 0x1a, 0x57, 0x00, 0x00, 0xb1] }

/-- The same body without branches. -/
def branchlessBody : Code :=
  { nestedBody with
    bytes := #[0x1a, 0x57, 0x00, 0x00, 0x1a, 0x57, 0x00, 0x00, 0xb1, 0x1a, 0x57, 0x00, 0x00, 0xb1] }

/-- The second round removes the first branch, which the first round leaves. -/
theorem simplify_nestedBody_twice : nestedBody.simplify = .ok (outerBody, ⟨0, 2⟩) ∧
    outerBody.simplify = .ok (branchlessBody, ⟨0, 1⟩) ∧ branchlessBody ≠ outerBody :=
  ⟨Except.eq_ok_of_toOption (by decide +kernel), Except.eq_ok_of_toOption (by decide +kernel),
    by decide +kernel⟩

end Code

end Clarify
