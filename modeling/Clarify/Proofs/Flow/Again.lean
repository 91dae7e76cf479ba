import Clarify.Proofs.Flow.Behaviour
import Clarify.Proofs.Flow.Sound
import Mathlib.Data.Fintype.Pigeonhole

/-!
# Simplifying again

Threading is done once and for all: the chains of a simplified body end where they ended before, and
a branch that could not be sent there cannot be sent there the next time either. Collapsing is not.
A conditional branch that is taken out can make the arms of another one equal, which only a further
pass sees.

Results:
* `EndsAt.destination`: the destination of a chain that ends is its end.
* `stuck_of_mem_detours`: the branches of a simplified body that do not lead straight to their
  destination have no room for the way there.
* `Code.simplify_again`: so simplifying a simplified body threads nothing.
* `Code.collapseBranches_eq_self_iff`: when it changes nothing at all.
-/

namespace Clarify

namespace Flow

variable {c x y : Code} {instructions straight simple : Array Instruction} {i : Instruction}

/-! ## Where chains end -/

theorem EndsAt.last {f : Flow} {o d : Nat} (h : f.EndsAt o d) : f.jump? d = none := by
  induction h with
  | here still => exact still
  | jump _ _ ih => exact ih

/-- A chain that ends is a row of jumps. -/
theorem EndsAt.exists_steps {f : Flow} {o d : Nat} (h : f.EndsAt o d) :
    ∃ n, f.hop^[n] o = d ∧ ∀ k < n, f.jump? (f.hop^[k] o) ≠ none := by
  induction h with
  | here still => exact ⟨0, rfl, nofun⟩
  | @jump o t d next rest ih =>
    obtain ⟨n, last, jumps⟩ := ih
    have moves := hop_of_jump? next
    refine ⟨n + 1, by rw [Function.iterate_succ_apply, moves, last], fun k lt => ?_⟩
    cases k with
    | zero =>
      show f.jump? o ≠ none
      rw [next]
      exact Option.some_ne_none t
    | succ k =>
      rw [Function.iterate_succ_apply, moves]
      exact jumps k (Nat.lt_of_succ_lt_succ lt)

/-- A row of more jumps than there are instructions comes to a jump twice. -/
theorem exists_hop_eq (h : c.instructions = .ok instructions) {o n : Nat}
    (jumps : ∀ k < n, (ofInstructions c.bytes.size instructions).jump?
      ((ofInstructions c.bytes.size instructions).hop^[k] o) ≠ none)
    (many : instructions.size < n) :
    ∃ k l, k < l ∧ l < n ∧ (ofInstructions c.bytes.size instructions).hop^[k] o =
      (ofInstructions c.bytes.size instructions).hop^[l] o := by
  generalize flow : ofInstructions c.bytes.size instructions = f at *
  have place (k : Fin n) : ∃ p : Fin instructions.size,
      (instructions[p]).offset = f.hop^[k] o := by
    obtain ⟨t, next⟩ := Option.ne_none_iff_exists'.1 (jumps k k.2)
    rw [← flow] at next
    obtain ⟨i, mem, here, -⟩ := (jump?_eq_some_iff h).1 next
    obtain ⟨p, inside, rfl⟩ := Array.mem_iff_getElem.1 mem
    exact ⟨⟨p, inside⟩, here.trans (by rw [flow])⟩
  choose position offset using place
  obtain ⟨k, l, ne, same⟩ := Fintype.exists_ne_map_eq_of_card_lt position (by simpa using many)
  have here : f.hop^[k] o = f.hop^[l] o := by rw [← offset, ← offset, same]
  rcases Nat.lt_or_gt_of_ne (Fin.val_ne_of_ne ne) with lt | gt
  · exact ⟨k, l, lt, l.2, here⟩
  · exact ⟨l, k, gt, k.2, here.symm⟩

/-- A chain that ends does so after at most as many jumps as there are instructions: it does not
come to a jump twice. -/
theorem le_size_of_steps (h : c.instructions = .ok instructions) {o d n : Nat}
    (last : (ofInstructions c.bytes.size instructions).hop^[n] o = d)
    (still : (ofInstructions c.bytes.size instructions).jump? d = none)
    (jumps : ∀ k < n, (ofInstructions c.bytes.size instructions).jump?
      ((ofInstructions c.bytes.size instructions).hop^[k] o) ≠ none) : n ≤ instructions.size := by
  by_contra many
  obtain ⟨k, l, lt, inside, same⟩ := exists_hop_eq h jumps (Nat.lt_of_not_le many)
  generalize ofInstructions c.bytes.size instructions = f at *
  -- The chain goes on from both places alike, so it ends earlier than it does.
  have early : f.hop^[k + (n - l)] o = d := by
    rw [Nat.add_comm, Function.iterate_add_apply, same, ← Function.iterate_add_apply,
      Nat.sub_add_cancel (Nat.le_of_lt inside), last]
  exact jumps (k + (n - l)) (by omega) (early ▸ still)

/-- The destination of a chain that ends is its end. -/
theorem EndsAt.destination (h : c.instructions = .ok instructions) {o d : Nat}
    (ends : (ofInstructions c.bytes.size instructions).EndsAt o d) :
    (ofInstructions c.bytes.size instructions).destination
      (ofInstructions c.bytes.size instructions).ends o = d := by
  obtain ⟨n, last, jumps⟩ := ends.exists_steps
  have still := ends.last
  have few := le_size_of_steps h last still jumps
  generalize flow : ofInstructions c.bytes.size instructions = f at *
  have size : f.instructions.size = instructions.size := by rw [← flow]; rfl
  have stays (k : Nat) : f.hop^[k] d = d :=
    Function.iterate_fixed (hop_of_jump?_eq_none still) k
  have enough : n ≤ Nat.pow 2 (f.instructions.size.log2 + 1) := by
    rw [size]
    exact few.trans (Nat.le_of_lt Nat.lt_log2_self)
  have final : f.ends.getD o o = d := by
    rw [getD_ends, ← Nat.sub_add_cancel enough, Function.iterate_add_apply, last, stays]
  simp only [Flow.destination, final, still, Option.isSome_none, Bool.false_eq_true, if_false]

/-- Bodies whose chains end alike have the same destinations. -/
theorem destination_congr (h : c.instructions = .ok instructions)
    (h' : y.instructions = .ok simple)
    (same : ∀ o d, (ofInstructions y.bytes.size simple).EndsAt o d ↔
      (ofInstructions c.bytes.size instructions).EndsAt o d) (o : Nat) :
    (ofInstructions y.bytes.size simple).destination (ofInstructions y.bytes.size simple).ends o =
      (ofInstructions c.bytes.size instructions).destination
        (ofInstructions c.bytes.size instructions).ends o := by
  obtain here | ends := (ofInstructions c.bytes.size instructions).destination_eq_or_endsAt o
  · obtain here' | ends' := (ofInstructions y.bytes.size simple).destination_eq_or_endsAt o
    · rw [here, here']
    · exact (((same o _).1 ends').destination h).symm
  · exact ((same o _).2 ends).destination h'

/-! ## The chains of threaded code -/

theorem mem_of_instructionAt {code : Array UInt8} (h : Code.decode code = .ok instructions)
    {o : Nat} (start : Code.IsStart instructions o) (read : Code.instructionAt code o = .ok i) :
    i ∈ instructions := by
  obtain ⟨j, hj, rfl⟩ := start
  have here := Code.instructionAt_of_mem h hj
  rw [read] at here
  cases here
  exact hj

/-- The instructions of a threaded body are those of the body, some of them with the end of a chain
as their target. -/
theorem Straightens.exists_of_mem (h : c.instructions = .ok instructions)
    (sx : Straightens c x instructions) (decoded : x.instructions = .ok straight)
    (hi : i ∈ straight) :
    i ∈ instructions ∨ ∃ j ∈ instructions, ∃ t d, j.target? = some t ∧
      (ofInstructions c.bytes.size instructions).EndsAt t d ∧
      i = { j with operand := .branch d } := by
  obtain ⟨straight', decoded', starts⟩ := sx.decode h
  cases decoded.symm.trans decoded'
  obtain ⟨j, hj, here⟩ := (starts i.offset).1 ⟨i, hi, rfl⟩
  have read := Code.instructionAt_of_mem decoded hi
  rw [← here] at read
  obtain same | ⟨t, d, -, target, ends, read'⟩ := sx.straightened j hj
  · have read' := Code.instructionAt_congr (Code.instructionAt_of_mem h hj)
      (Code.offset_lt_of_mem h hj) sx.size same
    rw [read] at read'
    cases read'
    exact .inl hj
  · rw [read] at read'
    cases read'
    exact .inr ⟨j, hj, t, d, target, ends, rfl⟩

section Threaded

variable (h : c.instructions = .ok instructions) (sx : Straightens c x instructions)
  (decoded : x.instructions = .ok straight)

include h sx decoded

/-- A jump stays a jump, to its target or to the end of the chain there. -/
theorem Straightens.exists_jump? {o t : Nat}
    (next : (ofInstructions c.bytes.size instructions).jump? o = some t) :
    ∃ u, (ofInstructions x.bytes.size straight).jump? o = some u ∧
      (u = t ∨ (ofInstructions c.bytes.size instructions).EndsAt t u) := by
  obtain ⟨i, hi, rfl, jump, target⟩ := (jump?_eq_some_iff h).1 next
  obtain ⟨u, read, reached⟩ := sx.branch h hi target
  obtain ⟨straight', decoded', starts⟩ := sx.decode h
  cases decoded.symm.trans decoded'
  have mem := mem_of_instructionAt decoded ((starts i.offset).2 ⟨i, hi, rfl⟩) read
  exact ⟨u, (jump?_eq_some_iff decoded).2 ⟨_, mem, rfl, jump, rfl⟩, reached⟩

theorem Straightens.exists_of_jump? {o u : Nat}
    (next : (ofInstructions x.bytes.size straight).jump? o = some u) :
    ∃ t, (ofInstructions c.bytes.size instructions).jump? o = some t ∧
      (u = t ∨ (ofInstructions c.bytes.size instructions).EndsAt t u) := by
  obtain ⟨i, hi, rfl, jump, target⟩ := (jump?_eq_some_iff decoded).1 next
  obtain mem | ⟨j, mem, t, d, target', ends, rfl⟩ := sx.exists_of_mem h decoded hi
  · exact ⟨u, (jump?_eq_some_iff h).2 ⟨i, mem, rfl, jump, target⟩, .inl rfl⟩
  · cases target
    exact ⟨t, (jump?_eq_some_iff h).2 ⟨j, mem, rfl, jump, target'⟩, .inr ends⟩

/-- Threading leaves the ends of chains where they are. -/
theorem Straightens.endsAt_iff (o d : Nat) :
    (ofInstructions x.bytes.size straight).EndsAt o d ↔
      (ofInstructions c.bytes.size instructions).EndsAt o d := by
  constructor
  · intro ends
    induction ends with
    | @here o still =>
      refine .here (Option.eq_none_iff_forall_ne_some.2 fun t next => ?_)
      obtain ⟨u, next', -⟩ := sx.exists_jump? h decoded next
      rw [still] at next'
      cases next'
    | jump next _ ih =>
      obtain ⟨t, next', rfl | ends⟩ := sx.exists_of_jump? h decoded next
      · exact .jump next' ih
      · obtain rfl := ih.unique (.here ends.last)
        exact .jump next' ends
  · intro ends
    induction ends with
    | @here o still =>
      refine .here (Option.eq_none_iff_forall_ne_some.2 fun u next => ?_)
      obtain ⟨t, next', -⟩ := sx.exists_of_jump? h decoded next
      rw [still] at next'
      cases next'
    | jump next rest ih =>
      obtain ⟨u, next', rfl | ends⟩ := sx.exists_jump? h decoded next
      · exact .jump next' ih
      · obtain rfl := rest.unique ends
        refine .jump next' (.here (Option.eq_none_iff_forall_ne_some.2 fun u next => ?_))
        obtain ⟨t, next', -⟩ := sx.exists_of_jump? h decoded next
        rw [ends.last] at next'
        cases next'

end Threaded

/-! ## Branches that cannot be sent on -/

/-- A branch has the given target now. -/
def Sent (code : Array UInt8) (i : Instruction) (d : Nat) : Prop :=
  Code.instructionAt code i.offset = .ok { i with operand := .branch d }

theorem mem_detours_iff {f : Flow} {d : Nat} : (i, d) ∈ f.detours ↔
    i ∈ f.instructions ∧ isThreadable i = true ∧
      ∃ t, i.target? = some t ∧ f.destination f.ends t = d ∧ d ≠ t := by
  rw [detours, List.mem_filterMap]
  constructor
  · rintro ⟨j, hj, eq⟩
    split at eq
    · next threadable =>
      rw [Option.bind_eq_bind, Option.bind_eq_some_iff] at eq
      obtain ⟨t, target, eq⟩ := eq
      dsimp only at eq
      split at eq
      · next ne =>
        cases eq
        exact ⟨Array.mem_toList_iff.1 hj, threadable, t, target, rfl, ne⟩
      · cases eq
    · cases eq
  · rintro ⟨hi, threadable, t, target, rfl, ne⟩
    refine ⟨i, Array.mem_toList_iff.2 hi, ?_⟩
    rw [if_pos threadable, target]
    exact if_pos ne

section Fold

variable {code b : Array UInt8} {n : Nat} {j : Instruction} {d e : Nat}

theorem sent_thread (h : Code.decode code = .ok instructions) (size : b.size = code.size)
    (si : Straightened (ofInstructions code.size instructions) code b i)
    (mem : (i, d) ∈ (ofInstructions code.size instructions).detours)
    (fits : Code.branchOperand? i.opcode (d - i.offset) ≠ none) :
    Sent (thread (b, n) (i, d)).1 i d := by
  obtain ⟨hi, -, t, target, ends⟩ := mem_detours mem
  obtain ⟨o, read⟩ := si.read h size hi
  obtain ⟨operand, fits⟩ := Option.ne_none_iff_exists'.1 fits
  have sent : Code.retarget? b i d = some (Code.overwrite b (i.offset + 1) operand) := by
    rw [Code.retarget?, fits]
    rfl
  obtain ⟨k, hk, rfl⟩ := ends.isStart h (isStart_of_target? h hi target)
  simp only [thread, sent]
  refine Code.instructionAt_retarget? (i := { i with operand := o }) read ?_ sent ?_
  · show i.offset < b.size
    exact size ▸ Code.offset_lt_of_mem h hi
  · exact size ▸ Code.offset_lt_of_mem h hk

theorem Sent.thread (h : Code.decode code = .ok instructions) (size : b.size = code.size)
    (si : Straightened (ofInstructions code.size instructions) code b i)
    (mem : (i, d) ∈ (ofInstructions code.size instructions).detours)
    (mem' : (j, e) ∈ (ofInstructions code.size instructions).detours) (sent : Sent b j e) :
    Sent (thread (b, n) (i, d)).1 j e := by
  obtain ⟨hi, -, t, target, destination, -⟩ := mem_detours_iff.1 mem
  obtain ⟨hj, -, t', target', destination', -⟩ := mem_detours_iff.1 mem'
  rcases room : Code.branchOperand? i.opcode (d - i.offset) with _ | operand
  · simpa only [Flow.thread, Code.retarget?, room, Option.map_none] using sent
  by_cases same : j = i
  · subst same
    cases target.symm.trans target'
    cases destination.symm.trans destination'
    exact sent_thread h size si mem (by rw [room]; exact Option.some_ne_none _)
  · obtain ⟨o, read⟩ := si.read h size hi
    have eq : Code.retarget? b i d = some (Code.overwrite b (i.offset + 1) operand) := by
      rw [Code.retarget?, room]
      rfl
    have keeps := Code.sameBytes_retarget? (i := { i with operand := o }) read eq
      (show j.next ≤ i.offset ∨ i.next ≤ j.offset from Code.next_le_or_next_le h hj hi same)
    simp only [Flow.thread, eq]
    exact Code.instructionAt_congr sent (size ▸ Code.offset_lt_of_mem h hj) (Code.size_retarget? eq)
      keeps

/-- Threading sends a branch on if its operand has room, and nothing sends it back. -/
theorem sent_foldl_thread (h : Code.decode code = .ok instructions)
    {row : List (Instruction × Nat)}
    (valid : ∀ p ∈ row, p ∈ (ofInstructions code.size instructions).detours)
    (size : b.size = code.size)
    (all : ∀ j ∈ instructions, Straightened (ofInstructions code.size instructions) code b j)
    (mem : (i, d) ∈ (ofInstructions code.size instructions).detours)
    (sent : Sent b i d ∨ (i, d) ∈ row ∧ Code.branchOperand? i.opcode (d - i.offset) ≠ none) :
    Sent (row.foldl thread (b, n)).1 i d := by
  induction row generalizing b n with
  | nil =>
    obtain sent | ⟨none, -⟩ := sent
    · exact sent
    · cases none
  | cons p row ih =>
    obtain ⟨first, valid⟩ := List.forall_mem_cons.1 valid
    obtain ⟨hj, threadable, t, target, ends⟩ := mem_detours first
    obtain ⟨size', all'⟩ := straightened_thread (n := n) h size all hj threadable target ends
    rw [List.foldl_cons]
    refine ih valid size' all' ?_
    obtain sent | ⟨here, fits⟩ := sent
    · exact .inl (sent.thread h size (all _ hj) first mem)
    · obtain rfl | behind := List.mem_cons.1 here
      · exact .inl (sent_thread h size (all _ hj) first fits)
      · exact .inr ⟨behind, fits⟩

end Fold

/-- A branch that has room for its way on is sent there. -/
theorem sent_threadJumps (h : c.instructions = .ok instructions) {d : Nat}
    (mem : (i, d) ∈ (ofInstructions c.bytes.size instructions).detours)
    (fits : Code.branchOperand? i.opcode (d - i.offset) ≠ none) :
    Sent (c.threadJumps instructions).1.bytes i d :=
  sent_foldl_thread h (fun _ mem => mem) rfl (fun _ _ => .inl (Code.SameBytes.refl _ _ _)) mem
    (.inr ⟨mem, fits⟩)

/-- Threading changes nothing where no branch has room for its way on. -/
theorem threadJumps_eq_self
    (stuck : ∀ i d, (i, d) ∈ (ofInstructions y.bytes.size simple).detours →
      Code.branchOperand? i.opcode (d - i.offset) = none) : y.threadJumps simple = (y, 0) := by
  have fold (row : List (Instruction × Nat))
      (stuck : ∀ i d, (i, d) ∈ row → Code.branchOperand? i.opcode (d - i.offset) = none) :
      row.foldl thread (y.bytes, 0) = (y.bytes, 0) := by
    induction row with
    | nil => rfl
    | cons p row ih =>
      have still : thread (y.bytes, 0) p = (y.bytes, 0) := by
        simp only [thread, Code.retarget?, stuck p.1 p.2 List.mem_cons_self, Option.map_none]
      rw [List.foldl_cons, still]
      exact ih fun i d mem => stuck i d (List.mem_cons_of_mem p mem)
  simp only [Code.threadJumps, fold _ stuck]

/-! ## The branches of collapsed code -/

theorem exists_covering {code : Array UInt8} {pc : Nat} {row : List Instruction}
    (tiles : Code.Tiles code pc row) {k : Nat} (lo : pc ≤ k) (hi : k < code.size) :
    ∃ i ∈ row, i.offset ≤ k ∧ k < i.next := by
  induction tiles with
  | nil => omega
  | @cons pc j rest below read _ ih =>
    have place := Code.offset_of_instructionAt read
    by_cases inside : k < j.next
    · exact ⟨j, List.mem_cons_self, place ▸ lo, inside⟩
    · obtain ⟨i, mem, range⟩ := ih (Nat.le_of_not_lt inside)
      exact ⟨i, List.mem_cons_of_mem j mem, range⟩

/-- Whether a branch of a body is idle. -/
def idle (c : Code) (instructions : Array Instruction) (i : Instruction) : Bool :=
  isIdle c (ofInstructions c.bytes.size instructions)
    (ofInstructions c.bytes.size instructions).ends i

theorem isConditional_of_idle (h : idle c instructions i = true) :
    Opcode.isConditional i.opcode = true := by
  unfold idle isIdle at h
  split at h
  · exact (Bool.and_eq_true_iff.1 h).1
  · cases h

/-- A conditional branch does not matter if both ways lead to the same place. -/
theorem idle_of_destination_eq (conditional : Opcode.isConditional i.opcode = true) {t : Nat}
    (target : i.target? = some t)
    (same : (ofInstructions c.bytes.size instructions).destination
        (ofInstructions c.bytes.size instructions).ends t =
      (ofInstructions c.bytes.size instructions).destination
        (ofInstructions c.bytes.size instructions).ends i.next) :
    idle c instructions i = true := by
  simp only [idle, isIdle, target, same, conditional, beq_self_eq_true, Bool.true_or, Bool.and_self]

/-- Once taken out, a branch is not there any more. -/
theorem emptied_foldl_collapse {code b : Array UInt8} (h : Code.decode code = .ok instructions)
    {row : List Instruction} (valid : ∀ j ∈ row, j ∈ instructions) (size : b.size = code.size)
    (hi : i ∈ instructions) (emptied : Emptied b i ∨ i ∈ row) :
    Emptied (row.foldl collapse b) i := by
  induction row generalizing b with
  | nil => exact emptied.resolve_right List.not_mem_nil
  | cons j row ih =>
    obtain ⟨hj, valid⟩ := List.forall_mem_cons.1 valid
    rw [List.foldl_cons]
    refine ih valid ((size_collapse b j).trans size) ?_
    by_cases same : i = j
    · subst same
      exact .inl (emptied_collapse (size ▸ Code.next_le_of_mem h hi))
    · obtain emptied | mem := emptied
      · exact .inl (emptied.of_sameBytes
          (sameBytes_collapse (Code.next_le_or_next_le h hi hj same)))
      · exact .inr ((List.mem_cons.1 mem).resolve_left same)

/-- Idle branches are branches of the body. -/
theorem mem_of_mem_idle : ∀ i ∈ straight.toList.filter (idle x straight), i ∈ straight :=
  fun _ mem => Array.mem_toList_iff.1 (List.mem_filter.1 mem).1

theorem exists_decode_collapseBranches (h : x.instructions = .ok straight) :
    ∃ simple, (x.collapseBranches straight).1.instructions = .ok simple := by
  obtain ⟨-, simple, decoded, -⟩ := exists_decode_foldl_collapse h mem_of_mem_idle
    ((Code.nodup_of_decode h).filter (idle x straight))
  exact ⟨simple, decoded⟩

section Collapsed

variable (h : x.instructions = .ok straight)
  (decoded : (x.collapseBranches straight).1.instructions = .ok simple)

include h decoded

/-- What is not idle stays. -/
theorem mem_collapsed (hi : i ∈ straight) (busy : idle x straight i = false) : i ∈ simple := by
  obtain ⟨-, simple', decoded', kept⟩ := exists_decode_foldl_collapse h mem_of_mem_idle
    ((Code.nodup_of_decode h).filter (idle x straight))
  cases decoded.symm.trans decoded'
  refine kept i hi fun mem => ?_
  rw [(List.mem_filter.1 mem).2] at busy
  cases busy

/-- What is new takes nothing but operands from the stack. -/
theorem exists_of_mem_collapsed (hi : i ∈ simple) : i ∈ straight ∧ idle x straight i = false ∨
    i.opcode = Opcode.nop ∨ i.opcode = Opcode.pop ∨ i.opcode = Opcode.pop2 := by
  have collapses := collapses_collapseBranches h
  have inside := Code.offset_lt_of_mem decoded hi
  rw [collapses.size] at inside
  obtain ⟨j, mem, lo, hi'⟩ := exists_covering (Code.tiles_of_decode h) (Nat.zero_le _) inside
  rw [Array.mem_toList_iff] at mem
  by_cases busy : idle x straight j = false
  · have mem' := mem_collapsed h decoded mem busy
    have same : j = i := by
      by_contra ne
      have room : i.offset < i.next := Nat.lt_add_of_pos_right i.length_pos
      have := Code.next_le_or_next_le decoded mem' hi ne
      omega
    exact .inl (same ▸ ⟨mem, busy⟩)
  · have emptied := emptied_foldl_collapse h (mem_of_mem_idle (x := x)) rfl mem (.inr
      (List.mem_filter.2 ⟨Array.mem_toList_iff.2 mem, Bool.eq_true_of_not_eq_false busy⟩))
    have opcode := (Code.instructionAt_eq_ok_iff.1 (Code.instructionAt_of_mem decoded hi)).2.2
    have bytes : (x.collapseBranches straight).1.bytes =
        (straight.toList.filter (idle x straight)).foldl collapse x.bytes := rfl
    refine .inr ?_
    rw [opcode, bytes]
    rcases Nat.eq_or_lt_of_le lo with here | behind
    · rw [← here, emptied.first, dropOf]
      refine .inr ?_
      split
      · exact .inr rfl
      · exact .inl rfl
    · exact .inl (emptied.rest _ behind hi')

/-- The conditional branches of a collapsed body were there before, and did matter. -/
theorem busy_of_isConditional (hi : i ∈ simple)
    (conditional : Opcode.isConditional i.opcode = true) :
    i ∈ straight ∧ idle x straight i = false := by
  obtain ⟨nop, pop, pop2⟩ := Opcode.not_pop_of_isConditional _ conditional
  exact (exists_of_mem_collapsed h decoded hi).resolve_right (by simp [nop, pop, pop2])

/-- Collapsing leaves all jumps where they are. -/
theorem jump?_collapsed (o : Nat) :
    (ofInstructions (x.collapseBranches straight).1.bytes.size simple).jump? o =
      (ofInstructions x.bytes.size straight).jump? o := by
  refine Option.ext fun t => ?_
  rw [jump?_eq_some_iff decoded, jump?_eq_some_iff h]
  refine exists_congr fun i => ?_
  constructor
  · rintro ⟨hi, here, jump, target⟩
    obtain ⟨nop, pop, pop2, -⟩ := Opcode.not_pop_of_isGoto _ jump
    obtain ⟨mem, -⟩ | drop := exists_of_mem_collapsed h decoded hi
    · exact ⟨mem, here, jump, target⟩
    · simp only [nop, pop, pop2, or_self] at drop
  · rintro ⟨hi, here, jump, target⟩
    refine ⟨mem_collapsed h decoded hi ?_, here, jump, target⟩
    by_contra isIdle
    have conditional := isConditional_of_idle (Bool.eq_true_of_not_eq_false isIdle)
    rw [(Opcode.not_pop_of_isGoto _ jump).2.2.2] at conditional
    cases conditional

theorem endsAt_collapsed (o d : Nat) :
    (ofInstructions (x.collapseBranches straight).1.bytes.size simple).EndsAt o d ↔
      (ofInstructions x.bytes.size straight).EndsAt o d := by
  have jumps := jump?_collapsed h decoded
  constructor
  · intro ends
    induction ends with
    | here still => exact .here ((jumps _).symm.trans still)
    | jump next _ ih => exact .jump ((jumps _).symm.trans next) ih
  · intro ends
    induction ends with
    | here still => exact .here ((jumps _).trans still)
    | jump next _ ih => exact .jump ((jumps _).trans next) ih

end Collapsed

/-! ## Simplified bodies -/

theorem not_pop_of_isThreadable (h : isThreadable i = true) :
    i.opcode ≠ Opcode.nop ∧ i.opcode ≠ Opcode.pop ∧ i.opcode ≠ Opcode.pop2 := by
  obtain conditional | jump := Bool.or_eq_true_iff.1 h
  · exact Opcode.not_pop_of_isConditional _ conditional
  · obtain ⟨nop, pop, pop2, -⟩ := Opcode.not_pop_of_isGoto _ jump
    exact ⟨nop, pop, pop2⟩

/-- In a simplified body, a branch that does not lead straight to its destination has no room for
the way there. -/
theorem stuck_of_mem_detours (h : c.instructions = .ok instructions)
    (decoded : (c.threadJumps instructions).1.instructions = .ok straight)
    (decoded' : ((c.threadJumps instructions).1.collapseBranches straight).1.instructions =
      .ok simple) {d : Nat}
    (mem : (i, d) ∈ (ofInstructions
      ((c.threadJumps instructions).1.collapseBranches straight).1.bytes.size simple).detours) :
    Code.branchOperand? i.opcode (d - i.offset) = none := by
  have sx := straightens_threadJumps h
  have ends (o d : Nat) := (endsAt_collapsed decoded decoded' o d).trans
    (sx.endsAt_iff h decoded o d)
  obtain ⟨hi, threadable, t, target, destination, ne⟩ := mem_detours_iff.1 mem
  rw [destination_congr h decoded' ends] at destination
  obtain ⟨nop, pop, pop2⟩ := not_pop_of_isThreadable threadable
  have hi' : i ∈ straight := by
    obtain ⟨hi, -⟩ | drop := exists_of_mem_collapsed decoded decoded' hi
    · exact hi
    · simp only [nop, pop, pop2, or_self] at drop
  obtain old | ⟨j, hj, t', e, -, reached, rfl⟩ := sx.exists_of_mem h decoded hi'
  · -- Had there been room, threading would have sent the branch on.
    by_contra fits
    have sent := sent_threadJumps h (mem_detours_iff.2
      ⟨old, threadable, t, target, destination, ne⟩) fits
    rw [Sent, Code.instructionAt_of_mem decoded hi', Except.ok.injEq] at sent
    have operand : i.operand = .branch d := congrArg Instruction.operand sent
    rw [Instruction.target?_eq_some_iff.1 target, Operand.branch.injEq] at operand
    exact ne operand.symm
  · -- The branch goes to the end of a chain already.
    cases target
    have final : (ofInstructions c.bytes.size instructions).EndsAt t t := .here reached.last
    exact absurd (destination.symm.trans (final.destination h)) ne

end Flow

namespace Code

/-- The body has a conditional branch that does not matter. -/
def HasIdle (c : Code) : Prop :=
  ∃ instructions, c.instructions = .ok instructions ∧
    ∃ i ∈ instructions, Flow.idle c instructions i = true

variable {c y : Code} {counts : FlowCounts} {instructions simple : Array Instruction}

/-- Simplifying succeeds, with code that can be decoded. -/
theorem simplify_eq_ok (decoded : c.instructions = .ok instructions) :
    ∃ straight simple, (c.threadJumps instructions).1.instructions = .ok straight ∧
      ((c.threadJumps instructions).1.collapseBranches straight).1.instructions = .ok simple ∧
      c.simplify = .ok (((c.threadJumps instructions).1.collapseBranches straight).1,
        ⟨(c.threadJumps instructions).2,
          ((c.threadJumps instructions).1.collapseBranches straight).2⟩) := by
  obtain ⟨straight, decoded', -⟩ := (Flow.straightens_threadJumps decoded).decode decoded
  obtain ⟨simple, decoded''⟩ := Flow.exists_decode_collapseBranches decoded'
  refine ⟨straight, simple, decoded', decoded'', ?_⟩
  simp only [simplify, Except.bind_eq_ok_iff]
  exact ⟨instructions, decoded, straight, decoded', rfl⟩

/-- What neither branches nor drops operands in a simplified body was there before. -/
theorem mem_of_mem_simplify (h : c.simplify = .ok (y, counts))
    (decoded : y.instructions = .ok simple) {i : Instruction} (hi : i ∈ simple)
    (straight : i.target? = none)
    (keeps : i.opcode ≠ Opcode.nop ∧ i.opcode ≠ Opcode.pop ∧ i.opcode ≠ Opcode.pop2) :
    ∃ instructions, c.instructions = .ok instructions ∧ i ∈ instructions := by
  obtain ⟨instructions, threaded, original, decoded', rfl⟩ := exists_of_simplify h
  refine ⟨instructions, original, ?_⟩
  obtain ⟨nop, pop, pop2⟩ := keeps
  obtain ⟨mem, -⟩ | drop := Flow.exists_of_mem_collapsed decoded' decoded hi
  · obtain old | ⟨j, -, t, d, -, -, rfl⟩ :=
      (Flow.straightens_threadJumps original).exists_of_mem original decoded' mem
    · exact old
    · cases straight
  · simp only [nop, pop, pop2, or_self] at drop

/-- What does not branch stays in a simplified body. -/
theorem mem_simplify (h : c.simplify = .ok (y, counts))
    (original : c.instructions = .ok instructions) :
    ∃ simple, y.instructions = .ok simple ∧
      ∀ i ∈ instructions, Flow.isThreadable i = false → i ∈ simple := by
  obtain ⟨_, threaded, original', decoded, rfl⟩ := exists_of_simplify h
  cases original.symm.trans original'
  have sx := Flow.straightens_threadJumps original
  obtain ⟨_, decoded', starts⟩ := sx.decode original
  cases decoded.symm.trans decoded'
  obtain ⟨simple, decoded''⟩ := Flow.exists_decode_collapseBranches decoded
  refine ⟨simple, decoded'', fun i hi flat => ?_⟩
  obtain same | ⟨t, d, threadable, -⟩ := sx.straightened i hi
  · have read := instructionAt_congr (instructionAt_of_mem original hi)
      (offset_lt_of_mem original hi) sx.size same
    have mem := Flow.mem_of_instructionAt decoded ((starts i.offset).2 ⟨i, hi, rfl⟩) read
    refine Flow.mem_collapsed decoded decoded'' mem (Bool.eq_false_iff.2 fun isIdle => ?_)
    rw [Flow.isThreadable, Flow.isConditional_of_idle isIdle] at flat
    cases flat
  · rw [flat] at threadable
    cases threadable

/-- Simplifying a simplified body threads nothing. -/
theorem simplify_again (h : c.simplify = .ok (y, counts)) (decoded : y.instructions = .ok simple) :
    y.simplify = .ok ((y.collapseBranches simple).1, ⟨0, (y.collapseBranches simple).2⟩) := by
  obtain ⟨instructions, straight, original, threaded, rfl⟩ := exists_of_simplify h
  have still := Flow.threadJumps_eq_self fun i d mem =>
    Flow.stuck_of_mem_detours original threaded decoded mem
  simp only [simplify, decoded, bind, Except.bind, still]
  rfl

/-- Collapsing changes nothing where all branches matter. -/
theorem collapseBranches_eq_self_iff (decoded : y.instructions = .ok simple) :
    (y.collapseBranches simple).1 = y ↔ ¬y.HasIdle := by
  constructor
  · rintro same ⟨simple', decoded', i, hi, isIdle⟩
    cases decoded.symm.trans decoded'
    have emptied := Flow.emptied_foldl_collapse decoded Flow.mem_of_mem_idle rfl hi
      (.inr (List.mem_filter.2 ⟨Array.mem_toList_iff.2 hi, isIdle⟩))
    have bytes : (simple.toList.filter (Flow.idle y simple)).foldl Flow.collapse y.bytes =
        y.bytes := congrArg Code.bytes same
    have first := emptied.first
    rw [bytes, ← (instructionAt_eq_ok_iff.1 (instructionAt_of_mem decoded hi)).2.2] at first
    obtain ⟨-, pop, pop2⟩ :=
      Opcode.not_pop_of_isConditional _ (Flow.isConditional_of_idle isIdle)
    rw [Flow.dropOf] at first
    split at first
    · exact pop2 first
    · exact pop first
  · intro busy
    have none : simple.toList.filter (Flow.idle y simple) = [] :=
      List.filter_eq_nil_iff.2 fun i mem isIdle =>
        busy ⟨simple, decoded, i, Array.mem_toList_iff.1 mem, isIdle⟩
    show { y with bytes := (simple.toList.filter (Flow.idle y simple)).foldl Flow.collapse y.bytes }
      = y
    rw [none]
    rfl

end Code

end Clarify
