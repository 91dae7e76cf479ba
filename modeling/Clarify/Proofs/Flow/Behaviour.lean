import Clarify.Proofs.Flow.Blocks
import Clarify.Proofs.Flow.Collapsing
import Clarify.Proofs.Flow.Threading

/-!
# Simplified bodies behave as before

Both changes are followed step by step. A threaded branch skips jumps, which do nothing; a removed
branch leaves its operands taken, and goes on where either arm would have led.

Results:
* `runs_simplify_iff`: the simplified body has the same runs.
-/

namespace Clarify.Flow

open Machine

variable {State Value Exn Result : Type} {m : Machine State Value Exn Result} {c x y : Code}
  {instructions : Array Instruction} {s : State} {trace : List (Event State)}
  {ending : Ending State Exn Result}

/-! ## Chains -/

/-- A body the jumps of which go to their targets or to the ends of the chains there. -/
structure KeepsJumps (c x : Code) (instructions : Array Instruction) : Prop where
  size : x.bytes.size = c.bytes.size
  jump : ∀ i ∈ instructions, Opcode.isGoto i.opcode = true → ∀ t, i.target? = some t →
    ∃ u, Code.instructionAt x.bytes i.offset = .ok { i with operand := .branch u } ∧
      (u = t ∨ (ofInstructions c.bytes.size instructions).EndsAt t u)

/-- A run from the start of a chain is a run from its end. -/
theorem KeepsJumps.runs_endsAt (h : c.instructions = .ok instructions)
    (keeps : KeepsJumps c x instructions) {o d : Nat}
    (ends : (ofInstructions c.bytes.size instructions).EndsAt o d) :
    m.Runs x o s trace ending ↔ m.Runs x d s trace ending := by
  induction ends with
  | here => exact Iff.rfl
  | @jump o t d next rest ih =>
    obtain ⟨i, hi, rfl, jump, target⟩ := (jump?_eq_some_iff h).1 next
    obtain ⟨u, read, here⟩ := keeps.jump i hi jump t target
    have inside : i.offset < x.bytes.size := keeps.size ▸ Code.offset_lt_of_mem h hi
    have moves : m.step x i.offset s = .next [] u s :=
      step_of_isGoto (i := { i with operand := .branch u }) read inside jump rfl
    rw [runs_iff_of_next moves]
    obtain rfl | ends := here
    · exact ih
    · rw [rest.unique ends]

/-- A run from an offset is a run from its destination. -/
theorem KeepsJumps.runs_destination (h : c.instructions = .ok instructions)
    (keeps : KeepsJumps c x instructions) (o : Nat) :
    m.Runs x o s trace ending ↔
      m.Runs x ((ofInstructions c.bytes.size instructions).destination
        (ofInstructions c.bytes.size instructions).ends o) s trace ending := by
  obtain same | ends := (ofInstructions c.bytes.size instructions).destination_eq_or_endsAt o
  · rw [same]
  · exact keeps.runs_endsAt h ends

/-! ## Threading -/

/-- A branch still goes to its target or to the end of the chain there. -/
theorem Straightens.branch (h : c.instructions = .ok instructions)
    (sx : Straightens c x instructions) {i : Instruction} (hi : i ∈ instructions) {t : Nat}
    (target : i.target? = some t) :
    ∃ u, Code.instructionAt x.bytes i.offset = .ok { i with operand := .branch u } ∧
      (u = t ∨ (ofInstructions c.bytes.size instructions).EndsAt t u) := by
  obtain same | ⟨t', d, -, target', ends, read⟩ := sx.straightened i hi
  · refine ⟨t, ?_, .inl rfl⟩
    rw [← Instruction.target?_eq_some_iff.1 target]
    exact Code.instructionAt_congr (Code.instructionAt_of_mem h hi) (Code.offset_lt_of_mem h hi)
      sx.size same
  · rw [target] at target'
    cases target'
    exact ⟨d, read, .inr ends⟩

theorem Straightens.keepsJumps (h : c.instructions = .ok instructions)
    (sx : Straightens c x instructions) : KeepsJumps c x instructions where
  size := sx.size
  jump _ hi _ _ target := sx.branch h hi target

theorem Straightens.runs_arms (h : c.instructions = .ok instructions)
    (sx : Straightens c x instructions) {t u v : Nat}
    (hu : u = t ∨ (ofInstructions c.bytes.size instructions).EndsAt t u)
    (hv : v = t ∨ (ofInstructions c.bytes.size instructions).EndsAt t v) :
    m.Runs x u s trace ending ↔ m.Runs x v s trace ending := by
  have same {u : Nat} (hu : u = t ∨ (ofInstructions c.bytes.size instructions).EndsAt t u) :
      m.Runs x u s trace ending ↔ m.Runs x t s trace ending := by
    obtain rfl | ends := hu
    · exact Iff.rfl
    · exact ((sx.keepsJumps h).runs_endsAt h ends).symm
  exact (same hu).trans (same hv).symm

theorem reachable_arm (h : c.instructions = .ok instructions) {i : Instruction}
    (hi : i ∈ instructions) {t : Nat} (start : Code.IsStart instructions t) (holds : Bool) :
    Reachable c instructions (if holds then t else i.next) := by
  split
  · exact .inl start
  · exact (Code.next_eq_size_or_isStart h hi).symm

theorem Straightens.follows_branch (h : c.instructions = .ok instructions)
    (fits : m.Fits c instructions) (sx : Straightens c x instructions)
    (sy : Straightens c y instructions) {i : Instruction} (hi : i ∈ instructions)
    (threadable : isThreadable i = true) {t : Nat} (target : i.target? = some t) :
    Follows m y (fun q p => q = p ∧ Reachable c instructions q) i.offset s
      (m.step x i.offset s) := by
  obtain ⟨u, read, hu⟩ := sx.branch h hi target
  obtain ⟨v, read', hv⟩ := sy.branch h hi target
  have inside := Code.offset_lt_of_mem h hi
  have start : Code.IsStart instructions u := by
    have start := isStart_of_target? h hi target
    obtain rfl | ends := hu
    · exact start
    · exact ends.isStart h start
  obtain conditional | jump := Bool.or_eq_true_iff.1 threadable
  · have step := step_of_isConditional (m := m) (s := s) (i := { i with operand := .branch v })
      read' (sy.size ▸ inside) conditional rfl
    have stepX := step_of_isConditional (m := m) (s := s) (i := { i with operand := .branch u })
      read (sx.size ▸ inside) conditional rfl
    rcases taken : m.take (Opcode.operandCount i.opcode) s with e | ⟨values, s'⟩
    · simp only [taken] at step stepX
      rw [stepX]
      exact .of_throwAt fits sx.handlers sy.handlers step fun q start => ⟨rfl, .inl start⟩
    · simp only [taken] at step stepX
      rw [stepX]
      refine .next step ⟨rfl, reachable_arm h hi start _⟩ fun trace ending run => ?_
      split at run
      · next holds => rw [if_pos holds]; exact (sy.runs_arms h hu hv).1 run
      · next holds => rw [if_neg holds]; exact run
  · have step := step_of_isGoto (m := m) (s := s) (i := { i with operand := .branch v })
      read' (sy.size ▸ inside) jump rfl
    have stepX := step_of_isGoto (m := m) (s := s) (i := { i with operand := .branch u })
      read (sx.size ▸ inside) jump rfl
    rw [stepX]
    exact .next step ⟨rfl, .inl start⟩ fun trace ending run => (sy.runs_arms h hu hv).1 run

/-- Two ways to straighten a body do the same. -/
theorem Straightens.follows (h : c.instructions = .ok instructions) (fits : m.Fits c instructions)
    (sx : Straightens c x instructions) (sy : Straightens c y instructions) {q : Nat}
    (reachable : Reachable c instructions q) :
    Follows m y (fun q p => q = p ∧ Reachable c instructions q) q s (m.step x q s) := by
  obtain ⟨i, hi, rfl⟩ | rfl := reachable
  · have inside := Code.offset_lt_of_mem h hi
    have read := Code.instructionAt_of_mem h hi
    by_cases threadable : isThreadable i = true ∧ ∃ t, i.target? = some t
    · obtain ⟨threadable, t, target⟩ := threadable
      exact sx.follows_branch h fits sy hi threadable target
    · have same {z : Code} (sz : Straightens c z instructions) :
          m.step z i.offset s = m.step c i.offset s := by
        obtain same | ⟨t, d, branch, target, -⟩ := sz.straightened i hi
        · exact step_congr sz.handlers sz.size read inside same
        · exact absurd ⟨branch, t, target⟩ threadable
      rw [same sx]
      exact .of_eq (same sy) fun events q s' moves => ⟨rfl, fits.reachable_of_step h hi moves⟩
  · rw [step_of_size_le (Nat.le_of_eq sx.size)]
    exact .stuck

/-- Two ways to straighten a body have the same runs. -/
theorem Straightens.runs (h : c.instructions = .ok instructions) (fits : m.Fits c instructions)
    (sx : Straightens c x instructions) (sy : Straightens c y instructions) {q : Nat}
    (reachable : Reachable c instructions q) (run : m.Runs x q s trace ending) :
    m.Runs y q s trace ending :=
  run.transfer (R := fun q p => q = p ∧ Reachable c instructions q)
    (fun _ _ ⟨same, reachable⟩ _ => same ▸ sx.follows h fits sy reachable) ⟨rfl, reachable⟩

/-- Machines that fit a body fit the straightened body. -/
theorem Straightens.fits (h : c.instructions = .ok instructions) (fits : m.Fits c instructions)
    (sx : Straightens c x instructions) {straight : Array Instruction}
    (h' : x.instructions = .ok straight)
    (starts : ∀ o, Code.IsStart straight o ↔ Code.IsStart instructions o) :
    m.Fits x straight where
  isStart_select i hi role s := by
    rw [starts]
    obtain ⟨k, hk, place⟩ := (starts i.offset).1 ⟨i, hi, rfl⟩
    have read := Code.instructionAt_of_mem h' hi
    rw [← place] at read
    obtain same | ⟨t, d, threadable, target, -, read'⟩ := sx.straightened k hk
    · have read' := Code.instructionAt_congr (Code.instructionAt_of_mem h hk)
        (Code.offset_lt_of_mem h hk) sx.size same
      obtain rfl := Except.ok.inj (read.symm.trans read')
      refine fits.isStart_select i hk ?_ s
      rw [← role]
      exact (Code.roleOf_shift (q := i.offset) (Code.instructionAt_of_mem h hk) same).symm
    · obtain rfl := Except.ok.inj (read.symm.trans read')
      obtain conditional | jump := Bool.or_eq_true_iff.1 threadable
      · rw [Code.roleOf_of_isConditional (i := { k with operand := .branch d }) conditional rfl]
          at role
        cases role
      · rw [Code.roleOf_of_isGoto (i := { k with operand := .branch d }) jump rfl] at role
        cases role
  isStart_ret bytes s := (starts _).2 (fits.isStart_ret bytes s)
  isStart_handler handler mem := (starts _).2 (fits.isStart_handler handler (sx.handlers ▸ mem))

/-! ## Collapsing -/

theorem isConditional_of_isIdle {f : Flow} {ends : Array Nat} {i : Instruction}
    (idle : isIdle c f ends i = true) :
    Opcode.isConditional i.opcode = true ∧ ∃ t, i.target? = some t ∧
      (f.destination ends t = f.destination ends i.next ∨
        sameBlocks c f (f.destination ends t) (f.destination ends i.next) = true) := by
  unfold isIdle at idle
  split at idle
  · next t target =>
    simp only [Bool.and_eq_true, Bool.or_eq_true, beq_iff_eq] at idle
    exact ⟨idle.1, t, target, idle.2⟩
  · cases idle

theorem Collapses.refl (c : Code) (instructions : Array Instruction) :
    Collapses c c instructions where
  size := rfl
  handlers := rfl
  collapsed _ _ := .inl (Code.SameBytes.refl _ _ _)

theorem Collapses.keepsJumps (h : c.instructions = .ok instructions)
    (cx : Collapses c x instructions) : KeepsJumps c x instructions where
  size := cx.size
  jump i hi jump t target := by
    refine ⟨t, ?_, .inl rfl⟩
    rw [← Instruction.target?_eq_some_iff.1 target]
    obtain same | ⟨idle, -⟩ := cx.collapsed i hi
    · exact Code.instructionAt_congr (Code.instructionAt_of_mem h hi) (Code.offset_lt_of_mem h hi)
        cx.size same
    · have conditional := (isConditional_of_isIdle idle).1
      rw [(Opcode.not_pop_of_isGoto _ jump).2.2.2] at conditional
      cases conditional

theorem Collapses.keepsFlat (cx : Collapses c x instructions) : KeepsFlat c x instructions where
  size := cx.size
  same i hi flat := by
    obtain same | ⟨idle, -⟩ := cx.collapsed i hi
    · exact same
    · obtain ⟨-, t, target, -⟩ := isConditional_of_isIdle idle
      rw [Instruction.targets, Instruction.target?_eq_some_iff.1 target] at flat
      cases flat

/-- It does not matter which way a removed branch would have gone. -/
theorem Collapses.runs_arms (h : c.instructions = .ok instructions)
    (cx : Collapses c x instructions) {i : Instruction} {t : Nat} (target : i.target? = some t)
    (idle : isIdle c (ofInstructions c.bytes.size instructions)
      (ofInstructions c.bytes.size instructions).ends i = true) :
    m.Runs x t s trace ending ↔ m.Runs x i.next s trace ending := by
  obtain ⟨-, t', target', same⟩ := isConditional_of_isIdle idle
  obtain rfl := Option.some.inj (target.symm.trans target')
  rw [(cx.keepsJumps h).runs_destination h t, (cx.keepsJumps h).runs_destination h i.next]
  obtain same | same := same
  · rw [same]
  · exact runs_iff_of_sameBlocks h cx.keepsFlat cx.handlers same

/-- In place of a removed branch its operands are taken. -/
theorem step_of_emptied {i : Instruction} (emptied : Emptied x.bytes i)
    (inside : i.offset < x.bytes.size) :
    m.step x i.offset s =
      match m.take (Opcode.operandCount i.opcode) s with
      | .ok (_, s') => .next [.drop (Opcode.operandCount i.opcode) s] (i.offset + 1) s'
      | .error e => m.throwAt x i.offset [.drop (Opcode.operandCount i.opcode) s] e := by
  have bare : Opcode.shape? (Code.byteAt x.bytes i.offset) = some .bare := by
    rw [emptied.first, dropOf]
    split <;> rfl
  have role : Code.roleOf x.bytes ⟨i.offset, Code.byteAt x.bytes i.offset, 0, .bare⟩ =
      .drop (Opcode.operandCount i.opcode) := by
    rw [emptied.first, dropOf, Opcode.operandCount]
    split <;> rfl
  rw [step_of_read (Code.instructionAt_of_bare bare) inside, exec, role]
  rfl

theorem step_of_nop {pc : Nat} (nop : Code.byteAt x.bytes pc = Opcode.nop)
    (inside : pc < x.bytes.size) : m.step x pc s = .next [] (pc + 1) s := by
  have bare : Opcode.shape? (Code.byteAt x.bytes pc) = some .bare := by rw [nop]; rfl
  rw [step_of_read (Code.instructionAt_of_bare bare) inside, exec, nop]
  rfl

/-- Behind the removal of its operands, a removed branch does nothing. -/
theorem runs_iff_of_emptied {i : Instruction} (emptied : Emptied x.bytes i)
    (room : i.next ≤ x.bytes.size) {k : Nat} (lo : i.offset < k) (hi : k ≤ i.next) :
    m.Runs x k s trace ending ↔ m.Runs x i.next s trace ending := by
  obtain ⟨n, hn⟩ := Nat.exists_eq_add_of_le hi
  induction n generalizing k with
  | zero => rw [hn]; rfl
  | succ n ih =>
    rw [runs_iff_of_next (step_of_nop (emptied.rest k lo (by omega)) (by omega))]
    exact ih (by omega) (by omega) (by omega)

/-- A body goes on behind itself. -/
theorem Collapses.runs_behind (h : c.instructions = .ok instructions)
    (cx : Collapses c x instructions) {i : Instruction} (hi : i ∈ instructions)
    (emptied : Emptied x.bytes i) {t : Nat} (target : i.target? = some t)
    (idle : isIdle c (ofInstructions c.bytes.size instructions)
      (ofInstructions c.bytes.size instructions).ends i = true) {values : List Value}
    (run : m.Runs x (if m.holds i.opcode values then t else i.next) s trace ending) :
    m.Runs x (i.offset + 1) s trace ending := by
  have := i.length_pos
  have room : i.next ≤ x.bytes.size := cx.size ▸ Code.next_le_of_mem h hi
  rw [runs_iff_of_emptied emptied room (by omega) (by rw [Instruction.next]; omega)]
  split at run
  · exact (cx.runs_arms h target idle).1 run
  · exact run

/-- The body without the branches follows the body with them. -/
theorem Collapses.follows (h : c.instructions = .ok instructions) (fits : m.Fits c instructions)
    (cx : Collapses c x instructions) {q : Nat} (reachable : Reachable c instructions q) :
    Follows m x (fun q p => q = p ∧ Reachable c instructions q) q s (m.step c q s) := by
  obtain ⟨i, hi, rfl⟩ | rfl := reachable
  · have inside := Code.offset_lt_of_mem h hi
    have read := Code.instructionAt_of_mem h hi
    obtain same | ⟨idle, emptied⟩ := cx.collapsed i hi
    · have step : m.step x i.offset s = m.step c i.offset s :=
        step_congr cx.handlers cx.size read inside same
      exact .of_eq step fun events q s' moves => ⟨rfl, fits.reachable_of_step h hi moves⟩
    · obtain ⟨conditional, t, target, -⟩ := isConditional_of_isIdle idle
      have step := step_of_emptied (m := m) (s := s) emptied (cx.size ▸ inside)
      rw [step_of_isConditional read inside conditional (Instruction.target?_eq_some_iff.1 target)]
      rcases taken : m.take (Opcode.operandCount i.opcode) s with e | ⟨values, s'⟩
      · simp only [taken] at step ⊢
        exact .of_throwAt fits rfl cx.handlers step fun q start => ⟨rfl, .inl start⟩
      · simp only [taken] at step ⊢
        have start := isStart_of_target? h hi target
        exact .next step ⟨rfl, reachable_arm h hi start _⟩ fun trace ending run =>
          cx.runs_behind h hi emptied target idle run
  · rw [step_of_size_le (Nat.le_refl _)]
    exact .stuck

/-- Where the body with the branches stands, while the body without them passes `nop`s. -/
def Lags (c x : Code) (instructions : Array Instruction) (q p : Nat) : Prop :=
  (q = p ∧ Reachable c instructions q) ∨
    ∃ i ∈ instructions, Emptied x.bytes i ∧ i.offset < q ∧ q < i.next ∧ p = i.next

/-- Behind a removed branch or inside it, the body with the branch stands behind the branch. -/
theorem lags_of_emptied (h : c.instructions = .ok instructions) {i : Instruction}
    (hi : i ∈ instructions) (emptied : Emptied x.bytes i) {k : Nat} (lo : i.offset < k)
    (hi' : k ≤ i.next) : Lags c x instructions k i.next := by
  obtain rfl | inside := Nat.eq_or_lt_of_le hi'
  · exact .inl ⟨rfl, (Code.next_eq_size_or_isStart h hi).symm⟩
  · exact .inr ⟨i, hi, emptied, lo, inside, rfl⟩

/-- The body with the branches follows the body without them. -/
theorem Collapses.follows_back (h : c.instructions = .ok instructions)
    (fits : m.Fits c instructions) (cx : Collapses c x instructions) {q p : Nat}
    (lags : Lags c x instructions q p) :
    Follows m c (Lags c x instructions) p s (m.step x q s) := by
  obtain ⟨rfl, ⟨i, hi, rfl⟩ | rfl⟩ | ⟨i, hi, emptied, lo, inside, rfl⟩ := lags
  · have inside := Code.offset_lt_of_mem h hi
    have read := Code.instructionAt_of_mem h hi
    obtain same | ⟨idle, emptied⟩ := cx.collapsed i hi
    · rw [step_congr cx.handlers cx.size read inside same]
      exact .of_eq rfl fun events q s' moves => .inl ⟨rfl, fits.reachable_of_step h hi moves⟩
    · obtain ⟨conditional, t, target, -⟩ := isConditional_of_isIdle idle
      have operand := Instruction.target?_eq_some_iff.1 target
      have step := step_of_isConditional (m := m) (s := s) read inside conditional operand
      have stepX := step_of_emptied (m := m) (s := s) emptied (cx.size ▸ inside)
      rcases taken : m.take (Opcode.operandCount i.opcode) s with e | ⟨values, s'⟩
      · simp only [taken] at step stepX
        rw [stepX]
        exact .of_throwAt fits cx.handlers rfl step fun q start => .inl ⟨rfl, .inl start⟩
      · simp only [taken] at step stepX
        rw [stepX]
        have lags : Lags c x instructions (i.offset + 1) i.next := by
          have := i.length_pos
          refine lags_of_emptied h hi emptied (by omega) ?_
          rw [Instruction.next]
          omega
        refine .next step lags fun trace ending run => ?_
        split
        · exact ((Collapses.refl c instructions).runs_arms h target idle).2 run
        · exact run
  · rw [step_of_size_le (Nat.le_of_eq cx.size)]
    exact .stuck
  · have room : i.next ≤ x.bytes.size := cx.size ▸ Code.next_le_of_mem h hi
    rw [step_of_nop (emptied.rest q lo inside) (by omega)]
    exact .stay (lags_of_emptied h hi emptied (by omega) inside)

/-- Without the branches that do not matter, a body has the same runs. -/
theorem Collapses.runs_iff (h : c.instructions = .ok instructions) (fits : m.Fits c instructions)
    (cx : Collapses c x instructions) {q : Nat} (reachable : Reachable c instructions q) :
    m.Runs x q s trace ending ↔ m.Runs c q s trace ending := by
  constructor
  · intro run
    exact run.transfer (fun _ _ lags _ => cx.follows_back h fits lags) (.inl ⟨rfl, reachable⟩)
  · intro run
    exact run.transfer (R := fun q p => q = p ∧ Reachable c instructions q)
      (fun _ _ ⟨same, reachable⟩ _ => same ▸ cx.follows h fits reachable) ⟨rfl, reachable⟩

end Clarify.Flow

namespace Clarify.Code

open Machine

/-- Simplifying the flow of control of a body keeps its runs: from every instruction and every
state, the simplified body ends in the same way and with the same trace, or neither ends. -/
theorem runs_simplify_iff {State Value Exn Result : Type} (m : Machine State Value Exn Result)
    {c : Code} {instructions : Array Instruction} (decoded : c.instructions = .ok instructions)
    (fits : m.Fits c instructions) :
    ∃ simple counts, c.simplify = .ok (simple, counts) ∧
      ∀ i ∈ instructions, ∀ s trace ending,
        m.Runs simple i.offset s trace ending ↔ m.Runs c i.offset s trace ending := by
  have sx := Flow.straightens_threadJumps decoded
  obtain ⟨straight, decoded', starts⟩ := sx.decode decoded
  have cx := Flow.collapses_collapseBranches decoded'
  have simple : c.simplify = .ok (((c.threadJumps instructions).1.collapseBranches straight).1,
      ⟨(c.threadJumps instructions).2,
        ((c.threadJumps instructions).1.collapseBranches straight).2⟩) := by
    simp only [simplify, Except.bind_eq_ok_iff]
    exact ⟨instructions, decoded, straight, decoded', rfl⟩
  refine ⟨_, _, simple, fun i hi s trace ending => ?_⟩
  have start : IsStart instructions i.offset := ⟨i, hi, rfl⟩
  rw [cx.runs_iff decoded' (sx.fits decoded fits decoded' starts) (.inl ((starts _).2 start))]
  exact ⟨sx.runs decoded fits (.refl c instructions) (.inl start),
    (Flow.Straightens.refl c instructions).runs decoded fits sx (.inl start)⟩

/-- A machine with a stack of numbers that knows constants, and calls no subroutines. -/
def stackMachine : Machine (List Int) Int String Int where
  effect bytes s := .ok (((byteAt bytes 0).toNat - 3 : Int) :: s)
  take n s := if n ≤ s.length then .ok (s.take n, s.drop n) else .error ("underflow", s)
  holds _ values := values == [0]
  select i s := (i.offset, s)
  ret _ s := (0, s)
  leave _ s :=
    match s with
    | [] => .error ("underflow", s)
    | x :: _ => .ok x
  raise s := ("thrown", s)
  catches _ _ _ := true
  enter _ _ := []

/-- A body with a branch to a jump, where both lead to the same return. -/
def idleBody : Code where
  maxStack := 2
  maxLocals := 0
  bytes := #[0x04, 0x03, 0x99, 0x00, 0x03, 0xa7, 0x00, 0x03, 0xac]
  handlers := [⟨0, 2, 8, 0⟩]
  attributes := []

/-- The instructions of that body. -/
def idleInstructions : Array Instruction :=
  #[⟨0, 0x04, 0, .bare⟩, ⟨1, 0x03, 0, .bare⟩, ⟨2, 0x99, 2, .branch 5⟩, ⟨5, 0xa7, 2, .branch 8⟩,
    ⟨8, 0xac, 0, .bare⟩]

theorem runs_simplify_idleBody : ∃ simple counts, idleBody.simplify = .ok (simple, counts) ∧
    ∀ i ∈ idleInstructions, ∀ s trace ending,
      stackMachine.Runs simple i.offset s trace ending ↔
        stackMachine.Runs idleBody i.offset s trace ending :=
  runs_simplify_iff stackMachine (Except.eq_ok_of_toOption (by decide +kernel))
    { isStart_select := fun i hi _ _ => ⟨i, hi, rfl⟩
      isStart_ret := fun _ _ => ⟨⟨0, 0x04, 0, .bare⟩, by simp [idleInstructions], rfl⟩
      isStart_handler := by simp [idleBody, IsStart, idleInstructions] }

end Clarify.Code
