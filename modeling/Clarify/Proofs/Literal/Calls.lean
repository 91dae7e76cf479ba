import Clarify.Proofs.Literal.Sites
import Mathlib.Data.List.Nodup
import Mathlib.Tactic.ByContra

/-!
# Calls of helpers

Which instructions of a class call its helpers, and which of these calls have a constant string as
their argument, said without the search that finds them. The search finds every call, and none
twice.

Results:
* `getD_jumpMarks`: the offsets that are marked are those that control is sent to.
* `in_of_mem_callsIn`, `exists_call`: what is found in a method are its calls of helpers.
* `nodup_calls`: no instruction is found twice.
-/

namespace Clarify

/-! ## Offsets that control is sent to -/

namespace Code

/-- Some branch, switch or handler of a body sends control to an offset. -/
def SendsTo (c : Code) (instructions : Array Instruction) (t : Nat) : Prop :=
  (∃ i ∈ instructions, t ∈ i.targets) ∨ ∃ h ∈ c.handlers, h.target.toNat = t

theorem le_foldl_max (handlers : List Handler) (size : Nat) :
    size ≤ handlers.foldl (fun n h => max n (h.target.toNat + 1)) size ∧
      ∀ h ∈ handlers, h.target.toNat <
        handlers.foldl (fun n h => max n (h.target.toNat + 1)) size := by
  induction handlers generalizing size with
  | nil => simp
  | cons h handlers ih =>
    rw [List.foldl_cons]
    obtain ⟨le, all⟩ := ih (max size (h.target.toNat + 1))
    refine ⟨by omega, ?_⟩
    intro k mem
    obtain rfl | mem := List.mem_cons.1 mem
    · omega
    · exact all k mem

variable {c : Code} {instructions : Array Instruction} {t : Nat}

/-- The marks are set by all targets, one after the other. -/
theorem jumpMarks_eq (c : Code) (instructions : Array Instruction) :
    c.jumpMarks instructions =
      (instructions.toList.flatMap Instruction.targets ++
          c.handlers.map fun h => h.target.toNat).foldl
        (fun m t => m.setIfInBounds t true)
        (Array.replicate
          (c.handlers.foldl (fun n h => max n (h.target.toNat + 1)) c.bytes.size) false) := by
  rw [List.foldl_append, List.foldl_map, List.foldl_flatMap, jumpMarks, ← Array.foldl_toList]

/-- The offsets that are marked are those that control is sent to. -/
theorem getD_jumpMarks (decoded : c.instructions = .ok instructions) :
    (c.jumpMarks instructions).getD t false = true ↔ c.SendsTo instructions t := by
  obtain ⟨le, all⟩ := le_foldl_max c.handlers c.bytes.size
  rw [jumpMarks_eq, getD_foldl_mark, getD_replicate_false, Array.size_replicate, List.mem_append,
    List.mem_flatMap, List.mem_map, SendsTo]
  simp only [Bool.false_eq_true, false_or, Array.mem_toList_iff]
  refine and_iff_right_of_imp ?_
  rintro (⟨i, hi, ht⟩ | ⟨h, mem, rfl⟩)
  · obtain ⟨j, hj, rfl⟩ := isStart_of_mem_targets decoded hi ht
    exact Nat.lt_of_lt_of_le (offset_lt_of_mem decoded hj) le
  · exact all h mem

end Code

namespace Literal

/-! ## Specification -/

/-- An instruction of a method and a helper that it may call. -/
structure CallSite extends Scanned where
  invoke : Instruction
  helper : Helper

/-- In a method with a body that is neither native nor a helper, the instruction calls a static
method of the class, and the helper is the first one with its name. -/
structure CallSite.In (s : CallSite) (c : ClassFile) : Prop where
  here : c.methods[s.position]? = some s.method
  own : s.method.isNative = false
  isBody : s.method.body? = some s.body
  decoded : s.body.instructions = .ok s.instructions
  notHelper : ∀ h ∈ c.helpers, h.method ≠ s.position
  mem : s.invoke ∈ s.instructions
  opcode : s.invoke.opcode = Opcode.invokestatic
  refers : ∃ index r, s.invoke.poolIndex? = some index ∧ c.pool.memberRef? index = some r ∧
    r.owner = c.className ∧ r.descriptor = Helper.descriptor ∧
    c.helpers.find? (fun h => h.name == r.name) = some s.helper

/-- The load of a constant string right before the call, which control reaches from there only. -/
structure CallSite.Argument (s : CallSite) (c : ClassFile) (load : Instruction) (index : UInt16) :
    Prop where
  mem : load ∈ s.instructions
  next : load.next = s.invoke.offset
  constant : Helper.isConstantLoad load = true
  operand : load.poolIndex? = some index
  string : (c.pool.string? index).isSome = true
  alone : ¬s.body.SendsTo s.instructions s.invoke.offset

/-! ## Instructions and the ones before them -/

section Zip

variable {code : Array UInt8} {instructions : Array Instruction} {previous : Option Instruction}
  {load i : Instruction}

theorem map_snd_withPrevious (row : List Instruction) :
    (Helper.withPrevious row).map Prod.snd = row := by
  refine List.map_snd_zip ?_
  rw [List.length_cons, List.length_map]
  exact Nat.le_succ _

theorem exists_previous (hi : i ∈ instructions) :
    ∃ previous, (previous, i) ∈ Helper.withPrevious instructions.toList := by
  have mem := Array.mem_toList_iff.2 hi
  rw [← map_snd_withPrevious instructions.toList] at mem
  obtain ⟨⟨previous, j⟩, pair, rfl⟩ := List.mem_map.1 mem
  exact ⟨previous, pair⟩

/-- Only the first instruction has none before it. -/
theorem offset_of_mem_zip_none {pc : Nat} {row : List Instruction} (tiles : Code.Tiles code pc row)
    (mem : (none, i) ∈ (none :: row.map some).zip row) : i.offset = pc := by
  cases tiles with
  | nil => cases mem
  | @cons _ j rest _ read _ =>
    rw [List.map_cons, List.zip_cons_cons, List.mem_cons] at mem
    obtain first | later := mem
    · cases first
      exact Code.offset_of_instructionAt read
    · obtain ⟨before, -⟩ := List.of_mem_zip later
      rw [← List.map_cons, List.mem_map] at before
      obtain ⟨_, -, eq⟩ := before
      cases eq

/-- What stands right before an instruction is the one before it. -/
theorem previous_eq_some_iff (h : Code.decode code = .ok instructions)
    (mem : (previous, i) ∈ Helper.withPrevious instructions.toList) :
    previous = some load ↔ load ∈ instructions ∧ load.next = i.offset := by
  have place {x : Instruction} (eq : previous = some x) : x ∈ instructions ∧ x.next = i.offset := by
    subst eq
    obtain ⟨next, from', -⟩ :=
      next_of_mem_zip (Code.tiles_of_decode h) (fun _ eq => by cases eq) mem
    exact ⟨Array.mem_toList_iff.1 (from'.resolve_left (by simp)), next⟩
  constructor
  · exact place
  · rintro ⟨hl, next⟩
    have room := load.length_pos
    rcases eq : previous with _ | x
    · rw [eq] at mem
      have first := offset_of_mem_zip_none (Code.tiles_of_decode h) mem
      rw [Instruction.next] at next
      omega
    · obtain ⟨hx, next'⟩ := place eq
      by_contra ne
      have room' := x.length_pos
      have apart := Code.next_le_or_next_le h hx hl fun same => ne (congrArg some same)
      simp only [Instruction.next] at next next' apart
      omega

end Zip

/-! ## What is found in a method -/

/-- The calls that are found in a method. -/
def callsIn (c : ClassFile) (s : Scanned) : List Call :=
  (findingsIn c c.helpers s).filterMap Finding.call?

/-- All calls that are found in a class. -/
def calls (c : ClassFile) : List Call :=
  ((scanned c).flatMap (findingsIn c c.helpers)).filterMap Finding.call?

/-- The site of a call. -/
def siteOf (s : Scanned) (call : Call) : CallSite :=
  { s with invoke := call.invoke, helper := call.helper }

variable {c : ClassFile} {s : Scanned} {call : Call}

theorem calls_eq (c : ClassFile) : calls c = (scanned c).flatMap (callsIn c) := by
  rw [calls, List.filterMap_flatMap]
  rfl

theorem call?_eq_some_iff {f : Finding} : f.call? = some call ↔ f = .call call := by
  rcases f with k | name
  · rw [Finding.call?, Option.some.injEq, Finding.call.injEq]
  · rw [Finding.call?]
    constructor
    · intro none
      cases none
    · intro missing
      cases missing

theorem mem_callsIn_iff : call ∈ callsIn c s ↔ (∀ h ∈ c.helpers, h.method ≠ s.position) ∧
    ∃ previous i, (previous, i) ∈ Helper.withPrevious s.instructions.toList ∧
      finding? c c.helpers s.position (c.labelOf s.method) (s.body.jumpMarks s.instructions)
        previous i = some (.call call) := by
  simp only [callsIn, findingsIn, List.mem_filterMap, call?_eq_some_iff]
  split
  · next helper =>
    obtain ⟨h, mem, same⟩ := List.any_eq_true.1 helper
    simp only [List.not_mem_nil, false_and, exists_false, false_iff, not_and]
    intro others
    exact absurd (beq_iff_eq.1 same) (others h mem)
  · next notHelper =>
    have others : ∀ h ∈ c.helpers, h.method ≠ s.position := by
      intro h mem same
      exact notHelper (List.any_eq_true.2 ⟨h, mem, beq_iff_eq.2 same⟩)
    simp only [List.mem_filterMap, exists_eq_right, Prod.exists]
    exact (and_iff_right others).symm

/-- What an instruction is found to be, if it calls a static method of the class. -/
theorem finding?_of_refers {helpers : List Helper} {method : Nat} {label : String}
    {marks : Array Bool} {previous : Option Instruction} {i : Instruction} {helper : Helper}
    (opcode : i.opcode = Opcode.invokestatic)
    (refers : ∃ index r, i.poolIndex? = some index ∧ c.pool.memberRef? index = some r ∧
      r.owner = c.className ∧ r.descriptor = Helper.descriptor ∧
      helpers.find? (fun h => h.name == r.name) = some helper) :
    finding? c helpers method label marks previous i = some (.call
      { helper, method, label, invoke := i, load := loadBefore? c.pool marks previous i }) := by
  obtain ⟨index, r, operand, ref, owner, descriptor, first⟩ := refers
  simp only [finding?, opcode, ne_eq, not_true_eq_false, if_false, operand, ref, owner, descriptor,
    or_self, first, Option.bind_eq_bind, Option.bind_some]

/-- The load that is found before a call is its argument. -/
theorem load_eq_some_iff (site : CallSite) {previous : Option Instruction} {load : Instruction}
    {index : UInt16} (decoded : site.body.instructions = .ok site.instructions)
    (pair : (previous, site.invoke) ∈ Helper.withPrevious site.instructions.toList) :
    loadBefore? c.pool (site.body.jumpMarks site.instructions) previous site.invoke =
      some (load, index) ↔ site.Argument c load index := by
  rw [loadBefore?_eq_some_iff, previous_eq_some_iff decoded pair, loadedString?_eq_some_iff,
    Code.getD_jumpMarks decoded]
  constructor
  · rintro ⟨⟨mem, next⟩, ⟨constant, operand, string⟩, alone⟩
    exact ⟨mem, next, constant, operand, string, alone⟩
  · intro a
    exact ⟨⟨a.mem, a.next⟩, ⟨a.constant, a.operand, a.string⟩, a.alone⟩

/-- A call that is found in a method is a call of a helper, and its load is its argument. -/
theorem in_of_mem_callsIn (looked : s ∈ scanned c) (mem : call ∈ callsIn c s) :
    (siteOf s call).In c ∧ call.method = s.position ∧ call.label = c.labelOf s.method ∧
      ∀ load index, call.load = some (load, index) ↔ (siteOf s call).Argument c load index := by
  obtain ⟨here, own, isBody, decoded⟩ := mem_scanned_iff.1 looked
  obtain ⟨notHelper, previous, i, pair, finds⟩ := mem_callsIn_iff.1 mem
  obtain ⟨method, label, rfl, load, opcode, refers⟩ := finding?_eq_call finds
  have inside : call.invoke ∈ s.instructions := by
    rw [← Array.mem_toList_iff]
    exact (List.of_mem_zip pair).2
  refine ⟨⟨here, own, isBody, decoded, notHelper, inside, opcode, refers⟩, method, label, ?_⟩
  intro l index
  rw [load]
  exact load_eq_some_iff (siteOf s call) decoded pair

/-- Every call of a helper is found. -/
theorem exists_call {site : CallSite} (inside : site.In c) :
    site.toScanned ∈ scanned c ∧ ∃ call ∈ callsIn c site.toScanned,
      siteOf site.toScanned call = site := by
  refine ⟨mem_scanned_iff.2 ⟨inside.here, inside.own, inside.isBody, inside.decoded⟩, ?_⟩
  obtain ⟨previous, pair⟩ := exists_previous inside.mem
  refine ⟨_, mem_callsIn_iff.2 ⟨inside.notHelper, previous, site.invoke, pair,
    finding?_of_refers inside.opcode inside.refers⟩, rfl⟩

/-- No instruction is found twice. -/
theorem nodup_calls (c : ClassFile) :
    ((calls c).map fun call => (call.method, call.invoke)).Nodup := by
  rw [calls_eq, List.nodup_iff_pairwise_ne, List.pairwise_map, List.pairwise_flatMap]
  constructor
  · intro s looked
    obtain ⟨-, -, -, decoded⟩ := mem_scanned_iff.1 looked
    have apart : (Helper.withPrevious s.instructions.toList).Pairwise fun x y => x.2 ≠ y.2 := by
      rw [← List.pairwise_map (f := Prod.snd), map_snd_withPrevious]
      exact Code.nodup_of_decode decoded
    rw [callsIn, List.pairwise_filterMap, findingsIn]
    split
    · exact .nil
    · rw [List.pairwise_filterMap]
      refine apart.imp ?_
      rintro ⟨previous, i⟩ ⟨previous', j⟩ ne f hf g hg a ha b hb same
      rw [call?_eq_some_iff.1 ha] at hf
      rw [call?_eq_some_iff.1 hb] at hg
      obtain ⟨-, -, rfl, -⟩ := finding?_eq_call hf
      obtain ⟨-, -, rfl, -⟩ := finding?_eq_call hg
      exact ne (show a.invoke = b.invoke from congrArg Prod.snd same)
  · refine (pairwise_scanned c).imp_of_mem fun {s t} hs ht ne a ha b hb same => ne ?_
    obtain ⟨-, method, -⟩ := in_of_mem_callsIn hs ha
    obtain ⟨-, method', -⟩ := in_of_mem_callsIn ht hb
    rw [← method, ← method']
    exact congrArg Prod.fst same

theorem eq_of_mem_calls {a b : Call} (ha : a ∈ calls c) (hb : b ∈ calls c)
    (method : a.method = b.method) (invoke : a.invoke = b.invoke) : a = b :=
  List.inj_on_of_nodup_map (nodup_calls c) ha hb (Prod.ext method invoke)

end Literal

end Clarify
