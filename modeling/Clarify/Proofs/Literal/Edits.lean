import Clarify.Proofs.ClassFile.Patch
import Clarify.Proofs.Literal.Sites

/-!
# Changing a load and a call in place

Recovering a call writes over the operand of its load and over the call, and over nothing else. So
the loads and the calls of all others, which share no byte with them, stay as they are.

Results:
* `instructionAt_reload`: a load with another operand is the same load of another constant.
* `Spares.trans`, `Spares.mono`: edits in a row change no more than the bytes of their calls.
* `Loads.of_spares`, `Removed.of_spares`: what is done for a call lasts when another one is
  recovered.
-/

namespace Clarify

theorem Member.body?_mapBody (m : Member) (change : Code → Code) :
    (m.mapBody change).body? = m.body?.map change := by
  obtain ⟨access, name, descriptor, attributes⟩ := m
  show (mapFirstBody change attributes).findSome? MemberAttribute.body? =
    (attributes.findSome? MemberAttribute.body?).map change
  induction attributes with
  | nil => rfl
  | cons a rest ih =>
    cases a with
    | code name body => rfl
    | other raw => exact ih

namespace Literal

variable {c d : ClassFile} {p q : Plain} {x : UInt16}

/-! ## The code of a method -/

theorem codeAt?_editMethod_self (c : ClassFile) (k : Nat) (edit : Array UInt8 → Array UInt8) :
    (editMethod c k edit).codeAt? k = (c.codeAt? k).map edit := by
  rw [ClassFile.codeAt?, ClassFile.codeAt?, editMethod, Array.getElem?_modify, if_pos rfl]
  rcases c.methods[k]? with _ | m
  · rfl
  · show ((m.mapBody _).body?.map Code.bytes) = _
    rw [Member.body?_mapBody, Option.map_map, Option.bind_some, Option.map_map]
    rfl

theorem codeAt?_editMethod_of_ne (c : ClassFile) {k j : Nat} (ne : k ≠ j)
    (edit : Array UInt8 → Array UInt8) : (editMethod c k edit).codeAt? j = c.codeAt? j := by
  rw [ClassFile.codeAt?, ClassFile.codeAt?, editMethod, Array.getElem?_modify, if_neg ne]

/-! ## What stays -/

/-- A byte is neither of the operand of the load nor of the call. -/
def Outside (p : Plain) (method offset : Nat) : Prop :=
  method = p.call.method → offset ≤ p.load.offset ∨ p.call.invoke.next ≤ offset

/-- The code of all methods is as long as before, with the same bytes outside of the operands and
the calls of a row. -/
def Spares (c d : ClassFile) (row : List Plain) : Prop :=
  ∀ k code, c.codeAt? k = some code → ∃ changed, d.codeAt? k = some changed ∧
    changed.size = code.size ∧ ∀ n, (∀ p ∈ row, Outside p k n) →
      Code.byteAt changed n = Code.byteAt code n

/-- The load of a call is there, with the constant that it loads, and the call has room. -/
def Loads (c : ClassFile) (p : Plain) (x : UInt16) : Prop :=
  ∃ code, c.codeAt? p.call.method = some code ∧ p.call.invoke.next ≤ code.size ∧
    Code.instructionAt code p.load.offset = .ok { p.load with operand := .index x }

/-- There are `nop`s only where the call was. -/
def Removed (c : ClassFile) (p : Plain) : Prop :=
  ∃ code, c.codeAt? p.call.method = some code ∧ ∀ n, p.call.invoke.offset ≤ n →
    n < p.call.invoke.next → Code.byteAt code n = Opcode.nop

theorem spares_withPool (c : ClassFile) (pool : Pool) (row : List Plain) :
    Spares c { c with pool } row :=
  fun _ code here => ⟨code, here, rfl, fun _ _ => rfl⟩

theorem Spares.trans {e : ClassFile} {row : List Plain} (h : Spares c d row)
    (h' : Spares d e row) : Spares c e row := by
  intro k code here
  obtain ⟨first, here, size, same⟩ := h k code here
  obtain ⟨second, here, size', same'⟩ := h' k first here
  exact ⟨second, here, size'.trans size, fun n out => (same' n out).trans (same n out)⟩

theorem Spares.mono {row row' : List Plain} (h : Spares c d row) (sub : row ⊆ row') :
    Spares c d row' := by
  intro k code here
  obtain ⟨changed, here, size, same⟩ := h k code here
  exact ⟨changed, here, size, fun n out => same n fun p mem => out p (sub mem)⟩

theorem spares_editMethod {edit : Array UInt8 → Array UInt8}
    (size : ∀ code, (edit code).size = code.size)
    (same : ∀ code n, n ≤ p.load.offset ∨ p.call.invoke.next ≤ n →
      Code.byteAt (edit code) n = Code.byteAt code n) :
    Spares c (editMethod c p.call.method edit) [p] := by
  intro k code here
  by_cases at' : p.call.method = k
  · subst at'
    rw [codeAt?_editMethod_self, here]
    exact ⟨edit code, rfl, size code, fun n out => same code n (out p (by simp) rfl)⟩
  · rw [codeAt?_editMethod_of_ne c at']
    exact ⟨code, here, rfl, fun _ _ => rfl⟩

/-- The bytes of one call when another one is recovered. -/
theorem Spares.byteAt (h : Spares c d [q]) (apart : Behind p q ∨ Behind q p) {code : Array UInt8}
    (here : c.codeAt? p.call.method = some code) :
    ∃ changed, d.codeAt? p.call.method = some changed ∧ changed.size = code.size ∧
      ∀ n, p.load.offset ≤ n → n < p.call.invoke.next →
        Code.byteAt changed n = Code.byteAt code n := by
  obtain ⟨changed, there, size, same⟩ := h _ code here
  refine ⟨changed, there, size, fun n lo hi => same n fun other mem method => ?_⟩
  obtain rfl := List.mem_singleton.1 mem
  obtain (ne | le) | (ne | le) := apart
  · exact absurd method ne
  · exact .inl (by omega)
  · exact absurd method.symm ne
  · exact .inr (by omega)

theorem Loads.of_spares (h : Loads c p x) (next : p.load.next = p.call.invoke.offset)
    (spares : Spares c d [q]) (apart : Behind p q ∨ Behind q p) : Loads d p x := by
  obtain ⟨code, here, room, read⟩ := h
  obtain ⟨changed, there, size, same⟩ := spares.byteAt apart here
  have := p.call.invoke.length_pos
  have := p.load.length_pos
  rw [Instruction.next] at next room
  refine ⟨changed, there, by rw [size]; exact room, ?_⟩
  refine Code.instructionAt_congr read (by omega) size fun k hk => ?_
  have : k < p.load.length := hk
  exact same _ (by omega) (by rw [Instruction.next]; omega)

theorem Removed.of_spares (h : Removed c p) (next : p.load.next = p.call.invoke.offset)
    (spares : Spares c d [q]) (apart : Behind p q ∨ Behind q p) : Removed d p := by
  obtain ⟨code, here, nops⟩ := h
  obtain ⟨changed, there, -, same⟩ := spares.byteAt apart here
  refine ⟨changed, there, fun n lo hi => ?_⟩
  rw [same n (by rw [← next, Instruction.next] at lo; omega) hi, nops n lo hi]

/-! ## Another operand -/

/-- The operand of a load of a constant is the index that its bytes hold. -/
theorem operandAt_load {code : Array UInt8} {pc n : Nat} {o : Operand} :
    (Code.byteAt code pc = Opcode.ldc → (Code.operandAt code pc = .ok (o, n) ↔
      pc + 2 ≤ code.size ∧ .index (Code.byteAt code (pc + 1)).toUInt16 = o ∧ 1 = n)) ∧
    (Code.byteAt code pc = Opcode.ldcWide → (Code.operandAt code pc = .ok (o, n) ↔
      pc + 3 ≤ code.size ∧ .index (Code.wordAt code (pc + 1)) = o ∧ 2 = n)) := by
  constructor
  · intro op
    have shape : Opcode.shape? Opcode.ldc = some .narrowIndex := by decide
    simp only [Code.operandAt, op, shape, Except.bind_eq_ok_iff, Code.need_eq_ok_iff, exists_const,
      Except.pure_eq_ok_iff, Prod.mk.injEq]
  · intro op
    have shape : Opcode.shape? Opcode.ldcWide = some .index := by decide
    simp only [Code.operandAt, op, shape, Except.bind_eq_ok_iff, Code.need_eq_ok_iff, exists_const,
      Except.pure_eq_ok_iff, Prod.mk.injEq]

/-- A load of a constant has the index that it reads. -/
theorem operand_of_isConstantLoad {code : Array UInt8} {i : Instruction}
    (read : Code.instructionAt code i.offset = .ok i) (load : Helper.isConstantLoad i = true) :
    ∃ x, i.operand = .index x := by
  obtain ⟨read, -, opcode⟩ := Code.instructionAt_eq_ok_iff.1 read
  rw [Helper.isConstantLoad, Bool.or_eq_true, beq_iff_eq, beq_iff_eq, opcode] at load
  obtain narrow | wide := load
  · exact ⟨_, ((operandAt_load.1 narrow).1 read).2.1.symm⟩
  · exact ⟨_, ((operandAt_load.2 wide).1 read).2.1.symm⟩

/-- A load of a constant with the operand of another index is the same load of that constant. -/
theorem instructionAt_reload {code : Array UInt8} {i : Instruction} {operand : Bytes}
    (read : Code.instructionAt code i.offset = .ok i) (load : Helper.isConstantLoad i = true)
    (h : loadOperand? i.opcode x = some operand) :
    operand.length = i.operandLength ∧
      Code.instructionAt (Code.overwrite code (i.offset + 1) operand) i.offset =
        .ok { i with operand := .index x } := by
  obtain ⟨read, -, opcode⟩ := Code.instructionAt_eq_ok_iff.1 read
  have op : Code.byteAt (Code.overwrite code (i.offset + 1) operand) i.offset =
      Code.byteAt code i.offset :=
    Code.byteAt_overwrite_of_outside (.inl (by omega))
  rw [Code.instructionAt_eq_ok_iff]
  rw [Helper.isConstantLoad, Bool.or_eq_true, beq_iff_eq, beq_iff_eq, opcode] at load
  rw [loadOperand?, opcode] at h
  obtain narrow | wide := load
  · rw [if_pos narrow] at h
    obtain ⟨room, -, length⟩ := (operandAt_load.1 narrow).1 read
    split at h
    · next small =>
      cases h
      have byte : (UInt8.ofNat x.toNat).toUInt16 = x := by
        have : x.toNat < 256 := small
        rw [← UInt16.toNat_inj, UInt8.toNat_toUInt16, UInt8.toNat_ofNat_of_lt' this]
      refine ⟨length, (operandAt_load.1 (op.trans narrow)).2 ⟨?_, ?_, length⟩, rfl, ?_⟩
      · rw [Code.size_overwrite]
        exact room
      · have here : Code.byteAt (Code.overwrite code (i.offset + 1) [UInt8.ofNat x.toNat])
            (i.offset + 1) = UInt8.ofNat x.toNat :=
          Code.byteAt_overwrite (k := 0) (by simp) (by omega)
        rw [here, byte]
      · rw [op]
        exact opcode
    · cases h
  · have notNarrow : Code.byteAt code i.offset ≠ Opcode.ldc := by
      rw [wide]
      decide
    rw [if_neg notNarrow] at h
    cases h
    obtain ⟨room, -, length⟩ := (operandAt_load.2 wide).1 read
    refine ⟨length, (operandAt_load.2 (op.trans wide)).2 ⟨?_, ?_, length⟩, rfl, ?_⟩
    · rw [Code.size_overwrite]
      exact room
    · rw [be16, Code.wordAt_overwrite (by omega), word16_be16]
    · rw [op]
      exact opcode

/-! ## The edits -/

/-- The load of a call is there from the start. -/
theorem IsSite.loads (h : IsSite c p) : Loads c p p.index := by
  obtain ⟨code, instructions, here, decoded, loadMem, invokeMem⟩ := h.code
  have read := Code.instructionAt_of_mem decoded loadMem
  obtain ⟨operand, load⟩ := loadedString?_eq_some h.load
  obtain ⟨x, index⟩ := operand_of_isConstantLoad read load
  rw [Instruction.poolIndex?, index] at operand
  cases operand
  refine ⟨code, here, Code.next_le_of_mem decoded invokeMem, ?_⟩
  rw [← index]
  exact read

theorem spares_removeCall (d : ClassFile) (next : p.load.next = p.call.invoke.offset) :
    Spares d (removeCall d p.call) [p] := by
  have := p.load.length_pos
  refine spares_editMethod (fun code => Code.size_nopOut ..) fun code n out => ?_
  refine Code.byteAt_overwrite_of_outside ?_
  rw [List.length_replicate]
  rw [Instruction.next] at next out
  omega

theorem loads_removeCall (h : Loads c p x) (next : p.load.next = p.call.invoke.offset) :
    Loads (removeCall c p.call) p x := by
  obtain ⟨code, here, room, read⟩ := h
  have := p.call.invoke.length_pos
  have := p.load.length_pos
  rw [Instruction.next] at next room
  refine ⟨Code.nopOut code p.call.invoke, ?_, ?_, ?_⟩
  · rw [removeCall, codeAt?_editMethod_self, here]
    rfl
  · rw [Code.size_nopOut]
    exact room
  · refine Code.instructionAt_congr read (by omega) (Code.size_nopOut ..) ?_
    refine Code.sameBytes_overwrite (.inl ?_)
    show p.load.offset + p.load.length ≤ _
    omega

theorem removed_removeCall (h : Loads c p x) : Removed (removeCall c p.call) p := by
  obtain ⟨code, here, room, -⟩ := h
  refine ⟨Code.nopOut code p.call.invoke, ?_, fun n lo hi => Code.byteAt_nopOut lo hi room⟩
  rw [removeCall, codeAt?_editMethod_self, here]
  rfl

/-- The class with another operand in a load. -/
def withOperand (c : ClassFile) (p : Plain) (operand : Bytes) : ClassFile :=
  editMethod c p.call.method fun bytes => Code.overwrite bytes (p.load.offset + 1) operand

theorem loads_withOperand {y : UInt16} {operand : Bytes} (h : Loads c p y)
    (load : Helper.isConstantLoad p.load = true)
    (fits : loadOperand? p.load.opcode x = some operand) : Loads (withOperand c p operand) p x := by
  obtain ⟨code, here, room, read⟩ := h
  refine ⟨Code.overwrite code (p.load.offset + 1) operand, ?_, ?_, ?_⟩
  · rw [withOperand, codeAt?_editMethod_self, here]
    rfl
  · rw [Code.size_overwrite]
    exact room
  · exact (instructionAt_reload (i := { p.load with operand := .index y }) read load fits).2

theorem IsSite.spares_withOperand (site : IsSite c p) (d : ClassFile) {x : UInt16} {operand : Bytes}
    (fits : loadOperand? p.load.opcode x = some operand) :
    Spares d (withOperand d p operand) [p] := by
  obtain ⟨code, instructions, -, decoded, mem, -⟩ := site.code
  have length : operand.length = p.load.operandLength :=
    (instructionAt_reload (Code.instructionAt_of_mem decoded mem)
      (loadedString?_eq_some site.load).2 fits).1
  have next := site.next
  have := p.call.invoke.length_pos
  refine spares_editMethod (fun code => Code.size_overwrite ..) fun code n out => ?_
  refine Code.byteAt_overwrite_of_outside ?_
  rw [Instruction.next, Instruction.length] at next
  rw [Instruction.next] at out
  omega

end Literal

end Clarify
