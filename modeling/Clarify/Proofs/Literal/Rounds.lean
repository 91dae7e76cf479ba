import Clarify.Proofs.Flow.Again
import Clarify.Proofs.Literal.Frame
import Clarify.Proofs.Literal.Recovery
import Clarify.Proofs.Unit.Success
import Mathlib.Data.List.Pairwise
import Mathlib.Logic.Relation

/-!
# One round after the other

Literals can be recovered from a class again and again, with bodies simplified in between. Later
rounds see another pool and other counts, so constants get another text then that could not get it
before. A recovered load is out of reach of all this. There is a `nop` right behind it, so no later
round finds a call there. It still counts as a load of its constant, and since it belongs to no
call, the constant is none that gets another text.

Results:
* `Clarified.advances_simplifyAll`: simplifying all bodies of a class is a number of such steps.
* `atRest_of_recovered`: what is left where a call was recovered.
* `AtRest.recoverLiterals`, `AtRest.simplify`: it stays in each kind of step.
* `recovered_once`: no load is recovered twice, and its text never changes again.
-/

namespace Clarify

/-! ## Steps -/

/-- A class with another method in one of its places. -/
def ClassFile.setMethod (c : ClassFile) (k : Nat) (m : Member) : ClassFile :=
  { c with methods := c.methods.setIfInBounds k m }

theorem ClassFile.methods_setMethod {c : ClassFile} {k : Nat} {m : Member}
    (here : c.methods[k]? = some m) (m' : Member) (j : Nat) :
    (c.setMethod k m').methods[j]? = if k = j then some m' else c.methods[j]? := by
  obtain ⟨inside, -⟩ := Array.getElem?_eq_some_iff.1 here
  rw [setMethod, Array.getElem?_setIfInBounds, if_pos inside]

/-- One more step with a class: its literals are recovered, or one of its bodies is simplified. -/
inductive ClassFile.Advances (c : ClassFile) : ClassFile → Prop
  | recover : Advances c c.recoverLiterals.1
  | simplify {k n : Nat} {m : Member} {name : UInt16} {body simple : Code} {counts : FlowCounts}
      (method : c.methods[k]? = some m) (own : m.attributes[n]? = some (.code name body))
      (simplified : body.simplify = .ok (simple, counts)) :
      Advances c (c.setMethod k (m.setBody n name simple))

/-- The instruction at an offset of a method loads a string constant with the given text. -/
def ClassFile.LoadsText (c : ClassFile) (method offset : Nat) (text : String) : Prop :=
  ∃ code i x, c.codeAt? method = some code ∧ Code.instructionAt code offset = .ok i ∧
    Helper.isConstantLoad i = true ∧ i.operand = .index x ∧ c.pool.string? x = some text

/-- A method whose body is simplified takes one step, and none if nothing is done. -/
theorem Clarified.advances_simplifyMethod {c : ClassFile} {k : Nat} {m m' : Member}
    {counts : FlowCounts} (here : c.methods[k]? = some m)
    (simplified : Clarified.simplifyMethod m = .ok (m', counts)) :
    Relation.ReflTransGen ClassFile.Advances c (c.setMethod k m') := by
  have unchanged : c.setMethod k m = c := by
    obtain ⟨inside, rfl⟩ := Array.getElem?_eq_some_iff.1 here
    rw [ClassFile.setMethod, Array.setIfInBounds, dif_pos inside, Array.set_getElem_self]
  unfold Clarified.simplifyMethod at simplified
  split at simplified
  · cases simplified
    rw [unchanged]
  split at simplified
  · cases simplified
    rw [unchanged]
  · next body isBody =>
    obtain ⟨⟨simple, counts'⟩, isSimple, done⟩ := Except.bind_eq_ok_iff.1 simplified
    cases done
    obtain ⟨none, -⟩ | ⟨n, name, body', own, isBody', changed⟩ := m.mapBody_eq fun _ => simple
    · cases none.symm.trans isBody
    · cases isBody'.symm.trans isBody
      rw [changed]
      exact .single (.simplify here own isSimple)

/-- Simplifying the bodies of a class is a number of steps, one for each body. -/
theorem Clarified.advances_simplifyAll {c d : ClassFile} {counts : FlowCounts}
    (simplified : Clarified.simplifyAll c = .ok (d, counts)) :
    Relation.ReflTransGen ClassFile.Advances c d := by
  obtain ⟨rows, mapped, rfl⟩ := Clarified.simplifyAll_eq_ok simplified
  -- The methods before the one at hand are simplified already.
  have steps (before todo : List Member) (rows : List (Member × FlowCounts))
      (mapped : todo.mapM Clarified.simplifyMethod = .ok rows) :
      Relation.ReflTransGen ClassFile.Advances
        { c with methods := (before ++ todo).toArray }
        { c with methods := (before ++ rows.map Prod.fst).toArray } := by
    induction todo generalizing before rows with
    | nil =>
      cases mapped
      exact .refl
    | cons m rest ih =>
      obtain ⟨⟨m', own⟩, rows, simple, others, rfl⟩ := Except.mapM_cons_eq_ok_iff.1 mapped
      have first := Clarified.advances_simplifyMethod (k := before.length)
        (c := { c with methods := (before ++ m :: rest).toArray }) (by simp) simple
      have replaced : ({ c with methods := (before ++ m :: rest).toArray } : ClassFile).setMethod
          before.length m' = { c with methods := ((before ++ [m']) ++ rest).toArray } := by
        simp [ClassFile.setMethod]
      rw [replaced] at first
      have later := ih (before ++ [m']) rows others
      rw [List.append_assoc before [m'] (rows.map Prod.fst)] at later
      exact first.trans later
  exact steps [] c.methods.toList rows mapped

theorem ClassFile.Sound.advances {c d : ClassFile} (sound : c.Sound) (h : c.Advances d) :
    d.Sound := by
  cases h with
  | recover => exact sound.recoverLiterals
  | @simplify k n m name body simple counts method own simplified =>
    refine sound.change sound.pool (.refl _ _) sound.fields ⟨?_, fun m' hm' => ?_⟩
      sound.attributes sound.attributeNames
    · rw [Array.size_setIfInBounds]
      exact sound.methods.1
    · obtain old | rfl := Array.mem_or_eq_of_mem_setIfInBounds hm'
      · exact sound.methods.2 m' old
      · have member := sound.methods.2 m (Array.mem_of_getElem? method)
        have isSound := (member.attributes _ (List.mem_of_getElem? own)).body body rfl
        obtain ⟨sound', length⟩ := isSound.simplify simplified
        exact member.setBody own sound' length

/-- A body that is replaced is the first one of its method, or another is. -/
theorem Member.body?_setBody {m : Member} {n : Nat} {name : UInt16} {body : Code}
    (own : m.attributes[n]? = some (.code name body)) (simple : Code) :
    m.body? = some body ∧ (m.setBody n name simple).body? = some simple ∨
      (m.setBody n name simple).body? = m.body? := by
  obtain ⟨access, called, descriptor, attributes⟩ := m
  show attributes.findSome? MemberAttribute.body? = some body ∧
      (attributes.set n (.code name simple)).findSome? MemberAttribute.body? = some simple ∨
    (attributes.set n (.code name simple)).findSome? MemberAttribute.body? =
      attributes.findSome? MemberAttribute.body?
  change attributes[n]? = some (.code name body) at own
  induction attributes generalizing n with
  | nil => simp at own
  | cons a rest ih =>
    cases n with
    | zero =>
      cases own
      exact .inl ⟨rfl, rfl⟩
    | succ n =>
      cases a with
      | code name' body' => exact .inr rfl
      | other raw => exact ih own

namespace Literal

variable {c d : ClassFile} {p q : Plain} {k : Nat} {i : Instruction} {text : String}

/-! ## Starts of instructions -/

/-- Recovering literals leaves code that can be decoded, in which instructions still start where
they did. -/
theorem isStart_recoverLiterals (sound : c.Sound) {code : Array UInt8}
    {instructions : Array Instruction} (here : c.codeAt? k = some code)
    (decoded : Code.decode code = .ok instructions) :
    ∃ changed instructions', c.recoverLiterals.1.codeAt? k = some changed ∧
      Code.decode changed = .ok instructions' ∧
      ∀ o, Code.IsStart instructions o → Code.IsStart instructions' o := by
  obtain ⟨changed, there, size, -⟩ := spares_recoverLiterals c k code here
  have readable : ∃ instructions', Code.decode changed = .ok instructions' := by
    obtain ⟨m, method, body, isBody, rfl⟩ := codeAt?_eq_some_iff.1 there
    exact ((sound.recoverLiterals.methods.2 m (Array.mem_of_getElem? method)).body isBody).decodes
  obtain ⟨instructions', decoded'⟩ := readable
  refine ⟨changed, instructions', there, decoded', ?_⟩
  rintro o ⟨j, hj, rfl⟩
  have run := recovering_outcome sound.pool.size_le
  have file := (recoverLiterals_eq c).1
  have starts := (Code.tiles_of_decode decoded).exists_start (Code.tiles_of_decode decoded') size
    (fun j hj => Code.next_le_of_mem decoded (Array.mem_toList_iff.1 hj)) fun j hj => ?_
  · obtain ⟨j', hj', same⟩ := starts j (Array.mem_toList_iff.2 hj)
    exact ⟨j', Array.mem_toList_iff.1 hj', same⟩
  -- An instruction is the load of a recovered call, the call itself, or still there.
  by_cases isLoad : ∃ p ∈ recovered c, p.call.method = k ∧ p.load = j
  · obtain ⟨p, hp, rfl, rfl⟩ := isLoad
    obtain ⟨x, -, ⟨code', at', -, read⟩, -⟩ := run.yields p (List.mem_reverse.1 hp)
    rw [← file, there] at at'
    cases at'
    exact .inl ⟨_, read, rfl⟩
  by_cases isCall : ∃ p ∈ recovered c, p.call.method = k ∧ p.call.invoke = j
  · obtain ⟨p, hp, rfl, rfl⟩ := isCall
    obtain ⟨code', at', nops⟩ := run.removed p (List.mem_reverse.1 hp)
    rw [← file, there] at at'
    cases at'
    refine .inr fun n lo hi => ?_
    rw [nops n lo hi]
    decide
  · obtain ⟨code', at', read⟩ := instructionAt_of_other here decoded (Array.mem_toList_iff.1 hj)
      fun p hp method => ⟨fun load => isLoad ⟨p, hp, method, load⟩,
        fun call => isCall ⟨p, hp, method, call⟩⟩
    rw [there] at at'
    cases at'
    exact .inl ⟨j, read, rfl⟩

/-! ## Recovered loads -/

/-- The `nop` right behind an instruction. -/
def nopBehind (i : Instruction) : Instruction := ⟨i.next, Opcode.nop, 0, .bare⟩

theorem opcode_nopBehind (i : Instruction) : (nopBehind i).opcode = Opcode.nop := rfl

/-- A load of a string constant with a `nop` right behind it, in a method that is not native. -/
structure AtRest (c : ClassFile) (k : Nat) (i : Instruction) (text : String) : Prop where
  method : ∃ m, c.methods[k]? = some m ∧ m.isNative = false
  code : ∃ code instructions, c.codeAt? k = some code ∧ Code.decode code = .ok instructions ∧
    i ∈ instructions ∧ nopBehind i ∈ instructions
  load : Helper.isConstantLoad i = true
  text : ∃ x, i.operand = .index x ∧ c.pool.string? x = some text

theorem AtRest.loadsText (h : AtRest c k i text) : c.LoadsText k i.offset text := by
  obtain ⟨code, instructions, here, decoded, mem, -⟩ := h.code
  obtain ⟨x, operand, string⟩ := h.text
  exact ⟨code, i, x, here, Code.instructionAt_of_mem decoded mem, h.load, operand, string⟩

/-- No call is found at a load with a `nop` right behind it. -/
theorem AtRest.offset_ne (h : AtRest c k i text) (found : p ∈ found c) (here : p.call.method = k) :
    p.load.offset ≠ i.offset := by
  intro same
  have site := isSite_of_mem_found found
  obtain ⟨code, instructions, at', decoded, mem, nop⟩ := h.code
  obtain ⟨code', instructions', at'', decoded', loadMem, invokeMem⟩ := site.code
  rw [here, at'] at at''
  cases at''
  rw [decoded] at decoded'
  cases decoded'
  have load : p.load = i := by
    have read := Code.instructionAt_of_mem decoded loadMem
    rw [same, Code.instructionAt_of_mem decoded mem] at read
    exact (Except.ok.inj read).symm
  have next : (nopBehind i).offset = p.call.invoke.offset := load ▸ site.next
  have read := Code.instructionAt_of_mem decoded nop
  rw [next, Code.instructionAt_of_mem decoded invokeMem] at read
  have opcode := site.invokes.1
  rw [Except.ok.inj read, opcode_nopBehind] at opcode
  exact absurd opcode (by decide)

/-- The methods have the same flags when literals are recovered. -/
theorem method_recoverLiterals {m : Member} (here : c.methods[k]? = some m) :
    ∃ m', c.recoverLiterals.1.methods[k]? = some m' ∧ m'.access = m.access := by
  have same := congrArg (fun methods : Array Member => methods[k]?) (emptied_recoverLiterals c)
  simp only [Array.getElem?_map, here, Option.map_some, Option.map_eq_some_iff] at same
  obtain ⟨m', there, same⟩ := same
  have access := congrArg Member.access same
  exact ⟨m', there, access⟩

/-- Where a call was recovered, a load of a string constant is left, and a `nop` right behind it. -/
theorem atRest_of_recovered (sound : c.Sound) (hp : p ∈ recovered c) :
    ∃ i text, i.offset = p.load.offset ∧ AtRest c.recoverLiterals.1 p.call.method i text := by
  have site := isSite_of_mem_found (mem_found_of_mem_recovered hp)
  have run := recovering_outcome sound.pool.size_le
  have file := (recoverLiterals_eq c).1
  obtain ⟨m, method, own, -⟩ := site.method
  obtain ⟨code, instructions, here, decoded, loadMem, invokeMem⟩ := site.code
  obtain ⟨changed, instructions', there, decoded', starts⟩ :=
    isStart_recoverLiterals sound here decoded
  obtain ⟨x, text, ⟨code', at', -, read⟩, string, -⟩ := run.yields p (List.mem_reverse.1 hp)
  obtain ⟨code'', at'', nops⟩ := run.removed p (List.mem_reverse.1 hp)
  rw [← file, there] at at' at''
  cases at'
  cases at''
  rw [← file] at string
  obtain ⟨m', method', access⟩ := method_recoverLiterals method
  refine ⟨{ p.load with operand := .index x }, text, rfl, ⟨m', method', ?_⟩,
    ⟨changed, instructions', there, decoded', ?_, ?_⟩, ?_, x, rfl, string⟩
  · rw [Member.isNative, access]
    exact own
  · exact Flow.mem_of_instructionAt decoded' (starts _ ⟨p.load, loadMem, rfl⟩) read
  · have first := nops p.call.invoke.offset (Nat.le_refl _)
      (Nat.lt_add_of_pos_right p.call.invoke.length_pos)
    have bare : Code.instructionAt changed p.call.invoke.offset =
        .ok ⟨p.call.invoke.offset, Opcode.nop, 0, .bare⟩ := by
      have read := Code.instructionAt_of_bare (by rw [first]; decide)
      rwa [first] at read
    show ⟨p.load.next, Opcode.nop, 0, .bare⟩ ∈ instructions'
    rw [site.next]
    exact Flow.mem_of_instructionAt decoded' (starts _ ⟨p.call.invoke, invokeMem, rfl⟩) bare
  · exact (loadedString?_eq_some site.load).2

/-! ## What stays -/

theorem AtRest.recoverLiterals (sound : c.Sound) (h : AtRest c k i text) :
    AtRest c.recoverLiterals.1 k i text := by
  obtain ⟨m, method, own⟩ := h.method
  obtain ⟨code, instructions, here, decoded, mem, nop⟩ := h.code
  obtain ⟨x, operand, string⟩ := h.text
  obtain ⟨changed, instructions', there, decoded', starts⟩ :=
    isStart_recoverLiterals sound here decoded
  have notLoad (p : Plain) (hp : p ∈ recovered c) (at' : p.call.method = k) : p.load ≠ i :=
    fun same => h.offset_ne (mem_found_of_mem_recovered hp) at' (congrArg Instruction.offset same)
  have stays {j : Instruction} (hj : j ∈ instructions)
      (other : ∀ p ∈ recovered c, p.call.method = k → p.load ≠ j ∧ p.call.invoke ≠ j) :
      j ∈ instructions' := by
    obtain ⟨code', at', read⟩ := instructionAt_of_other here decoded hj other
    rw [there] at at'
    cases at'
    exact Flow.mem_of_instructionAt decoded' (starts _ ⟨j, hj, rfl⟩) read
  have loads : loadedString? c.pool i = some x := by
    simp only [loadedString?, Instruction.poolIndex?, operand, h.load, string, Option.isSome_some,
      Bool.and_self, if_true, Option.bind_eq_bind, Option.bind_some]
  obtain ⟨_, method₀, body, isBody, rfl⟩ := codeAt?_eq_some_iff.1 here
  cases method.symm.trans method₀
  have looked := mem_scanned method own isBody decoded
  obtain ⟨m', method', access⟩ := method_recoverLiterals method
  refine ⟨⟨m', method', ?_⟩, ⟨changed, instructions', there, decoded', ?_, ?_⟩, h.load, x, operand,
    string?_of_load sound.pool.size_le looked mem loads string notLoad⟩
  · rw [Member.isNative, access]
    exact own
  · exact stays mem fun p hp at' => ⟨notLoad p hp at', invoke_ne_of_load hp h.load⟩
  · refine stays nop fun p hp _ => ?_
    have site := isSite_of_mem_found (mem_found_of_mem_recovered hp)
    constructor
    · intro same
      have load := (loadedString?_eq_some site.load).2
      rw [same, Helper.isConstantLoad, opcode_nopBehind] at load
      exact absurd load (by decide)
    · intro same
      have opcode := site.invokes.1
      rw [same, opcode_nopBehind] at opcode
      exact absurd opcode (by decide)

theorem isThreadable_of_load (load : Helper.isConstantLoad i = true) :
    Flow.isThreadable i = false := by
  rw [Helper.isConstantLoad, Bool.or_eq_true, beq_iff_eq, beq_iff_eq] at load
  unfold Flow.isThreadable
  obtain opcode | opcode := load <;> rw [opcode] <;> decide

/-- Neither loads of constants nor `nop`s are touched when a body is simplified. -/
theorem AtRest.simplify (h : AtRest c k i text) {j n : Nat} {m : Member} {name : UInt16}
    {body simple : Code} {counts : FlowCounts} (method : c.methods[j]? = some m)
    (own : m.attributes[n]? = some (.code name body))
    (simplified : body.simplify = .ok (simple, counts)) :
    AtRest (c.setMethod j (m.setBody n name simple)) k i text := by
  obtain ⟨m₀, method₀, own₀⟩ := h.method
  obtain ⟨code, instructions, here, decoded, mem, nop⟩ := h.code
  have methods := ClassFile.methods_setMethod method (m.setBody n name simple) k
  by_cases same : j = k
  · subst same
    cases method.symm.trans method₀
    rw [if_pos rfl] at methods
    refine ⟨⟨_, methods, own₀⟩, ?_, h.load, h.text⟩
    obtain ⟨_, method₁, body₀, isBody, rfl⟩ := codeAt?_eq_some_iff.1 here
    cases method.symm.trans method₁
    obtain ⟨first, other⟩ | stays := Member.body?_setBody own simple
    · cases isBody.symm.trans first
      obtain ⟨instructions', decoded', kept⟩ := Code.mem_simplify simplified decoded
      refine ⟨simple.bytes, instructions', ?_, decoded', kept i mem (isThreadable_of_load h.load),
        kept _ nop ?_⟩
      · exact codeAt?_eq_some_iff.2 ⟨_, methods, simple, other, rfl⟩
      · rw [Flow.isThreadable, opcode_nopBehind]
        decide
    · refine ⟨body₀.bytes, instructions, ?_, decoded, mem, nop⟩
      exact codeAt?_eq_some_iff.2 ⟨_, methods, body₀, stays.trans isBody, rfl⟩
  · rw [if_neg same] at methods
    refine ⟨⟨m₀, methods.trans method₀, own₀⟩, ⟨code, instructions, ?_, decoded, mem, nop⟩, h.load,
      h.text⟩
    rw [ClassFile.codeAt?, methods]
    exact here

/-- A recovered load stays in each step. -/
theorem AtRest.advances (sound : c.Sound) (h : AtRest c k i text) (step : c.Advances d) :
    AtRest d k i text := by
  cases step with
  | recover => exact h.recoverLiterals sound
  | simplify method own simplified => exact h.simplify method own simplified

/-- A recovered load stays in any number of steps. -/
theorem AtRest.steps (sound : c.Sound) (h : AtRest c k i text)
    (steps : Relation.ReflTransGen ClassFile.Advances c d) : AtRest d k i text := by
  have both : d.Sound ∧ AtRest d k i text := by
    induction steps with
    | refl => exact ⟨sound, h⟩
    | tail _ step ih => exact ⟨ih.1.advances step, ih.2.advances ih.1 step⟩
  exact both.2

/-- Two calls do not share their load. -/
theorem eq_of_offset_eq (hp : p ∈ found c) (hq : q ∈ found c)
    (method : q.call.method = p.call.method) (offset : q.load.offset = p.load.offset) : q = p := by
  by_contra ne
  have either : (found c).Pairwise fun p q => Behind p q ∨ Behind q p :=
    (pairwise_found c).imp .inl
  have : Std.Symm fun p q => Behind p q ∨ Behind q p := ⟨fun _ _ => Or.symm⟩
  have apart := either.forall hq hp ne
  have before {p : Plain} (hp : p ∈ found c) : p.load.offset < p.call.invoke.next := by
    have next := (isSite_of_mem_found hp).next
    have := p.load.length_pos
    have := p.call.invoke.length_pos
    rw [Instruction.next] at next ⊢
    omega
  have := before hp
  have := before hq
  obtain (other | le) | (other | le) := apart
  · exact other method
  · omega
  · exact other method.symm
  · omega

/-- However often literals are recovered from a class that was read, and whatever bodies are
simplified in between: a load whose call is recovered loads one and the same text from then on, and
no call is recovered at that load again, neither in the same round nor in a later one. -/
theorem recovered_once {bytes : Bytes} {c₀ : ClassFile} (parsed : ClassFile.parse bytes = .ok c₀)
    (before : Relation.ReflTransGen ClassFile.Advances c₀ c) :
    c.recoverLiterals.2.recovered = (recovered c).map Plain.report ∧
    ∀ p ∈ recovered c,
      (∀ q ∈ recovered c, q.call.method = p.call.method → q.load.offset = p.load.offset → q = p) ∧
      ∃ text, ∀ d, Relation.ReflTransGen ClassFile.Advances c.recoverLiterals.1 d →
        d.LoadsText p.call.method p.load.offset text ∧
        ∀ q ∈ recovered d, q.call.method = p.call.method → q.load.offset ≠ p.load.offset := by
  have sound : c.Sound := by
    induction before with
    | refl => exact (ClassFile.parse_eq_ok_iff.1 parsed).1.1
    | tail _ step ih => exact ih.advances step
  refine ⟨(recoverLiterals_eq c).2, fun p hp => ⟨fun q hq =>
    eq_of_offset_eq (mem_found_of_mem_recovered hp) (mem_found_of_mem_recovered hq), ?_⟩⟩
  obtain ⟨i, text, offset, rest⟩ := atRest_of_recovered sound hp
  refine ⟨text, fun d steps => ?_⟩
  have stays := rest.steps sound.recoverLiterals steps
  rw [← offset]
  exact ⟨stays.loadsText, fun q hq => stays.offset_ne (mem_found_of_mem_recovered hq)⟩

/-- The first load recovered in `crossed`, after its bodies are simplified and another round. -/
theorem recovered_once_crossed : ClassFile.parse crossed.write = .ok crossed ∧
    Relation.ReflTransGen ClassFile.Advances crossed crossed ∧
    ∃ (d : ClassFile) (counts : FlowCounts) (text : String),
      Clarified.simplifyAll crossed.recoverLiterals.1 = .ok (d, counts) ∧
      crossed.recoverLiterals.2.recovered.head? = some ⟨"S.m()Ljava/lang/String;", 0, "P"⟩ ∧
      d.recoverLiterals.1.LoadsText 1 0 text ∧
      ∀ q ∈ recovered d.recoverLiterals.1, q.call.method = 1 → q.load.offset ≠ 0 := by
  refine ⟨parse_crossed, .refl, ?_⟩
  obtain ⟨p, first, facts⟩ := Option.map_eq_some_iff.1
    (show ((recovered crossed)[0]?).map (fun p => (p.call.method, p.load.offset, p.report)) =
      some (1, 0, ⟨"S.m()Ljava/lang/String;", 0, "P"⟩) by decide +kernel)
  simp only [Prod.mk.injEq] at facts
  obtain ⟨method, offset, report⟩ := facts
  obtain ⟨d, counts, simplified⟩ :=
    (ClassFile.parse_eq_ok_iff.1 parse_crossed).1.1.recoverLiterals.exists_simplifyAll
  obtain ⟨reports, later⟩ := recovered_once parse_crossed .refl
  obtain ⟨-, text, stays⟩ := later p (List.mem_of_getElem? first)
  have both := stays _ ((Clarified.advances_simplifyAll simplified).tail .recover)
  rw [method, offset] at both
  refine ⟨d, counts, text, simplified, ?_, both⟩
  rw [reports, List.head?_map, List.head?_eq_getElem?, first, Option.map_some, report]

end Literal

end Clarify
