import Clarify.Proofs.ClassFile.Soundness
import Clarify.Proofs.ClassFile.Splice
import Clarify.Proofs.Literal.Recovery

/-!
# Classes with recovered literals can be written

Results:
* `ClassFile.Sound.recoverLiterals`: recovering literals leaves a class that can be written.
-/

namespace Clarify

namespace Code

/-- Code of the same size that can be decoded if the first one can be, and then has all of its
instructions but one. -/
structure Retains (a b : Array UInt8) (i : Instruction) : Prop where
  size : b.size = a.size
  decode : ∀ instructions, decode a = .ok instructions → i ∈ instructions →
    ∃ instructions', decode b = .ok instructions' ∧ ∀ j ∈ instructions, j ≠ i → j ∈ instructions'

theorem retains_nopOut (code : Array UInt8) (i : Instruction) :
    Retains code (nopOut code i) i where
  size := size_nopOut code i
  decode _ decoded mem := (bared_nopOut (next_le_of_mem decoded mem)).exists_decode decoded mem

end Code

namespace Literal

variable {c file : ClassFile} {p : Plain} {s : Progress} {k : Nat} {i : Instruction}

/-! ## One edit -/

/-- A load of a constant with another operand. -/
theorem retains_reload {x : UInt16} {operand : Bytes} (code : Array UInt8)
    (load : Helper.isConstantLoad i = true) (fits : loadOperand? i.opcode x = some operand) :
    Code.Retains code (Code.overwrite code (i.offset + 1) operand) i := by
  refine ⟨Code.size_overwrite .., fun instructions decoded mem => ?_⟩
  let f (j : Instruction) : Instruction := if j = i then { i with operand := .index x } else j
  have read := Code.instructionAt_of_mem decoded mem
  obtain ⟨length, read'⟩ := instructionAt_reload read load fits
  have other {j : Instruction} (ne : j ≠ i) : f j = j := if_neg ne
  refine ⟨instructions.map f, Code.decode_map decoded (Code.size_overwrite ..) ?_ ?_, ?_⟩
  · intro j hj
    by_cases same : j = i
    · subst same
      rw [show f j = { j with operand := .index x } from if_pos rfl]
      exact ⟨read', rfl⟩
    · rw [other same]
      refine ⟨Code.instructionAt_congr (Code.instructionAt_of_mem decoded hj)
        (Code.offset_lt_of_mem decoded hj) (Code.size_overwrite ..)
        (Code.sameBytes_overwrite ?_), rfl⟩
      have apart := Code.next_le_or_next_le decoded hj mem same
      have whole : i.length = i.operandLength + 1 := rfl
      rw [Instruction.next, Instruction.next] at apart
      omega
  · intro j hj t ht
    by_cases same : j = i
    · subst same
      rw [show f j = { j with operand := .index x } from if_pos rfl] at ht
      cases ht
    · rw [other same] at ht
      exact Code.isStart_of_mem_targets decoded hj ht
  · intro j hj ne
    rw [← other ne]
    exact Array.mem_map_of_mem hj

end Literal

/-- The body of a member that can be written can be. -/
theorem Member.Sound.body {pool : Pool} {m : Member} {body : Code} (h : m.Sound pool)
    (found : m.body? = some body) : body.Sound := by
  obtain ⟨a, mem, isBody⟩ := List.exists_of_findSome?_eq_some found
  exact (h.attributes a mem).body body isBody

namespace Literal

variable {c file : ClassFile} {p : Plain} {s : Progress} {k : Nat} {i : Instruction}

/-- A class on the way to the recovered one: it can be written, only strings have changed in its
pool, and the instructions that are yet to be changed are there. -/
structure Standing (c file : ClassFile) (pending : List (Nat × Instruction)) : Prop where
  sound : file.Sound
  keeps : c.pool.Keeps Constant.blankString file.pool
  pending : ∀ k i, (k, i) ∈ pending → ∃ code instructions, file.codeAt? k = some code ∧
    Code.decode code = .ok instructions ∧ i ∈ instructions

section Standing

variable {pending : List (Nat × Instruction)}

theorem Standing.forget (h : Standing c file ((k, i) :: pending)) : Standing c file pending :=
  ⟨h.sound, h.keeps, fun k i mem => h.pending k i (by simp [mem])⟩

theorem Standing.withPool (h : Standing c file pending) {pool : Pool} (sound : pool.Sound)
    (keeps : file.pool.Keeps Constant.blankString pool) :
    Standing c { file with pool } pending where
  sound := h.sound.change sound keeps.blank
    ⟨h.sound.fields.1, fun m mem => (h.sound.fields.2 m mem).keeps keeps.blank⟩
    ⟨h.sound.methods.1, fun m mem => (h.sound.methods.2 m mem).keeps keeps.blank⟩
    h.sound.attributes fun a mem => (h.sound.attributeNames a mem).imp fun _ => keeps.blank.utf8
  keeps := h.keeps.trans keeps
  pending := h.pending

/-- Changing an instruction that nothing else is to be done with. -/
theorem Standing.edit (h : Standing c file ((k, i) :: pending)) (last : (k, i) ∉ pending)
    {edit : Array UInt8 → Array UInt8} (retains : ∀ code, Code.Retains code (edit code) i) :
    Standing c (editMethod file k edit) pending where
  sound := by
    obtain ⟨code, instructions, here, decoded, mem⟩ := h.pending k i (by simp)
    refine h.sound.change h.sound.pool (.refl _ _) h.sound.fields ⟨?_, fun m hm => ?_⟩
      h.sound.attributes h.sound.attributeNames
    · rw [Array.size_modify]
      exact h.sound.methods.1
    · obtain ⟨j, found⟩ := Array.mem_iff_getElem?.1 hm
      rw [Array.getElem?_modify] at found
      split at found
      · next same =>
        subst same
        obtain ⟨m, there, rfl⟩ := Option.map_eq_some_iff.1 found
        have sound := h.sound.methods.2 m (Array.mem_of_getElem? there)
        refine sound.mapBody fun body isBody => ?_
        have same : file.codeAt? k = some body.bytes := by
          rw [ClassFile.codeAt?, there, Option.bind_some, isBody]
          rfl
        rw [here] at same
        cases same
        obtain ⟨instructions', decoded', -⟩ := (retains body.bytes).decode _ decoded mem
        exact (sound.body isBody).bytes (retains body.bytes).size ⟨instructions', decoded'⟩
      · exact h.sound.methods.2 m (Array.mem_of_getElem? found)
  keeps := h.keeps
  pending j l mem := by
    obtain ⟨code, instructions, here, decoded, there⟩ := h.pending j l (by simp [mem])
    by_cases same : k = j
    · subst same
      obtain ⟨code', instructions', here', decoded', there'⟩ := h.pending k i (by simp)
      rw [here] at here'
      cases here'
      rw [decoded] at decoded'
      cases decoded'
      obtain ⟨instructions', decoded', kept⟩ := (retains code).decode _ decoded there'
      refine ⟨edit code, instructions', ?_, decoded', kept l there ?_⟩
      · rw [codeAt?_editMethod_self, here]
        rfl
      · rintro rfl
        exact last mem
    · refine ⟨code, instructions, ?_, decoded, there⟩
      rw [codeAt?_editMethod_of_ne file same, here]

end Standing

/-! ## One call after the other -/

/-- The instructions of a call, which are changed when it is recovered. -/
def instructionsOf (p : Plain) : List (Nat × Instruction) :=
  [(p.call.method, p.load), (p.call.method, p.call.invoke)]

section Recover

variable {pending : List (Nat × Instruction)}

/-- A text that is added, and a string that shows it. -/
theorem sound_of_internText? {pool q : Pool} {value : String} {index : UInt16}
    (sound : pool.Sound) (interned : pool.internText? value = some (index, q)) :
    q.Sound ∧ pool.Keeps Constant.blankString q ∧ q.checkConstant (.string index) = .ok () :=
  ⟨sound.intern? rfl interned, (Pool.extends_of_intern? interned).keeps,
    Pool.expectText_eq_ok_iff.2 ⟨_, Pool.get?_of_intern? sound.size_le interned⟩⟩

/-- The constant of a call stays a string. -/
theorem IsSite.exists_string (site : IsSite c p) {pool : Pool}
    (keeps : c.pool.Keeps Constant.blankString pool) :
    ∃ value, pool.get? p.index = some (.string value) := by
  obtain ⟨old, string⟩ := Option.isSome_iff_exists.1 site.isSome_string?
  obtain ⟨_, entry, -⟩ := Pool.string?_eq_some_iff.1 string
  exact keeps.string entry

theorem standing_repoint? {t : Progress} (site : IsSite c p) (h : Standing c s.file pending)
    (repointed : repoint? s p = some t) : Standing c t.file pending := by
  unfold repoint? at repointed
  split at repointed
  · cases repointed
    exact h
  · obtain ⟨⟨index, pool⟩, interned, rfl⟩ := Option.map_eq_some_iff.1 repointed
    obtain ⟨sound, keeps, check⟩ := sound_of_internText? h.sound.pool interned
    -- It is still a string that gives way to another one.
    obtain ⟨_, here⟩ := site.exists_string (h.keeps.trans keeps)
    exact h.withPool (sound.replace here rfl check)
      (keeps.trans (Pool.keeps_replace here rfl))

theorem standing_reload (site : IsSite c p)
    (h : Standing c s.file ((p.call.method, p.load) :: pending))
    (last : (p.call.method, p.load) ∉ pending) : Standing c (reload s p).1.file pending := by
  unfold reload
  split
  · exact h.forget
  · next index pool interned =>
    obtain ⟨sound, keeps, check⟩ := sound_of_internText? h.sound.pool interned
    split
    · exact h.forget.withPool sound keeps
    · next x pool' interned' =>
      have grown := h.withPool (sound.intern? check interned')
        (keeps.trans (Pool.extends_of_intern? interned').keeps)
      dsimp only
      split
      · exact grown.forget
      · next operand fits =>
        have constant := (loadedString?_eq_some site.load).2
        exact grown.edit last fun code => retains_reload code constant fits

theorem standing_settle (E : Std.TreeSet UInt16) (site : IsSite c p)
    (h : Standing c s.file ((p.call.method, p.load) :: pending))
    (last : (p.call.method, p.load) ∉ pending) :
    Standing c (settle E s p).1.file pending := by
  unfold settle
  split
  · exact h.forget
  · split
    · split
      · next t repointed => exact standing_repoint? site h.forget repointed
      · exact h.forget
    · exact standing_reload site h last

/-- Recovering one call. -/
theorem standing_recoverCall (E : Std.TreeSet UInt16) {o : Outcome} (site : IsSite c p)
    (h : Standing c o.progress.file (instructionsOf p ++ pending))
    (different : (instructionsOf p ++ pending).Nodup) :
    Standing c (recoverCall E o p).progress.file pending := by
  obtain ⟨loadLast, different⟩ := List.nodup_cons.1 different
  obtain ⟨invokeLast, -⟩ := List.nodup_cons.1 different
  have settled := standing_settle E site h loadLast
  unfold recoverCall
  rcases e : settle E o.progress p with ⟨s, worked⟩
  rw [e] at settled
  cases worked with
  | false => exact settled.forget
  | true => exact settled.edit invokeLast fun code => Code.retains_nopOut code p.call.invoke

/-- Recovering all calls. -/
theorem standing_foldl (E : Std.TreeSet UInt16) {o : Outcome} {todo : List Plain}
    (sites : ∀ p ∈ todo, IsSite c p) (different : (todo.flatMap instructionsOf).Nodup)
    (h : Standing c o.progress.file (todo.flatMap instructionsOf)) :
    Standing c (todo.foldl (recoverCall E) o).progress.file [] := by
  induction todo generalizing o with
  | nil => exact h
  | cons p todo ih =>
    obtain ⟨site, sites⟩ := List.forall_mem_cons.1 sites
    rw [List.flatMap_cons] at h different
    exact ih sites (List.nodup_append.1 different).2.1 (standing_recoverCall E site h different)

theorem mem_instructionsOf {x : Nat × Instruction} (site : IsSite c p)
    (mem : x ∈ instructionsOf p) :
    x.1 = p.call.method ∧ p.load.offset ≤ x.2.offset ∧ x.2.offset < p.call.invoke.next := by
  have next := site.next
  have := p.load.length_pos
  have := p.call.invoke.length_pos
  rw [Instruction.next] at next ⊢
  simp only [instructionsOf, List.mem_cons, List.not_mem_nil, or_false] at mem
  obtain rfl | rfl := mem
  · exact ⟨rfl, Nat.le_refl _, by dsimp only; omega⟩
  · exact ⟨rfl, by dsimp only; omega, by dsimp only; omega⟩

/-- No instruction is changed twice. -/
theorem nodup_instructionsOf_found (c : ClassFile) :
    ((found c).flatMap instructionsOf).Nodup := by
  refine List.pairwise_flatMap.2 ⟨fun p mem => ?_, ?_⟩
  · have site := isSite_of_mem_found mem
    have ne := load_ne_invoke site.load site.invokes
    simp [instructionsOf, ne]
  · refine (pairwise_found c).imp_of_mem fun {p q} hp hq behind x hx y hy same => ?_
    subst same
    obtain ⟨method, lo, hi⟩ := mem_instructionsOf (isSite_of_mem_found hp) hx
    obtain ⟨method', lo', hi'⟩ := mem_instructionsOf (isSite_of_mem_found hq) hy
    obtain ne | le := behind
    · exact ne (method.symm.trans method')
    · omega

theorem standing_recoverLiterals (sound : c.Sound) : Standing c c.recoverLiterals.1 [] := by
  rw [(recoverLiterals_eq c).1]
  refine standing_foldl (edited c) (fun p mem => isSite_of_mem_found mem)
    (nodup_instructionsOf_found c) ⟨sound, .refl _ _, fun k i mem => ?_⟩
  obtain ⟨p, hp, here⟩ := List.mem_flatMap.1 mem
  obtain ⟨code, instructions, at', decoded, load, invoke⟩ := (isSite_of_mem_found hp).code
  obtain eq | eq | none : (k, i) = (p.call.method, p.load) ∨
      (k, i) = (p.call.method, p.call.invoke) ∨ (k, i) ∈ [] := by
    simpa only [instructionsOf, List.mem_cons] using here
  · cases eq
    exact ⟨code, instructions, at', decoded, load⟩
  · cases eq
    exact ⟨code, instructions, at', decoded, invoke⟩
  · cases none

end Recover

end Literal

/-- A class with its literals recovered can be written. -/
theorem ClassFile.Sound.recoverLiterals {c : ClassFile} (sound : c.Sound) :
    c.recoverLiterals.1.Sound :=
  (Literal.standing_recoverLiterals sound).sound

end Clarify
