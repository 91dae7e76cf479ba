import Clarify.Proofs.Literal.Steps
import Clarify.Proofs.Unit.Passes
import Mathlib.Data.List.Perm.Subperm

/-!
# What stays when literals are recovered

A string constant gets another text only where this shows in no load but those that are recovered.
The loads of a constant are counted over all bodies that are looked at, helpers among them. If there
are as many as calls with the constant, each load belongs to a call. And where one call of a
constant fails for want of room, all do: a full pool stays full, and the texts are the same for all
of them.

Results:
* `exists_found_of_edited`: each load of a constant that gets another text belongs to a call.
* `mem_recovered_of_repointed`: all calls of a constant that got another text are recovered.
* `mem_pinned_of_names`: the constants that attributes name do not get another text.
* `frame_recoverLiterals`: what stays.
-/

namespace Clarify

/-! ## Strings that attributes name -/

/-- A method that call sites are linked by, with its arguments. -/
structure BootstrapMethod where
  handle : UInt16
  arguments : List UInt16

/-- A bootstrap method as it stands in its attribute. -/
def BootstrapMethod.write (b : BootstrapMethod) : Bytes :=
  be16 b.handle ++ be16 (UInt16.ofNat b.arguments.length) ++ b.arguments.flatMap be16

/-- The content of the attribute that holds the bootstrap methods of a class. -/
def writeBootstrapMethods (row : List BootstrapMethod) : Bytes :=
  be16 (UInt16.ofNat row.length) ++ row.flatMap BootstrapMethod.write

/-- An attribute of the class uses a constant: it is the value of a field, or an argument of a
bootstrap method. -/
inductive ClassFile.Names (c : ClassFile) (x : UInt16) : Prop
  | constantValue {m : Member} {a : Attribute} {rest : Bytes} (field : m ∈ c.fields)
      (mem : .other a ∈ m.attributes) (named : c.pool.text? a.name = some "ConstantValue")
      (info : a.info = be16 x ++ rest)
  | bootstrapMethods {a : Attribute} {row : List BootstrapMethod} {b : BootstrapMethod}
      (mem : a ∈ c.attributes) (named : c.pool.text? a.name = some "BootstrapMethods")
      (few : row.length < 65536) (short : ∀ b ∈ row, b.arguments.length < 65536)
      (info : a.info = writeBootstrapMethods row) (method : b ∈ row) (argument : x ∈ b.arguments)

namespace Literal

variable {c d : ClassFile} {p q : Plain} {E : Std.TreeSet UInt16} {x : UInt16}

theorem words_flatMap_be16 (row : List UInt16) : words (row.flatMap be16) = row := by
  induction row with
  | nil => rfl
  | cons w row ih =>
    rw [List.flatMap_cons, be16, List.cons_append, List.cons_append, List.nil_append, words, ih,
      word16_be16]

theorem length_flatMap_be16 (row : List UInt16) : (row.flatMap be16).length = 2 * row.length := by
  induction row with
  | nil => rfl
  | cons w row ih =>
    rw [List.flatMap_cons, List.length_append, ih, List.length_cons]
    show 2 + _ = _
    omega

/-- The arguments that are read are those that were written. -/
theorem bootstrapArguments_write {row : List BootstrapMethod}
    (short : ∀ b ∈ row, b.arguments.length < 65536) :
    bootstrapArguments row.length (row.flatMap BootstrapMethod.write) =
      row.flatMap BootstrapMethod.arguments := by
  induction row with
  | nil => rfl
  | cons b row ih =>
    obtain ⟨first, short⟩ := List.forall_mem_cons.1 short
    have length : 2 * (UInt16.ofNat b.arguments.length).toNat =
        (b.arguments.flatMap be16).length := by
      rw [UInt16.toNat_ofNat_of_lt' first, length_flatMap_be16]
    rw [List.flatMap_cons, List.flatMap_cons, BootstrapMethod.write, be16, be16]
    simp only [List.cons_append, List.nil_append, List.length_cons, bootstrapArguments,
      word16_be16]
    rw [length, List.take_left, List.drop_left, ih short, words_flatMap_be16]

/-- The constants that attributes name do not get another text. -/
theorem mem_pinned_of_names (h : c.Names x) : x ∈ pinned c := by
  rw [pinned, List.mem_append]
  cases h with
  | @constantValue m a rest field mem named info =>
    refine .inl (List.mem_flatMap.2 ⟨m, Array.mem_toList_iff.2 field,
      List.mem_flatMap.2 ⟨_, mem, ?_⟩⟩)
    rw [usedByField, if_pos named, info, be16]
    simp only [List.cons_append, List.nil_append, words, word16_be16, List.take_succ_cons,
      List.mem_cons, true_or]
  | @bootstrapMethods a row b mem named few short info method argument =>
    refine .inr (List.mem_flatMap.2 ⟨a, mem, ?_⟩)
    rw [usedByClass, if_pos named, info, writeBootstrapMethods, be16]
    simp only [List.cons_append, List.nil_append, word16_be16]
    rw [UInt16.toNat_ofNat_of_lt' few, bootstrapArguments_write short]
    exact List.mem_flatMap.2 ⟨b, method, argument⟩

/-! ## Counting loads -/

/-- The loads of a constant, each with the position of its method. -/
def loadsOf (c : ClassFile) (x : UInt16) (methods : List Scanned) : List (Nat × Instruction) :=
  methods.flatMap fun s => (s.instructions.toList.filter fun i =>
    loadedString? c.pool i == some x).map fun i => (s.position, i)

/-- Where each step counts the items of a row, the steps together count all of them. -/
theorem getD_foldl_add {α β : Type} {f : Std.TreeMap UInt16 Nat → α → Std.TreeMap UInt16 Nat}
    (items : α → List β)
    (step : ∀ counts a, ((f counts a)[x]?).getD 0 = (counts[x]?).getD 0 + (items a).length)
    (row : List α) (counts : Std.TreeMap UInt16 Nat) :
    ((row.foldl f counts)[x]?).getD 0 = (counts[x]?).getD 0 + (row.flatMap items).length := by
  induction row generalizing counts with
  | nil => rfl
  | cons a row ih =>
    rw [List.foldl_cons, ih, step, List.flatMap_cons, List.length_append, Nat.add_assoc]

theorem getD_loadCounts (c : ClassFile) (methods : List Scanned) (x : UInt16) :
    ((loadCounts c methods)[x]?).getD 0 = (loadsOf c x methods).length := by
  refine (getD_foldl_add (fun s : Scanned => (s.instructions.toList.filter fun i =>
    loadedString? c.pool i == some x).map fun i => (s.position, i))
    (fun counts s => ?_) methods ∅).trans ?_
  · rw [List.length_map, ← Array.foldl_toList]
    refine (getD_foldl_add (fun i => [i].filter fun i => loadedString? c.pool i == some x)
      (fun counts i => ?_) s.instructions.toList counts).trans ?_
    · rcases loaded : loadedString? c.pool i with _ | y
      · simp [loaded]
      · by_cases here : y = x
        · simp [loaded, here]
        · simp [loaded, Std.TreeMap.getElem?_insert, here]
    · rw [← List.filter_flatMap, List.flatMap_singleton']
  · rw [Std.TreeMap.getElem?_emptyc, Option.getD_none, Nat.zero_add, loadsOf]

/-- The loads of the calls of a constant, each with the position of its method. -/
def sitesOf (c : ClassFile) (x : UInt16) : List (Nat × Instruction) :=
  ((found c).filter fun p => p.index == x).map fun p => (p.call.method, p.load)

/-- A constant that gets another text is none that an attribute uses, and each of its loads
counts as one of a call. -/
theorem of_contains_edited (h : (edited c).contains x = true) :
    x ∉ pinned c ∧ (loadsOf c x (scanned c)).length = (sitesOf c x).length := by
  rw [edited, exclusive, Std.TreeSet.contains_ofList, List.contains_iff_mem,
    List.mem_filterMap] at h
  obtain ⟨⟨y, texts⟩, mem, h⟩ := h
  dsimp only at h
  split at h
  · next alike =>
    cases h
    obtain ⟨both, -⟩ := Bool.and_eq_true_iff.1 alike
    obtain ⟨free, count⟩ := Bool.and_eq_true_iff.1 both
    rw [Std.TreeSet.contains_ofList] at free
    have texts_eq := getD_textsByIndex (found c) x
    rw [Std.TreeMap.mem_toList_iff_getElem?_eq_some.1 mem, Option.getD_some] at texts_eq
    rw [getD_loadCounts, texts_eq, List.length_reverse, List.length_map, beq_iff_eq] at count
    refine ⟨fun pinned => ?_, ?_⟩
    · rw [List.contains_iff_mem.2 pinned] at free
      cases free
    · rw [count, sitesOf, List.length_map]
  · cases h

/-- What is looked at: the body of a method that is not native. -/
theorem mem_scanned {k : Nat} {m : Member} {body : Code} {instructions : Array Instruction}
    (here : c.methods[k]? = some m) (own : m.isNative = false) (isBody : m.body? = some body)
    (decoded : body.instructions = .ok instructions) : ⟨k, m, body, instructions⟩ ∈ scanned c :=
  mem_scanned_iff.2 ⟨here, own, isBody, decoded⟩

theorem mem_loadsOf {methods : List Scanned} {k : Nat} {i : Instruction} :
    (k, i) ∈ loadsOf c x methods ↔ ∃ s ∈ methods, s.position = k ∧ i ∈ s.instructions ∧
      loadedString? c.pool i = some x := by
  simp only [loadsOf, List.mem_flatMap, List.mem_map, List.mem_filter, Array.mem_toList_iff,
    beq_iff_eq, Prod.mk.injEq]
  constructor
  · rintro ⟨s, looked, i, ⟨mem, loads⟩, rfl, rfl⟩
    exact ⟨s, looked, rfl, mem, loads⟩
  · rintro ⟨s, looked, rfl, mem, loads⟩
    exact ⟨s, looked, i, ⟨mem, loads⟩, rfl, rfl⟩

theorem IsSite.mem_loadsOf (site : IsSite c p) :
    (p.call.method, p.load) ∈ loadsOf c p.index (scanned c) := by
  obtain ⟨m, here, own, -⟩ := site.method
  obtain ⟨code, instructions, at', decoded, mem, -⟩ := site.code
  rw [ClassFile.codeAt?, here, Option.bind_some, Option.map_eq_some_iff] at at'
  obtain ⟨body, isBody, rfl⟩ := at'
  exact Literal.mem_loadsOf.2
    ⟨_, mem_scanned here own isBody decoded, rfl, mem, site.load⟩

/-- Each load of a constant that gets another text belongs to a call. There are no more loads than
calls, and no two calls have the same one. -/
theorem exists_found_of_edited (h : (edited c).contains x = true) {s : Scanned}
    (looked : s ∈ scanned c) {i : Instruction} (mem : i ∈ s.instructions)
    (loads : loadedString? c.pool i = some x) :
    ∃ p ∈ found c, p.call.method = s.position ∧ p.load = i ∧ p.index = x := by
  have different : (sitesOf c x).Nodup := by
    refine List.pairwise_map.2 ((List.Pairwise.and_mem.1 ((pairwise_found c).filter _)).imp ?_)
    rintro p q ⟨mem, -, behind⟩ same
    have hp := (List.mem_filter.1 mem).1
    obtain ⟨method, load⟩ := Prod.mk.inj same
    have next := (isSite_of_mem_found hp).next
    have := p.load.length_pos
    have := p.call.invoke.length_pos
    rw [Instruction.next] at next
    obtain ne | le := behind
    · exact ne method
    · rw [Instruction.next, ← load] at le
      omega
  have sub : sitesOf c x ⊆ loadsOf c x (scanned c) := by
    intro y hy
    obtain ⟨p, hp, rfl⟩ := List.mem_map.1 hy
    obtain ⟨hp, at'⟩ := List.mem_filter.1 hp
    rw [← eq_of_beq at']
    exact (isSite_of_mem_found hp).mem_loadsOf
  have all := (List.subperm_of_subset different sub).perm_of_length_le
    (Nat.le_of_eq (of_contains_edited h).2)
  have isLoad := all.mem_iff.2 (mem_loadsOf.2 ⟨s, looked, rfl, mem, loads⟩)
  obtain ⟨p, hp, same⟩ := List.mem_map.1 isLoad
  obtain ⟨hp, at'⟩ := List.mem_filter.1 hp
  obtain ⟨method, load⟩ := Prod.mk.inj same
  exact ⟨p, hp, method, load, eq_of_beq at'⟩

/-! ## Full pools -/

/-- The pool is full, and the text is not in it. -/
structure Lacks (pool : Pool) (text : String) : Prop where
  full : Pool.capacity ≤ pool.size
  absent : some (.utf8 (ModifiedUtf8.encode text)) ∉ pool.slots

section Lacks

variable {pool pool' : Pool} {text : String} {constant : Constant} {i : UInt16}

theorem lacks_of_internText? (h : pool.internText? text = none) : Lacks pool text := by
  rw [Pool.internText?, Pool.intern?] at h
  split at h
  · cases h
  · next absent =>
    refine ⟨?_, Pool.find?_eq_none_iff.1 absent⟩
    rw [Pool.push?, Pool.pushSlot?_eq_none_iff] at h
    have one : (Pool.slotsOf (some (.utf8 (ModifiedUtf8.encode text)))).length = 1 := rfl
    rw [Pool.freeSlots, one] at h
    omega

theorem Lacks.internText? (h : Lacks pool text) : pool.internText? text = none := by
  rw [Pool.internText?, Pool.intern?, Pool.find?_eq_none_iff.2 h.absent, Pool.push?,
    Pool.pushSlot?_eq_none_iff, Pool.freeSlots]
  have full := h.full
  have one : (Pool.slotsOf (some (.utf8 (ModifiedUtf8.encode text)))).length = 1 := rfl
  rw [one]
  omega

/-- Nothing is added to a full pool. -/
theorem Lacks.intern? (h : Lacks pool text) (interned : pool.intern? constant = some (i, pool')) :
    Lacks pool' text := by
  rw [Pool.intern?] at interned
  split at interned
  · cases interned
    exact h
  · have full : pool.pushSlot? (some constant) = none := by
      obtain ⟨rest, slots⟩ := Pool.slotsOf_some constant
      have := h.full
      rw [Pool.pushSlot?_eq_none_iff, Pool.freeSlots, slots, List.length_cons]
      omega
    rw [Pool.push?, full] at interned
    cases interned

theorem Lacks.replace (h : Lacks pool text) (i value : UInt16) :
    Lacks (pool.replace i (.string value)) text where
  full := by
    rw [Pool.size_replace]
    exact h.full
  absent mem := by
    obtain old | new := Array.mem_or_eq_of_mem_setIfInBounds mem
    · exact h.absent old
    · cases new

/-- A constant for which there was no room does not get its text later. -/
theorem Settling.lacks {s t : Progress} {worked : Bool} (h : Settling E s p t worked)
    (lacks : Lacks s.file.pool text) (untouched : s.repointed.contains x = false)
    (same : p.index = x → p.text = text) :
    Lacks t.file.pool text ∧ t.repointed.contains x = false := by
  cases h with
  | done | noText => exact ⟨lacks, untouched⟩
  | repointed changed own first interned =>
    refine ⟨(lacks.intern? interned).replace .., Bool.eq_false_iff.2 fun touched => ?_⟩
    obtain here | before := contains_insert_iff.1 touched
    · rw [same here, lacks.internText?] at interned
      cases interned
    · rw [untouched] at before
      cases before
  | noString changed shared interned => exact ⟨lacks.intern? interned, untouched⟩
  | noOperand changed shared interned interned' | reloaded changed shared interned interned' =>
    exact ⟨(lacks.intern? interned).intern? interned', untouched⟩

/-- Where a call of a constant that may get another text fails, there is no room for the text. -/
theorem Settling.lacks_of_failed {s t : Progress} (h : Settling E s p t false)
    (own : E.contains p.index = true) :
    Lacks t.file.pool p.text ∧ t.repointed.contains p.index = false := by
  cases h with
  | noText changed untouched full => exact ⟨lacks_of_internText? full, untouched own⟩
  | noString changed shared | noOperand changed shared =>
    rw [own] at shared
    cases shared

/-- There is none for the later calls, either. -/
theorem lacks_foldl {row : List Plain} (hp : p ∈ found c)
    (own : (edited c).contains p.index = true) (inside : ∀ q ∈ row, q ∈ found c) {o : Outcome}
    (lacks : Lacks o.progress.file.pool p.text)
    (untouched : o.progress.repointed.contains p.index = false) :
    (row.foldl (recoverCall (edited c)) o).progress.repointed.contains p.index = false := by
  induction row generalizing o with
  | nil => exact untouched
  | cons q row ih =>
    obtain ⟨first, rest⟩ := List.forall_mem_cons.1 inside
    have same (here : q.index = p.index) : q.text = p.text :=
      text_eq_of_edited own first hp here rfl
    obtain ⟨lacks', untouched'⟩ :=
      (settling_settle (edited c) o.progress q).lacks lacks untouched same
    rw [List.foldl_cons]
    -- Whether the call is recovered or not, the pool is the one that was settled for it.
    obtain ⟨-, -, progress⟩ | ⟨-, -, progress⟩ := progress_recoverCall (edited c) o q
    · refine ih rest ?_ ?_
      · rw [progress]
        exact lacks'
      · rw [progress]
        exact untouched'
    · exact ih rest (progress ▸ lacks') (progress ▸ untouched')

end Lacks

/-- All calls of a constant that got another text are recovered: if one had failed, the pool would
have been full, and the constant could not have got the text for another one. -/
theorem mem_recovered_of_repointed (size : c.pool.size ≤ Pool.capacity) (hp : p ∈ found c)
    (touched : (outcome c).progress.repointed.contains p.index = true) : p ∈ recovered c := by
  have own : (edited c).contains p.index = true := by
    obtain ⟨q, -, -, own, -⟩ := (recovering_outcome size).repointed p.index touched
    exact own
  obtain ⟨before, behind, split⟩ := List.append_of_mem hp
  rw [recovered, List.mem_reverse]
  rw [outcome, split, List.foldl_append, List.foldl_cons] at touched ⊢
  generalize before.foldl (recoverCall (edited c)) _ = o at touched ⊢
  obtain ⟨-, recovered, -⟩ | ⟨failed, -, progress⟩ := progress_recoverCall (edited c) o p
  · refine List.foldlRecOn (motive := fun o : Outcome => p ∈ o.recovered) behind _ ?_
      fun o mem q _ => mem_recovered_recoverCall mem
    rw [recovered]
    exact List.mem_cons_self
  · have settled := settling_settle (edited c) o.progress p
    rw [failed] at settled
    obtain ⟨lacks, untouched⟩ := settled.lacks_of_failed own
    rw [← progress] at lacks untouched
    have rest (q : Plain) (mem : q ∈ behind) : q ∈ found c := by
      rw [split]
      simp [mem]
    rw [lacks_foldl hp own rest lacks untouched] at touched
    cases touched

/-! ## Strings that stay -/

/-- A string keeps its text unless it got another one. -/
theorem string?_recoverLiterals (size : c.pool.size ≤ Pool.capacity) {text : String}
    (here : c.pool.string? x = some text)
    (untouched : (outcome c).progress.repointed.contains x = false) :
    c.recoverLiterals.1.pool.string? x = some text := by
  rw [(recoverLiterals_eq c).1]
  exact (recovering_outcome size).later.string? x text here (.inl untouched)

theorem string?_of_names (size : c.pool.size ≤ Pool.capacity) {text : String}
    (here : c.pool.string? x = some text) (names : c.Names x) :
    c.recoverLiterals.1.pool.string? x = some text := by
  refine string?_recoverLiterals size here (Bool.eq_false_iff.2 fun touched => ?_)
  obtain ⟨-, -, -, own, -⟩ := (recovering_outcome size).repointed x touched
  exact (of_contains_edited own).1 (mem_pinned_of_names names)

section Load

variable {s : Scanned} {i : Instruction}

theorem string?_of_load (size : c.pool.size ≤ Pool.capacity) (looked : s ∈ scanned c)
    (mem : i ∈ s.instructions) (loads : loadedString? c.pool i = some x) {text : String}
    (here : c.pool.string? x = some text)
    (other : ∀ p ∈ recovered c, p.call.method = s.position → p.load ≠ i) :
    c.recoverLiterals.1.pool.string? x = some text := by
  refine string?_recoverLiterals size here (Bool.eq_false_iff.2 fun touched => ?_)
  obtain ⟨-, -, -, own, -⟩ := (recovering_outcome size).repointed x touched
  obtain ⟨p, hp, method, load, at'⟩ := exists_found_of_edited own looked mem loads
  exact other p (mem_recovered_of_repointed size hp (at'.symm ▸ touched)) method load

/-- An instruction that is neither the load nor the call of a recovered call is still there. -/
theorem instructionAt_of_other {code : Array UInt8} {instructions : Array Instruction} {k : Nat}
    (here : c.codeAt? k = some code) (decoded : Code.decode code = .ok instructions)
    (mem : i ∈ instructions)
    (other : ∀ p ∈ recovered c, p.call.method = k → p.load ≠ i ∧ p.call.invoke ≠ i) :
    ∃ changed, c.recoverLiterals.1.codeAt? k = some changed ∧
      Code.instructionAt changed i.offset = .ok i := by
  obtain ⟨changed, there, size, same⟩ := spares_recoverLiterals c k code here
  have read := Code.instructionAt_of_mem decoded mem
  refine ⟨changed, there, Code.instructionAt_congr read (Code.offset_lt_of_mem decoded mem) size
    fun n hn => same _ fun p hp method => ?_⟩
  have site := isSite_of_mem_found (mem_found_of_mem_recovered hp)
  obtain ⟨code', instructions', here', decoded', loadMem, invokeMem⟩ := site.code
  rw [← method, here] at here'
  cases here'
  rw [decoded] at decoded'
  cases decoded'
  obtain ⟨notLoad, notInvoke⟩ := other p hp method.symm
  have apart := Code.next_le_or_next_le decoded mem loadMem (Ne.symm notLoad)
  have apart' := Code.next_le_or_next_le decoded mem invokeMem (Ne.symm notInvoke)
  have next := site.next
  have := i.length_pos
  have inside : n < i.length := hn
  rw [Instruction.next, Instruction.next] at apart apart'
  rw [Instruction.next] at next ⊢
  omega

/-- A load of a constant is no call. -/
theorem invoke_ne_of_load (hp : p ∈ recovered c) (load : Helper.isConstantLoad i = true) :
    p.call.invoke ≠ i := by
  rintro rfl
  have invokes := (isSite_of_mem_found (mem_found_of_mem_recovered hp)).invokes
  rw [Helper.isConstantLoad, invokes.1] at load
  exact absurd load (by decide)

/-- A load of a constant that is not one of a recovered call is still there. -/
theorem instructionAt_of_load {code : Array UInt8} {instructions : Array Instruction} {k : Nat}
    (here : c.codeAt? k = some code) (decoded : Code.decode code = .ok instructions)
    (mem : i ∈ instructions) (load : Helper.isConstantLoad i = true)
    (other : ∀ p ∈ recovered c, p.call.method = k → p.load ≠ i) :
    ∃ changed, c.recoverLiterals.1.codeAt? k = some changed ∧
      Code.instructionAt changed i.offset = .ok i :=
  instructionAt_of_other here decoded mem fun p hp method =>
    ⟨other p hp method, invoke_ne_of_load hp load⟩

end Load

/-! ## The frame -/

/-- What stays when literals are recovered. Apart from the operands of the loads and the calls that
are recovered, all code does, and so does all else in the methods, the class and the pool but what
string constants lead to. Each load that is not one of a recovered call loads the same constant with
the same text, and the strings that attributes name have the same texts. -/
theorem frame_recoverLiterals {bytes : Bytes} (parsed : ClassFile.parse bytes = .ok c) :
    c.recoverLiterals.2.recovered = (recovered c).map Plain.report ∧
    (∀ p ∈ recovered c, IsSite c p) ∧
    (∀ (k : Nat) (m : Member) (body : Code) (instructions : Array Instruction) (i : Instruction)
      (x : UInt16) (text : String), c.methods[k]? = some m → m.isNative = false →
      m.body? = some body → body.instructions = .ok instructions → i ∈ instructions →
      i.opcode = Opcode.ldc ∨ i.opcode = Opcode.ldcWide → i.operand = .index x →
      c.pool.string? x = some text →
      (∀ p ∈ recovered c, p.call.method = k → p.load ≠ i) →
      (∃ changed, c.recoverLiterals.1.codeAt? k = some changed ∧
        Code.instructionAt changed i.offset = .ok i) ∧
      c.recoverLiterals.1.pool.string? x = some text) ∧
    (∀ (x : UInt16) (text : String), c.Names x → c.pool.string? x = some text →
      c.recoverLiterals.1.pool.string? x = some text) ∧
    c.pool.Keeps Constant.blankString c.recoverLiterals.1.pool ∧
    Spares c c.recoverLiterals.1 (recovered c) ∧
    c.recoverLiterals.1 = { c with
      pool := c.recoverLiterals.1.pool, methods := c.recoverLiterals.1.methods } ∧
    c.recoverLiterals.1.methods.map Member.emptied = c.methods.map Member.emptied := by
  have size := (ClassFile.wellFormed_of_parse parsed).size_le
  have standing := standing_recoverLiterals (ClassFile.parse_eq_ok_iff.1 parsed).1.1
  refine ⟨(recoverLiterals_eq c).2,
    fun p mem => isSite_of_mem_found (mem_found_of_mem_recovered mem),
    fun k m body instructions i x text here own isBody decoded mem opcode operand string
      other => ?_,
    fun x text names here => string?_of_names size here names, standing.keeps,
    spares_recoverLiterals c, (rebodied_recoverLiterals c).frame, emptied_recoverLiterals c⟩
  have load : Helper.isConstantLoad i = true := by
    rw [Helper.isConstantLoad, Bool.or_eq_true, beq_iff_eq, beq_iff_eq]
    exact opcode
  have loads : loadedString? c.pool i = some x := by
    simp only [loadedString?, Instruction.poolIndex?, operand, load, string, Option.isSome_some,
      Bool.and_self, if_true, Option.bind_eq_bind, Option.bind_some]
  have code : c.codeAt? k = some body.bytes := by
    rw [ClassFile.codeAt?, here, Option.bind_some, isBody]
    rfl
  exact ⟨instructionAt_of_load code decoded mem load other,
    string?_of_load size (mem_scanned here own isBody decoded) mem loads string other⟩

/-- The class `crossed` with `Q` as the value of a field and `P` as an argument of a bootstrap
method. -/
def valued : ClassFile := { crossed with
  pool := ⟨crossed.pool.slots ++ #[some (.utf8 (ModifiedUtf8.encode "ConstantValue")),
    some (.utf8 (ModifiedUtf8.encode "BootstrapMethods"))]⟩
  fields := #[{ access := Access.static, name := 18, descriptor := 4
                attributes := [.other ⟨22, be16 9⟩] }]
  attributes := [⟨23, writeBootstrapMethods [⟨6, [11]⟩]⟩] }

theorem parse_valued : ClassFile.parse valued.write = .ok valued :=
  Except.eq_ok_of_toOption (by decide +kernel)

/-- Both calls are recovered. The load in between is still there, and so are both strings. -/
theorem frame_recoverLiterals_valued : ClassFile.parse valued.write = .ok valued ∧
    (recovered valued).map Plain.report = [⟨"S.m()Ljava/lang/String;", 0, "P"⟩,
      ⟨"S.m()Ljava/lang/String;", 9, "Q"⟩] ∧
    (∃ changed, valued.recoverLiterals.1.codeAt? 1 = some changed ∧
      Code.instructionAt changed 6 = .ok ⟨6, Opcode.ldc, 1, .index 9⟩) ∧
    valued.recoverLiterals.1.pool.string? 9 = some "Q" ∧
    valued.recoverLiterals.1.pool.string? 11 = some "P" := by
  obtain ⟨-, -, loads, named, -⟩ := frame_recoverLiterals parse_valued
  have offsets : ∀ p ∈ recovered valued, p.load.offset ≠ 6 := by decide +kernel
  obtain ⟨instructions, decoded, mem⟩ := ClassFile.exists_ok_of_map_toOption
    (f := fun row : Array Instruction => row.contains ⟨6, Opcode.ldc, 1, .index 9⟩) (b := true)
    (show (Code.decode #[0x12, 9, 0xB8, 0, 6, 0x57, 0x12, 9, 0x57, 0x12, 11, 0xB8, 0, 6,
      0xB0]).toOption.map _ = _ by decide +kernel)
  have stays := loads 1 _ _ instructions ⟨6, Opcode.ldc, 1, .index 9⟩ 9 "Q" rfl (by decide) rfl
    decoded (Array.contains_iff_mem.1 mem) (.inl rfl) rfl (by decide +kernel)
    fun p hp _ same => offsets p hp (congrArg Instruction.offset same)
  refine ⟨parse_valued, by decide +kernel, stays.1, ?_, ?_⟩
  · refine named 9 "Q" (@ClassFile.Names.constantValue valued 9 _ _ [] (Array.mem_singleton.2 rfl)
      (.head _) ?_ ?_) (by decide +kernel)
    · decide +kernel
    · rfl
  · refine named 11 "P" (@ClassFile.Names.bootstrapMethods valued 11 _ [⟨6, [11]⟩] _ (.head _) ?_
      (by decide) ?_ rfl (.head _) (.head _)) (by decide +kernel)
    · decide +kernel
    · simp

end Literal

end Clarify
