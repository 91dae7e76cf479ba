import Clarify.ClassFile.Descriptor

/-!
# The grammar of descriptors

The descriptor of a method has the types of its parameters in parentheses, one behind the other
with nothing in between, and its return type behind them. The name of a class may have any letters,
parentheses and brackets too, but no semicolon, and it ends at its first one. So there is one way
only to take the types off the front of a text one by one.

The shape of a method needs the parameters to be spelled out. Of the return type it looks at the
first character alone.

Results:
* `afterFieldType?_eq_some_iff`: what is taken off the front of a text is one field type.
* `parameters?_eq_some_iff`: what stands before the closing parenthesis is a row of them.
* `methodShape?_grammar`: the shape of every method type, and which texts have one.
-/

namespace Clarify.Descriptor

/-! ## Specification -/

/-- The types of values that are no references. -/
inductive Primitive where
  | byte
  | char
  | double
  | float
  | int
  | long
  | short
  | boolean
deriving Repr, DecidableEq

/-- The name of a class, which has no semicolon. -/
structure ClassName where
  letters : List Char
  noSemicolon : ';' ∉ letters

/-- The type of a field or a parameter. -/
inductive FieldType where
  | primitive (p : Primitive)
  | reference (name : ClassName)
  | array (element : FieldType)

/-- What a method returns. -/
inductive ReturnType where
  | void
  | value (type : FieldType)

/-- The types of the parameters of a method, and what it returns. -/
structure MethodType where
  parameters : List FieldType
  result : ReturnType

/-- The letter that stands for a primitive type. -/
def Primitive.letter : Primitive → Char
  | byte => 'B'
  | char => 'C'
  | double => 'D'
  | float => 'F'
  | int => 'I'
  | long => 'J'
  | short => 'S'
  | boolean => 'Z'

/-- A field type as it stands in a descriptor. -/
def FieldType.render : FieldType → List Char
  | primitive p => [p.letter]
  | reference name => 'L' :: name.letters ++ [';']
  | array element => '[' :: element.render

/-- The types of parameters as they stand in a descriptor. -/
def renderAll (parameters : List FieldType) : List Char := parameters.flatMap FieldType.render

/-- A return type as it stands in a descriptor. -/
def ReturnType.render : ReturnType → List Char
  | void => ['V']
  | value type => type.render

/-- The descriptor of a method. -/
def MethodType.render (d : MethodType) : String :=
  String.ofList ('(' :: renderAll d.parameters ++ ')' :: d.result.render)

/-- The kind of the values of a field type. -/
def FieldType.kind : FieldType → ValueKind
  | primitive .boolean => .boolean
  | primitive _ => .primitive
  | reference _ => .reference
  | array _ => .reference

/-- The kind of what a method returns. -/
def ReturnType.kind : ReturnType → ValueKind
  | void => .void
  | value type => type.kind

/-- The text starts with parameters in parentheses and the first character of a return type. -/
def Starts (text : List Char) (parameters : List FieldType) (result : ReturnType) : Prop :=
  ∃ tag rest, text = '(' :: renderAll parameters ++ ')' :: tag :: rest ∧
    result.render.head? = some tag

/-! ## Characters that begin a type -/

/-- A character begins a return type exactly if it has a kind, which is the kind of that type. -/
theorem ofTag?_eq_some_iff {tag : Char} {kind : ValueKind} :
    ValueKind.ofTag? tag = some kind ↔
      ∃ result : ReturnType, result.render.head? = some tag ∧ result.kind = kind := by
  constructor
  · intro h
    unfold ValueKind.ofTag? at h
    split at h
    case h_1 => cases h; exact ⟨.void, rfl, rfl⟩
    case h_2 => cases h; exact ⟨.value (.primitive .boolean), rfl, rfl⟩
    case h_3 => cases h; exact ⟨.value (.primitive .byte), rfl, rfl⟩
    case h_4 => cases h; exact ⟨.value (.primitive .char), rfl, rfl⟩
    case h_5 => cases h; exact ⟨.value (.primitive .short), rfl, rfl⟩
    case h_6 => cases h; exact ⟨.value (.primitive .int), rfl, rfl⟩
    case h_7 => cases h; exact ⟨.value (.primitive .long), rfl, rfl⟩
    case h_8 => cases h; exact ⟨.value (.primitive .float), rfl, rfl⟩
    case h_9 => cases h; exact ⟨.value (.primitive .double), rfl, rfl⟩
    case h_10 => cases h; exact ⟨.value (.reference ⟨[], List.not_mem_nil⟩), rfl, rfl⟩
    case h_11 => cases h; exact ⟨.value (.array (.primitive .int)), rfl, rfl⟩
    case h_12 => cases h
  · rintro ⟨result, first, rfl⟩
    cases result with
    | void => cases first; rfl
    | value type =>
      cases type with
      | primitive p => cases p <;> cases first <;> rfl
      | reference name => cases first; rfl
      | array element => cases first; rfl

/-- Only primitive types are of the kinds that are no references. -/
theorem exists_letter_of_ofTag? {tag : Char} {kind : ValueKind}
    (h : ValueKind.ofTag? tag = some kind) (flat : kind = .primitive ∨ kind = .boolean) :
    ∃ p : Primitive, p.letter = tag := by
  obtain ⟨result, first, rfl⟩ := ofTag?_eq_some_iff.1 h
  cases result with
  | void => simp [ReturnType.kind] at flat
  | value type =>
    cases type with
    | primitive p => exact ⟨p, Option.some.inj first⟩
    | reference name => simp [ReturnType.kind, FieldType.kind] at flat
    | array element => simp [ReturnType.kind, FieldType.kind] at flat

/-! ## One field type -/

theorem afterClassName?_cons_of_ne {c : Char} (h : c ≠ ';') (text : List Char) :
    afterClassName? (c :: text) = afterClassName? text := by
  rw [afterClassName?.eq_3]
  exact h

/-- A class name ends at its first semicolon. -/
theorem afterClassName?_eq_some_iff {text rest : List Char} :
    afterClassName? text = some rest ↔ ∃ name : ClassName, text = name.letters ++ ';' :: rest := by
  constructor
  · intro h
    induction text with
    | nil => cases h
    | cons c text ih =>
      by_cases last : c = ';'
      · subst last
        cases h
        exact ⟨⟨[], List.not_mem_nil⟩, rfl⟩
      · rw [afterClassName?_cons_of_ne last] at h
        obtain ⟨name, rfl⟩ := ih h
        refine ⟨⟨c :: name.letters, ?_⟩, rfl⟩
        simp [Ne.symm last, name.noSemicolon]
  · rintro ⟨⟨letters, noSemicolon⟩, rfl⟩
    induction letters with
    | nil => rfl
    | cons c letters ih =>
      rw [List.mem_cons, not_or] at noSemicolon
      rw [List.cons_append, afterClassName?_cons_of_ne (Ne.symm noSemicolon.1)]
      exact ih noSemicolon.2

theorem afterFieldType?_render (type : FieldType) (rest : List Char) :
    afterFieldType? (type.render ++ rest) = some rest := by
  induction type with
  | primitive p => cases p <;> rfl
  | reference name =>
    show afterClassName? (name.letters ++ [';'] ++ rest) = some rest
    rw [afterClassName?_eq_some_iff]
    exact ⟨name, by simp⟩
  | array element ih => exact ih

/-- What is taken off the front of a text is one field type. -/
theorem afterFieldType?_eq_some_iff {text rest : List Char} :
    afterFieldType? text = some rest ↔ ∃ type : FieldType, text = type.render ++ rest := by
  constructor
  · intro h
    induction text with
    | nil => cases h
    | cons c text ih =>
      unfold afterFieldType? at h
      split at h
      case h_1 eq => cases eq
      case h_2 eq =>
        cases eq
        obtain ⟨element, rfl⟩ := ih h
        exact ⟨.array element, rfl⟩
      case h_3 eq =>
        cases eq
        obtain ⟨name, rfl⟩ := afterClassName?_eq_some_iff.1 h
        exact ⟨.reference name, by simp [FieldType.render]⟩
      case h_4 eq =>
        cases eq
        -- Every other character is a type of its own, or begins none.
        split at h
        · next kind =>
          cases h
          obtain ⟨p, rfl⟩ := exists_letter_of_ofTag? kind (.inl rfl)
          exact ⟨.primitive p, rfl⟩
        · next kind =>
          cases h
          obtain ⟨p, rfl⟩ := exists_letter_of_ofTag? kind (.inr rfl)
          exact ⟨.primitive p, rfl⟩
        · cases h
  · rintro ⟨type, rfl⟩
    exact afterFieldType?_render type rest

/-! ## The parameters -/

theorem renderAll_cons (type : FieldType) (parameters : List FieldType) (rest : List Char) :
    renderAll (type :: parameters) ++ rest = type.render ++ (renderAll parameters ++ rest) := by
  simp [renderAll]

theorem parameters?_cons_of_ne {c : Char} (h : c ≠ ')') (before : Nat) (text : List Char) :
    parameters? before (c :: text) =
      (afterFieldType? (c :: text)).bind (parameters? (before + 1)) := by
  rw [parameters?, if_neg h]
  split
  · next rest here => rw [here, Option.bind_some]
  · next here => rw [here, Option.bind_none]

/-- A field type begins with a character that ends no row of parameters. -/
theorem exists_cons_render (type : FieldType) : ∃ c rest, type.render = c :: rest ∧ c ≠ ')' := by
  cases type with
  | primitive p => exact ⟨p.letter, [], rfl, by cases p <;> decide⟩
  | reference name => exact ⟨'L', _, rfl, by decide⟩
  | array element => exact ⟨'[', _, rfl, by decide⟩

theorem parameters?_renderAll (parameters : List FieldType) (before : Nat) (rest : List Char) :
    parameters? before (renderAll parameters ++ ')' :: rest) =
      some (before + parameters.length, rest) := by
  induction parameters generalizing before with
  | nil =>
    show parameters? before (')' :: rest) = _
    rw [parameters?, if_pos rfl]
    rfl
  | cons type parameters ih =>
    obtain ⟨c, more, front, opens⟩ := exists_cons_render type
    have taken := afterFieldType?_render type (renderAll parameters ++ ')' :: rest)
    rw [renderAll_cons]
    rw [front, List.cons_append] at taken ⊢
    rw [parameters?_cons_of_ne opens, taken, Option.bind_some, ih, List.length_cons]
    congr 2
    omega

/-- What stands before the closing parenthesis is a row of field types. -/
theorem parameters?_eq_some_iff {before arity : Nat} {text rest : List Char} :
    parameters? before text = some (arity, rest) ↔ ∃ parameters : List FieldType,
      text = renderAll parameters ++ ')' :: rest ∧ arity = before + parameters.length := by
  constructor
  · intro h
    induction before, text using parameters?.induct with
    | case1 before =>
      rw [parameters?] at h
      cases h
    | case2 before text =>
      rw [parameters?, if_pos rfl] at h
      cases h
      exact ⟨[], rfl, rfl⟩
    | case3 before c text opens more taken ih =>
      rw [parameters?_cons_of_ne opens, taken, Option.bind_some] at h
      obtain ⟨parameters, rfl, rfl⟩ := ih h
      obtain ⟨type, front⟩ := afterFieldType?_eq_some_iff.1 taken
      refine ⟨type :: parameters, ?_, ?_⟩
      · rw [renderAll_cons]
        exact front
      · rw [List.length_cons]
        omega
    | case4 before c text opens none =>
      rw [parameters?_cons_of_ne opens, none, Option.bind_none] at h
      cases h
  · rintro ⟨parameters, rfl, rfl⟩
    exact parameters?_renderAll parameters before rest

/-! ## The shape of a method -/

/-- A text has the shape of the method type that it starts with. -/
theorem methodShape?_eq_some_iff {text : String} {arity : Nat} {kind : ValueKind} :
    methodShape? text = some (arity, kind) ↔ ∃ parameters result,
      Starts text.toList parameters result ∧ arity = parameters.length ∧ kind = result.kind := by
  unfold methodShape?
  constructor
  · intro h
    split at h
    · next front eq =>
      simp only [Option.bind_eq_bind, Option.bind_eq_some_iff, Option.pure_def,
        Option.some.injEq, Prod.mk.injEq, Prod.exists] at h
      obtain ⟨n, behind, read, tag, here, kind', known, rfl, rfl⟩ := h
      obtain ⟨parameters, rfl, rfl⟩ := parameters?_eq_some_iff.1 read
      obtain ⟨result, first, rfl⟩ := ofTag?_eq_some_iff.1 known
      obtain ⟨rest, rfl⟩ := List.head?_eq_some_iff.1 here
      exact ⟨parameters, result, ⟨tag, rest, eq, first⟩, Nat.zero_add _, rfl⟩
    · cases h
  · rintro ⟨parameters, result, ⟨tag, rest, eq, first⟩, rfl, rfl⟩
    have read := parameters?_renderAll parameters 0 (tag :: rest)
    have known := ofTag?_eq_some_iff.2 ⟨result, first, rfl⟩
    rw [Nat.zero_add] at read
    simp [eq, read, known]

/-- The descriptor of a method type starts with its parameters and its return type. -/
theorem starts_render (d : MethodType) : Starts d.render.toList d.parameters d.result := by
  have first : d.result.render ≠ [] := by
    cases d.result with
    | void => simp [ReturnType.render]
    | value type =>
      obtain ⟨c, rest, front, -⟩ := exists_cons_render type
      simp [ReturnType.render, front]
  obtain ⟨tag, rest, front⟩ := List.exists_cons_of_ne_nil first
  refine ⟨tag, rest, ?_, ?_⟩
  · rw [MethodType.render, String.toList_ofList, front]
  · rw [front, List.head?_cons]

/-- The shape of a method type is the number of its parameters and the kind of what it returns. A
text has the shape of what it starts with. It has none exactly if it does not start with a row of
field types in parentheses, which may be empty, and a character that begins a return type. -/
theorem methodShape?_grammar :
    (∀ d : MethodType, methodShape? d.render = some (d.parameters.length, d.result.kind)) ∧
    (∀ text arity kind, methodShape? text = some (arity, kind) ↔ ∃ parameters result,
      Starts text.toList parameters result ∧ arity = parameters.length ∧ kind = result.kind) ∧
    ∀ text, methodShape? text = none ↔
      ¬∃ parameters result, Starts text.toList parameters result := by
  refine ⟨?_, ?_, ?_⟩
  · intro d
    apply methodShape?_eq_some_iff.2
    exact ⟨_, _, starts_render d, rfl, rfl⟩
  · intro text arity kind
    exact methodShape?_eq_some_iff
  · intro text
    constructor
    · rintro none ⟨parameters, result, starts⟩
      have shape := methodShape?_eq_some_iff.2 ⟨parameters, result, starts, rfl, rfl⟩
      rw [none] at shape
      cases shape
    · intro other
      apply Option.eq_none_iff_forall_ne_some.2
      rintro ⟨arity, kind⟩ shape
      obtain ⟨parameters, result, starts, -⟩ := methodShape?_eq_some_iff.1 shape
      exact other ⟨parameters, result, starts⟩

example : methodShape? "(I[JL(;[[La/b;)Z" = some (4, .boolean) := by decide +kernel

end Clarify.Descriptor
