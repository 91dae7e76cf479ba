import Clarify.ClassFile.Assembly
import Clarify.Proofs.ClassFile.Lawful
import Clarify.Proofs.ClassFile.Soundness

/-!
# Assembled class files

The assembler writes what it is told and checks nothing. What each step adds is lawful as long as it
keeps to the limits of a class file; only a handle may name an index that nothing stands at yet, so
what handles lead to is asked for when all is assembled.

Results:
* `Grown.perform`: what a step makes of a class file under way.
* `lawful_assemble?`: what is assembled within the limits is lawful.
* `ClassFile.parse_write_of_lawful`: lawful class files are read back, and so are those that are
  assembled.
-/

namespace Clarify

namespace Assembly

/-- A step of the assembler, with what it is told. -/
inductive Step where
  | text (value : String)
  | classRef (name : String)
  | string (value : String)
  | integer (bits : UInt32)
  | nameAndType (name descriptor : String)
  | memberRef (kind : RefKind) (owner name descriptor : String)
  | staticMethodHandle (reference : UInt16)
  | field (access : UInt16) (name descriptor : String)
  | method (access : UInt16) (name descriptor : String) (bytes : Bytes) (handlers : List Handler)
  | bodilessMethod (access : UInt16) (name descriptor : String)
  | classAttribute (name : String) (info : Bytes)

namespace Step

/-- Does a step. Its index, if it gives one, can be told by later steps. -/
def perform : Step → Assembly Unit
  | text value => do let _ ← Assembly.text value
  | classRef name => do let _ ← Assembly.classRef name
  | string value => do let _ ← Assembly.string value
  | integer bits => do let _ ← Assembly.integer bits
  | nameAndType name descriptor => do let _ ← Assembly.nameAndType name descriptor
  | memberRef kind owner name descriptor => do
    let _ ← Assembly.memberRef kind owner name descriptor
  | staticMethodHandle reference => do let _ ← Assembly.staticMethodHandle reference
  | field access name descriptor => Assembly.field access name descriptor
  | method access name descriptor bytes handlers =>
    Assembly.method access name descriptor bytes handlers
  | bodilessMethod access name descriptor => Assembly.bodilessMethod access name descriptor
  | classAttribute name info => Assembly.classAttribute name info

/-- The texts that a step is told. -/
def texts : Step → List String
  | text value | string value => [value]
  | classRef name | classAttribute name _ => [name]
  | nameAndType name descriptor | field _ name descriptor | method _ name descriptor _ _
  | bodilessMethod _ name descriptor => [name, descriptor]
  | memberRef _ owner name descriptor => [owner, name, descriptor]
  | integer _ | staticMethodHandle _ => []

/-- What else the limits of a class file ask of a step that is part of assembling `c`. -/
def Fits (c : ClassFile) : Step → Prop
  | staticMethodHandle reference => c.pool.Names .member reference
  | method _ _ _ bytes handlers => 1 ≤ bytes.length ∧ bytes.length ≤ 65535 ∧
      (∃ instructions, Code.decode bytes.toArray = .ok instructions) ∧ handlers.length < 65536
  | classAttribute _ info => info.length < 4294967296
  | _ => True

end Step

/-- Whether the text fits its length field. -/
def ShortText (value : String) : Prop := (ModifiedUtf8.encode value).length ≤ 65535

/-- The class file that steps assemble. -/
def assemble? (name : String) (steps : List Step) : Option ClassFile :=
  (build name (steps.forM Step.perform)).map Prod.snd

/-! ## Single steps -/

section Steps

variable {α β : Type} {c d e : ClassFile} {targets : UInt16 → Prop} {index : UInt16}

theorem bind_eq_some_iff {x : Assembly α} {f : α → Assembly β} {b : β} :
    (x >>= f) c = some (b, e) ↔ ∃ a d, x c = some (a, d) ∧ f a d = some (b, e) := by
  show (x c >>= fun (a, d) => f a d) = _ ↔ _
  rw [Option.bind_eq_bind, Option.bind_eq_some_iff]
  exact ⟨fun ⟨(a, d), h, h'⟩ => ⟨a, d, h, h'⟩, fun ⟨a, d, h, h'⟩ => ⟨(a, d), h, h'⟩⟩

theorem exists_of_ignored {x : Assembly α} {u : Unit} (h : (do let _ ← x) c = some (u, d)) :
    ∃ a, x c = some (a, d) := by
  obtain ⟨a, c', first, h⟩ := bind_eq_some_iff.1 h
  cases h
  exact ⟨a, first⟩

/-- A constant passes its check, or it is a handle of the one kind that is assembled, and leads
where handles may lead. -/
def Checked (targets : UInt16 → Prop) (p : Pool) (x : Constant) : Prop :=
  p.checkConstant x = .ok () ∨ ∃ reference, targets reference ∧ x = .methodHandle 6 reference

/-- A class file under way. -/
structure Underway (targets : UInt16 → Prop) (c : ClassFile) : Prop where
  size_le : c.pool.size ≤ Pool.capacity
  laid : ∃ constants, c.pool.slots.toList = none :: Pool.layOut constants
  check : ∀ index x, c.pool.get? index = some x → Checked targets c.pool x
  short : c.pool.Short
  version : c.majorVersion = 52
  interfaces : c.interfaces = []
  fields : ∀ m ∈ c.fields, m.Sound c.pool
  methods : ∀ m ∈ c.methods, m.Sound c.pool
  attributes : ∀ a ∈ c.attributes, a.Fits ∧ ∃ bytes, c.pool.get? a.name = some (.utf8 bytes)

/-- Something was added to a class file under way. -/
structure Grown (targets : UInt16 → Prop) (c d : ClassFile) : Prop where
  underway : Underway targets d
  extends' : c.pool.Extends d.pool
  thisClass : d.thisClass = c.thisClass
  superClass : d.superClass = c.superClass

theorem Grown.refl (underway : Underway targets c) : Grown targets c c :=
  ⟨underway, .refl _, rfl, rfl⟩

theorem Grown.trans (h : Grown targets c d) (h' : Grown targets d e) : Grown targets c e :=
  ⟨h'.underway, h.extends'.trans h'.extends', h'.thisClass.trans h.thisClass,
    h'.superClass.trans h.superClass⟩

/-- Members and attributes may be added that go with the pool. -/
theorem Grown.withParts (h : Grown targets c d) {fields methods : Array Member}
    {attributes : List Attribute} (areFields : ∀ m ∈ fields, m.Sound d.pool)
    (areMethods : ∀ m ∈ methods, m.Sound d.pool) (areAttributes : ∀ a ∈ attributes,
      a.Fits ∧ ∃ bytes, d.pool.get? a.name = some (.utf8 bytes)) :
    Grown targets c { d with fields, methods, attributes } where
  underway := { h.underway with
    fields := areFields, methods := areMethods, attributes := areAttributes }
  extends' := h.extends'
  thisClass := h.thisClass
  superClass := h.superClass

theorem forall_mem_push {members : Array Member} {m : Member} {p : Pool}
    (all : ∀ m ∈ members, m.Sound p) (sound : m.Sound p) : ∀ m' ∈ members.push m, m'.Sound p := by
  intro m' mem
  obtain old | rfl := Array.mem_push.1 mem
  · exact all m' old
  · exact sound

theorem grown_of_constant {x : Constant} (underway : Underway targets c)
    (checked : Checked targets c.pool x)
    (short : ∀ bytes, x = .utf8 bytes → bytes.length ≤ 65535)
    (h : constant x c = some (index, d)) :
    Grown targets c d ∧ d.pool.get? index = some x := by
  obtain ⟨⟨index', pool⟩, interned, h⟩ := Option.bind_eq_some_iff.1 h
  cases h
  have grown := Pool.extends_of_intern? interned
  have keeps : c.pool.Keeps Constant.blank pool := grown.keeps
  have still {y : Constant} (checked : Checked targets c.pool y) : Checked targets pool y :=
    checked.imp_left keeps.checkConstant
  refine ⟨⟨{ underway with
    size_le := Pool.size_le_of_intern? underway.size_le interned
    laid := Pool.laid_of_intern? underway.laid interned
    check := ?_
    short := ?_
    fields := fun m mem => (underway.fields m mem).keeps keeps
    methods := fun m mem => (underway.methods m mem).keeps keeps
    attributes := fun a mem => (underway.attributes a mem).imp_right fun named =>
      named.imp fun _ => keeps.utf8 }, grown, rfl, rfl⟩,
    Pool.get?_of_intern? underway.size_le interned⟩
  · intro i y found
    obtain old | ⟨rfl, -⟩ := Pool.get?_of_intern?_cases interned found
    · exact still (underway.check i y old)
    · exact still checked
  · intro i bytes found
    obtain old | ⟨eq, -⟩ := Pool.get?_of_intern?_cases interned found
    · exact underway.short i bytes old
    · exact short bytes eq.symm

theorem grown_of_text {value : String} (underway : Underway targets c) (short : ShortText value)
    (h : text value c = some (index, d)) :
    Grown targets c d ∧ d.pool.get? index = some (.utf8 (ModifiedUtf8.encode value)) := by
  refine grown_of_constant underway (.inl rfl) ?_ h
  rintro bytes ⟨⟩
  exact short

theorem grown_of_classRef {name : String} (underway : Underway targets c) (short : ShortText name)
    (h : classRef name c = some (index, d)) :
    Grown targets c d ∧ ∃ i, d.pool.get? index = some (.classRef i) := by
  obtain ⟨i, c', first, h⟩ := bind_eq_some_iff.1 h
  obtain ⟨grown, found⟩ := grown_of_text underway short first
  have checked : c'.pool.checkConstant (.classRef i) = .ok () :=
    Pool.expectText_eq_ok_iff.2 ⟨_, found⟩
  obtain ⟨grown', found'⟩ := grown_of_constant grown.underway (.inl checked) (by simp) h
  exact ⟨grown.trans grown', i, found'⟩

theorem grown_of_string {value : String} (underway : Underway targets c) (short : ShortText value)
    (h : string value c = some (index, d)) : Grown targets c d := by
  obtain ⟨i, c', first, h⟩ := bind_eq_some_iff.1 h
  obtain ⟨grown, found⟩ := grown_of_text underway short first
  have checked : c'.pool.checkConstant (.string i) = .ok () :=
    Pool.expectText_eq_ok_iff.2 ⟨_, found⟩
  exact grown.trans (grown_of_constant grown.underway (.inl checked) (by simp) h).1

theorem grown_of_nameAndType {name descriptor : String} (underway : Underway targets c)
    (short : ShortText name) (short' : ShortText descriptor)
    (h : nameAndType name descriptor c = some (index, d)) :
    Grown targets c d ∧ ∃ i j, d.pool.get? index = some (.nameAndType i j) := by
  obtain ⟨i, c', first, h⟩ := bind_eq_some_iff.1 h
  obtain ⟨j, c'', second, h⟩ := bind_eq_some_iff.1 h
  obtain ⟨grown, found⟩ := grown_of_text underway short first
  obtain ⟨grown', found'⟩ := grown_of_text grown.underway short' second
  have checked : c''.pool.checkConstant (.nameAndType i j) = .ok () :=
    Except.bind_eq_ok_iff.2 ⟨(), Pool.expectText_eq_ok_iff.2 ⟨_, grown'.extends' _ _ found⟩,
      Pool.expectText_eq_ok_iff.2 ⟨_, found'⟩⟩
  obtain ⟨grown'', found''⟩ := grown_of_constant grown'.underway (.inl checked) (by simp) h
  exact ⟨(grown.trans grown').trans grown'', i, j, found''⟩

theorem grown_of_memberRef {kind : RefKind} {owner name descriptor : String}
    (underway : Underway targets c) (short : ∀ value ∈ [owner, name, descriptor], ShortText value)
    (h : memberRef kind owner name descriptor c = some (index, d)) : Grown targets c d := by
  obtain ⟨i, c', first, h⟩ := bind_eq_some_iff.1 h
  obtain ⟨j, c'', second, h⟩ := bind_eq_some_iff.1 h
  obtain ⟨grown, n, found⟩ := grown_of_classRef underway (short owner (by simp)) first
  obtain ⟨grown', n', t', found'⟩ := grown_of_nameAndType grown.underway (short name (by simp))
    (short descriptor (by simp)) second
  have checked : c''.pool.checkConstant (.memberRef kind i j) = .ok () :=
    Except.bind_eq_ok_iff.2 ⟨(), Pool.expectClass_eq_ok_iff.2 ⟨_, grown'.extends' _ _ found⟩,
      Pool.expectNameAndType_eq_ok_iff.2 ⟨_, _, found'⟩⟩
  obtain ⟨grown'', -⟩ := grown_of_constant grown'.underway (.inl checked) (by simp) h
  exact (grown.trans grown').trans grown''

theorem grown_of_member {access : UInt16} {name descriptor : String}
    {attributes : List MemberAttribute} {m : Member} (underway : Underway targets c)
    (short : ShortText name) (short' : ShortText descriptor)
    (count : attributes.length < 65536)
    (sound : ∀ a ∈ attributes, a.raw.Fits ∧ a.Sound c.pool)
    (h : member access name descriptor attributes c = some (m, d)) :
    Grown targets c d ∧ m.Sound d.pool := by
  obtain ⟨i, c', first, h⟩ := bind_eq_some_iff.1 h
  obtain ⟨j, c'', second, h⟩ := bind_eq_some_iff.1 h
  cases h
  obtain ⟨grown, found⟩ := grown_of_text underway short first
  obtain ⟨grown', found'⟩ := grown_of_text grown.underway short' second
  have grown := grown.trans grown'
  exact ⟨grown, ⟨_, grown'.extends' _ _ found⟩, ⟨_, found'⟩, count,
    fun a mem => (sound a mem).1, fun a mem => (sound a mem).2.keeps grown.extends'.keeps⟩

theorem length_write_lt (c : Code) (plain : c.attributes = []) (size : c.bytes.size ≤ 65535)
    (handlers : c.handlers.length < 65536) : c.write.length < 4294967296 := by
  have each : ∀ row : List Handler, (row.flatMap Code.writeHandler).length = 8 * row.length := by
    intro row
    induction row with
    | nil => rfl
    | cons h row ih =>
      rw [List.flatMap_cons, List.length_append, ih, List.length_cons]
      show 8 + 8 * row.length = _
      omega
  have whole : c.write.length = 12 + c.bytes.size + 8 * c.handlers.length := by
    simp only [Code.write, Attribute.writeAll, plain, List.length_append, length_be16, length_be32,
      each, Array.length_toList, List.flatMap_nil, List.length_nil]
    omega
  omega

/-- The body of an assembled method. -/
def bodyOf (bytes : Bytes) (handlers : List Handler) : Code where
  maxStack := 8
  maxLocals := 8
  bytes := bytes.toArray
  handlers
  attributes := []

theorem sound_bodyOf {p : Pool} {code : UInt16} {bytes : Bytes} {handlers : List Handler}
    (named : p.get? code = some (.utf8 (ModifiedUtf8.encode "Code")))
    (positive : 1 ≤ bytes.length) (size : bytes.length ≤ 65535)
    (decodes : ∃ instructions, Code.decode bytes.toArray = .ok instructions)
    (count : handlers.length < 65536) :
    (MemberAttribute.code code (bodyOf bytes handlers)).raw.Fits ∧
      (MemberAttribute.code code (bodyOf bytes handlers)).Sound p := by
  have sound : (bodyOf bytes handlers).Sound :=
    ⟨positive, size, count, ⟨by simp [bodyOf], by simp [bodyOf]⟩, decodes⟩
  have isCode : p.text? code = some "Code" := by
    rw [Pool.text?_of_get? named]
  refine ⟨length_write_lt _ rfl size count, ⟨_, named⟩, iff_of_true isCode rfl, ?_⟩
  rintro body ⟨⟩
  exact sound

theorem grown_of_field {access : UInt16} {name descriptor : String} (underway : Underway targets c)
    (short : ShortText name) (short' : ShortText descriptor) {u : Unit}
    (h : field access name descriptor c = some (u, d)) : Grown targets c d := by
  obtain ⟨m, c', first, h⟩ := bind_eq_some_iff.1 h
  cases h
  obtain ⟨grown, sound⟩ := grown_of_member underway short short' (by simp) (by simp) first
  have old := grown.underway
  exact grown.withParts (forall_mem_push old.fields sound) old.methods old.attributes

theorem grown_of_bodilessMethod {access : UInt16} {name descriptor : String}
    (underway : Underway targets c) (short : ShortText name) (short' : ShortText descriptor)
    {u : Unit} (h : bodilessMethod access name descriptor c = some (u, d)) : Grown targets c d := by
  obtain ⟨m, c', first, h⟩ := bind_eq_some_iff.1 h
  cases h
  obtain ⟨grown, sound⟩ := grown_of_member underway short short' (by simp) (by simp) first
  have old := grown.underway
  exact grown.withParts old.fields (forall_mem_push old.methods sound) old.attributes

theorem grown_of_method {access : UInt16} {name descriptor : String} {bytes : Bytes}
    {handlers : List Handler} (underway : Underway targets c) (short : ShortText name)
    (short' : ShortText descriptor) (positive : 1 ≤ bytes.length) (size : bytes.length ≤ 65535)
    (decodes : ∃ instructions, Code.decode bytes.toArray = .ok instructions)
    (count : handlers.length < 65536) {u : Unit}
    (h : method access name descriptor bytes handlers c = some (u, d)) : Grown targets c d := by
  obtain ⟨index, c', first, h⟩ := bind_eq_some_iff.1 h
  obtain ⟨m, c'', second, h⟩ := bind_eq_some_iff.1 h
  cases h
  have code : ShortText "Code" := by
    unfold ShortText
    decide +kernel
  obtain ⟨grown, named⟩ := grown_of_text underway code first
  obtain ⟨grown', sound⟩ := grown_of_member grown.underway short short' (by simp)
    (List.forall_mem_singleton.2 (sound_bodyOf named positive size decodes count)) second
  have old := grown'.underway
  exact grown.trans (grown'.withParts old.fields (forall_mem_push old.methods sound) old.attributes)

theorem grown_of_classAttribute {name : String} {info : Bytes} (underway : Underway targets c)
    (short : ShortText name) (fits : info.length < 4294967296) {u : Unit}
    (h : classAttribute name info c = some (u, d)) : Grown targets c d := by
  obtain ⟨index, c', first, h⟩ := bind_eq_some_iff.1 h
  cases h
  obtain ⟨grown, named⟩ := grown_of_text underway short first
  have old := grown.underway
  refine grown.withParts old.fields old.methods fun a mem => ?_
  obtain mem | new := List.mem_append.1 mem
  · exact old.attributes a mem
  · obtain rfl := List.mem_singleton.1 new
    exact ⟨fits, _, named⟩

/-- What a step within the limits adds. A handle may lead where handles may lead. -/
theorem Grown.perform {file : ClassFile} {step : Step} (underway : Underway targets c)
    (short : ∀ value ∈ step.texts, ShortText value) (fits : step.Fits file)
    (leads : ∀ reference, step = .staticMethodHandle reference → targets reference) {u : Unit}
    (h : step.perform c = some (u, d)) : Grown targets c d := by
  cases step with
  | text value =>
    obtain ⟨index, h⟩ := exists_of_ignored h
    exact (grown_of_text underway (short value (by simp [Step.texts])) h).1
  | classRef name =>
    obtain ⟨index, h⟩ := exists_of_ignored h
    exact (grown_of_classRef underway (short name (by simp [Step.texts])) h).1
  | string value =>
    obtain ⟨index, h⟩ := exists_of_ignored h
    exact grown_of_string underway (short value (by simp [Step.texts])) h
  | integer bits =>
    obtain ⟨index, h⟩ := exists_of_ignored h
    exact (grown_of_constant underway (.inl rfl) (by simp) h).1
  | nameAndType name descriptor =>
    obtain ⟨index, h⟩ := exists_of_ignored h
    exact (grown_of_nameAndType underway (short name (by simp [Step.texts]))
      (short descriptor (by simp [Step.texts])) h).1
  | memberRef kind owner name descriptor =>
    obtain ⟨index, h⟩ := exists_of_ignored h
    exact grown_of_memberRef underway short h
  | staticMethodHandle reference =>
    obtain ⟨index, h⟩ := exists_of_ignored h
    exact (grown_of_constant underway (.inr ⟨reference, leads reference rfl, rfl⟩) (by simp) h).1
  | field access name descriptor =>
    exact grown_of_field underway (short name (by simp [Step.texts]))
      (short descriptor (by simp [Step.texts])) h
  | method access name descriptor bytes handlers =>
    obtain ⟨positive, size, decodes, count⟩ := fits
    exact grown_of_method underway (short name (by simp [Step.texts]))
      (short descriptor (by simp [Step.texts])) positive size decodes count h
  | bodilessMethod access name descriptor =>
    exact grown_of_bodilessMethod underway (short name (by simp [Step.texts]))
      (short descriptor (by simp [Step.texts])) h
  | classAttribute name info =>
    exact grown_of_classAttribute underway (short name (by simp [Step.texts])) fits h

theorem Grown.steps {file : ClassFile} {steps : List Step} (underway : Underway targets c)
    (short : ∀ step ∈ steps, ∀ value ∈ step.texts, ShortText value)
    (fits : ∀ step ∈ steps, step.Fits file)
    (leads : ∀ reference, .staticMethodHandle reference ∈ steps → targets reference) {u : Unit}
    (h : steps.forM Step.perform c = some (u, d)) : Grown targets c d := by
  induction steps generalizing c with
  | nil =>
    cases h
    exact .refl underway
  | cons step steps ih =>
    rw [List.forM_eq_forM, List.forM_cons, ← List.forM_eq_forM] at h
    obtain ⟨_, c', first, rest⟩ := bind_eq_some_iff.1 h
    have grown : Grown targets c c' := by
      refine .perform underway (short step (by simp)) (fits step (by simp)) ?_ first
      rintro reference rfl
      exact leads reference (by simp)
    refine grown.trans (ih grown.underway (fun s mem => short s (by simp [mem]))
      (fun s mem => fits s (by simp [mem])) (fun reference mem => leads reference (by simp [mem]))
      rest)

theorem get?_empty (index : UInt16) : Pool.empty.get? index = none := by
  rw [Pool.get?, Pool.empty]
  rcases index.toNat with _ | n <;> rfl

theorem underway_blank : Underway targets blank where
  size_le := by decide
  laid := ⟨[], rfl⟩
  check index x found := by
    rw [show blank.pool = .empty from rfl, get?_empty] at found
    cases found
  short index bytes found := by
    rw [show blank.pool = .empty from rfl, get?_empty] at found
    cases found
  version := rfl
  interfaces := rfl
  fields := by simp [blank]
  methods := by simp [blank]
  attributes := by simp [blank]

/-- A class file with its class and the class above it, and nothing else. -/
theorem underway_newClass {name : String} (short : ShortText name) {u : Unit}
    (h : newClass name blank = some (u, d)) : Underway targets d ∧
      (∃ i, d.pool.get? d.thisClass = some (.classRef i)) ∧
      ∃ i, d.pool.get? d.superClass = some (.classRef i) := by
  obtain ⟨i, c', first, h⟩ := bind_eq_some_iff.1 h
  obtain ⟨j, c'', second, h⟩ := bind_eq_some_iff.1 h
  cases h
  obtain ⟨grown, n, found⟩ := grown_of_classRef underway_blank short first
  have short' : ShortText "java/lang/Object" := by
    unfold ShortText
    decide +kernel
  obtain ⟨grown', n', found'⟩ := grown_of_classRef grown.underway short' second
  exact ⟨{ grown'.underway with }, ⟨n, grown'.extends' _ _ found⟩, n', found'⟩

end Steps

/-! ## Whole class files -/

/-- What is assembled within the limits is lawful. -/
theorem lawful_assemble? {name : String} {steps : List Step} {c : ClassFile}
    (assembled : assemble? name steps = some c) (short : ShortText name)
    (texts : ∀ step ∈ steps, ∀ value ∈ step.texts, ShortText value)
    (fits : ∀ step ∈ steps, step.Fits c) (fields : c.fields.size < 65536)
    (methods : c.methods.size < 65536) (attributes : c.attributes.length < 65536) : c.Lawful := by
  obtain ⟨⟨u, c'⟩, run, eq⟩ := Option.map_eq_some_iff.1 assembled
  obtain rfl : c' = c := eq
  obtain ⟨_, start, first, rest⟩ := bind_eq_some_iff.1 run
  let targets : UInt16 → Prop := fun reference => Step.staticMethodHandle reference ∈ steps
  obtain ⟨underway, ⟨i, this⟩, j, super⟩ : Underway targets start ∧ _ :=
    underway_newClass short first
  have grown : Grown targets start c' := .steps underway texts fits (fun _ mem => mem) rest
  have ends := grown.underway
  have checked (index : UInt16) (x : Constant) (found : c'.pool.get? index = some x) :
      c'.pool.checkConstant x = .ok () := by
    obtain ok | ⟨reference, mem, rfl⟩ := ends.check index x found
    · exact ok
    · refine Pool.checkConstant_eq_ok_iff.2 ⟨?_, ?_⟩
      · rintro kind reference' ⟨⟩
        decide
      · have leads : c'.pool.Names .member reference := fits _ mem
        intro r named
        obtain rfl := List.mem_singleton.1 named
        exact leads
  refine ClassFile.lawful_iff.2 ⟨?_, ends.short⟩
  exact {
    version := by rw [ends.version]; decide
    pool := ⟨ends.size_le, ends.laid, checked⟩
    thisClass := ⟨i, by rw [grown.thisClass]; exact grown.extends' _ _ this⟩
    superClass := .inr ⟨j, by rw [grown.superClass]; exact grown.extends' _ _ super⟩
    interfaces := by rw [ends.interfaces]; simp
    fields := ⟨fields, ends.fields⟩
    methods := ⟨methods, ends.methods⟩
    attributes := ⟨attributes, fun a mem => (ends.attributes a mem).1⟩
    attributeNames := fun a mem => (ends.attributes a mem).2 }

end Assembly

namespace ClassFile

open Assembly

/-- A lawful class file is read back as it was; so is every class file that is assembled within the
limits. -/
theorem parse_write_of_lawful : (∀ c : ClassFile, c.Lawful → parse c.write = .ok c) ∧
    ∀ (name : String) (steps : List Assembly.Step) (c : ClassFile), assemble? name steps = some c →
      ShortText name → (∀ step ∈ steps, ∀ value ∈ step.texts, ShortText value) →
      (∀ step ∈ steps, step.Fits c) → c.fields.size < 65536 → c.methods.size < 65536 →
      c.attributes.length < 65536 → parse c.write = .ok c := by
  refine ⟨fun c lawful => parse_write_iff.2 lawful, ?_⟩
  intro name steps c assembled short texts fits fields methods attributes
  exact parse_write_iff.2 (lawful_assemble? assembled short texts fits fields methods attributes)

/-- Steps of several kinds, the last of which names what the one before it gave. -/
def sampleSteps : List Assembly.Step :=
  [.field 1 "x" "I", .method 9 "f" "()V" [0xB1] [⟨0, 1, 0, 0⟩], .string "text",
    .classAttribute "SourceFile" [0, 1], .memberRef .method "A" "f" "()V", .staticMethodHandle 14]

theorem parse_write_of_lawful_sampleSteps : parse longClass.write = .ok longClass ∧
    ∃ c, assemble? "A" sampleSteps = some c ∧ parse c.write = .ok c := by
  have long := lawful_iff.2 (parse_eq_ok_iff.1 parse_longClass).1
  refine ⟨parse_write_of_lawful.1 longClass long, ?_⟩
  obtain ⟨c, assembled, facts⟩ := Option.map_eq_some_iff.1
    (show (assemble? "A" sampleSteps).map (fun c =>
        (c.pool.get? 14, c.fields.size, c.methods.size, c.attributes.length)) =
      some (some (.memberRef .method 2 13), 1, 1, 1) by decide +kernel)
  obtain ⟨member, counts⟩ := Prod.mk.inj facts
  obtain ⟨fields, counts⟩ := Prod.mk.inj counts
  obtain ⟨methods, attributes⟩ := Prod.mk.inj counts
  have short : ShortText "A" := by
    unfold ShortText
    decide +kernel
  have texts : ∀ step ∈ sampleSteps, ∀ value ∈ step.texts, ShortText value := by
    unfold ShortText
    decide +kernel
  have decodes : ∃ instructions, Code.decode #[0xB1] = .ok instructions :=
    ⟨#[⟨0, 0xB1, 0, .bare⟩], Except.eq_ok_of_toOption (by decide +kernel)⟩
  have fits : ∀ step ∈ sampleSteps, step.Fits c := by
    simp only [sampleSteps, List.forall_mem_cons, Assembly.Step.Fits]
    refine ⟨trivial, ⟨by decide, by decide, decodes, by decide⟩, trivial, by decide, trivial,
      Pool.names_member_iff.2 ⟨_, _, _, member⟩, by simp⟩
  exact ⟨c, assembled, parse_write_of_lawful.2 "A" sampleSteps c assembled short texts fits
    (by omega) (by omega) (by omega)⟩

end ClassFile

end Clarify
