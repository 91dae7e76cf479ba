import Clarify.ClassFile

/-!
# Assembling class files

Class files built member by member. Every text, class and reference goes into the pool once.
Bodies get room for eight operands and eight locals, and no stack maps, so the result is well
formed but a virtual machine may still refuse to verify it.
-/

namespace Clarify

/-- A step that adds to a class file; it has no result where the constant pool is full. -/
abbrev Assembly := StateT ClassFile Option

namespace Assembly

/-! ## Constants -/

/-- The index of a constant, added unless the pool has it (`intern`). -/
def constant (c : Constant) : Assembly UInt16 := fun file => do
  let (index, pool) ← file.pool.intern? c
  return (index, { file with pool })

/-- The index of a text (`ClassBuilder::utf8`). -/
def text (value : String) : Assembly UInt16 := constant (.utf8 (ModifiedUtf8.encode value))

/-- The index of a class (`ClassBuilder::class_ref`). -/
def classRef (name : String) : Assembly UInt16 := do constant (.classRef (← text name))

/-- The index of a string. -/
def string (value : String) : Assembly UInt16 := do constant (.string (← text value))

/-- The index of an integer. -/
def integer (bits : UInt32) : Assembly UInt16 := constant (.integer bits)

/-- The index of a name with a descriptor (`ClassBuilder::name_and_type`). -/
def nameAndType (name descriptor : String) : Assembly UInt16 := do
  let name ← text name
  let descriptor ← text descriptor
  constant (.nameAndType name descriptor)

/-- The index of a member reference (`ClassBuilder::member_ref`). -/
def memberRef (kind : RefKind) (owner name descriptor : String) : Assembly UInt16 := do
  let owner ← classRef owner
  let pair ← nameAndType name descriptor
  constant (.memberRef kind owner pair)

/-- The index of a handle that calls the static method behind `reference`
(`ClassBuilder::static_method_handle`). -/
def staticMethodHandle (reference : UInt16) : Assembly UInt16 :=
  constant (.methodHandle 6 reference)

/-! ## Members and attributes -/

/-- A member with the given attributes. -/
def member (access : UInt16) (name descriptor : String) (attributes : List MemberAttribute) :
    Assembly Member := do
  let name ← text name
  let descriptor ← text descriptor
  return { access, name, descriptor, attributes }

/-- Adds a field. -/
def field (access : UInt16) (name descriptor : String) : Assembly Unit := do
  let m ← member access name descriptor []
  modify fun file => { file with fields := file.fields.push m }

/-- Adds a method with a body (`ClassBuilder::method_with_handlers`). -/
def method (access : UInt16) (name descriptor : String) (bytes : Bytes) (handlers : List Handler) :
    Assembly Unit := do
  let code ← text "Code"
  let body : Code :=
    { maxStack := 8, maxLocals := 8, bytes := bytes.toArray, handlers, attributes := [] }
  let m ← member access name descriptor [.code code body]
  modify fun file => { file with methods := file.methods.push m }

/-- Adds a method without a body (`ClassBuilder::bodiless_method`). -/
def bodilessMethod (access : UInt16) (name descriptor : String) : Assembly Unit := do
  let m ← member access name descriptor []
  modify fun file => { file with methods := file.methods.push m }

/-- Adds an attribute to the class (`ClassBuilder::class_attribute`). -/
def classAttribute (name : String) (info : Bytes) : Assembly Unit := do
  let name ← text name
  modify fun file => { file with attributes := file.attributes ++ [{ name, info }] }

/-! ## Whole classes -/

/-- A class file of version 52 with no class and no members yet. -/
def blank : ClassFile where
  minorVersion := 0
  majorVersion := 52
  pool := .empty
  access := Access.public ||| Access.super
  thisClass := 0
  superClass := 0
  interfaces := []
  fields := #[]
  methods := #[]
  attributes := []

/-- A public class of the given name that extends `java/lang/Object` (`ClassBuilder::new`). -/
def newClass (name : String) : Assembly Unit := do
  let thisClass ← classRef name
  let superClass ← classRef "java/lang/Object"
  modify fun file => { file with thisClass, superClass }

/-- What the steps assemble for a class of the given name. -/
def build {α : Type} (name : String) (steps : Assembly α) : Option (α × ClassFile) :=
  (do newClass name; steps : Assembly α).run blank

end Assembly

end Clarify
