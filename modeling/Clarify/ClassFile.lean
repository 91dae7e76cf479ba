import Clarify.ClassFile.Code
import Clarify.ClassFile.Pool
import Clarify.ClassFile.Symbol

/-!
# Class files

A class file holds one class: its version, a constant pool, flags, the class and its ancestors,
fields, methods, and attributes. Reading checks every index that the structure itself holds and
decodes every method body; whatever is read can be written back to the same bytes.
-/

namespace Clarify

/-- An attribute of a field or a method (`Attribute`). -/
inductive MemberAttribute where
  | code (name : UInt16) (body : Code)
  | other (raw : Attribute)
deriving Repr, DecidableEq

/-- A field or a method (`MemberInfo`). -/
structure Member where
  access : UInt16
  name : UInt16
  descriptor : UInt16
  attributes : List MemberAttribute
deriving Repr, DecidableEq

/-- A class file (`ClassUnit`). -/
structure ClassFile where
  minorVersion : UInt16
  majorVersion : UInt16
  pool : Pool
  access : UInt16
  thisClass : UInt16
  superClass : UInt16
  interfaces : List UInt16
  fields : Array Member
  methods : Array Member
  attributes : List Attribute
deriving Repr, DecidableEq

/-! ## Access flags -/

namespace Access

def «public» : UInt16 := 0x0001
def «private» : UInt16 := 0x0002
def static : UInt16 := 0x0008
def super : UInt16 := 0x0020
def native : UInt16 := 0x0100
def synthetic : UInt16 := 0x1000

end Access

namespace Member

def isPrivate (m : Member) : Bool := m.access &&& Access.private != 0

def isStatic (m : Member) : Bool := m.access &&& Access.static != 0

/-- Whether the method is implemented outside the class file (`MemberInfo::is_native`). -/
def isNative (m : Member) : Bool := m.access &&& Access.native != 0

/-- Whether the member comes from the compiler and not from the source text
(`MemberInfo::is_synthetic`). -/
def isSynthetic (m : Member) : Bool := m.access &&& Access.synthetic != 0

end Member

/-! ## Bodies -/

/-- The body in an attribute. -/
def MemberAttribute.body? : MemberAttribute → Option Code
  | .code _ body => some body
  | .other _ => none

namespace Member

/-- The body of a method: the first one among its attributes (`MemberInfo::code`). -/
def body? (m : Member) : Option Code := m.attributes.findSome? MemberAttribute.body?

/-- Attributes with the first body among them changed. -/
def mapFirstBody (change : Code → Code) : List MemberAttribute → List MemberAttribute
  | [] => []
  | .code name body :: rest => .code name (change body) :: rest
  | .other a :: rest => .other a :: mapFirstBody change rest

/-- The method with its body changed (`MemberInfo::code_mut`). -/
def mapBody (m : Member) (change : Code → Code) : Member :=
  { m with attributes := mapFirstBody change m.attributes }

end Member

namespace ClassFile

/-! ## Names -/

/-- The internal name of the class, such as `com/example/Client` (`ClassUnit::class_name`). -/
def className (c : ClassFile) : String := (c.pool.className? c.thisClass).getD ""

/-- The name of a member (`ClassUnit::member_name`). -/
def nameOf (c : ClassFile) (m : Member) : String := (c.pool.text? m.name).getD ""

/-- The descriptor of a member (`ClassUnit::member_descriptor`). -/
def descriptorOf (c : ClassFile) (m : Member) : String := (c.pool.text? m.descriptor).getD ""

/-- A method as reports show it: class, name and descriptor (`ClassUnit::method_label`). -/
def labelOf (c : ClassFile) (m : Member) : String :=
  c.className ++ "." ++ c.nameOf m ++ c.descriptorOf m

/-- The symbol that a member declares. -/
def symbolOf (c : ClassFile) (kind : SymbolKind) (m : Member) : Symbol :=
  { kind, name := c.nameOf m, descriptor := c.descriptorOf m }

/-- The symbols of the fields, then of the methods, in declaration order. -/
def memberSymbols (c : ClassFile) : List Symbol :=
  (c.fields.map (c.symbolOf .field)).toList ++ (c.methods.map (c.symbolOf .method)).toList

/-- The class itself, then its members. -/
def symbols (c : ClassFile) : List Symbol :=
  { kind := .class, name := c.className, descriptor := "" } :: c.memberSymbols

/-- The position of the first method with the given name and descriptor
(`ClassUnit::find_method`). -/
def findMethod? (c : ClassFile) (name descriptor : String) : Option Nat :=
  c.methods.findIdx? fun m => c.nameOf m == name && c.descriptorOf m == descriptor

/-- Whether the class has an attribute of the given name (`ClassUnit::has_attribute`). -/
def hasAttribute (c : ClassFile) (name : String) : Bool :=
  c.attributes.any fun a => c.pool.text? a.name == some name

/-- The labels of the methods implemented outside the class file, in declaration order
(`native_methods`). -/
def nativeMethods (c : ClassFile) : List String :=
  (c.methods.toList.filter Member.isNative).map c.labelOf

/-! ## Writing -/

/-- The number that every class file begins with (`MAGIC`). -/
def magic : UInt32 := 0xCAFEBABE

/-- An attribute of a member as it stands in a class file. -/
def writeMemberAttribute : MemberAttribute → Bytes
  | .code name body => Attribute.writeParts name body.write
  | .other a => a.write

/-- A member as it stands in a class file. -/
def writeMember (m : Member) : Bytes :=
  be16 m.access ++ be16 m.name ++ be16 m.descriptor ++ be16 (UInt16.ofNat m.attributes.length)
    ++ m.attributes.flatMap writeMemberAttribute

/-- A counted row of members as it stands in a class file (`write_members`). -/
def writeMembers (members : Array Member) : Bytes :=
  be16 (UInt16.ofNat members.size) ++ members.toList.flatMap writeMember

/-- The bytes of the class file (`ClassUnit::to_bytes`). -/
def write (c : ClassFile) : Bytes :=
  be32 magic ++ be16 c.minorVersion ++ be16 c.majorVersion ++ c.pool.write
    ++ be16 c.access ++ be16 c.thisClass ++ be16 c.superClass
    ++ be16 (UInt16.ofNat c.interfaces.length) ++ c.interfaces.flatMap be16
    ++ writeMembers c.fields ++ writeMembers c.methods ++ Attribute.writeAll c.attributes

/-! ## Reading -/

/-- The oldest version that is read (`MIN_MAJOR_VERSION`). -/
def minMajorVersion : UInt16 := 45

/-- The newest version that is read (`MAX_MAJOR_VERSION`). -/
def maxMajorVersion : UInt16 := 69

/-- Makes a check part of reading. -/
def require (check : Except FormatError Unit) : Reader Unit :=
  match check with
  | .ok _ => pure ()
  | .error e => throw e

/-- Decodes an attribute of a member: the one named `Code` holds a body. -/
def decodeMemberAttribute (pool : Pool) (a : Attribute) : Except FormatError MemberAttribute := do
  pool.expectText a.name
  if pool.text? a.name = some "Code" then
    return .code a.name (← Reader.parse Code.read a.info)
  else return .other a

open Reader in
/-- Reads a member (part of `parse_members`). -/
def readMember (pool : Pool) : Reader Member := do
  let access ← u16
  let name ← u16
  let descriptor ← u16
  require (pool.expectText name)
  require (pool.expectText descriptor)
  let raw ← Attribute.readAll
  match raw.mapM (decodeMemberAttribute pool) with
  | .ok attributes => return { access, name, descriptor, attributes }
  | .error e => throw e

open Reader in
/-- Reads a counted row of members (`parse_members`). -/
def readMembers (pool : Pool) : Reader (Array Member) := do
  let count ← u16
  return (← times count.toNat (readMember pool)).toArray

open Reader in
/-- Reads the index of a class. -/
def readClassIndex (pool : Pool) : Reader UInt16 := do
  let index ← u16
  require (pool.expectClass index)
  return index

open Reader in
/-- Reads the index of a class, or 0 for none. -/
def readOptionalClassIndex (pool : Pool) : Reader UInt16 := do
  let index ← u16
  if index ≠ 0 then require (pool.expectClass index)
  return index

open Reader in
/-- Reads a class file up to the end of the bytes (part of `ClassUnit::parse`). -/
def read : Reader ClassFile := do
  let found ← u32
  if found ≠ magic then throw (.badMagic found)
  let minorVersion ← u16
  let majorVersion ← u16
  if majorVersion < minMajorVersion || maxMajorVersion < majorVersion then
    throw (.unsupportedVersion majorVersion minorVersion)
  let pool ← Pool.read
  let access ← u16
  let thisClass ← readClassIndex pool
  let superClass ← readOptionalClassIndex pool
  let interfaces ← times (← u16).toNat (readClassIndex pool)
  let fields ← readMembers pool
  let methods ← readMembers pool
  let attributes ← Attribute.readAll
  require (attributes.forM fun a => pool.expectText a.name)
  let unread ← remaining
  if unread ≠ 0 then throw (.trailingBytes unread)
  return { minorVersion, majorVersion, pool, access, thisClass, superClass, interfaces, fields,
           methods, attributes }

/-- The class file that a byte string holds. -/
def parse (bytes : Bytes) : Except FormatError ClassFile := Reader.parse read bytes

end ClassFile

end Clarify
