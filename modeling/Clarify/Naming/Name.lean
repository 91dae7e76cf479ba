import Clarify.Bytes.Hex
import Clarify.Bytes.Sha256
import Clarify.ClassFile
import Clarify.Text.Utf8

/-!
# Names

Which names must stay, which look machine-made, which a class file accepts, and how a new name
is put together.

Results:
* `isValid_iff`: a valid name is a non-empty one without any of six characters.
-/

namespace Clarify.Name

/-- Whether the virtual machine knows a symbol by its name: constructors, initialisers and the entry
point of a program (`is_special`). Classes are never renamed at all. -/
def isSpecial (s : Symbol) : Bool :=
  match s.kind with
  | .method =>
    s.name == "<init>" || s.name == "<clinit>"
      || (s.name == "main" && s.descriptor == "([Ljava/lang/String;)V")
  | .field => false
  | .class => true

/-- The characters of plain identifiers (`is_identifier_char`). -/
def isIdentifierChar (c : Char) : Bool := c.isAlphanum || c == '_' || c == '$'

/-- Glyphs that are easily taken for one another (`CONFUSABLE`). -/
def isConfusable (c : Char) : Bool :=
  c == 'I' || c == 'l' || c == '1' || c == 'O' || c == '0' || c == '_'

/-- Whether a name looks machine-made: at most `maxLength` characters, or characters outside plain
identifiers, or confusable glyphs only (`is_obfuscated`). -/
def isObfuscated (maxLength : Nat) (name : String) : Bool :=
  let chars := name.toList
  !chars.isEmpty
    && (chars.length ≤ maxLength || !chars.all isIdentifierChar || chars.all isConfusable)

/-- The characters that no name of a member may have. -/
def isForbiddenChar (c : Char) : Bool :=
  c == '.' || c == ';' || c == '[' || c == '/' || c == '<' || c == '>'

/-- Whether a field or a method may have the name (`is_valid_member_name`). -/
def isValid (name : String) : Bool :=
  let chars := name.toList
  !chars.isEmpty && !chars.any isForbiddenChar

/-- Eight hexadecimal digits that depend on nothing but the name. -/
def fingerprint (name : String) : String :=
  Hex.encode ((Sha256.digest name.toUTF8).take 4)

/-- The old name as the tail of a new one: with a capital first letter if it is a plain
identifier, and as `X` with its fingerprint otherwise. -/
def qualifier (old : String) : String :=
  match old.toList with
  | [] => "X" ++ fingerprint old
  | first :: rest =>
    if (first :: rest).all isIdentifierChar then String.ofList (first.toUpper :: rest)
    else "X" ++ fingerprint old

/-- The new name for `old` behind a lead word (`synthesize_name`). -/
def synthesize (lead old : String) : String := lead ++ qualifier old

/-- Private methods that the virtual machine calls while it writes or reads objects
(`JVM_HOOKS`). -/
def serializationHooks : List (String × String) := [
  ("writeObject", "(Ljava/io/ObjectOutputStream;)V"),
  ("readObject", "(Ljava/io/ObjectInputStream;)V"),
  ("readObjectNoData", "()V"),
  ("writeReplace", "()Ljava/lang/Object;"),
  ("readResolve", "()Ljava/lang/Object;")]

/-- Whether the virtual machine calls a method of this name and descriptor by itself
(`is_jvm_hook`). -/
def isSerializationHook (name descriptor : String) : Bool :=
  serializationHooks.contains (name, descriptor)

theorem isValid_iff (name : String) :
    isValid name = true ↔ name.toList ≠ [] ∧ ∀ c ∈ name.toList, isForbiddenChar c = false := by
  simp [isValid]

end Clarify.Name
