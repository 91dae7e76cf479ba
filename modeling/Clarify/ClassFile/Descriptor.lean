import Clarify.Bytes

/-!
# Descriptors

The types of fields and methods as class files spell them: `I` and its like for primitive types,
`L…;` for classes, `[` in front of an element type for arrays, and `(…)` around the parameters
of a method in front of its return type. Only what naming needs is read: how many parameters a
method has, and of which broad kind a value is.
-/

namespace Clarify

/-- A broad kind of value. -/
inductive ValueKind where
  | void
  | boolean
  | primitive
  | reference
deriving Repr, DecidableEq

namespace ValueKind

/-- The kind of the type that begins with the given character (`ValueKind::from_tag`). -/
def ofTag? (tag : Char) : Option ValueKind :=
  match tag with
  | 'V' => some .void
  | 'Z' => some .boolean
  | 'B' | 'C' | 'S' | 'I' | 'J' | 'F' | 'D' => some .primitive
  | 'L' | '[' => some .reference
  | _ => none

/-- The number that stands for the kind in a feature vector. -/
def indicator : ValueKind → Nat
  | .void => 0
  | .boolean => 1
  | .primitive => 2
  | .reference => 3

end ValueKind

namespace Descriptor

/-- What stands behind the class name that `text` begins with, which ends at its first semicolon
(part of `skip_field_type`). -/
def afterClassName? : List Char → Option (List Char)
  | [] => none
  | ';' :: rest => some rest
  | _ :: rest => afterClassName? rest

/-- What stands behind the field type that `text` begins with (`skip_field_type`). -/
def afterFieldType? : List Char → Option (List Char)
  | [] => none
  | '[' :: rest => afterFieldType? rest
  | 'L' :: rest => afterClassName? rest
  | tag :: rest =>
    match ValueKind.ofTag? tag with
    | some .primitive | some .boolean => some rest
    | _ => none

theorem length_afterClassName? {text rest : List Char} (h : afterClassName? text = some rest) :
    rest.length < text.length := by
  induction text with
  | nil => cases h
  | cons c text ih =>
    unfold afterClassName? at h
    split at h
    · contradiction
    · next heq => cases heq; cases h; exact Nat.lt_succ_self _
    · next heq => cases heq; exact Nat.lt_succ_of_lt (ih h)

theorem length_afterFieldType? {text rest : List Char} (h : afterFieldType? text = some rest) :
    rest.length < text.length := by
  induction text with
  | nil => cases h
  | cons c text ih =>
    unfold afterFieldType? at h
    split at h
    · contradiction
    · next heq => cases heq; exact Nat.lt_succ_of_lt (ih h)
    · next heq => cases heq; exact Nat.lt_succ_of_lt (length_afterClassName? h)
    · next heq =>
      cases heq
      split at h <;> cases h <;> exact Nat.lt_succ_self _

/-- The number of parameters up to the closing parenthesis, `before` counted ahead, and what stands
behind it (part of `method_shape`). -/
def parameters? (before : Nat) : List Char → Option (Nat × List Char)
  | [] => none
  | c :: text =>
    if c = ')' then some (before, text)
    else
      match _h : afterFieldType? (c :: text) with
      | some rest => parameters? (before + 1) rest
      | none => none
termination_by text => text.length
decreasing_by exact length_afterFieldType? _h

/-- The number of parameters and the kind of the return value of a method (`method_shape`). What
follows the first character of the return type does not matter. -/
def methodShape? (descriptor : String) : Option (Nat × ValueKind) :=
  match descriptor.toList with
  | '(' :: rest => do
    let (arity, result) ← parameters? 0 rest
    let kind ← ValueKind.ofTag? (← result.head?)
    return (arity, kind)
  | _ => none

/-- The kind of value that a field holds, by the first character of its type (`field_kind`). -/
def fieldKind? (descriptor : String) : Option ValueKind :=
  match descriptor.toList.head?.bind ValueKind.ofTag? with
  | some .void => none
  | kind => kind

end Descriptor

end Clarify
