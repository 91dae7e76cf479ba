import Clarify.Decimal.Shortest

/-!
# JSON values

Values as they stand in a text: objects keep the order and the repetitions of their keys, and
numbers keep their decimal form, so that each use can say which numbers it takes. A string that
holds half of a surrogate pair is no text; it may stand where nobody looks, and nowhere else, and
so may an object with such a key.
-/

namespace Clarify

/-- A number as it is written: its digits as a whole number, times a power of ten. -/
structure Json.Number where
  negative : Bool
  digits : Nat
  exponent : Int
  /-- Whether it is written without a point and without an exponent. -/
  integral : Bool
deriving Repr, DecidableEq

/-- A JSON value. -/
inductive Json where
  | null
  | bool (value : Bool)
  | number (value : Json.Number)
  | string (text : String)
  /-- A string that is no text. -/
  | brokenString
  | array (items : List Json)
  | object (members : List (String × Json))
  /-- An object with a key that is no text. -/
  | brokenObject

namespace Json

/-! ## Scalars -/

/-- The bound of unsigned 64-bit numbers. -/
def wordBound : Nat := 18446744073709551616

/-- The value of a number that is written as an unsigned 64-bit integer. A zero with a sign is
none. -/
def Number.toWord? (n : Number) : Option Nat :=
  if n.integral && !n.negative && n.digits < wordBound then some n.digits else none

/-- The double nearest to a number, unless it is too large for one. -/
def Number.toFloat? (n : Number) : Option Float :=
  let size := (toString n.digits).length + n.exponent
  let magnitude : Option Float :=
    if n.digits = 0 ∨ size < -400 then some 0.0
    else if 400 < size then none
    else
      let x := OfScientific.ofScientific n.digits (decide (n.exponent < 0)) n.exponent.natAbs
      if x.isFinite then some x else none
  magnitude.map fun x => if n.negative then -x else x

/-- The unsigned 64-bit integer that a value is. -/
def word? : Json → Option Nat
  | .number n => n.toWord?
  | _ => none

/-- The double that a value is. -/
def float? : Json → Option Float
  | .number n => n.toFloat?
  | _ => none

/-- The text that a value is. -/
def text? : Json → Option String
  | .string s => some s
  | _ => none

/-- The truth value that a value is. -/
def bool? : Json → Option Bool
  | .bool b => some b
  | _ => none

/-- The items that a value holds. -/
def items? : Json → Option (List Json)
  | .array items => some items
  | _ => none

/-- One of a fixed set of words: the word itself, or an object with it as the only key and
nothing under it. -/
def variant? : Json → Option String
  | .string s => some s
  | .object [(key, .null)] => some key
  | _ => none

/-! ## Records -/

/-- The value under a key, if it is there at most once. -/
def uniqueMember? (members : List (String × Json)) (key : String) : Option (Option Json) :=
  match members.filter (·.1 == key) with
  | [] => some none
  | [(_, value)] => some (some value)
  | _ => none

/-- The values of the named fields. A record is an object, where other keys do not matter and
none of the named ones may be repeated, or an array of its fields in order, where the last ones
may be missing. -/
def record? (fields : List String) : Json → Option (List (Option Json))
  | .object members => fields.mapM (uniqueMember? members)
  | .array items =>
    if items.length ≤ fields.length then
      some (items.map some ++ List.replicate (fields.length - items.length) none)
    else none
  | _ => none

end Json

end Clarify
