import Clarify.Bytes.Hex
import Clarify.Json
import Clarify.Text.Utf16

/-!
# Reading JSON

A text is one value with blanks around it. Reading says only whether there is a value, not what
is wrong with a text that has none.
-/

namespace Clarify.Json.Reader

/-- The blanks that may stand between the parts of a value. -/
def isBlank (c : Char) : Bool := c == ' ' || c == '\n' || c == '\t' || c == '\r'

/-- The text behind its leading blanks. -/
def skipBlanks (text : List Char) : List Char := text.dropWhile isBlank

/-! ## Strings -/

/-- The character behind a backslash, if it is one of the short escapes. -/
def shortEscape? (c : Char) : Option Char :=
  match c with
  | '"' => some '"'
  | '\\' => some '\\'
  | '/' => some '/'
  | 'b' => some '\x08'
  | 'f' => some '\x0c'
  | 'n' => some '\n'
  | 'r' => some '\r'
  | 't' => some '\t'
  | _ => none

/-- The unit written as four hexadecimal digits. -/
def unit? (a b c d : Char) : Option UInt16 := do
  let a ← Hex.value? a
  let b ← Hex.value? b
  let c ← Hex.value? c
  let d ← Hex.value? d
  return UInt16.ofNat (((a * 16 + b) * 16 + c) * 16 + d)

/-- The units up to the closing quote, behind the reversed `acc`, and the text behind it. -/
def unitsOnto (acc : List UInt16) : List Char → Option (List UInt16 × List Char)
  | [] => none
  | '"' :: rest => some (acc.reverse, rest)
  | '\\' :: 'u' :: a :: b :: c :: d :: rest =>
    match unit? a b c d with
    | some u => unitsOnto (u :: acc) rest
    | none => none
  | '\\' :: c :: rest =>
    match shortEscape? c with
    | some e => unitsOnto (UInt16.ofNat e.toNat :: acc) rest
    | none => none
  | c :: rest =>
    if c.toNat < 0x20 || c == '\\' then none
    else unitsOnto ((Utf16.ofChar c).reverse ++ acc) rest

/-- The string behind an opening quote, and the text behind its closing one. -/
def string (text : List Char) : Option (Json × List Char) :=
  (unitsOnto [] text).map fun (units, rest) =>
    match Utf16.decode? units with
    | some s => (.string s, rest)
    | none => (.brokenString, rest)

/-! ## Numbers -/

/-- The leading digits of a text and what stands behind them. -/
def digits (text : List Char) : List Char × List Char := text.span Char.isDigit

/-- The number that digits stand for. -/
def valueOf (ds : List Char) : Nat := ds.foldl (fun n c => 10 * n + (c.toNat - 48)) 0

/-- The digits in front of the point: a single zero, or digits without leading zeros. -/
def wholePart? (text : List Char) : Option (List Char × List Char) :=
  match digits text with
  | ([], _) => none
  | (['0'], rest) => some (['0'], rest)
  | ('0' :: _, _) => none
  | (ds, rest) => some (ds, rest)

/-- The digits behind a point, if there is one. -/
def fraction? (text : List Char) : Option (Option (List Char) × List Char) :=
  match text with
  | '.' :: rest =>
    match digits rest with
    | ([], _) => none
    | (ds, rest) => some (some ds, rest)
  | rest => some (none, rest)

/-- The power of ten behind an `e`, if there is one. -/
def power? (text : List Char) : Option (Option Int × List Char) :=
  match text with
  | 'e' :: rest | 'E' :: rest =>
    let (negative, rest) := match rest with
      | '-' :: rest => (true, rest)
      | '+' :: rest => (false, rest)
      | rest => (false, rest)
    match digits rest with
    | ([], _) => none
    | (ds, rest) => some (some (if negative then -(valueOf ds : Int) else valueOf ds), rest)
  | rest => some (none, rest)

/-- The number at the front of a text. -/
def number (text : List Char) : Option (Json × List Char) := do
  let (negative, text) := match text with
    | '-' :: rest => (true, rest)
    | rest => (false, rest)
  let (whole, text) ← wholePart? text
  let (fraction, text) ← fraction? text
  let (power, text) ← power? text
  let behind := fraction.getD []
  return (.number {
    negative
    digits := valueOf (whole ++ behind)
    exponent := power.getD 0 - behind.length
    integral := fraction.isNone && power.isNone }, text)

/-! ## Values -/

/-- The text behind a fixed word. -/
def afterWord? (word text : List Char) : Option (List Char) :=
  if word.isPrefixOf text then some (text.drop word.length) else none

/-- The key of a member, if it is a text, and what stands behind its colon. -/
def key? (text : List Char) : Option (Option String × List Char) :=
  match text with
  | '"' :: rest =>
    match string rest with
    | some (key, rest) =>
      match skipBlanks rest with
      | ':' :: rest => some (key.text?, rest)
      | _ => none
    | none => none
  | _ => none

/-- The object of members that may have broken keys. -/
def objectOf (members : List (Option String × Json)) : Json :=
  match members.mapM fun (key, item) => key.map (·, item) with
  | some members => .object members
  | none => .brokenObject

mutual

/-- The value at the front of a text, and what stands behind it. Each step down or along takes
one of `steps`. -/
def value (steps : Nat) (text : List Char) : Option (Json × List Char) :=
  match steps with
  | 0 => none
  | steps + 1 =>
    match skipBlanks text with
    | '"' :: rest => string rest
    | '[' :: rest =>
      match skipBlanks rest with
      | ']' :: rest => some (.array [], rest)
      | rest => items steps [] rest
    | '\x7b' :: rest =>
      match skipBlanks rest with
      | '\x7d' :: rest => some (.object [], rest)
      | rest => members steps [] rest
    | 'n' :: rest => (afterWord? ['u', 'l', 'l'] rest).map (Json.null, ·)
    | 't' :: rest => (afterWord? ['r', 'u', 'e'] rest).map (Json.bool true, ·)
    | 'f' :: rest => (afterWord? ['a', 'l', 's', 'e'] rest).map (Json.bool false, ·)
    | rest => number rest

/-- The items of an array up to its closing bracket, behind the reversed `acc`. -/
def items (steps : Nat) (acc : List Json) (text : List Char) : Option (Json × List Char) :=
  match steps with
  | 0 => none
  | steps + 1 =>
    match value steps text with
    | none => none
    | some (item, rest) =>
      match skipBlanks rest with
      | ',' :: rest => items steps (item :: acc) rest
      | ']' :: rest => some (.array (item :: acc).reverse, rest)
      | _ => none

/-- The members of an object up to its closing brace, behind the reversed `acc`. -/
def members (steps : Nat) (acc : List (Option String × Json)) (text : List Char) :
    Option (Json × List Char) :=
  match steps with
  | 0 => none
  | steps + 1 =>
    match key? (skipBlanks text) with
    | none => none
    | some (key, rest) =>
      match value steps rest with
      | none => none
      | some (item, rest) =>
        match skipBlanks rest with
        | ',' :: rest => members steps ((key, item) :: acc) rest
        | '\x7d' :: rest => some (objectOf ((key, item) :: acc).reverse, rest)
        | _ => none

end

end Clarify.Json.Reader

namespace Clarify

/-- The value that a text holds. Every second step at least reads a character, so twice its
length is enough. -/
def Json.parse? (text : String) : Option Json :=
  let chars := text.toList
  match Json.Reader.value (2 * chars.length + 2) chars with
  | some (value, rest) => if (Json.Reader.skipBlanks rest).isEmpty then some value else none
  | none => none

end Clarify
