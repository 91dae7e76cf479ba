import Clarify.Text.Utf16

/-!
# Modified UTF-8

The encoding of text in class files. Each UTF-16 unit is encoded by itself in one to three
bytes, so a character outside the basic plane takes six; the unit 0 takes two bytes, so an
encoded text has no zero byte. Reading never fails: a byte that starts no encoded unit counts as
U+FFFD.

Results:
* `encodeUnits_cons`, `units_cons`: both directions go unit by unit.
-/

namespace Clarify.ModifiedUtf8

/-- The one to three bytes of a unit. -/
def encodeUnit (u : UInt16) : Bytes :=
  let n := u.toNat
  if n ≠ 0 ∧ n < 0x80 then [UInt8.ofNat n]
  else if n < 0x800 then [UInt8.ofNat (0xC0 + n / 0x40), UInt8.ofNat (0x80 + n % 0x40)]
  else [UInt8.ofNat (0xE0 + n / 0x1000), UInt8.ofNat (0x80 + n / 0x40 % 0x40),
    UInt8.ofNat (0x80 + n % 0x40)]

/-- The bytes of a row of units. -/
def encodeUnits (units : List UInt16) : Bytes := units.flatMap encodeUnit

/-- The bytes of a text. -/
def encode (text : String) : Bytes := encodeUnits (Utf16.ofString text)

/-- Whether a byte goes on with a unit begun before it. -/
def isTail (b : UInt8) : Bool := 0x80 ≤ b && b < 0xC0

/-- The unit at the front of `b :: rest` and the bytes behind it. -/
def next (b : UInt8) (rest : Bytes) : UInt16 × Bytes :=
  if b < 0x80 then (b.toUInt16, rest)
  else if 0xC0 ≤ b && b < 0xE0 then
    match rest with
    | c :: rest' =>
      if isTail c then (UInt16.ofNat ((b.toNat - 0xC0) * 0x40 + (c.toNat - 0x80)), rest')
      else (0xFFFD, rest)
    | [] => (0xFFFD, rest)
  else if 0xE0 ≤ b && b < 0xF0 then
    match rest with
    | c :: d :: rest' =>
      if isTail c && isTail d then
        (UInt16.ofNat ((b.toNat - 0xE0) * 0x1000 + (c.toNat - 0x80) * 0x40 + (d.toNat - 0x80)),
          rest')
      else (0xFFFD, rest)
    | _ => (0xFFFD, rest)
  else (0xFFFD, rest)

/-- Reading a unit leaves no more than the bytes behind its first one. -/
theorem length_next_le (b : UInt8) (rest : Bytes) : (next b rest).2.length ≤ rest.length := by
  unfold next
  split
  · exact Nat.le_refl _
  split
  · split
    · split
      · exact Nat.le_succ _
      · exact Nat.le_refl _
    · exact Nat.le_refl _
  split
  · split
    · split
      · exact Nat.le_add_right _ 2
      · exact Nat.le_refl _
    · exact Nat.le_refl _
  · exact Nat.le_refl _

/-- The units of a byte string, behind the reversed `acc`. -/
def unitsOnto (acc : List UInt16) : Bytes → List UInt16
  | [] => acc.reverse
  | b :: rest => unitsOnto ((next b rest).1 :: acc) (next b rest).2
termination_by bytes => bytes.length
decreasing_by exact Nat.lt_succ_of_le (length_next_le b rest)

/-- The units that a byte string stands for (`decode_utf16`). -/
def units (bytes : Bytes) : List UInt16 := unitsOnto [] bytes

/-- The text that a byte string stands for, with U+FFFD for what is malformed. -/
def decode (bytes : Bytes) : String := Utf16.decodeLossy (units bytes)

/-! ## Unit by unit -/

theorem encodeUnits_cons (u : UInt16) (rest : List UInt16) :
    encodeUnits (u :: rest) = encodeUnit u ++ encodeUnits rest := rfl

theorem unitsOnto_eq (acc : List UInt16) (bytes : Bytes) :
    unitsOnto acc bytes = acc.reverse ++ units bytes := by
  induction h : bytes.length using Nat.strongRecOn generalizing acc bytes with
  | ind n ih =>
    cases bytes with
    | nil => simp [units, unitsOnto]
    | cons b rest =>
      have shorter : (next b rest).2.length < n := by
        have := length_next_le b rest
        simp only [List.length_cons] at h
        omega
      rw [units, unitsOnto, unitsOnto, ih _ shorter _ _ rfl, ih _ shorter [_] _ rfl]
      simp

theorem units_cons (b : UInt8) (rest : Bytes) :
    units (b :: rest) = (next b rest).1 :: units (next b rest).2 := by
  rw [units, unitsOnto, unitsOnto_eq]
  rfl

end Clarify.ModifiedUtf8
