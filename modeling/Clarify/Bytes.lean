/-!
# Byte strings and big-endian words

A byte string is a list of bytes. Multi-byte words are written most significant byte first.

Results:
* `be16_word16`, `be32_word32`: splitting a word into its bytes undoes putting them together.
* `word16_be16`, `word32_be32`: and conversely.
-/

namespace Clarify

/-- A byte string. -/
abbrev Bytes := List UInt8

/-! ## Putting words together -/

/-- The 16-bit word with the given high and low byte. -/
def word16 (hi lo : UInt8) : UInt16 :=
  UInt16.ofNat (hi.toNat * 256 + lo.toNat)

/-- The 32-bit word with the given bytes, most significant first. -/
def word32 (a b c d : UInt8) : UInt32 :=
  UInt32.ofNat (((a.toNat * 256 + b.toNat) * 256 + c.toNat) * 256 + d.toNat)

/-- The 64-bit word with the given halves. -/
def word64 (hi lo : UInt32) : UInt64 :=
  UInt64.ofNat (hi.toNat * 4294967296 + lo.toNat)

/-- A number below `2 ^ 16` read as a 16-bit word in two's complement. -/
def signed16 (w : UInt16) : Int :=
  if w.toNat < 32768 then w.toNat else (w.toNat : Int) - 65536

/-- A number below `2 ^ 32` read as a 32-bit word in two's complement. -/
def signed32 (w : UInt32) : Int :=
  if w.toNat < 2147483648 then w.toNat else (w.toNat : Int) - 4294967296

/-- A byte read in two's complement. -/
def signed8 (b : UInt8) : Int :=
  if b.toNat < 128 then b.toNat else (b.toNat : Int) - 256

/-! ## Taking words apart -/

/-- The two bytes of a 16-bit word, most significant first. -/
def be16 (w : UInt16) : Bytes :=
  [UInt8.ofNat (w.toNat / 256), UInt8.ofNat w.toNat]

/-- The four bytes of a 32-bit word, most significant first. -/
def be32 (w : UInt32) : Bytes :=
  [UInt8.ofNat (w.toNat / 16777216), UInt8.ofNat (w.toNat / 65536),
    UInt8.ofNat (w.toNat / 256), UInt8.ofNat w.toNat]

/-- The eight bytes of a 64-bit word, most significant first. -/
def be64 (w : UInt64) : Bytes :=
  be32 (UInt32.ofNat (w.toNat / 4294967296)) ++ be32 (UInt32.ofNat w.toNat)

/-! ## The two directions agree -/

theorem word16_toNat (hi lo : UInt8) : (word16 hi lo).toNat = hi.toNat * 256 + lo.toNat := by
  have := hi.toNat_lt
  have := lo.toNat_lt
  simp only [word16, UInt16.toNat_ofNat']
  omega

theorem word32_toNat (a b c d : UInt8) :
    (word32 a b c d).toNat =
      ((a.toNat * 256 + b.toNat) * 256 + c.toNat) * 256 + d.toNat := by
  have := a.toNat_lt
  have := b.toNat_lt
  have := c.toNat_lt
  have := d.toNat_lt
  simp only [word32, UInt32.toNat_ofNat']
  omega

theorem be16_word16 (hi lo : UInt8) : be16 (word16 hi lo) = [hi, lo] := by
  have := hi.toNat_lt
  have := lo.toNat_lt
  simp only [be16, word16_toNat, List.cons.injEq, and_true]
  constructor <;> apply UInt8.toNat_inj.1 <;> simp only [UInt8.toNat_ofNat'] <;> omega

theorem word16_be16 (w : UInt16) :
    word16 (UInt8.ofNat (w.toNat / 256)) (UInt8.ofNat w.toNat) = w := by
  have := w.toNat_lt
  apply UInt16.toNat_inj.1
  simp only [word16_toNat, UInt8.toNat_ofNat']
  omega

theorem be32_word32 (a b c d : UInt8) : be32 (word32 a b c d) = [a, b, c, d] := by
  have := a.toNat_lt
  have := b.toNat_lt
  have := c.toNat_lt
  have := d.toNat_lt
  simp only [be32, word32_toNat, List.cons.injEq, and_true]
  refine ⟨?_, ?_, ?_, ?_⟩ <;> apply UInt8.toNat_inj.1 <;>
    simp only [UInt8.toNat_ofNat'] <;> omega

theorem word32_be32 (w : UInt32) :
    word32 (UInt8.ofNat (w.toNat / 16777216)) (UInt8.ofNat (w.toNat / 65536))
      (UInt8.ofNat (w.toNat / 256)) (UInt8.ofNat w.toNat) = w := by
  have := w.toNat_lt
  apply UInt32.toNat_inj.1
  simp only [word32_toNat, UInt8.toNat_ofNat']
  omega

@[simp] theorem length_be16 (w : UInt16) : (be16 w).length = 2 := rfl

@[simp] theorem length_be32 (w : UInt32) : (be32 w).length = 4 := rfl

@[simp] theorem length_be64 (w : UInt64) : (be64 w).length = 8 := rfl

end Clarify
