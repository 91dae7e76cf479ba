import Clarify.Bytes

/-!
# Reading bits

The bits of a byte string, the lowest bit of each byte first.

Results:
* `size_next?`: each bit that is read leaves one bit less.
-/

namespace Clarify

/-- The bits that are still to be read: those of the byte begun, and the bytes behind it. -/
structure Bits where
  begun : List Bool
  rest : Bytes

namespace Bits

/-- The bits of a byte string. -/
def ofBytes (bytes : Bytes) : Bits := ⟨[], bytes⟩

/-- The eight bits of a byte. -/
def ofByte (b : UInt8) : List Bool := (List.range 8).map fun i => b.toNat.testBit i

/-- How many bits are left. -/
def size (s : Bits) : Nat := s.begun.length + 8 * s.rest.length

/-- The next bit and the bits behind it. -/
def next? (s : Bits) : Option (Bool × Bits) :=
  match s.begun, s.rest with
  | bit :: begun, rest => some (bit, ⟨begun, rest⟩)
  | [], b :: rest => some (b.toNat.testBit 0, ⟨(ofByte b).drop 1, rest⟩)
  | [], [] => none

/-- The number in the next `count` bits, the lowest bit first. -/
def number? (count : Nat) (s : Bits) : Option (Nat × Bits) :=
  match count with
  | 0 => some (0, s)
  | count + 1 => do
    let (bit, s) ← s.next?
    let (high, s) ← s.number? count
    return (2 * high + bit.toNat, s)

/-- The bytes that begin behind the byte begun. -/
def wholeBytes (s : Bits) : Bytes := s.rest

theorem size_next? {s t : Bits} {bit : Bool} (h : s.next? = some (bit, t)) :
    t.size + 1 = s.size := by
  obtain ⟨begun, rest⟩ := s
  cases begun with
  | cons b begun =>
    simp only [next?, Option.some.injEq, Prod.mk.injEq] at h
    simp only [← h.2, size, List.length_cons]
    omega
  | nil =>
    cases rest with
    | nil => simp [next?] at h
    | cons b rest =>
      simp only [next?, Option.some.injEq, Prod.mk.injEq] at h
      simp only [← h.2, size, ofByte, List.length_drop, List.length_map, List.length_range,
        List.length_nil, List.length_cons]
      omega

end Bits

end Clarify
