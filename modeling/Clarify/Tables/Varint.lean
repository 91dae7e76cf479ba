import Clarify.Bytes

/-!
# Numbers in as many bytes as they need

A number is cut into groups of seven bits, the highest group first, and a byte with a high bit set
is not the last one. A number takes nine bytes at the most, and the ninth has eight bits of it.

Results:
* `read?_encode`: what was written is read back, and what follows is left.
-/

namespace Clarify.Varint

/-- The `count` lowest groups of a number, each marked as not the last one. -/
def groups (count n : Nat) : Bytes :=
  match count with
  | 0 => []
  | count + 1 => groups count (n / 128) ++ [UInt8.ofNat (n % 128 + 128)]

/-- How many groups a number has in front of the last one, if nine bytes are not needed. -/
def width? (n : Nat) : Option Nat :=
  (List.range 8).find? fun count => n / 128 < Nat.pow 128 count

/-- The bytes of a number below `2 ^ 64`. -/
def encode (n : Nat) : Bytes :=
  match width? n with
  | some count => groups count (n / 128) ++ [UInt8.ofNat (n % 128)]
  | none => groups 8 (n / 256) ++ [UInt8.ofNat (n % 256)]

/-- Reads on after groups that make up `n`, where `count` more may be marked. -/
def readFrom (count n : Nat) : Bytes → Option (Nat × Bytes)
  | [] => none
  | b :: rest =>
    match count with
    | 0 => some (256 * n + b.toNat, rest)
    | count + 1 =>
      if b.toNat < 128 then some (128 * n + b.toNat, rest)
      else readFrom count (128 * n + (b.toNat - 128)) rest

/-- The number at the front of some bytes, and what follows it. -/
def read? (bytes : Bytes) : Option (Nat × Bytes) := readFrom 8 0 bytes

/-! ## Reading back -/

theorem readFrom_groups {count n : Nat} (small : n < Nat.pow 128 count) (more start : Nat)
    (rest : Bytes) :
    readFrom (more + count) start (groups count n ++ rest) =
      readFrom more (start * Nat.pow 128 count + n) rest := by
  induction count generalizing n more rest with
  | zero =>
    have none : n = 0 := by simpa using small
    simp [groups, none]
  | succ count ih =>
    have power : Nat.pow 128 (count + 1) = Nat.pow 128 count * 128 := rfl
    have high : n / 128 < Nat.pow 128 count := by omega
    have byte : (UInt8.ofNat (n % 128 + 128)).toNat = n % 128 + 128 := by
      rw [UInt8.toNat_ofNat']
      omega
    have value : 128 * (start * Nat.pow 128 count + n / 128) + n % 128 =
        start * (Nat.pow 128 count * 128) + n := by
      rw [← Nat.mul_assoc]
      generalize start * Nat.pow 128 count = front
      omega
    rw [groups, List.append_assoc, show more + (count + 1) = (more + 1) + count by omega,
      ih high, List.singleton_append, readFrom, byte, if_neg (by omega), Nat.add_sub_cancel,
      value, power]

theorem read?_encode {n : Nat} (bounded : n < 18446744073709551616) (rest : Bytes) :
    read? (encode n ++ rest) = some (n, rest) := by
  unfold read? encode
  split
  · next count found =>
    have fits : n / 128 < Nat.pow 128 count := by simpa using List.find?_some found
    have few : count < 8 := List.mem_range.1 (List.mem_of_find?_eq_some found)
    have byte : (UInt8.ofNat (n % 128)).toNat = n % 128 := by
      rw [UInt8.toNat_ofNat']
      omega
    have again := readFrom_groups fits (8 - count) 0 ([UInt8.ofNat (n % 128)] ++ rest)
    rw [Nat.sub_add_cancel (Nat.le_of_lt few), ← List.append_assoc] at again
    rw [again, show 8 - count = (7 - count) + 1 by omega, List.singleton_append, readFrom, byte,
      if_pos (Nat.mod_lt n (by decide))]
    simp only [Option.some.injEq, Prod.mk.injEq, and_true]
    omega
  · have byte : (UInt8.ofNat (n % 256)).toNat = n % 256 := by
      rw [UInt8.toNat_ofNat']
      omega
    have power : Nat.pow 128 8 = 72057594037927936 := by decide
    have again := @readFrom_groups 8 (n / 256) (by rw [power]; omega) 0 0
      ([UInt8.ofNat (n % 256)] ++ rest)
    rw [← List.append_assoc] at again
    rw [again, List.singleton_append, readFrom, byte]
    simp only [Option.some.injEq, Prod.mk.injEq, and_true]
    omega

end Clarify.Varint
