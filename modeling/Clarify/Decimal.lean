/-!
# Numbers taken apart

A double as a whole number times a power of two, and rounding of quotients to the nearest whole
number.

Results:
* `roundHalfEven_near`: the rounded quotient is within half a unit of the quotient.
-/

namespace Clarify.Decimal

/-- What a double is. -/
inductive Parts where
  | nan
  | infinite (negative : Bool)
  /-- The number `mantissa * 2 ^ exponent`, with a sign. -/
  | finite (negative : Bool) (mantissa : Nat) (exponent : Int)
deriving Repr, DecidableEq

/-- The parts of a double, from its sign, eleven exponent bits and fifty-two fraction bits. -/
def parts (x : Float) : Parts :=
  let bits := x.toBits.toNat
  let negative := Nat.pow 2 63 ≤ bits
  let exponent : Nat := bits / Nat.pow 2 52 % Nat.pow 2 11
  let fraction : Nat := bits % Nat.pow 2 52
  if exponent = 2047 then if fraction = 0 then .infinite negative else .nan
  else if exponent = 0 then .finite negative fraction (-1074)
  else .finite negative (Nat.pow 2 52 + fraction) ((exponent : Int) - 1075)

/-- `num / den` rounded to the nearest whole number, a half to the even neighbour. -/
def roundHalfEven (num den : Nat) : Nat :=
  let q := num / den
  let r := 2 * (num % den)
  if r < den then q
  else if den < r then q + 1
  else if q % 2 = 0 then q else q + 1

/-- The rounded quotient is no more than half a unit away. -/
theorem roundHalfEven_near (num den : Nat) (h : 0 < den) :
    2 * (roundHalfEven num den * den) ≤ 2 * num + den ∧
      2 * num ≤ 2 * (roundHalfEven num den * den) + den := by
  have whole := Nat.div_add_mod num den
  have rest := Nat.mod_lt num h
  rw [Nat.mul_comm] at whole
  have up : (num / den + 1) * den = num / den * den + den := Nat.succ_mul ..
  unfold roundHalfEven
  simp only
  split
  · omega
  split
  · omega
  split <;> omega

end Clarify.Decimal
