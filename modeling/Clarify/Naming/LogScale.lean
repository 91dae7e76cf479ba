/-!
# The logarithmic scale

A count `n` stands at `ln (1 + n)`. The logarithm is taken apart into one of a power of two and a
rest near zero, which a polynomial approximates. The steps are rounded in a fixed order: two
categories may be as close as the last digit of a score.
-/

namespace Clarify.LogScale

/-- The logarithm of two, cut off so that its multiples by exponents of two are exact. -/
def lnTwo : Float := 6.93147180369123816490e-01

/-- What is missing to the logarithm of two. -/
def lnTwoRest : Float := 1.90821492927058770002e-10

/-- The bound between what is measured from the power of two below and from the one above, close
to the square root of two. -/
def bound : Float := 1482910 / 1048576

/-- The sum of the polynomial for the square of a quotient. Its terms are taken in pairs. -/
def polynomial (z : Float) : Float :=
  let first := z * 6.666666666666735130e-01
  let second := 3.999999999940941908e-01 + z * 2.857142874366239149e-01
  let third := 2.222219843214978396e-01 + z * 1.818357216161805012e-01
  let fourth := 1.531383769920937332e-01 + z * 1.479819860511658591e-01
  let z2 := z * z
  let z4 := z2 * z2
  let z6 := z4 * z2
  first + z2 * second + z4 * third + z6 * fourth

/-- The logarithm of `2 ^ power * (1 + f)`; `isNear` tells that `f` is too small for more than two
terms of the series. -/
def assembled (power : Nat) (f : Float) (isNear : Bool) : Float :=
  let k := Float.ofNat power
  let half := 0.5 * f * f
  if f == 0 then k * lnTwo + k * lnTwoRest
  else if isNear then
    let r := half * (1 - 0.66666666666666666 * f)
    k * lnTwo - ((r - k * lnTwoRest) - f)
  else
    let s := f / (2 + f)
    let r := polynomial (s * s)
    k * lnTwo - ((half - (s * (half + r) + k * lnTwoRest)) - f)

/-- The place of a count. Counts from `2 ^ 53` on are not told apart from their successors. -/
def ofCount (count : Nat) : Float :=
  let n := if count < Nat.pow 2 53 then count + 1 else count
  let power := n.log2
  let part := Float.ofNat n / Float.ofNat (Nat.pow 2 power)
  if part < bound then assembled power (part - 1) (part < 1048577 / 1048576)
  else assembled (power + 1) (part / 2 - 1) (2097149 / 1048576 ≤ part)

end Clarify.LogScale
