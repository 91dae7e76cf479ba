import Clarify.Decimal

/-!
# The fewest digits that read back

A double stands for all the reals that round to it. Of the decimal numbers among them the
shortest one is taken, and of several of that length the one nearest to the double itself.
-/

namespace Clarify.Decimal

/-- The reals that round to `mantissa * 2 ^ exponent`, in units of `2 ^ (exponent - 2)`. The one
below a power of two is only half as far away. The ends belong to it if the mantissa is even. -/
structure Interval where
  low : Nat
  middle : Nat
  high : Nat
  closed : Bool

/-- The interval of a double with the given mantissa and exponent. -/
def interval (mantissa : Nat) (exponent : Int) : Interval where
  low := if mantissa = Nat.pow 2 52 ∧ -1074 < exponent then 4 * mantissa - 1 else 4 * mantissa - 2
  middle := 4 * mantissa
  high := 4 * mantissa + 2
  closed := mantissa % 2 = 0

/-- Whether `a` lies before `b`, or at `b` where the ends count. -/
def Interval.before (i : Interval) (a b : Nat) : Bool := if i.closed then a ≤ b else a < b

/-- The multiple of `10 ^ k` in the interval that is nearest to its middle, divided by `10 ^ k`.
All three points of the interval are brought to the same denominator. -/
def multiple? (i : Interval) (exponent k : Int) : Option Nat :=
  let factor := Nat.pow 2 (exponent - 2).toNat * Nat.pow 10 (-k).toNat
  let den := Nat.pow 2 (2 - exponent).toNat * Nat.pow 10 k.toNat
  let inside (c : Nat) : Bool :=
    i.before (i.low * factor) (c * den) && i.before (c * den) (i.high * factor)
  let middle := i.middle * factor
  let below := middle / den
  let nearBelow := 2 * (middle % den) < den || (2 * (middle % den) == den && below % 2 == 0)
  match inside below, inside (below + 1) with
  | true, true => some (if nearBelow then below else below + 1)
  | true, false => some below
  | false, true => some (below + 1)
  | false, false => none

/-- The digits `d` and the exponent `k` of the shortest decimal number `d * 10 ^ k` that reads
back as `mantissa * 2 ^ exponent`, for a mantissa other than zero: the coarsest grid that has a
point in the interval. -/
def shortestDigits (mantissa : Nat) (exponent : Int) : Nat × Int :=
  let i := interval mantissa exponent
  let grids := (List.range 634).map fun n : Nat => (309 : Int) - (n : Int)
  (grids.findSome? fun k => (multiple? i exponent k).map fun d => (d, k)).getD (0, 0)

/-- Where positional writing ends. -/
structure Layout where
  /-- The most digits in front of the point. -/
  wholeDigits : Int
  /-- The most zeros between the point and the first digit. -/
  leadingZeros : Int
  /-- What stands in front of an exponent that is not negative. -/
  positiveSign : String

/-- `n` zeros. -/
def zeros (n : Int) : String := String.ofList (List.replicate n.toNat '0')

/-- The number `d * 10 ^ k` with a point, or with an exponent where the layout says so. -/
def layOut (layout : Layout) (d : Nat) (k : Int) : String :=
  let digits := (toString d).toList
  let point := digits.length + k
  if 0 ≤ k ∧ point ≤ layout.wholeDigits then String.ofList digits ++ zeros k ++ ".0"
  else if 0 < point ∧ point ≤ layout.wholeDigits then
    String.ofList (digits.take point.toNat) ++ "." ++ String.ofList (digits.drop point.toNat)
  else if -layout.leadingZeros ≤ point ∧ point ≤ 0 then
    "0." ++ zeros (-point) ++ String.ofList digits
  else
    let tail := if digits.length = 1 then "" else "." ++ String.ofList (digits.drop 1)
    let sign := if 0 < point then layout.positiveSign else ""
    String.ofList (digits.take 1) ++ tail ++ "e" ++ sign ++ toString (point - 1)

/-- The shortest text of a finite double, or nothing for any other. -/
def shortest? (layout : Layout) (x : Float) : Option String :=
  match parts x with
  | .nan | .infinite _ => none
  | .finite negative mantissa exponent =>
    let text :=
      if mantissa = 0 then "0.0"
      else
        let (d, k) := shortestDigits mantissa exponent
        layOut layout d k
    some (if negative then "-" ++ text else text)

end Clarify.Decimal
