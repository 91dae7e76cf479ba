import Clarify.Decimal

/-!
# A fixed number of decimal places

A double with a given number of digits behind the point, rounded from its exact value with a half
going to the even neighbour.
-/

namespace Clarify.Decimal

/-- A number below `10 ^ places` with leading zeros. -/
def padded (places n : Nat) : String :=
  let digits := toString n
  String.ofList (List.replicate (places - digits.length) '0') ++ digits

/-- The value `mantissa * 2 ^ exponent` in units of `10 ^ -places`, rounded. -/
def scaled (places mantissa : Nat) (exponent : Int) : Nat :=
  roundHalfEven (mantissa * Nat.pow 2 exponent.toNat * Nat.pow 10 places)
    (Nat.pow 2 (-exponent).toNat)

/-- A double with `places` digits behind the point. -/
def fixed (places : Nat) (x : Float) : String :=
  match parts x with
  | .nan => "NaN"
  | .infinite negative => if negative then "-inf" else "inf"
  | .finite negative mantissa exponent =>
    let n := scaled places mantissa exponent
    let one := Nat.pow 10 places
    let whole := toString (n / one) ++ "." ++ padded places (n % one)
    if negative then "-" ++ whole else whole

end Clarify.Decimal
