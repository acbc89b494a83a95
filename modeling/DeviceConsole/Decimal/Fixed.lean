import DeviceConsole.Decimal.Binary

/-!
A float with a fixed number of decimal places.

The exact binary value is scaled by the power of ten and rounded once, a half going to the even
neighbour, so the text is the nearest one with that many places. The sign stays on a value that
rounds to zero.
-/
namespace DeviceConsole.Decimal

/-- The quotient rounded to the nearest whole number, a half to the even one. -/
def roundDiv (num den : Nat) : Nat :=
  let quotient := num / den
  let twice := 2 * (num % den)
  if twice > den || (twice == den && quotient % 2 == 1) then quotient + 1 else quotient

/-- Zeros in front of the digits up to a width. -/
def padded (width : Nat) (digits : List Char) : List Char :=
  List.replicate (width - digits.length) '0' ++ digits

/-- A whole number of units of `10 ^ -places`, with a point in front of the places. -/
def pointed (places : Nat) (units : Nat) : List Char :=
  digitsOf (units / Nat.pow 10 places) ++ '.' :: padded places (digitsOf (units % Nat.pow 10 places))

/-- A float with `places` digits after the point. -/
def fixed (places : Nat) (x : Float) : String :=
  match read x with
  | .notANumber => "NaN"
  | .infinite negative => if negative then "-inf" else "inf"
  | .finite negative m =>
    let (up, down) := power 2 m.exponent
    let units := roundDiv (m.significand * up * Nat.pow 10 places) down
    String.ofList ((if negative then ['-'] else []) ++ pointed places units)

end DeviceConsole.Decimal
