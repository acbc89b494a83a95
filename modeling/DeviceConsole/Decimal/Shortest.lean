import DeviceConsole.Decimal.Binary

/-!
The shortest decimal digits that read back as the same float.

The reals that round to a float form an interval around it, closed exactly when its significand
is even. For one digit, two digits and so on, the two neighbours of the value on that decimal grid
are tried, and the first grid with a neighbour inside the interval gives the digits. Seventeen
digits are always enough. All comparisons are between natural numbers.
-/
namespace DeviceConsole.Decimal

/-- Digits `d₀d₁…` that stand for `d₀.d₁… * 10 ^ exponent`. -/
structure Scientific where
  digits : List Char
  exponent : Int
deriving DecidableEq, Repr

/-- The exponent of the first decimal digit of a positive quotient. -/
def leadingExponent (num den : Nat) : Int :=
  let guess : Int := (digitsOf num).length - (digitsOf den).length
  let (up, down) := power 10 guess
  if den * up ≤ num * down then guess else guess - 1

/-- A whole number of units of `10 ^ exponent`, without the zeros at its end. -/
def Scientific.ofUnits (units : Nat) (exponent : Int) : Scientific :=
  let digits := digitsOf units
  ⟨(digits.reverse.dropWhile (· == '0')).reverse, exponent + digits.length - 1⟩

/-- The neighbour of the value on the grid of `10 ^ exponent` that lies in the interval, the nearer
one if both do, the even one of two that are equally near. -/
def neighbour? (m : Magnitude) (exponent : Int) : Option Nat :=
  -- In quarters of the last binary place, so that both ends of the interval are whole.
  let (binaryUp, binaryDown) := power 2 (m.exponent - 2)
  let (decimalUp, decimalDown) := power 10 exponent
  let grid := decimalUp * binaryDown
  let place := binaryUp * decimalDown
  let value := 4 * m.significand * place
  let low := (4 * m.significand - (if m.tight then 1 else 2)) * place
  let high := (4 * m.significand + 2) * place
  let inside (n : Nat) : Bool :=
    if m.significand % 2 == 0 then low ≤ n * grid && n * grid ≤ high
    else low < n * grid && n * grid < high
  let below := value / grid
  let above := below + 1
  match inside below, inside above with
  | true, true =>
    let fromBelow := value - below * grid
    let fromAbove := above * grid - value
    if fromBelow < fromAbove || (fromBelow == fromAbove && below % 2 == 0) then some below
    else some above
  | true, false => some below
  | false, true => some above
  | false, false => none

/-- The first grid from `count` digits on, at most `fuel` of them, that has a neighbour inside. -/
def search (m : Magnitude) (leading : Int) : (fuel count : Nat) → Scientific
  | 0, count => .ofUnits 0 (leading - count)
  | fuel + 1, count =>
    let exponent := leading - count + 1
    match neighbour? m exponent with
    | some units => .ofUnits units exponent
    | none => search m leading fuel (count + 1)

/-- The shortest digits of a magnitude that is not zero. -/
def shortest (m : Magnitude) : Scientific :=
  let (up, down) := power 2 m.exponent
  search m (leadingExponent (m.significand * up) down) 17 1

end DeviceConsole.Decimal
