/-!
A double-precision number as what it stands for: a sign and a whole number of some power of two.

The decimal texts of this library never look at a float through its arithmetic. They read it here
once, exactly, and go on with natural numbers.
-/
namespace DeviceConsole.Decimal

/-- A magnitude `significand * 2 ^ exponent`. It is `tight` when the next smaller magnitude is only
half as far away as the next larger one. -/
structure Magnitude where
  significand : Nat
  exponent : Int
  tight : Bool
deriving DecidableEq, Repr

/-- What the sixty-four bits of a float stand for. -/
inductive Reading where
  | notANumber
  | infinite (negative : Bool)
  | finite (negative : Bool) (magnitude : Magnitude)
deriving DecidableEq, Repr

/-- The bit in front of the fifty-two bits of a fraction. -/
def leadingBit : Nat := 1 <<< 52

/-- One sign bit, eleven bits of exponent and fifty-two of fraction; the lowest exponent has no
implicit leading bit, the highest is kept for the infinities and for what is no number. -/
def readBits (bits : Nat) : Reading :=
  let negative := bits >>> 63 % 2 == 1
  let exponent : Nat := bits >>> 52 % 2048
  let fraction : Nat := bits % leadingBit
  if exponent = 2047 then
    if fraction = 0 then .infinite negative else .notANumber
  else if exponent = 0 then .finite negative ⟨fraction, -1074, false⟩
  else .finite negative ⟨leadingBit + fraction, (exponent : Int) - 1075, fraction == 0 && exponent > 1⟩

/-- What a float stands for. -/
def read (x : Float) : Reading :=
  readBits x.toBits.toNat

/-- The factors `(up, down)` with `base ^ exponent = up / down`. -/
def power (base : Nat) (exponent : Int) : Nat × Nat :=
  if 0 ≤ exponent then (Nat.pow base exponent.toNat, 1) else (1, Nat.pow base (-exponent).toNat)

/-- The decimal digits of a natural number, as characters. -/
def digitsOf (n : Nat) : List Char :=
  Nat.toDigits 10 n

end DeviceConsole.Decimal
