import DeviceConsole.Json.Cursor

/-!
JSON numbers.

A number without a point and an exponent is an integer when it fits sixty-four bits, signed if it
has a minus; every other number, and minus zero, is a float. The float is reckoned from as many
leading digits as fit sixty-four bits, scaled by a power of ten, so its last place may be off by
one; one that would be infinite is refused.
-/
namespace DeviceConsole.Json

inductive Number where
  | integer (i : Int)
  | real (x : Float)

def Number.found : Number → Found
  | .integer i => .integer i
  | .real x => .real x

def Number.value : Number → Value
  | .integer i => .integer i
  | .real x => .real x

namespace Number

/-- The largest significand. -/
def maxSignificand : Nat := UInt64.size - 1

/-- The largest exponent that is still counted. -/
def maxExponent : Nat := 0x7fffffff

/-- Digits appended to a significand up to the first that does not fit, and the digits left. -/
def absorb (significand : Nat) : List Nat → Nat × List Nat
  | [] => (significand, [])
  | d :: ds =>
    let next := significand * 10 + d
    if next ≤ maxSignificand then absorb next ds else (significand, d :: ds)

/-- A power of ten that a float can hold. -/
def tenTo (n : Nat) : Float := Float.ofScientific 1 false n

/-- `x * 10 ^ exponent` in steps that a float can hold; none where it would be infinite. -/
def scale (x : Float) (exponent : Int) : Option Float :=
  if exponent < -308 then
    if x == 0 then some x else scale (x / tenTo 308) (exponent + 308)
  else if exponent < 0 then some (x / tenTo (-exponent).toNat)
  else if 308 < exponent then if x == 0 then some x else none
  else
    let y := x * tenTo exponent.toNat
    if y.isInf then none else some y
termination_by (-exponent).toNat
decreasing_by omega

def signed (negative : Bool) (x : Float) : Float :=
  if negative then -x else x

/-- The float with the given significand and exponent, read up to the cursor. The byte after the
number has been looked at by then. -/
def ofParts (negative : Bool) (significand : Nat) (exponent : Int) (c : Cursor) :
    Except Failure (Number × Cursor) :=
  match scale (Float.ofScientific significand false 0) exponent with
  | some x => .ok (.real (signed negative x), c)
  | none => c.ahead.fail .numberOutOfRange

/-- The digits of an exponent after its first, where `exponent` has been read. One that is too
large to count is refused at the digit that makes it so, unless the number is zero anyway. -/
def exponentDigits (negative : Bool) (significand : Nat) (start : Int) (down : Bool)
    (ending : Ending) (exponent : Nat) (place : Position) :
    List UInt8 → Except Failure (Number × Cursor)
  | b :: rest =>
    if Cursor.isDigit b then
      let next := exponent * 10 + (b - 0x30).toNat
      if next ≤ maxExponent then
        exponentDigits negative significand start down ending next (place.past b) rest
      else
        let after : Cursor := ⟨rest, ending, place.past b⟩
        if significand ≠ 0 && !down then after.fail .numberOutOfRange
        else do
          let c := after.skipWhile Cursor.isDigit
          let _ ← c.next?
          pure (.real (signed negative 0), c)
    else
      ofParts negative significand (if down then start - exponent else start + exponent)
        ⟨b :: rest, ending, place⟩
  | [] => do
    let c : Cursor := ⟨[], ending, place⟩
    let _ ← c.next?
    ofParts negative significand (if down then start - exponent else start + exponent) c

/-- The part after the letter of an exponent. -/
def exponentPart (negative : Bool) (significand : Nat) (start : Int) (c : Cursor) :
    Except Failure (Number × Cursor) := do
  let (down, c) := match ← c.next? with
    | some (b, after) => if b = 0x2b then (false, after) else if b = 0x2d then (true, after)
      else (false, c)
    | none => (false, c)
  let (b, after) ← c.next .endInValue
  if Cursor.isDigit b then
    exponentDigits negative significand start down after.ending (b - 0x30).toNat after.place
      after.rest
  else after.fail .invalidNumber

/-- Whether a byte starts an exponent. -/
def isExponent (b : UInt8) : Bool := b == 0x65 || b == 0x45

/-- The part after the point. -/
def fractionPart (negative : Bool) (significand : Nat) (start : Int) (c : Cursor) :
    Except Failure (Number × Cursor) := do
  let (ds, after) := c.digits
  if ds.isEmpty then
    let (_, beyond) ← after.next .endInValue
    beyond.fail .invalidNumber
  let (significand, left) := absorb significand ds
  let exponent := start - (ds.length - left.length : Nat)
  match ← after.next? with
  | some (b, beyond) =>
    if isExponent b then exponentPart negative significand exponent beyond
    else ofParts negative significand exponent after
  | none => ofParts negative significand exponent after

/-- An integer of the given size, or the float nearest to it where it does not fit. -/
def ofSignificand (negative : Bool) (significand : Nat) : Number :=
  if negative then
    if 0 < significand && significand ≤ 0x8000000000000000 then .integer (-significand)
    else .real (-Float.ofScientific significand false 0)
  else .integer significand

/-- The part after the whole digits, of which `left` did not fit the significand. -/
def tailPart (negative : Bool) (significand : Nat) (left : Nat) (c : Cursor) :
    Except Failure (Number × Cursor) := do
  let whole : Except Failure (Number × Cursor) :=
    if left = 0 then .ok (ofSignificand negative significand, c)
    else ofParts negative significand left c
  match ← c.next? with
  | some (b, after) =>
    if b = 0x2e then fractionPart negative significand left after
    else if isExponent b then exponentPart negative significand left after
    else whole
  | none => whole

/-- The digits of a number. A zero has no digit after it. -/
def unsigned (negative : Bool) (c : Cursor) : Except Failure (Number × Cursor) := do
  let (b, after) ← c.next .endInValue
  if b = 0x30 then
    match ← after.next? with
    | some (d, beyond) => if Cursor.isDigit d then beyond.fail .invalidNumber
    | none => pure ()
    tailPart negative 0 0 after
  else if Cursor.isDigit b then
    let (ds, after) := c.digits
    let (significand, left) := absorb 0 ds
    tailPart negative significand left.length after
  else after.fail .invalidNumber

/-- Whether a byte starts a number. -/
def starts (b : UInt8) : Bool := b == 0x2d || Cursor.isDigit b

/-- A number, from its first byte. -/
def reader : Reader Number := fun c => do
  let (b, after) ← c.next .endInValue
  if b = 0x2d then unsigned true after else unsigned false c

end Number

end DeviceConsole.Json
