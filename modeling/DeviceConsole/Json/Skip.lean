import DeviceConsole.Json.Number
import DeviceConsole.Json.Quotation

/-!
Values that nobody asked for.

The value of an unknown member is checked and dropped. Its containers are kept as a stack of
frames rather than as nested calls, so it may be nested as deep as its bytes allow; its numbers
may be of any size and its texts hold any bytes.
-/
namespace DeviceConsole.Json

/-- The start of a value after any blanks: the cursor before its first byte, that byte, and the
cursor after it. -/
def valueStart (c : Cursor) : Except Failure (Cursor × UInt8 × Cursor) := do
  let c := c.skipSpaces
  let (b, after) ← c.next .endInValue
  pure (c, b, after)

/-- The cursor after the colon behind a member's name. -/
def colon (c : Cursor) : Except Failure Cursor := do
  let (b, after) ← c.skipSpaces.next .endInObject
  if b = 0x3a then pure after else after.fail .expectedColon

/-- The bytes of `null`, `true` and `false` after the first. -/
def wordTail? (b : UInt8) : Option (List UInt8) :=
  if b = 0x6e then some [0x75, 0x6c, 0x6c]
  else if b = 0x74 then some [0x72, 0x75, 0x65]
  else if b = 0x66 then some [0x61, 0x6c, 0x73, 0x65]
  else none

namespace Skip

/-- The cursor after the digits at the front, if there are any. -/
def digits (c : Cursor) : Except Failure Cursor := do
  match ← c.next? with
  | some (b, _) =>
    if Cursor.isDigit b then
      let c := c.skipWhile Cursor.isDigit
      let _ ← c.next?
      pure c
    else c.ahead.fail .invalidNumber
  | none => c.fail .invalidNumber

/-- The cursor after the exponent of a number, from its letter if it has one. -/
def exponent (c : Cursor) : Except Failure Cursor := do
  match ← c.next? with
  | some (b, after) =>
    if Number.isExponent b then
      match ← after.next? with
      | some (sign, beyond) => digits (if sign = 0x2b || sign = 0x2d then beyond else after)
      | none => after.fail .invalidNumber
    else pure c
  | none => pure c

/-- The cursor after a number, from its first byte. -/
def number (c : Cursor) : Except Failure Cursor := do
  let (b, after) ← c.next .invalidNumber
  let c := if b = 0x2d then after else c
  let (b, after) ← c.next .invalidNumber
  let c ← if b = 0x30 then do
      match ← after.next? with
      | some (d, beyond) => if Cursor.isDigit d then beyond.fail .invalidNumber else pure after
      | none => pure after
    else digits c
  match ← c.next? with
  | some (b, after) => if b = 0x2e then exponent (← digits after) else exponent c
  | none => pure c

/-- A container that has been opened and not closed. -/
inductive Frame where
  | list
  | object
deriving DecidableEq, Repr

namespace Frame

def closing : Frame → UInt8
  | .list => 0x5d
  | .object => 0x7d

def atEnd : Frame → Cause
  | .list => .endInList
  | .object => .endInObject

def missingComma : Frame → Cause
  | .list => .expectedCommaOrBracket
  | .object => .expectedCommaOrBrace

/-- The cursor where the next value of the container starts, after the name of a member. -/
def lead (f : Frame) (c : Cursor) : Except Failure Cursor :=
  match f with
  | .list => pure c
  | .object => do
    let (b, after) ← c.skipSpaces.next .endInObject
    if b = 0x22 then colon (← skipText after) else after.fail .nameNotText

end Frame

/-- Whether a value is to come or one has just ended. -/
inductive Stage where
  | before
  | behind
deriving DecidableEq, Repr

/-- From behind the opening byte of a container to its first value, or to its end at once: what
comes next, within which containers. -/
def enter (frame : Frame) (stack : List Frame) (c : Cursor) :
    Except Failure (Stage × List Frame × Cursor) := do
  let (b, after) ← c.skipSpaces.next frame.atEnd
  if b = frame.closing then pure (.behind, stack, after)
  else pure (.before, frame :: stack, ← frame.lead c)

/-- The cursor after the outermost value, within containers from the inside out. Each round takes
at least one byte, so `fuel` is the bytes that are left and one more. -/
def loop : (fuel : List UInt8) → Stage → List Frame → Cursor → Except Failure Cursor
  | _, .behind, [], c => .ok c
  | [], _, _, c => c.fail .endInValue
  | _ :: fuel, .behind, frame :: stack, c => do
    let (b, after) ← c.skipSpaces.next frame.atEnd
    if b = frame.closing then loop fuel .behind stack after
    else if b = 0x2c then loop fuel .before (frame :: stack) (← frame.lead after)
    else after.fail frame.missingComma
  | _ :: fuel, .before, stack, c => do
    let (c, b, after) ← valueStart c
    if b = 0x22 then loop fuel .behind stack (← skipText after)
    else if Number.starts b then loop fuel .behind stack (← number c)
    else if b = 0x5b || b = 0x7b then do
      let (stage, stack, c) ← enter (if b = 0x5b then .list else .object) stack after
      loop fuel stage stack c
    else match wordTail? b with
      | some tail => loop fuel .behind stack (← after.word tail)
      | none => after.fail .expectedValue

end Skip

/-- The cursor after a value of any kind. -/
def skipValue (c : Cursor) : Except Failure Cursor :=
  Skip.loop (0 :: c.rest) .before [] c

end DeviceConsole.Json
