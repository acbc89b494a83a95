import DeviceConsole.Json.Failure

/-!
A place in the bytes of a document, and the smallest steps from it.

A reader takes a cursor and gives a value with the cursor after it. Steps are pure, so to look at
a byte is to take the step and to go on from the cursor before it; a failure that is about a byte
is placed at the cursor after it.
-/
namespace DeviceConsole.Json

/-- What is left of a document, how it ends, and where in it the reader stands. -/
structure Cursor where
  rest : List UInt8
  ending : Ending
  place : Position
deriving DecidableEq, Repr

/-- A step that gives a value and the cursor after it. -/
abbrev Reader (α : Type) := Cursor → Except Failure (α × Cursor)

namespace Cursor

/-- The start of a document. -/
def start (s : Stream) : Cursor := ⟨s.bytes, s.ending, .start⟩

/-- Refuse the document here. -/
def fail (c : Cursor) (cause : Cause) : Except Failure α :=
  .error ⟨cause, some c.place⟩

/-- The next byte and the cursor after it; none at the end of a document that is complete. A broken
document has a fault there instead, which has no place of its own. -/
def next? (c : Cursor) : Except Failure (Option (UInt8 × Cursor)) :=
  match c.rest, c.ending with
  | b :: rest, _ => .ok (some (b, { c with rest := rest, place := c.place.past b }))
  | [], .complete => .ok none
  | [], .broken fault => .error ⟨.unreadable fault, none⟩

/-- The next byte, where the end of the document has the given cause. -/
def next (c : Cursor) (atEnd : Cause) : Except Failure (UInt8 × Cursor) := do
  match ← c.next? with
  | some step => .ok step
  | none => c.fail atEnd

/-- The cursor after the next byte, if there is one. -/
def ahead (c : Cursor) : Cursor :=
  match c.rest with
  | b :: rest => { c with rest := rest, place := c.place.past b }
  | [] => c

/-- The space, the tab and the line ends may stand between the parts of a value. -/
def isSpace (b : UInt8) : Bool :=
  b == 0x20 || b == 0x09 || b == 0x0a || b == 0x0d

/-- The cursor after the bytes at the front that satisfy `p`. -/
def skipWhile (p : UInt8 → Bool) (c : Cursor) : Cursor :=
  { c with
    rest := c.rest.dropWhile p
    place := (c.rest.takeWhile p).foldl Position.past c.place }

/-- The cursor after any blanks. -/
def skipSpaces (c : Cursor) : Cursor := c.skipWhile isSpace

/-- The place where all bytes of the document have been looked at. -/
def finalPlace (c : Cursor) : Position :=
  c.rest.foldl Position.past c.place

/-- The cursor after the remaining bytes of a word, such as those of `null` after its first. -/
def word : List UInt8 → Cursor → Except Failure Cursor
  | [], c => .ok c
  | w :: ws, c => do
    let (b, after) ← c.next .endInValue
    if b = w then word ws after else after.fail .expectedWord

/-- Whether a byte is a decimal digit. -/
def isDigit (b : UInt8) : Bool :=
  0x30 ≤ b && b ≤ 0x39

/-- The values of the digits at the front of the rest, and the cursor after them. -/
def digits (c : Cursor) : List Nat × Cursor :=
  ((c.rest.takeWhile isDigit).map fun b => (b - 0x30).toNat, c.skipWhile isDigit)

end Cursor

end DeviceConsole.Json
