import DeviceConsole.Json.Cursor

/-!
The text between two quotes.

A small machine takes one byte at a time and gives the bytes of the text, each marked with the
place where it came from. Nearly every failure is about the byte just taken. A text whose value is
needed must pair its surrogates, and at its closing quote be UTF-8 (`text`): if it is not, the
failure is about the first byte that begins no character. A text that is skipped need only be well
formed (`skipText`), so the same machine runs without those two demands.
-/
namespace DeviceConsole.Json

namespace Quotation

/-- Where the machine stands between two bytes. -/
inductive State where
  | plain
  /-- After a backslash. -/
  | escape
  /-- Among the four digits of a code unit, the last first, after a leading surrogate or not. -/
  | hex (lead : Option Nat) (digits : List UInt8)
  /-- After a leading surrogate, before the backslash of its partner. -/
  | partner (lead : Nat)
  /-- After that backslash. -/
  | partnerEscape (lead : Nat)
deriving DecidableEq, Repr

/-- What a byte leads to: another state and some bytes of the text, or its end. -/
inductive Step where
  | more (state : State) (out : List UInt8)
  | close
deriving DecidableEq, Repr

/-- The value of a hexadecimal digit. -/
def hexValue? (b : UInt8) : Option Nat :=
  if 0x30 ≤ b && b ≤ 0x39 then some (b - 0x30).toNat
  else if 0x61 ≤ b && b ≤ 0x66 then some ((b - 0x61).toNat + 10)
  else if 0x41 ≤ b && b ≤ 0x46 then some ((b - 0x41).toNat + 10)
  else none

/-- The value of hexadecimal digits, the last first. -/
def hexUnit? : List UInt8 → Option Nat
  | [] => some 0
  | b :: bs => do
    let high ← hexUnit? bs
    let low ← hexValue? b
    pure (high * 16 + low)

/-- The byte that a single letter after a backslash stands for. -/
def escapeByte? (b : UInt8) : Option UInt8 :=
  if b = 0x22 || b = 0x5c || b = 0x2f then some b
  else if b = 0x62 then some 0x08
  else if b = 0x66 then some 0x0c
  else if b = 0x6e then some 0x0a
  else if b = 0x72 then some 0x0d
  else if b = 0x74 then some 0x09
  else none

def isLeading (unit : Nat) : Bool := 0xd800 ≤ unit && unit ≤ 0xdbff

def isTrailing (unit : Nat) : Bool := 0xdc00 ≤ unit && unit ≤ 0xdfff

/-- The character of a surrogate pair. -/
def pairChar (lead trail : Nat) : Char :=
  Char.ofNat ((lead - 0xd800) * 0x400 + (trail - 0xdc00) + 0x10000)

/-- What the last of four digits leads to, when the value of the text is needed. -/
def ofUnit (lead : Option Nat) (unit : Nat) : Except Cause Step :=
  match lead with
  | none =>
    if isTrailing unit then .error .loneSurrogate
    else if isLeading unit then .ok (.more (.partner unit) [])
    else .ok (.more .plain (String.utf8EncodeChar (Char.ofNat unit)))
  | some lead =>
    if isTrailing unit then .ok (.more .plain (String.utf8EncodeChar (pairChar lead unit)))
    else .error .loneSurrogate

/-- What a byte leads to; `exact` when the value of the text is needed. -/
def step (exact : Bool) : State → UInt8 → Except Cause Step
  | .plain, b =>
    if b = 0x22 then .ok .close
    else if b = 0x5c then .ok (.more .escape [])
    else if b < 0x20 then .error .controlCharacter
    else .ok (.more .plain [b])
  | .escape, b =>
    if b = 0x75 then .ok (.more (.hex none []) [])
    else match escapeByte? b with
      | some out => .ok (.more .plain [out])
      | none => .error .invalidEscape
  | .hex lead digits, b =>
    if digits.length < 3 then .ok (.more (.hex lead (b :: digits)) [])
    else match hexUnit? (b :: digits) with
      | none => .error .invalidEscape
      | some unit => if exact then ofUnit lead unit else .ok (.more .plain [])
  | .partner lead, b =>
    if b = 0x5c then .ok (.more (.partnerEscape lead) []) else .error .unfinishedSurrogates
  | .partnerEscape lead, b =>
    if b = 0x75 then .ok (.more (.hex (some lead) []) []) else .error .unfinishedSurrogates

/-- The bytes of the text up to its closing quote, each with the place after what stands for it, and
the cursor after that quote. -/
def run (exact : Bool) (ending : Ending) : State → List (UInt8 × Position) → Position →
    List UInt8 → Except Failure (List (UInt8 × Position) × Cursor)
  | _, _, place, [] =>
    match ending with
    | .complete => .error ⟨.endInText, some place⟩
    | .broken fault => .error ⟨.unreadable fault, none⟩
  | state, out, place, b :: rest =>
    match step exact state b with
    | .ok (.more state more) =>
      run exact ending state ((more.map fun m => (m, place.past b)).reverse ++ out)
        (place.past b) rest
    | .ok .close => .ok (out.reverse, ⟨rest, ending, place.past b⟩)
    | .error cause => .error ⟨cause, some (place.past b)⟩

end Quotation

/-- The text up to its closing quote, from the cursor after its opening quote. -/
def text : Reader String := fun c => do
  let (marked, after) ← Quotation.run true c.ending .plain [] c.place c.rest
  let bytes := marked.map (·.1)
  match Stream.text? bytes with
  | some s => pure (s, after)
  | none => .error ⟨.textNotUtf8, marked[Stream.textLength bytes]?.map (·.2)⟩

/-- The cursor after a text, from the cursor after its opening quote. -/
def skipText (c : Cursor) : Except Failure Cursor := do
  let (_, after) ← Quotation.run false c.ending .plain [] c.place c.rest
  pure after

end DeviceConsole.Json
