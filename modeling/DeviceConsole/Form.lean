import DeviceConsole.Stream
import DeviceConsole.Text.Pieces

/-!
Names and values in the text of a query.

Letters, digits and `*-._` stand for themselves, a space becomes a plus, and every other byte of a
text's UTF-8 becomes a percent sign and two upper-case hexadecimal digits. Pairs are joined by
ampersands, so nothing in a name or a value can end it. Reading goes the other way (`decodePairs?`):
whoever answers the query cuts the text at the ampersands and each pair at its first equals sign.
-/
namespace DeviceConsole.Form

/-- Whether a byte stands for itself. -/
def isPlain (b : UInt8) : Bool :=
  (0x30 ≤ b && b ≤ 0x39) || (0x41 ≤ b && b ≤ 0x5a) || (0x61 ≤ b && b ≤ 0x7a) ||
    b == 0x2a || b == 0x2d || b == 0x2e || b == 0x5f

/-- An upper-case hexadecimal digit. -/
def hexDigit (n : Nat) : Char :=
  if n < 10 then Char.ofNat (0x30 + n) else Char.ofNat (0x37 + n)

def encodeByte (b : UInt8) : List Char :=
  if isPlain b then [Char.ofNat b.toNat]
  else if b = 0x20 then ['+']
  else ['%', hexDigit (b.toNat / 16), hexDigit (b.toNat % 16)]

/-- A name or a value. -/
def encode (s : String) : List Char :=
  (Stream.bytesOf s).flatMap encodeByte

def encodePair (p : String × String) : List Char :=
  encode p.1 ++ '=' :: encode p.2

/-- Pairs in order. -/
def encodePairs (ps : List (String × String)) : List Char :=
  ['&'].intercalate (ps.map encodePair)

/-! ### Reading -/

/-- The value of a hexadecimal digit of either case. -/
def hexValue? (c : Char) : Option Nat :=
  if '0' ≤ c && c ≤ '9' then some (c.toNat - 0x30)
  else if 'A' ≤ c && c ≤ 'F' then some (c.toNat - 0x37)
  else if 'a' ≤ c && c ≤ 'f' then some (c.toNat - 0x57)
  else none

/-- The bytes that a name or a value stands for. A percent sign without two digits behind it stands
for itself. -/
def decodeBytes : List Char → List UInt8
  | [] => []
  | '+' :: cs => 0x20 :: decodeBytes cs
  | '%' :: high :: low :: cs =>
    match hexValue? high, hexValue? low with
    | some h, some l => (16 * h + l).toUInt8 :: decodeBytes cs
    | _, _ => 0x25 :: decodeBytes (high :: low :: cs)
  | c :: cs => String.utf8EncodeChar c ++ decodeBytes cs

/-- A name or a value, if its bytes are UTF-8. -/
def decode? (cs : List Char) : Option String :=
  Stream.text? (decodeBytes cs)

/-- A pair. Without an equals sign it is a name whose value is empty. -/
def decodePair? (cs : List Char) : Option (String × String) := do
  let (name, value) := (Text.cut? '=' cs).getD (cs, [])
  pure (← decode? name, ← decode? value)

/-- Pairs in order. An empty piece is none. -/
def decodePairs? (cs : List Char) : Option (List (String × String)) :=
  ((Text.split '&' cs).filter (· ≠ [])).mapM decodePair?

end DeviceConsole.Form
