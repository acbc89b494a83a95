import DeviceConsole.Decimal.Shortest
import DeviceConsole.Json.Value

/-!
JSON values as text, on one line or indented by two spaces.

Both layouts are one function, which differ only in what stands where a line may end (`gap`) and
after a member's name (`colon`). A text escapes the quote, the backslash and the control
characters below the space, and nothing else. A float is written with its shortest digits: with a
point in them from `0.00001` up to sixteen digits, with an exponent outside that range.
-/
namespace DeviceConsole.Json

/-! ### Texts -/

/-- One lower-case hexadecimal digit. -/
def hexDigit (n : Nat) : Char :=
  (Nat.toDigits 16 n).headD '0'

/-- A character as it stands inside a JSON text. -/
def escaped (c : Char) : List Char :=
  match c with
  | '"' => ['\\', '"']
  | '\\' => ['\\', '\\']
  | '\x08' => ['\\', 'b']
  | '\x0c' => ['\\', 'f']
  | '\n' => ['\\', 'n']
  | '\r' => ['\\', 'r']
  | '\t' => ['\\', 't']
  | c =>
    if c.toNat < 0x20 then ['\\', 'u', '0', '0', hexDigit (c.toNat / 16), hexDigit (c.toNat % 16)]
    else [c]

/-- A text between quotes. -/
def quote (s : String) : List Char :=
  '"' :: (s.toList.flatMap escaped ++ ['"'])

/-! ### Numbers -/

/-- Whole numbers in decimal. -/
def integerText (i : Int) : List Char :=
  (if i < 0 then ['-'] else []) ++ Decimal.digitsOf i.natAbs

/-- Digits in positional notation, with a point and at least one digit on either side of it. -/
def positional (digits : List Char) (exponent : Int) : List Char :=
  if exponent < 0 then '0' :: '.' :: (List.replicate (-exponent - 1).toNat '0' ++ digits)
  else
    let whole := exponent.toNat + 1
    let fraction := digits.drop whole
    digits.take whole ++ List.replicate (whole - digits.length) '0' ++
      '.' :: (if fraction.isEmpty then ['0'] else fraction)

/-- Digits with an exponent, which always has a sign. -/
def exponential (digits : List Char) (exponent : Int) : List Char :=
  digits.take 1 ++ (if digits.length > 1 then '.' :: digits.drop 1 else []) ++
    'e' :: (if exponent < 0 then '-' else '+') :: Decimal.digitsOf exponent.natAbs

/-- The decimal exponents that are written in positional notation. -/
def isPositional (exponent : Int) : Bool :=
  -5 ≤ exponent && exponent ≤ 15

/-- A float; the infinities and what is no number have no JSON form and become `null`. -/
def realText (x : Float) : List Char :=
  match Decimal.read x with
  | .notANumber | .infinite _ => ['n', 'u', 'l', 'l']
  | .finite negative m =>
    (if negative then ['-'] else []) ++
      if m.significand = 0 then ['0', '.', '0']
      else
        let s := Decimal.shortest m
        if isPositional s.exponent then positional s.digits s.exponent
        else exponential s.digits s.exponent

/-! ### Values -/

inductive Layout where
  | compact
  | indented
deriving DecidableEq, Repr

/-- What stands where a line may end, before content nested `level` deep. -/
def Layout.gap : Layout → (level : Nat) → List Char
  | .compact, _ => []
  | .indented, level => '\n' :: List.replicate (2 * level) ' '

/-- What stands between a member's name and its value. -/
def Layout.colon : Layout → List Char
  | .compact => [':']
  | .indented => [':', ' ']

mutual

/-- A value nested `level` deep. -/
def Value.chars (l : Layout) (level : Nat) : Value → List Char
  | .null => ['n', 'u', 'l', 'l']
  | .bool true => ['t', 'r', 'u', 'e']
  | .bool false => ['f', 'a', 'l', 's', 'e']
  | .integer i => integerText i
  | .real x => realText x
  | .text s => quote s
  | .list [] => ['[', ']']
  | .list (v :: items) =>
    '[' :: (l.gap (level + 1) ++ v.chars l (level + 1) ++ itemsChars l (level + 1) items ++
      l.gap level ++ [']'])
  | .object [] => ['\x7b', '\x7d']
  | .object ((name, v) :: members) =>
    '\x7b' :: (l.gap (level + 1) ++ quote name ++ l.colon ++ v.chars l (level + 1) ++
      membersChars l (level + 1) members ++ l.gap level ++ ['\x7d'])

/-- The items after the first, each behind its comma. -/
def itemsChars (l : Layout) (level : Nat) : List Value → List Char
  | [] => []
  | v :: items => ',' :: (l.gap level ++ v.chars l level ++ itemsChars l level items)

/-- The members after the first, each behind its comma. -/
def membersChars (l : Layout) (level : Nat) : List (String × Value) → List Char
  | [] => []
  | (name, v) :: members =>
    ',' :: (l.gap level ++ quote name ++ l.colon ++ v.chars l level ++
      membersChars l level members)

end

/-- A value as a text on one line. -/
def Value.compact (v : Value) : String := String.ofList (v.chars .compact 0)

/-- A value as a text of indented lines. -/
def Value.indented (v : Value) : String := String.ofList (v.chars .indented 0)

end DeviceConsole.Json
