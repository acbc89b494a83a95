import DeviceConsole.Text.Printable

/-!
Texts quoted for a diagnostic: between double quotes, with a short escape for the null, the tab,
the line ends, the quote and the backslash, and the code point in braces for every other
character that is not shown as it is.
-/
namespace DeviceConsole.Text

/-- The code point in braces, in lower-case hexadecimal. -/
def codePoint (c : Char) : List Char :=
  ['\\', 'u', '\x7b'] ++ Nat.toDigits 16 c.toNat ++ ['\x7d']

/-- A character as it stands inside a quoted text. -/
def quotedChar (c : Char) : List Char :=
  match c with
  | '\x00' => ['\\', '0']
  | '\t' => ['\\', 't']
  | '\r' => ['\\', 'r']
  | '\n' => ['\\', 'n']
  | '\\' => ['\\', '\\']
  | '"' => ['\\', '"']
  | c => if isShown c then [c] else codePoint c

/-- A text between double quotes, as diagnostics show it. -/
def quoted (s : String) : String :=
  String.ofList ('"' :: s.toList.flatMap quotedChar ++ ['"'])

example : quoted "it's" = "\"it's\"" := by decide +kernel
example : quoted "a\n\u0301" = "\"a\\n\\u\x7b301\x7d\"" := by decide +kernel

end DeviceConsole.Text
