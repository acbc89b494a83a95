import DeviceConsole.Text.Pieces

/-!
The words of a command line and why they may be refused.

A word is an option with a long name, some one-letter flags, the mark `--`, or a plain word. A
dash alone is a plain word.
-/
namespace DeviceConsole.CommandLine

/-- Why a command line gives no command. -/
inductive UsageError where
  | helpAsked
  | versionAsked
  | nothingGiven
  | missingSubcommand
  | missingArgument
  | unknownSubcommand
  | unknownArgument
  | repeatedOption
  | missingValue
  | rejectedValue
  | unexpectedValue
deriving DecidableEq, Repr

/-- The exit code: asking for help or for the version is no failure. -/
def UsageError.exitCode : UsageError → UInt32
  | .helpAsked | .versionAsked => 0
  | _ => 2

inductive Word where
  | mark
  | long (name : String) (value : Option String)
  | short (flags : List Char)
  | plain (s : String)
deriving DecidableEq, Repr

def Word.ofString (s : String) : Word :=
  match s.toList with
  | ['-', '-'] => .mark
  | '-' :: '-' :: cs =>
    match Text.cut? '=' cs with
    | some (name, value) => .long (String.ofList name) (some (String.ofList value))
    | none => .long (String.ofList cs) none
  | '-' :: c :: cs => .short (c :: cs)
  | _ => .plain s

/-- A whole number from zero to the largest of thirty-two bits. A sign may stand before it. -/
def count? (s : String) : Option UInt32 :=
  let (negative, digits) := match s.toList with
    | '-' :: ds => (true, ds)
    | '+' :: ds => (false, ds)
    | ds => (false, ds)
  if digits.isEmpty || !digits.all Char.isDigit then none
  else
    let n := digits.foldl (fun n d => n * 10 + (d.toNat - '0'.toNat)) 0
    if n < UInt32.size && (!negative || n = 0) then some n.toUInt32 else none

end DeviceConsole.CommandLine
