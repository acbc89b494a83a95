import DeviceConsole.Json.Printer
import DeviceConsole.Stream
import DeviceConsole.Text.Quoted

/-!
Why a JSON document is refused, and where.

A failure is a cause and, in most cases, a place: the line, and how many bytes of that line the
reader had looked at. The byte that decided the failure counts as looked at.
-/
namespace DeviceConsole.Json

/-- A place in a document. Lines count from one; the column is the number of bytes of the line that
have been looked at. -/
structure Position where
  line : Nat
  column : Nat
deriving DecidableEq, Repr

def Position.start : Position := ⟨1, 0⟩

/-- The place after one more byte. -/
def Position.past (p : Position) (b : UInt8) : Position :=
  if b = 10 then ⟨p.line + 1, 0⟩ else ⟨p.line, p.column + 1⟩

/-- What stands in a document where something else was expected. -/
inductive Found where
  | null
  | bool (b : Bool)
  | integer (i : Int)
  | real (x : Float)
  | text (s : String)
  | list
  | object

def Found.describe : Found → String
  | .null => "null"
  | .bool b => "boolean `" ++ (if b then "true" else "false") ++ "`"
  | .integer i => "integer `" ++ String.ofList (integerText i) ++ "`"
  | .real x => "floating point `" ++ String.ofList (realText x) ++ "`"
  | .text s => "string " ++ Text.quoted s
  | .list => "sequence"
  | .object => "map"

/-- Why a document is refused. -/
inductive Cause where
  /-- The bytes could not be read to their end. -/
  | unreadable (fault : Fault)
  | endInValue
  | endInText
  | endInList
  | endInObject
  | expectedColon
  | expectedCommaOrBracket
  | expectedCommaOrBrace
  | expectedWord
  | expectedValue
  | invalidNumber
  | numberOutOfRange
  | nameNotText
  | invalidEscape
  | controlCharacter
  | loneSurrogate
  | unfinishedSurrogates
  | textNotUtf8
  | nestedTooDeep
  | trailingComma
  | trailingCharacters
  | wrongKind (found : Found) (expected : String)
  | outOfRange (found : Found) (expected : String)
  | wrongLength (length : Nat) (expected : String)
  | missingMember (name : String)
  | repeatedMember (name : String)
  | unknownVariant (name : String) (known : List String)
  | noVariant (type : String)

/-- Names between backticks: two joined by "or", more as a list. -/
def alternatives : List String → String
  | [] => ""
  | [a] => "`" ++ a ++ "`"
  | [a, b] => "`" ++ a ++ "` or `" ++ b ++ "`"
  | names => "one of " ++ String.intercalate ", " (names.map fun n => "`" ++ n ++ "`")

def Cause.message : Cause → String
  | .unreadable fault => fault.message
  | .endInValue => "EOF while parsing a value"
  | .endInText => "EOF while parsing a string"
  | .endInList => "EOF while parsing a list"
  | .endInObject => "EOF while parsing an object"
  | .expectedColon => "expected `:`"
  | .expectedCommaOrBracket => "expected `,` or `]`"
  | .expectedCommaOrBrace => "expected `,` or `\x7d`"
  | .expectedWord => "expected ident"
  | .expectedValue => "expected value"
  | .invalidNumber => "invalid number"
  | .numberOutOfRange => "number out of range"
  | .nameNotText => "key must be a string"
  | .invalidEscape => "invalid escape"
  | .controlCharacter => "control character (\\u0000-\\u001F) found while parsing a string"
  | .loneSurrogate => "lone leading surrogate in hex escape"
  | .unfinishedSurrogates => "unexpected end of hex escape"
  | .textNotUtf8 => "invalid unicode code point"
  | .nestedTooDeep => "recursion limit exceeded"
  | .trailingComma => "trailing comma"
  | .trailingCharacters => "trailing characters"
  | .wrongKind found expected => "invalid type: " ++ found.describe ++ ", expected " ++ expected
  | .outOfRange found expected => "invalid value: " ++ found.describe ++ ", expected " ++ expected
  | .wrongLength length expected =>
    "invalid length " ++ toString length ++ ", expected " ++ expected
  | .missingMember name => "missing field `" ++ name ++ "`"
  | .repeatedMember name => "duplicate field `" ++ name ++ "`"
  | .unknownVariant name known =>
    "unknown variant `" ++ name ++ "`, expected " ++ alternatives known
  | .noVariant type => "data did not match any variant of untagged enum " ++ type

/-- A refusal, with its place if it has one. -/
structure Failure where
  cause : Cause
  place : Option Position

namespace Failure

def message (f : Failure) : String :=
  match f.place with
  | none => f.cause.message
  | some p =>
    f.cause.message ++ " at line " ++ toString p.line ++ " column " ++ toString p.column

/-- The failure with a place, which is `p` if it had none. -/
def locate (p : Position) (f : Failure) : Failure :=
  { f with place := f.place.or (some p) }

end Failure

end DeviceConsole.Json
