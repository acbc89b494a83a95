import DeviceConsole.Error
import DeviceConsole.Text.Blank
import DeviceConsole.Text.Pieces

/-!
Events of a report's controls, and the files that list them.

A file has one event a line: its kind, and after a tab its value. White space around either does
not matter, and an empty value is none. Lines are counted from one; blank lines and lines that
start with `#` count too, but say nothing. The first defect of a file is the one reported.
-/
namespace DeviceConsole

inductive Event where
  | status (value : Option String)
  | ownership (value : Option String)
  | segment (label : String)
deriving DecidableEq, Repr

namespace Event

/-- The kind of an event as a file names it. -/
def kind : Event → String
  | .status _ => "status"
  | .ownership _ => "ownership"
  | .segment _ => "chart"

def value? : Event → Option String
  | .status v => v
  | .ownership v => v
  | .segment label => some label

/-- The event of a kind and a value. -/
def ofFields (kind : String) (value : Option String) : Except EventDefect Event :=
  if kind = "chart" then
    match value with
    | some label => .ok (.segment label)
    | none => .error .missingLabel
  else match Filter.Key.ofName? kind with
    | some .status => .ok (.status value)
    | some .ownership => .ok (.ownership value)
    | some key => .error (.fixedKind key)
    | none => .error (.unknownKind kind)

/-! ### Lines -/

/-- Trimmed characters as a value, if there are any. -/
def valueOf? (cs : List Char) : Option String :=
  let v := Text.strip Text.isBlank cs
  if v.isEmpty then none else some (String.ofList v)

/-- The kind and the value of a line. -/
def fields (line : List Char) : String × Option String :=
  match Text.cut? '\t' line with
  | some (kind, value) => (String.ofList (Text.strip Text.isBlank kind), valueOf? value)
  | none => (String.ofList (Text.strip Text.isBlank line), none)

/-- Whether a line says nothing. -/
def isSilent (line : List Char) : Bool :=
  match line.dropWhile Text.isBlank with
  | [] => true
  | c :: _ => c = '#'

/-- What ends a line. -/
def isLineEnd (c : Char) : Bool := c = '\n' || c = '\r'

/-- The event of a line, none if it says nothing. -/
def ofLine (line : List Char) : Except EventDefect (Option Event) :=
  let line := Text.dropEnd isLineEnd line
  if isSilent line then .ok none
  else
    let (kind, value) := fields line
    (ofFields kind value).map some

/-! ### Files -/

/-- Bytes cut behind each line feed, and those behind the last one. The lines so far and the line
that has been begun are kept last first. -/
def cutFrom (lines : List (List UInt8)) (begun : List UInt8) :
    List UInt8 → List (List UInt8) × List UInt8
  | [] => (lines.reverse, begun.reverse)
  | b :: rest =>
    if b = 0x0a then cutFrom ((b :: begun).reverse :: lines) [] rest
    else cutFrom lines (b :: begun) rest

/-- Bytes cut behind each line feed, and those behind the last one. -/
def cutLines (bytes : List UInt8) : List (List UInt8) × List UInt8 :=
  cutFrom [] [] bytes

/-- The lines of a stream. A fault strikes the line during which it is met, whatever has been read
of that line. -/
def linesOf (s : Stream) : List (Except Fault (List UInt8)) :=
  let (lines, last) := cutLines s.bytes
  lines.map .ok ++ match s.ending, last with
    | .complete, [] => []
    | .complete, last => [.ok last]
    | .broken fault, _ => [.error fault]

/-- What the `n`-th line says. -/
def ofLineBytes (n : Nat) (line : Except Fault (List UInt8)) : Except Error (Option Event) :=
  match line with
  | .error fault => .error (.io fault)
  | .ok bytes =>
    match Stream.text? bytes with
    | none => .error (.io .notUtf8)
    | some s =>
      match ofLine s.toList with
      | .ok event => .ok event
      | .error defect => .error (.event n defect)

/-- The events of lines that count from `n`, behind those in `events`, which come last first. -/
def ofLinesFrom (n : Nat) (events : List Event) : List (Except Fault (List UInt8)) →
    Except Error (List Event)
  | [] => .ok events.reverse
  | line :: lines =>
    match ofLineBytes n line with
    | .error e => .error e
    | .ok none => ofLinesFrom (n + 1) events lines
    | .ok (some event) => ofLinesFrom (n + 1) (event :: events) lines

/-- The events of a file. -/
def ofStream (s : Stream) : Except Error (List Event) :=
  ofLinesFrom 1 [] (linesOf s)

end Event

end DeviceConsole
