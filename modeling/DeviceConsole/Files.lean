import DeviceConsole.Event
import DeviceConsole.Enrollment
import DeviceConsole.Gzip.Member
import DeviceConsole.Settings
import DeviceConsole.Storage.Path

/-!
The files that a run reads: settings, enrollment data and events.

Each is a pure function of the file's path and of what opening it gave. A path that ends in `.gz`
holds its content compressed; after that all files are read alike.
-/
namespace DeviceConsole.Files

/-- The stream of a file's content. -/
def content (path : String) (opened : Except Fault Stream) : Except Error Stream :=
  match opened with
  | .error fault => .error (.io fault)
  | .ok file => .ok (if Path.extension? path = some "gz" then Gzip.expand file else file)

/-- The document in a file. -/
def document (r : Json.Reader α) (path : String) (opened : Except Fault Stream) :
    Except Error α := do
  match Json.document r (← content path opened) with
  | .ok a => pure a
  | .error failure => .error (.json failure)

def settings (path : String) (opened : Except Fault Stream) : Except Error Settings :=
  document Settings.reader path opened

/-- Enrollment data, of which neither date may be blank. -/
def enrollment (path : String) (opened : Except Fault Stream) : Except Error Enrollment := do
  let e ← document Enrollment.reader path opened
  if Text.isAllBlank e.dateFrom || Text.isAllBlank e.dateTo then
    .error (.input (.blankDate path))
  else pure e

def events (path : String) (opened : Except Fault Stream) : Except Error (List Event) := do
  Event.ofStream (← content path opened)

/-- The settings of a run: those of a file if one is given, with the rule of the command line if
that gives one. -/
def resolveSettings (file : Option (String × Except Fault Stream))
    (rule : Option Filter.StatusRule) : Except Error Settings := do
  let s ← match file with
    | some (path, opened) => settings path opened
    | none => pure {}
  pure (s.withRule rule)

end DeviceConsole.Files
