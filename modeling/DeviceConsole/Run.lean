import DeviceConsole.CommandLine.Options
import DeviceConsole.Files
import DeviceConsole.Report.Document
import DeviceConsole.Report.Summary
import DeviceConsole.Storage
import DeviceConsole.Uninstall.Dialog

/-!
Runs of the two commands.

A run first opens what it is told to read. Everything that can be refused is then decided without
the disk (`prepare`, `prepareUninstall`), so a refused run has changed nothing and printed nothing.
Only a prepared report is written, and only a written one is printed.
-/
namespace DeviceConsole

open CommandLine

/-- How a run ends: its result, what it prints and what it points out. -/
structure Outcome where
  result : Except Error Unit
  printed : String := ""
  warnings : List Warning := []

namespace Outcome

def exitCode (o : Outcome) : UInt32 :=
  match o.result with
  | .ok () => 0
  | .error e => e.exitCode

/-- What the run complains of. -/
def complaint (o : Outcome) : String :=
  match o.result with
  | .ok () => ""
  | .error e => e.message ++ "\n"

end Outcome

namespace Run

/-- A path with what opening it gave. -/
abbrev Opened := String × Except Fault Stream

/-- What a report is made from. -/
structure Sources where
  settings : Option Opened
  data : Opened
  events : Option Opened

/-! ### Preparing -/

/-- Named filters in order, up to the first that is refused. -/
def applyFilters : List String → Report → Except Error Report
  | [], r => .ok r
  | raw :: raws, r => do
    let (name, value) ← splitFilter raw
    applyFilters raws (← r.setNamed name value)

/-- The report with all its changes: the events of the file, then the named filters, then the
flags. -/
def changed (o : ReportOptions) (events : Option Opened) (r : Report) : Except Error Report := do
  let events ← match events with
    | some (path, opened) => Files.events path opened
    | none => pure []
  let r ← applyFilters o.filters (r.handleAll events)
  pure (r.handleAll o.flagEvents)

/-- The report and its query, or the first defect in the order settings, data, events, filters; and
what there is to point out up to then. -/
def prepare (o : ReportOptions) (src : Sources) :
    List Warning × Except Error (Report × Filter.Query) :=
  match Files.resolveSettings src.settings o.statusRule with
  | .error e => ([], .error e)
  | .ok settings =>
    match Files.enrollment src.data.1 src.data.2 with
    | .error e => (settings.warnings, .error e)
    | .ok data =>
      (settings.warnings ++ data.warnings,
        (changed o src.events (Report.begin settings data)).map fun r =>
          (r, r.query o.offset o.limit))

/-- The request and the settings for it. -/
def prepareUninstall (o : UninstallOptions) (settings : Option Opened) :
    List Warning × Except Error (Uninstall.Request × Settings) :=
  match Files.resolveSettings settings none with
  | .error e => ([], .error e)
  | .ok settings =>
    let dialog : Uninstall.Dialog := { uuid := o.uuid, deviceType := o.deviceType }
    (settings.warnings, do
      let dialog ← dialog.reveal.selectTab o.scope.key
      let request ← dialog.request o.targets
      pure (request, settings))

/-! ### Acting -/

variable {m : Type → Type} [Monad m]

/-- Write the document and the summary of a report into a folder, the document first. -/
def writeReport (disk : Disk m) (q : Filter.Query) (folder : String) (r : Report) :
    m (Except Error Unit) := do
  match ← disk.makeFolders folder with
  | .error fault => pure (.error (.io fault))
  | .ok () =>
    match r.document q with
    | .error e => pure (.error e)
    | .ok document =>
      match ← disk.save (Path.join folder "params.json") document with
      | .error fault => pure (.error (.io fault))
      | .ok () =>
        match r.summary q with
        | .error e => pure (.error e)
        | .ok summary =>
          match ← disk.save (Path.join folder "report.txt") summary with
          | .error fault => pure (.error (.io fault))
          | .ok () => pure (.ok ())

def openPath (disk : Disk m) (path : String) : m Opened := do
  pure (path, ← disk.load path)

def openOptional (disk : Disk m) (path : Option String) : m (Option Opened) := do
  match path with
  | some path => pure (some (← openPath disk path))
  | none => pure none

def report (disk : Disk m) (o : ReportOptions) : m Outcome := do
  let settings ← openOptional disk o.settings
  let data ← openPath disk o.data
  let events ← openOptional disk o.events
  match prepare o { settings := settings, data := data, events := events } with
  | (warnings, .error e) => pure { result := .error e, warnings := warnings }
  | (warnings, .ok (r, q)) =>
    match ← writeReport disk q o.out r with
    | .error e => pure { result := .error e, warnings := warnings }
    | .ok () =>
      pure { result := .ok (), printed := q.path r.settings ++ "\n", warnings := warnings }

def uninstall (disk : Disk m) (o : UninstallOptions) : m Outcome := do
  let settings ← openOptional disk o.settings
  match prepareUninstall o settings with
  | (warnings, .error e) => pure { result := .error e, warnings := warnings }
  | (warnings, .ok (request, settings)) =>
    pure { result := .ok (), printed := request.printed settings, warnings := warnings }

/-- Carry out a command. -/
def command (disk : Disk m) : Command → m Outcome
  | .report o => report disk o
  | .uninstall o => uninstall disk o

end Run

end DeviceConsole
