import DeviceConsole.Event
import DeviceConsole.Settings
import DeviceConsole.Uninstall.Target

/-!
What a command line asks for.
-/
namespace DeviceConsole.CommandLine

structure ReportOptions where
  data : String
  out : String
  events : Option String := none
  filters : List String := []
  status : Option String := none
  ownership : Option String := none
  chart : Option String := none
  settings : Option String := none
  statusRule : Option Filter.StatusRule := none
  offset : UInt32 := 0
  limit : Option UInt32 := none
deriving DecidableEq, Repr

structure UninstallOptions where
  uuid : String
  scope : Uninstall.Scope := .device
  deviceType : String := "android"
  settings : Option String := none
  targets : List String
deriving DecidableEq, Repr

inductive Command where
  | report (options : ReportOptions)
  | uninstall (options : UninstallOptions)
deriving DecidableEq, Repr

structure Invocation where
  verbose : Bool
  command : Command
deriving DecidableEq, Repr

/-- The events that the flags of a report stand for. Their order does not depend on the order of
the flags: the status comes first, a click on the chart last. -/
def ReportOptions.flagEvents (o : ReportOptions) : List Event :=
  (o.status.map fun v => Event.status (some v)).toList ++
    (o.ownership.map fun v => Event.ownership (some v)).toList ++
    (o.chart.map Event.segment).toList

/-- The key and the value of a filter argument, cut at its first `=`. An empty value is none. -/
def splitFilter (raw : String) : Except Error (String × Option String) :=
  match Text.cut? '=' raw.toList with
  | some (key, value) => .ok (String.ofList (Text.strip Text.isBlank key), Event.valueOf? value)
  | none => .error (.input (.filterWithoutEquals raw))

end DeviceConsole.CommandLine
