import DeviceConsole.Filter.Key
import DeviceConsole.Json.Failure
import DeviceConsole.Uninstall.Target

/-!
Why a run fails, and with what message.
-/
namespace DeviceConsole

/-- Why a line of an events file is refused. -/
inductive EventDefect where
  | unknownKind (name : String)
  | fixedKind (key : Filter.Key)
  | missingLabel
deriving DecidableEq, Repr

/-- Why an uninstall request is refused. -/
inductive RequestDefect where
  | blankUuid
  | noTargets (scope : Uninstall.Scope)
  | misplaced (target : Uninstall.Target) (scope : Uninstall.Scope)
  | blankTarget (scope : Uninstall.Scope)
deriving DecidableEq, Repr

/-- Why input that can be read is refused. -/
inductive InputDefect where
  | blankDate (path : String)
  | filterWithoutEquals (raw : String)
deriving DecidableEq, Repr

inductive Error where
  | io (fault : Fault)
  | json (failure : Json.Failure)
  | unknownFilterKey (name : String)
  | fixedFilterKey (key : Filter.Key)
  | unknownStatusRule (name : String)
  | unknownScope (name : String)
  | event (line : Nat) (defect : EventDefect)
  | request (defect : RequestDefect)
  | input (defect : InputDefect)
  /-- The counts of a report add up to more than sixty-four bits hold. -/
  | totalOverflow

namespace Error

def unknownFilterKeyMessage (name : String) : String := "unknown filter key: " ++ name

def fixedFilterKeyMessage (key : Filter.Key) : String :=
  "filter key '" ++ key.name ++ "' is fixed at construction and cannot be changed"

end Error

def EventDefect.message : EventDefect → String
  | .unknownKind name => Error.unknownFilterKeyMessage name ++ " (use status|ownership|chart)"
  | .fixedKind key => Error.fixedFilterKeyMessage key
  | .missingLabel => "chart event needs a segment label"

def RequestDefect.message : RequestDefect → String
  | .blankUuid => "application uuid is empty"
  | .noTargets scope => "no " ++ scope.key ++ " selected"
  | .misplaced target scope =>
    "target " ++ target.describe ++ " does not belong to the " ++ scope.key ++ " tab"
  | .blankTarget scope => "empty " ++ scope.key ++ " in target list"

def InputDefect.message : InputDefect → String
  | .blankDate path => "report data " ++ path ++ " has an empty duration bound"
  | .filterWithoutEquals raw => "--filter expects KEY=VALUE, got '" ++ raw ++ "'"

namespace Error

def message : Error → String
  | .io fault => "IO error: " ++ fault.message
  | .json failure => "JSON error: " ++ failure.message
  | .unknownFilterKey name => unknownFilterKeyMessage name
  | .fixedFilterKey key => fixedFilterKeyMessage key
  | .unknownStatusRule name =>
    "unknown status rule: " ++ name ++ " (use retain|drop-truthy)"
  | .unknownScope name =>
    "unknown uninstall scope: " ++ name ++ " (use device|user|role|group)"
  | .event line defect => "invalid event on line " ++ toString line ++ ": " ++ defect.message
  | .request defect => "invalid uninstall request: " ++ defect.message
  | .input defect => "invalid input: " ++ defect.message
  | .totalOverflow => "attempt to add with overflow"

/-- The exit code of a run that fails so. An overflow stops the run where it stands. -/
def exitCode : Error → UInt32
  | .totalOverflow => 101
  | _ => 1

end Error

/-- What a run points out without failing. -/
inductive Warning where
  | repeatedSegment (item : String)
  | statusesDropped
deriving DecidableEq, Repr

def Warning.message : Warning → String
  | .repeatedSegment _ => "duplicate chart segment in report data; counts are kept as given"
  | .statusesDropped =>
    "status rule drop-truthy in effect; status filters never reach the device query"

/-- The segment that a warning is about. -/
def Warning.item? : Warning → Option String
  | .repeatedSegment item => some item
  | .statusesDropped => none

end DeviceConsole
