import DeviceConsole.Filter.Query

/-!
A request to uninstall an application.

A request is made only by `build`, which checks the application first, then that there are
targets, then that each of them belongs to the scope, then that none of them is blank. It keeps
what it is given as it is.
-/
namespace DeviceConsole.Uninstall

structure Request where
  uuid : String
  scope : Scope
  targets : List Target
deriving DecidableEq, Repr

namespace Request

def build (uuid : String) (scope : Scope) (targets : List Target) : Except Error Request :=
  if Text.isAllBlank uuid then .error (.request .blankUuid)
  else if targets.isEmpty then .error (.request (.noTargets scope))
  else match targets.find? fun t => !t.fits scope with
    | some bad => .error (.request (.misplaced bad scope))
    | none =>
      if targets.any fun t => Text.isAllBlank t.label then .error (.request (.blankTarget scope))
      else .ok ⟨uuid, scope, targets⟩

/-- Where the request is sent. -/
def endpoint (s : Settings) (r : Request) : String :=
  Filter.Query.base s.storeContext ++ "/subscription/" ++ r.uuid ++ "/" ++
    r.scope.subscription ++ "/uninstall"

def payloadValue (r : Request) : Json.Value :=
  .list (r.targets.map Target.json)

/-- What is sent. -/
def payload (r : Request) : String := r.payloadValue.compact

def json (r : Request) : Json.Value :=
  .object [("uuid", .text r.uuid), ("scope", .text r.scope.key), ("targets", r.payloadValue)]

/-- The request as it is printed. -/
def printed (s : Settings) (r : Request) : String :=
  "POST " ++ r.endpoint s ++ "\n" ++ r.payload ++ "\n"

end Request

end DeviceConsole.Uninstall
