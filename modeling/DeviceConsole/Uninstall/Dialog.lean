import DeviceConsole.Uninstall.Request

/-!
The dialog in which an uninstall request is put together: one tab for each scope. Closing it
forgets everything but the application and the device type it was made for.
-/
namespace DeviceConsole.Uninstall

structure Dialog where
  uuid : String
  deviceType : String
  visible : Bool := false
  loading : Bool := false
  active : Scope := .device
deriving DecidableEq, Repr

namespace Dialog

def reveal (d : Dialog) : Dialog := { d with visible := true }

def close (d : Dialog) : Dialog :=
  { d with visible := false, loading := false, active := .device }

def setLoading (loading : Bool) (d : Dialog) : Dialog := { d with loading := loading }

/-- Select the tab of a scope, given by its key or by its name in an endpoint. -/
def selectTab (key : String) (d : Dialog) : Except Error Dialog :=
  match Scope.ofName? key with
  | some scope => .ok { d with active := scope }
  | none => .error (.unknownScope key)

/-- A target of the active tab. -/
def target (d : Dialog) (s : String) : Target :=
  match d.active with
  | .device => .device ⟨s, d.deviceType⟩
  | .user | .role | .group => .name s

/-- The request for the targets of the active tab. -/
def request (targets : List String) (d : Dialog) : Except Error Request :=
  Request.build d.uuid d.active (targets.map d.target)

end Dialog

end DeviceConsole.Uninstall
