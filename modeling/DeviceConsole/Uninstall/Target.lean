import DeviceConsole.Json.Reader
import DeviceConsole.Text.Quoted

/-!
What an application is uninstalled from.

A request addresses devices, users, roles or groups. A device is known by its identifier and its
type, everything else by its name.
-/
namespace DeviceConsole.Uninstall

inductive Scope where
  | device
  | user
  | role
  | group
deriving DecidableEq, Repr, Inhabited

namespace Scope

/-- The scopes in the order of their tabs. -/
def all : List Scope := [.device, .user, .role, .group]

def key : Scope → String
  | .device => "device"
  | .user => "user"
  | .role => "role"
  | .group => "group"

def title : Scope → String
  | .device => "Device"
  | .user => "User"
  | .role => "Role"
  | .group => "Group"

/-- The name of the scope in an endpoint. -/
def subscription : Scope → String
  | .device => "devices"
  | .user => "user"
  | .role => "role"
  | .group => "group"

/-- A scope by its key or by its name in an endpoint. -/
def ofName? (s : String) : Option Scope :=
  all.find? fun scope => scope.key == s || scope.subscription == s

theorem ofName?_eq_some_iff {s : String} {scope : Scope} :
    ofName? s = some scope ↔ scope.key = s ∨ scope.subscription = s := by
  constructor
  · intro h
    simpa using List.find?_some h
  · rintro (rfl | rfl) <;> cases scope <;> rfl

def reader : Json.Reader Scope :=
  Json.choice (all.map fun scope => (scope.key, scope))

end Scope

structure Device where
  id : String
  type : String
deriving DecidableEq, Repr

namespace Device

def json (d : Device) : Json.Value :=
  .object [("id", .text d.id), ("type", .text d.type)]

def reader : Json.Reader Device :=
  Json.record "DeviceIdentifier"
    [.required "id" Json.string fun id d => { d with id := id },
     .required "type" Json.string fun type d => { d with type := type }]
    ⟨"", ""⟩

/-- A device from the members of an object: each of its two exactly once, whatever else there
is. -/
def ofMembers? (members : List (String × Json.Value)) : Option Device :=
  match Json.valuesOf "id" members, Json.valuesOf "type" members with
  | [.text id], [.text type] => some ⟨id, type⟩
  | _, _ => none

end Device

inductive Target where
  | device (d : Device)
  | name (s : String)
deriving DecidableEq, Repr

namespace Target

/-- Whether a request of the scope may have the target. -/
def fits : Target → Scope → Bool
  | .device _, scope => scope = .device
  | .name _, scope => scope ≠ .device

/-- The text by which a target is known. -/
def label : Target → String
  | .device d => d.id
  | .name s => s

/-- The target as diagnostics show it. -/
def describe : Target → String
  | .device d =>
    "Device(DeviceIdentifier \x7b id: " ++ Text.quoted d.id ++ ", device_type: " ++
      Text.quoted d.type ++ " \x7d)"
  | .name s => "Name(" ++ Text.quoted s ++ ")"

def json : Target → Json.Value
  | .device d => d.json
  | .name s => .text s

/-- A target by the form of its value: an object with the members of a device, a list of the two,
or a text. -/
def ofValue? : Json.Value → Option Target
  | .object members => (Device.ofMembers? members).map .device
  | .list [.text id, .text type] => some (.device ⟨id, type⟩)
  | .text s => some (.name s)
  | _ => none

/-- A target of either form. The value is read in full before its form is looked at, so a value of
no fitting form has no place to report. -/
def reader (depth : Nat) : Json.Reader Target := fun c => do
  let (v, after) ← Json.value depth c
  match ofValue? v with
  | some target => pure (target, after)
  | none => .error ⟨.noVariant "UninstallTarget", none⟩

end Target

end DeviceConsole.Uninstall
