import DeviceConsole.Proofs.Json.Decoding
import DeviceConsole.Uninstall.Target

/-!
Targets read back from their printed values.

A target carries no mark of its form: a device is printed as an object and a name as a text, and the
form of the value is all that a reader has to go by. So no name is ever read as a device, whatever
it holds.
-/
namespace DeviceConsole.Uninstall
open Json

namespace Device

theorem ofMembers?_json (id type : String) :
    ofMembers? [("id", .text id), ("type", .text type)] = some ⟨id, type⟩ := rfl

end Device

namespace Target

theorem ofValue?_json (t : Target) : ofValue? t.json = some t := by
  cases t with
  | device d => exact congrArg (Option.map Target.device) (Device.ofMembers?_json d.id d.type)
  | name s => rfl

/-- The value of a target, read as a value of any kind. An object is one level deep. -/
theorem decodes_value (t : Target) (depth : Nat) :
    Decodes (value (depth + 2)) t.json t.json := by
  cases t with
  | device d =>
    refine decodes_value_object fun m hm => ?_
    rcases List.mem_pair.1 hm with rfl | rfl
    · exact decodes_value_text d.id depth
    · exact decodes_value_text d.type depth
  | name s => exact decodes_value_text s (depth + 1)

theorem decodes (t : Target) (depth : Nat) : Decodes (reader (depth + 2)) t.json t := by
  intro l level blanks rest place hblanks hrest
  obtain ⟨place', hread⟩ := t.decodes_value depth l level blanks rest place hblanks hrest
  refine ⟨place', ?_⟩
  simp only [reader, hread, ok_bind, ofValue?_json]
  rfl

theorem decodes_list (ts : List Target) (depth : Nat) :
    Decodes (listOf (reader (depth + 2))) (.list (ts.map json)) ts := by
  refine decodes_listOf ?_
  rw [List.forall₂_map_left_iff, List.forall₂_same]
  exact fun t _ => t.decodes depth

end Target

end DeviceConsole.Uninstall
