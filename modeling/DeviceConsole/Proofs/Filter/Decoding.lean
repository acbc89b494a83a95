import DeviceConsole.Filter.Params
import DeviceConsole.Proofs.Json.Decoding

/-!
Filters and the rule for status values read back from their printed values.

A filter that is not set has no member, and the reader leaves it unset; so an unset filter and one
that is set to the empty text stay apart.
-/
namespace DeviceConsole.Filter
open Json

namespace Params

theorem json_eq (p : Params) :
    p.json = .object (("from", .text p.dateFrom) :: ("to", .text p.dateTo) ::
      ((p.status.map fun v => ("status", .text v)).toList ++
        ((p.ownership.map fun v => ("ownership", .text v)).toList ++ []))) := by
  rw [json, pairs_eq]
  cases p.status <;> cases p.ownership <;> rfl

theorem decodes (p : Params) : Decodes reader p.json p := by
  have hfrom := decodes_string p.dateFrom
  have hto := decodes_string p.dateTo
  rw [json_eq]
  refine decodes_record "FilterParams" (.known rfl (by decide) hfrom.required <|
    .known rfl (by decide) hto.required <| .optional p.status rfl (by decide) rfl <|
    .optional p.ownership rfl ?_ rfl .nil) ?_
  · cases p.status <;> simp
  · simp [Member.required, Member.defaulted]

/-- The members are the names and values of the active keys, in their order. -/
theorem decodes_value (p : Params) (depth : Nat) : Decodes (value (depth + 2)) p.json p.json := by
  refine decodes_value_object fun m hm => ?_
  obtain ⟨⟨name, v⟩, -, rfl⟩ := List.mem_map.mp hm
  exact decodes_value_text v depth

end Params

theorem StatusRule.decodes (rule : StatusRule) : Decodes reader (.text rule.name) rule := by
  cases rule <;> exact decodes_choice rfl

end DeviceConsole.Filter
