import DeviceConsole.Proofs.Filter.Decoding
import DeviceConsole.Proofs.Uninstall.Decoding
import DeviceConsole.Settings

/-!
The documents of this library, read back from one line of text.

Filters, settings and lists of targets are each printed by one function and read by another, which
were not made from one another: the printer leaves out what is not set and the reader supplies it,
the printer writes a choice by its name and the reader looks the name up, and of a target the reader
sees only which form its value has. They agree all the same (`compact_readsBack`).
-/
namespace DeviceConsole
open Json DeviceConsole.Stream

theorem Settings.decodes (s : Settings) : Decodes reader s.json s :=
  decodes_record "ReportConfig"
    (.known rfl (by decide) (decodes_string s.apiContext).defaulted <|
      .known rfl (by decide) (decodes_string s.storeContext).defaulted <|
      .known rfl (by decide) (decodes_uint32 s.pageSize).defaulted <|
      .known rfl (by decide) (Filter.StatusRule.decodes s.statusRule).defaulted .nil)
    (by simp [Member.defaulted])

theorem Filter.Params.compact_injective {p p' : Filter.Params}
    (h : p.json.compact = p'.json.compact) : p = p' := by
  have hread := document_compact p.decodes
  rw [h, document_compact p'.decodes] at hread
  exact (Except.ok.inj hread).symm

/-- **What is printed on one line is read back.** Filters, settings and lists of targets come back as
they were, whatever texts they hold, from a well-formed value. A filter that is not set is told from
one that is set to the empty text, and a device from a name. -/
theorem compact_readsBack :
    (∀ p : Filter.Params,
      document Filter.Params.reader (.whole (bytesOf p.json.compact)) = .ok p) ∧
    (∀ s : Settings, document Settings.reader (.whole (bytesOf s.json.compact)) = .ok s) ∧
    (∀ ts : List Uninstall.Target,
      document (listOf (Uninstall.Target.reader (maxDepth - 1)))
        (.whole (bytesOf (Value.list (ts.map Uninstall.Target.json)).compact)) = .ok ts) ∧
    (∀ v : Value, IsValue (bytesOf v.compact)) ∧
    (∀ p : Filter.Params,
      ({ p with status := none } : Filter.Params).json.compact ≠
        ({ p with status := some "" } : Filter.Params).json.compact ∧
      ({ p with ownership := none } : Filter.Params).json.compact ≠
        ({ p with ownership := some "" } : Filter.Params).json.compact) ∧
    (∀ (d : Uninstall.Device) (s : String),
      document (Uninstall.Target.reader maxDepth)
        (.whole (bytesOf (Uninstall.Target.device d).json.compact)) = .ok (.device d) ∧
      document (Uninstall.Target.reader maxDepth)
        (.whole (bytesOf (Uninstall.Target.name s).json.compact)) = .ok (.name s)) := by
  refine ⟨fun p => document_compact p.decodes, fun s => document_compact s.decodes,
    fun ts => document_compact (Uninstall.Target.decodes_list ts 125), isValue_compact,
    fun p => ⟨fun h => ?_, fun h => ?_⟩, fun d s => ⟨document_compact (Uninstall.Target.decodes _ 126),
      document_compact (Uninstall.Target.decodes _ 126)⟩⟩
  · have hstatus := congrArg Filter.Params.status (Filter.Params.compact_injective h)
    cases hstatus
  · have hownership := congrArg Filter.Params.ownership (Filter.Params.compact_injective h)
    cases hownership

end DeviceConsole
