import DeviceConsole.Proofs.Report.Shares
import DeviceConsole.Report.Document
import DeviceConsole.Report.Summary

/-!
When a report can be rendered.

The shares, the document and the summary of a report need the total of its counts and nothing else
that could fail. So they exist together while the total fits sixty-four bits (`exists_document`,
`exists_summary`), and all of them overflow when it does not (`total_of_large` and what follows from
it).
-/
namespace DeviceConsole

/-! ### The total -/

namespace Enrollment

theorem addCounts_cases (a b : UInt64) :
    (∃ sum, addCounts a b = .ok sum) ∨ addCounts a b = .error .totalOverflow := by
  unfold addCounts
  split
  · exact .inl ⟨_, rfl⟩
  · exact .inr rfl

/-- Adding counts can fail in one way only. -/
theorem foldlM_addCounts_cases (segments : List Segment) (start : UInt64) :
    (∃ total, segments.foldlM (fun sum s => addCounts sum s.count) start = .ok total) ∨
      segments.foldlM (fun sum s => addCounts sum s.count) start = .error .totalOverflow := by
  induction segments generalizing start with
  | nil => exact .inl ⟨start, rfl⟩
  | cons s segments ih =>
    rw [List.foldlM_cons]
    rcases addCounts_cases start s.count with ⟨sum, hsum⟩ | hsum
    · rw [hsum, ok_bind]
      exact ih sum
    · rw [hsum]
      exact .inr rfl

/-- Counts of which the sum does not fit have no total. -/
theorem total_of_large {e : Enrollment} (h : UInt64.size ≤ e.devices) :
    e.total = .error .totalOverflow := by
  rcases foldlM_addCounts_cases e.segments 0 with ⟨total, htotal⟩ | hoverflow
  · have hfits := total.toNat_lt_size
    have hsum := total_eq_ok_iff.1 htotal
    omega
  · exact hoverflow

end Enrollment

/-! ### What is rendered -/

namespace Report

variable {r : Report} {total : UInt64}

theorem exists_document (h : r.data.total = .ok total) (q : Filter.Query) :
    ∃ text, r.document q = .ok text := by
  rw [document, shares_eq h]
  exact ⟨_, rfl⟩

theorem exists_summary (h : r.data.total = .ok total) (q : Filter.Query) :
    ∃ text, r.summary q = .ok text := by
  rw [summary, shares_eq h, h]
  exact ⟨_, rfl⟩

/-- There is no document without a total. -/
theorem exists_total_of_document {q : Filter.Query} {text : String}
    (h : r.document q = .ok text) : ∃ total, r.data.total = .ok total := by
  obtain ⟨shares, hshares, -⟩ := bind_eq_ok_iff.1 h
  obtain ⟨total, htotal, -⟩ := bind_eq_ok_iff.1 hshares
  exact ⟨total, htotal⟩

theorem shares_of_overflow (h : r.data.total = .error .totalOverflow) :
    r.shares = .error .totalOverflow := by
  rw [shares, h]
  rfl

theorem document_of_overflow (h : r.data.total = .error .totalOverflow) (q : Filter.Query) :
    r.document q = .error .totalOverflow := by
  rw [document, shares_of_overflow h]
  rfl

theorem summary_of_overflow (h : r.data.total = .error .totalOverflow) (q : Filter.Query) :
    r.summary q = .error .totalOverflow := by
  rw [summary, shares_of_overflow h]
  rfl

end Report

end DeviceConsole
