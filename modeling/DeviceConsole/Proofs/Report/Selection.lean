import DeviceConsole.Proofs.Filter.Path
import DeviceConsole.Proofs.Report.LastWrite
import DeviceConsole.Proofs.Report.Shares

/-!
The shares of a report and the segment it is filtered to.

What is selected is found by one search through the segments and then compared with each of them, so
several segments with one item could have come apart. They cannot: a share is selected exactly if its
item is the ownership in effect (`mirrors_shareOf`), and the search finds nothing exactly if no share
is (`selected?_eq_none_iff`). A click moves the ownership and with it all the marks
(`marks_of_click`, `marks_of_click_all`), whatever has happened to the report before
(`shares_after`).
-/
namespace DeviceConsole.Report
open DeviceConsole.Filter

/-- What the shares of a report say of its data, of the total and of the ownership in effect. -/
structure Mirrors (r : Report) (total : UInt64) (shares : List Share) : Prop where
  /-- One share for each segment, in order. -/
  segments : shares.map (fun s => Segment.mk s.item s.count) = r.data.segments
  counts : (shares.map fun s => s.count.toNat).sum = total.toNat
  fraction : ∀ s ∈ shares, s.fraction = fractionOf s.count total
  selected : ∀ s ∈ shares, s.selected = true ↔ r.params.ownership = some s.item

/-- Nothing is a part of an empty total. -/
theorem fractionOf_zero (count : UInt64) : fractionOf count 0 = 0 := if_pos rfl

variable {r : Report} {total : UInt64} {shares : List Share}

theorem mirrors_shareOf (h : r.data.total = .ok total) :
    Mirrors r total (r.data.segments.map (r.shareOf total)) where
  segments := by
    rw [List.map_map]
    exact List.map_id _
  counts := by
    rw [List.map_map]
    exact (Enrollment.total_eq_ok_iff.1 h).symm
  fraction := by
    intro s hs
    obtain ⟨segment, -, rfl⟩ := List.mem_map.1 hs
    rfl
  selected := by
    intro s hs
    obtain ⟨segment, -, rfl⟩ := List.mem_map.1 hs
    exact decide_eq_true_iff

namespace Mirrors

theorem fraction_of_empty (h : Mirrors r total shares) (hempty : total = 0) :
    ∀ s ∈ shares, s.fraction = 0 := by
  intro s hs
  rw [h.fraction s hs, hempty, fractionOf_zero]

/-- Shares of one item are selected together. -/
theorem selected_congr (h : Mirrors r total shares) {s t : Share} (hs : s ∈ shares)
    (ht : t ∈ shares) (hitem : s.item = t.item) : s.selected = t.selected := by
  rw [Bool.eq_iff_iff, h.selected s hs, h.selected t ht, hitem]

/-- The marks of the shares, in the order of the segments. -/
theorem marks (h : Mirrors r total shares) :
    shares.map (·.selected) =
      r.data.segments.map fun s => decide (r.params.ownership = some s.item) := by
  rw [← h.segments, List.map_map]
  refine List.map_congr_left fun s hs => ?_
  rw [Function.comp_apply, Bool.eq_iff_iff, h.selected s hs, decide_eq_true_iff]

theorem selected?_eq_none_iff (h : Mirrors r total shares) :
    r.selected? = none ↔ ∀ s ∈ shares, s.selected = false := by
  have hmem {s : Share} (hs : s ∈ shares) : ⟨s.item, s.count⟩ ∈ r.data.segments :=
    h.segments ▸ List.mem_map_of_mem hs
  constructor
  · intro hnone s hs
    rw [← Bool.not_eq_true, h.selected s hs]
    intro howner
    have hsome := selected?_eq_some_iff.2 ⟨howner, _, hmem hs, rfl⟩
    rw [hnone] at hsome
    cases hsome
  · intro hall
    rw [Option.eq_none_iff_forall_ne_some]
    intro item hitem
    obtain ⟨howner, segment, hsegment, rfl⟩ := selected?_eq_some_iff.1 hitem
    rw [← h.segments] at hsegment
    obtain ⟨s, hs, rfl⟩ := List.mem_map.1 hsegment
    exact absurd ((h.selected s hs).2 howner) (by simp [hall s hs])

end Mirrors

/-! ### Clicks -/

theorem ownership_click {label : String} (h : label ≠ "ALL") (r : Report) :
    (r.handle (.segment label)).params.ownership = some label := if_neg h

theorem ownership_click_all (r : Report) :
    (r.handle (.segment "ALL")).params.ownership = none := rfl

/-- After a click on a segment that does not stand for all, the shares with its item are selected
and no other. -/
theorem marks_of_click (h : r.data.total = .ok total) {label : String} (hlabel : label ≠ "ALL") :
    ∃ shares, (r.handle (.segment label)).shares = .ok shares ∧
      shares.map (·.selected) = r.data.segments.map fun s => decide (s.item = label) := by
  refine ⟨_, shares_eq h, ?_⟩
  rw [(mirrors_shareOf (r := r.handle (.segment label)) h).marks, ownership_click hlabel]
  refine List.map_congr_left fun s _ => decide_eq_decide.2 ?_
  rw [Option.some_inj, eq_comm]

/-- After a click on what stands for all, no share is selected, not even one of that name. -/
theorem marks_of_click_all (h : r.data.total = .ok total) :
    ∃ shares, (r.handle (.segment "ALL")).shares = .ok shares ∧
      ∀ s ∈ shares, s.selected = false := by
  refine ⟨_, shares_eq h, ?_⟩
  rw [← (mirrors_shareOf (r := r.handle (.segment "ALL")) h).selected?_eq_none_iff, selected?,
    ownership_click_all]
  rfl

/-- **The shares agree with the data and the ownership, after any history.** While the counts fit
sixty-four bits there is one share for each segment, the counts of the shares add up to the total,
and no share is a part of an empty one. A share is selected if its item is the ownership, so shares
of one item are selected together, and the selected segment is the ownership if there is a segment of
that item and nothing if no share is selected. A click on a segment selects all of its item and
nothing else, and is what the device table is asked for; a click on what stands for all selects
nothing. -/
theorem shares_after (r : Report) (cs : List Change) (h : r.data.devices < 2 ^ 64) :
    ∃ total shares, (r.after cs).data.total = .ok total ∧ (r.after cs).shares = .ok shares ∧
      (shares.map (fun s => Segment.mk s.item s.count) = r.data.segments ∧
        (shares.map fun s => s.count.toNat).sum = total.toNat ∧
        (total = 0 → ∀ s ∈ shares, s.fraction = 0)) ∧
      ((∀ s ∈ shares, s.selected = true ↔ (r.after cs).params.ownership = some s.item) ∧
        ∀ s ∈ shares, ∀ t ∈ shares, s.item = t.item → s.selected = t.selected) ∧
      ((∀ item, (r.after cs).selected? = some item ↔
          (r.after cs).params.ownership = some item ∧ ∃ s ∈ r.data.segments, s.item = item) ∧
        ((r.after cs).selected? = none ↔ ∀ s ∈ shares, s.selected = false)) ∧
      (∀ segment ∈ r.data.segments, segment.item ≠ "ALL" →
        (∃ shares, ((r.after cs).handle (.segment segment.item)).shares = .ok shares ∧
          shares.map (·.selected) = r.data.segments.map fun s => decide (s.item = segment.item)) ∧
        ∀ offset limit,
          (((r.after cs).handle (.segment segment.item)).query offset limit).pairs.lookup
            "ownership" = some segment.item) ∧
      ∃ shares, ((r.after cs).handle (.segment "ALL")).shares = .ok shares ∧
        ∀ s ∈ shares, s.selected = false := by
  have hdata : (r.after cs).data = r.data := (sets_after cs r).data
  obtain ⟨total, htotal⟩ := Enrollment.exists_total h
  rw [← hdata] at htotal
  have hmirrors := mirrors_shareOf htotal
  rw [← hdata]
  refine ⟨total, _, htotal, shares_eq htotal,
    ⟨hmirrors.segments, hmirrors.counts, hmirrors.fraction_of_empty⟩,
    ⟨hmirrors.selected, fun s hs t ht => hmirrors.selected_congr hs ht⟩,
    ⟨fun item => selected?_eq_some_iff, hmirrors.selected?_eq_none_iff⟩, ?_,
    marks_of_click_all htotal⟩
  intro segment _ hall
  refine ⟨marks_of_click htotal hall, fun offset limit => ?_⟩
  rw [← ownership_click hall (r.after cs)]
  exact Query.lookup_pairs _ .ownership

/-- Two segments of one item and one that is called what stands for all. -/
def twinReport : Report :=
  begin {} ⟨"2019-01-01", "2019-01-31", [⟨"BYOD", 3⟩, ⟨"ALL", 1⟩, ⟨"BYOD", 4⟩]⟩

theorem shares_after_twins :
    twinReport.data.devices < 2 ^ 64 ∧ ⟨"BYOD", 4⟩ ∈ twinReport.data.segments ∧ "BYOD" ≠ "ALL" ∧
      (∃ shares,
        ((twinReport.after [.named "status" none]).handle (.segment "BYOD")).shares = .ok shares ∧
          shares.map (·.selected) = [true, false, true]) ∧
      ∃ shares,
        ((twinReport.after [.named "status" none]).handle (.segment "ALL")).shares = .ok shares ∧
          ∀ s ∈ shares, s.selected = false := by
  have hmem : ⟨"BYOD", 4⟩ ∈ twinReport.data.segments := by decide
  obtain ⟨-, -, -, -, -, -, -, hclick, hall⟩ :=
    shares_after twinReport [.named "status" none] (by decide)
  exact ⟨by decide, hmem, by decide, (hclick _ hmem (by decide)).1, hall⟩

end DeviceConsole.Report
