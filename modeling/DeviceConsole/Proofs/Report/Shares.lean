import DeviceConsole.Proofs.Success
import DeviceConsole.Report
import Mathlib.Algebra.GroupWithZero.Nat

/-!
The total of the counts and the shares of the segments.

The total is the exact sum of the counts, or there is none (`total_eq_ok_iff`). With a total there
is one share for each segment in the order of the data, and the selected ones are those whose item
is the ownership in effect (`shares_eq`).
-/
namespace DeviceConsole

/-! ### The total -/

namespace Enrollment

/-- All devices, however many there are. -/
def devices (e : Enrollment) : Nat := (e.segments.map fun s => s.count.toNat).sum

theorem addCounts_eq_ok_iff {a b sum : UInt64} :
    addCounts a b = .ok sum ↔ sum.toNat = a.toNat + b.toNat := by
  rw [addCounts]
  split
  · next hfits =>
    have hadd : (a + b).toNat = a.toNat + b.toNat := by
      rw [UInt64.toNat_add, Nat.mod_eq_of_lt hfits]
    rw [Except.ok.injEq, ← UInt64.toNat_inj, hadd]
    exact eq_comm
  · next hlarge =>
    have hsum := sum.toNat_lt_size
    refine ⟨nofun, fun h => ?_⟩
    omega

theorem exists_addCounts {a b : UInt64} (h : a.toNat + b.toNat < UInt64.size) :
    ∃ sum, addCounts a b = .ok sum :=
  ⟨a + b, if_pos h⟩

theorem foldlM_addCounts_eq_ok_iff {segments : List Segment} {start total : UInt64} :
    segments.foldlM (fun sum s => addCounts sum s.count) start = .ok total ↔
      total.toNat = start.toNat + (segments.map fun s => s.count.toNat).sum := by
  induction segments generalizing start with
  | nil =>
    rw [List.foldlM_nil, List.map_nil, List.sum_nil, Nat.add_zero, UInt64.toNat_inj]
    exact ⟨fun h => (Except.ok.inj h).symm, fun h => congrArg _ h.symm⟩
  | cons s segments ih =>
    rw [List.foldlM_cons, bind_eq_ok_iff, List.map_cons, List.sum_cons, ← Nat.add_assoc]
    constructor
    · rintro ⟨sum, hsum, hrest⟩
      rw [← addCounts_eq_ok_iff.1 hsum]
      exact ih.1 hrest
    · intro h
      -- What is added up so far is not beyond the last sum, so it fits as well.
      have hfits := total.toNat_lt_size
      obtain ⟨sum, hsum⟩ : ∃ sum, addCounts start s.count = .ok sum :=
        exists_addCounts (by omega)
      refine ⟨sum, hsum, ih.2 ?_⟩
      rw [addCounts_eq_ok_iff.1 hsum, h]

/-- **The total is exact**: counts are added up one after the other, and no sum on the way is lost
or refused unless the last one is. -/
theorem total_eq_ok_iff {e : Enrollment} {total : UInt64} :
    e.total = .ok total ↔ total.toNat = e.devices := by
  rw [Enrollment.total, foldlM_addCounts_eq_ok_iff, UInt64.toNat_zero, Nat.zero_add, devices]

theorem exists_total {e : Enrollment} (h : e.devices < UInt64.size) :
    ∃ total, e.total = .ok total :=
  ⟨.ofNat e.devices, total_eq_ok_iff.2 (UInt64.toNat_ofNat_of_lt h)⟩

end Enrollment

namespace Report

/-! ### The selected segment -/

theorem selected?_eq_some_iff {r : Report} {item : String} :
    r.selected? = some item ↔
      r.params.ownership = some item ∧ ∃ s ∈ r.data.segments, s.item = item := by
  rw [selected?, Option.bind_eq_some_iff]
  constructor
  · rintro ⟨ownership, howner, hfind⟩
    obtain ⟨s, hs, rfl⟩ := Option.map_eq_some_iff.1 hfind
    obtain rfl : s.item = ownership := by simpa using List.find?_some hs
    exact ⟨howner, s, List.mem_of_find?_eq_some hs, rfl⟩
  · rintro ⟨howner, s, hmem, hitem⟩
    refine ⟨item, howner, ?_⟩
    cases hfind : r.data.segments.find? fun s => s.item == item with
    | none => exact absurd (beq_iff_eq.2 hitem) (List.find?_eq_none.1 hfind s hmem)
    | some found =>
      have hfound : found.item = item := by simpa using List.find?_some hfind
      exact congrArg some hfound

/-- The share of a segment of the data. -/
def shareOf (r : Report) (total : UInt64) (s : Segment) : Share where
  item := s.item
  count := s.count
  fraction := fractionOf s.count total
  selected := decide (r.params.ownership = some s.item)

/-- **One share for each segment**, in the order of the data. -/
theorem shares_eq {r : Report} {total : UInt64} (h : r.data.total = .ok total) :
    r.shares = .ok (r.data.segments.map (r.shareOf total)) := by
  rw [shares, h, ok_bind]
  refine congrArg Except.ok (List.map_congr_left fun s hs => ?_)
  have hselected : (r.selected? == some s.item) = decide (r.params.ownership = some s.item) := by
    rw [Bool.eq_iff_iff, beq_iff_eq, decide_eq_true_iff, selected?_eq_some_iff]
    exact and_iff_left ⟨s, hs, rfl⟩
  rw [shareOf, ← hselected]

end Report

end DeviceConsole
