import DeviceConsole.Files
import DeviceConsole.Proofs.Json.Refusing
import Mathlib.Data.Finset.Card
import Mathlib.Data.Finset.SDiff

/-!
Enrollment data, loaded from what was written.

Nothing keeps who writes enrollment data from giving any number of dates, or dates that are blank, or
from leaving the segments out. `load_written` says for each such document whether it is loaded, how
it is refused if it is not, and which segments are pointed out.
-/
namespace DeviceConsole
open Json

theorem Segment.decodes (s : Segment) : Decodes reader s.json s :=
  decodes_record "ChartSegment"
    (.known rfl (by decide) (decodes_string s.item).required <|
      .known rfl (by decide) (decodes_uint64 s.count).required .nil)
    (by decide)

namespace Enrollment
open DeviceConsole.Stream

/-! ### What is written -/

/-- Enrollment data with any number of dates, and with the segments or without them. -/
def written (dates : List String) (segments : Option (List Segment)) : Value :=
  .object (("duration", .list (dates.map .text)) ::
    (segments.map fun segments => ("segments", .list (segments.map Segment.json))).toList)

theorem decodes_written (dateFrom dateTo : String) (segments : Option (List Segment)) :
    Decodes reader (written [dateFrom, dateTo] segments)
      ⟨dateFrom, dateTo, segments.getD []⟩ := by
  have hdates : Decodes (pair string "") (.list [.text dateFrom, .text dateTo])
      (dateFrom, dateTo) := decodes_pair (decodes_string dateFrom) (decodes_string dateTo)
  cases segments with
  | none => exact decodes_record "ReportData" (.known rfl (by decide) hdates.required .nil) (by decide)
  | some segments =>
    have hsegments : Decodes (listOf Segment.reader) (.list (segments.map Segment.json)) segments := by
      apply decodes_listOf
      rw [List.forall₂_map_left_iff, List.forall₂_same]
      exact fun s _ => s.decodes
    exact decodes_record "ReportData"
      (.known rfl (by decide) hdates.required <|
        .known rfl (by decide) hsegments.defaulted .nil)
      (by decide)

theorem declines_written {dates : List String} (h : dates.length ≠ 2)
    (segments : Option (List Segment)) : Declines reader (written dates segments) := by
  have hdates : Declines (pair string "") (.list (dates.map .text)) := by
    refine declines_pair (fun v hv => ?_) (by rwa [List.length_map])
    obtain ⟨date, -, rfl⟩ := List.mem_map.1 hv
    exact ⟨date, decodes_string date⟩
  exact declines_record "ReportData" [] .nil rfl (by decide) hdates.required

/-! ### Items that are repeated -/

/-- The items at those positions that have an equal item at an earlier one. -/
def repeats (items : List String) : List String :=
  (items.zipIdx.filter fun (item, i) => item ∈ items.take i).map Prod.fst

/-- An item is looked for among those seen, which are the items of the segments before. -/
theorem repeatedItems_go_eq (segments : List Segment) {seen before : List String}
    (hseen : ∀ item, item ∈ seen ↔ item ∈ before) :
    repeatedItems.go seen segments =
      (((segments.map Segment.item).zipIdx before.length).filter fun (item, i) =>
        item ∈ (before ++ segments.map Segment.item).take i).map Prod.fst := by
  induction segments generalizing seen before with
  | nil => rfl
  | cons s segments ih =>
    have hstep {seen' : List String} (h : ∀ item, item ∈ seen' ↔ item ∈ before ∨ item = s.item) :
        repeatedItems.go seen' segments =
          (((segments.map Segment.item).zipIdx (before.length + 1)).filter fun (item, i) =>
            item ∈ (before ++ s.item :: segments.map Segment.item).take i).map Prod.fst := by
      have hseen' : ∀ item, item ∈ seen' ↔ item ∈ before ++ [s.item] := by simpa using h
      have hrest := ih hseen'
      rwa [List.length_append, List.length_singleton, List.append_assoc,
        List.singleton_append] at hrest
    rw [repeatedItems.go, List.map_cons, List.zipIdx_cons, List.filter_cons]
    simp only [List.take_left, ← hseen, List.contains_iff_mem, decide_eq_true_eq]
    split
    · next hs =>
      rw [List.map_cons, hstep fun item => ?_]
      rw [hseen]
      exact ⟨.inl, fun h => h.elim id fun heq => heq ▸ (hseen _).1 hs⟩
    · exact hstep fun item => by rw [List.mem_cons, hseen, or_comm]

theorem repeatedItems_eq (e : Enrollment) :
    e.repeatedItems = repeats (e.segments.map Segment.item) :=
  repeatedItems_go_eq e.segments fun item => (.rfl : item ∈ [] ↔ item ∈ [])

/-- A segment is either pointed out or the first with an item that has not been seen. -/
theorem length_repeatedItems_go (seen : List String) (segments : List Segment) :
    (repeatedItems.go seen segments).length +
      ((segments.map Segment.item).toFinset \ seen.toFinset).card = segments.length := by
  induction segments generalizing seen with
  | nil => simp [repeatedItems.go]
  | cons s segments ih =>
    rw [repeatedItems.go, List.map_cons, List.toFinset_cons, List.length_cons]
    simp only [List.contains_iff_mem, ← List.mem_toFinset]
    split
    · next hs =>
      rw [Finset.insert_sdiff_of_mem _ hs, List.length_cons, ← ih seen]
      omega
    · next hs =>
      have hrest := ih (s.item :: seen)
      rw [List.toFinset_cons, Finset.sdiff_insert] at hrest
      have hcard := Finset.card_erase_add_one
        (Finset.mem_insert_self s.item ((segments.map Segment.item).toFinset \ seen.toFinset))
      rw [Finset.erase_insert_eq_erase] at hcard
      rw [Finset.insert_sdiff_of_notMem _ hs]
      omega

theorem length_warnings (e : Enrollment) :
    e.warnings.length + (e.segments.map Segment.item).toFinset.card = e.segments.length := by
  have h := length_repeatedItems_go [] e.segments
  rw [List.toFinset_nil, Finset.sdiff_empty] at h
  rwa [warnings, List.length_map, repeatedItems]

/-! ### Files -/

/-- What becomes of enrollment data that was written with these dates and segments. -/
structure LoadsWritten (loaded : Except Error Enrollment) (dates : List String)
    (segments : List Segment) : Prop where
  json_iff : (∃ failure, loaded = .error (.json failure)) ↔ dates.length ≠ 2
  input_iff : (∃ defect, loaded = .error (.input defect)) ↔
    dates.length = 2 ∧ ∃ date ∈ dates, Text.isAllBlank date = true
  /-- Nothing is changed, left out or put in another order. -/
  ok_iff : ∀ e, loaded = .ok e ↔
    dates = [e.dateFrom, e.dateTo] ∧ (∀ date ∈ dates, Text.isAllBlank date = false) ∧
      segments = e.segments

variable {path : String} {opened : Except Fault Stream} {dates : List String}
  {segments : Option (List Segment)}

theorem loadsWritten_declined (h : dates.length ≠ 2)
    (hcontent : Files.content path opened =
      .ok (.whole (bytesOf (written dates segments).compact))) :
    LoadsWritten (Files.enrollment path opened) dates (segments.getD []) := by
  obtain ⟨failure, hdocument⟩ := document_declined (declines_written h segments)
  have hloaded : Files.enrollment path opened = .error (.json failure) := by
    simp only [Files.enrollment, Files.document, hcontent, hdocument, ok_bind]
    rfl
  rw [hloaded]
  refine ⟨⟨fun _ => h, fun _ => ⟨failure, rfl⟩⟩, ⟨nofun, fun hinput => absurd hinput.1 h⟩,
    fun e => ⟨nofun, fun hok => absurd ?_ h⟩⟩
  rw [hok.1]
  rfl

theorem loadsWritten_pair {dateFrom dateTo : String}
    (hcontent : Files.content path opened =
      .ok (.whole (bytesOf (written [dateFrom, dateTo] segments).compact))) :
    LoadsWritten (Files.enrollment path opened) [dateFrom, dateTo] (segments.getD []) := by
  have hdocument := document_compact (decodes_written dateFrom dateTo segments)
  have hloaded : Files.enrollment path opened =
      if Text.isAllBlank dateFrom || Text.isAllBlank dateTo then
        .error (.input (.blankDate path))
      else .ok ⟨dateFrom, dateTo, segments.getD []⟩ := by
    simp only [Files.enrollment, Files.document, hcontent, hdocument, ok_bind]
    rfl
  rw [hloaded]
  by_cases hblank : (Text.isAllBlank dateFrom || Text.isAllBlank dateTo) = true
  · rw [if_pos hblank]
    have hsome : ∃ date ∈ [dateFrom, dateTo], Text.isAllBlank date = true := by simpa using hblank
    refine ⟨⟨nofun, fun h => absurd rfl h⟩, ⟨fun _ => ⟨rfl, hsome⟩, fun _ => ⟨_, rfl⟩⟩,
      fun e => ⟨nofun, fun hok => ?_⟩⟩
    obtain ⟨date, hmem, hdate⟩ := hsome
    rw [hok.2.1 date hmem] at hdate
    cases hdate
  · rw [if_neg hblank]
    have hnone : ∀ date ∈ [dateFrom, dateTo], Text.isAllBlank date = false := by
      simpa using hblank
    refine ⟨⟨nofun, fun h => absurd rfl h⟩, ⟨nofun, fun hinput => ?_⟩,
      fun e => ⟨fun hok => ?_, fun hok => ?_⟩⟩
    · obtain ⟨-, date, hmem, hdate⟩ := hinput
      rw [hnone date hmem] at hdate
      cases hdate
    · obtain rfl := Except.ok.inj hok
      exact ⟨rfl, hnone, rfl⟩
    · obtain ⟨hdates, -, hsegments⟩ := hok
      obtain ⟨rfl, rfl⟩ : dateFrom = e.dateFrom ∧ dateTo = e.dateTo := by simpa using hdates
      rw [hsegments]

/-- **Enrollment data is loaded exactly as it was written.** Of a file, compressed or not, that holds
the dates and the segments on one line: any number of dates but two is refused as a document, two
dates of which one is blank are refused as input, and any other data is loaded with both dates and
all segments, those with equal items included. Then every segment behind an equal one is pointed out
once, which leaves one segment for each item. -/
theorem load_written
    (hcontent : Files.content path opened =
      .ok (.whole (bytesOf (written dates segments).compact))) :
    LoadsWritten (Files.enrollment path opened) dates (segments.getD []) ∧
      ∀ e, Files.enrollment path opened = .ok e →
        e.warnings = (repeats ((segments.getD []).map Segment.item)).map .repeatedSegment ∧
        e.warnings.length + ((segments.getD []).map Segment.item).toFinset.card =
          (segments.getD []).length := by
  have hloads : LoadsWritten (Files.enrollment path opened) dates (segments.getD []) := by
    by_cases h : dates.length = 2
    · obtain ⟨dateFrom, dateTo, rfl⟩ := List.length_eq_two.1 h
      exact loadsWritten_pair hcontent
    · exact loadsWritten_declined h hcontent
  refine ⟨hloads, fun e he => ?_⟩
  obtain ⟨-, -, hsegments⟩ := (hloads.ok_iff e).1 he
  rw [hsegments]
  exact ⟨by rw [warnings, repeatedItems_eq], e.length_warnings⟩

/-- A segment stands between two with the same item. -/
def interleaved : List Segment := [⟨"BYOD", 3⟩, ⟨"COPE", 0⟩, ⟨"BYOD", 4⟩]

theorem load_written_interleaved :
    Files.enrollment "data.json" (.ok (.whole (bytesOf
      (written ["2024-01-01", "2024-01-31"] (some interleaved)).compact))) =
        .ok ⟨"2024-01-01", "2024-01-31", interleaved⟩ ∧
      (⟨"2024-01-01", "2024-01-31", interleaved⟩ : Enrollment).warnings =
        [.repeatedSegment "BYOD"] := by
  have hcontent : Files.content "data.json" (.ok (.whole (bytesOf
      (written ["2024-01-01", "2024-01-31"] (some interleaved)).compact))) =
      .ok (.whole (bytesOf (written ["2024-01-01", "2024-01-31"] (some interleaved)).compact)) :=
    rfl
  obtain ⟨hloads, hwarnings⟩ := load_written hcontent
  have hok := (hloads.ok_iff ⟨"2024-01-01", "2024-01-31", interleaved⟩).2
    ⟨rfl, by decide, rfl⟩
  exact ⟨hok, (hwarnings _ hok).1⟩

end Enrollment

end DeviceConsole
