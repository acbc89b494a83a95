import DeviceConsole.Proofs.Filter.Decoding
import DeviceConsole.Proofs.Report.Shares
import DeviceConsole.Report.Document

/-!
The document of a report, read back.

Every part of the document is read by the reader of its own type from the printed text, and is what
was rendered (`document_readsBack`).
-/
namespace DeviceConsole
open Json

/-- A segment is read from its share, of which the fraction and the selection are passed over. -/
theorem Share.decodes_segment (s : Share) : Decodes Segment.reader s.json ⟨s.item, s.count⟩ :=
  decodes_record "ChartSegment"
    (.known rfl (by decide) (decodes_string s.item).required <|
      .known rfl (by decide) (decodes_uint64 s.count).required <|
      .unknown rfl <| .unknown rfl .nil)
    (by decide)

theorem Share.decodes_selected (s : Share) (depth : Nat) :
    Decodes (member "selected" (value (depth + 1))) s.json (some (.bool s.selected)) :=
  decodes_member (decodes_value_bool s.selected depth) rfl

namespace Report

/-- What the bytes of a document tell of the query and the report it was rendered from. Each part is
the value of the one member that has its name. -/
structure Tells (file : Stream) (q : Filter.Query) (r : Report) : Prop where
  params : Json.document (member "params" Filter.Params.reader) file = .ok (some q.params)
  /-- The members of the filters are the names and values that the query has of them. -/
  pairs : Json.document (member "params" (value maxDepth)) file =
    .ok (some (.object (q.params.pairs.map fun (name, v) => (name, .text v))))
  path : Json.document (member "device_query" (member "path" string)) file =
    .ok (some (some (q.path r.settings)))
  offset : Json.document (member "device_query" (member "offset" uint32)) file =
    .ok (some (some q.offset))
  limit : Json.document (member "device_query" (member "limit" uint32)) file =
    .ok (some (some q.limit))
  statusRule : Json.document (member "status_rule" Filter.StatusRule.reader) file =
    .ok (some r.statusRule)
  segments : Json.document (member "segments" (listOf Segment.reader)) file =
    .ok (some r.data.segments)
  /-- A segment is selected if it is the ownership in effect. -/
  selected : Json.document (member "segments" (listOf (member "selected" (value maxDepth)))) file =
    .ok (some (r.data.segments.map fun s =>
      some (.bool (decide (r.params.ownership = some s.item)))))

theorem tells_documentValue (q : Filter.Query) (r : Report) (total : UInt64) :
    Tells (.whole (Stream.bytesOf
      ((r.documentValue q (r.data.segments.map (r.shareOf total))).indented ++ "\n"))) q r where
  params := document_indented (decodes_member q.params.decodes rfl)
  pairs := document_indented (decodes_member (q.params.decodes_value 126) rfl)
  path := document_indented (decodes_member (decodes_member (decodes_string _) rfl) rfl)
  offset := document_indented (decodes_member (decodes_member (decodes_uint32 _) rfl) rfl)
  limit := document_indented (decodes_member (decodes_member (decodes_uint32 _) rfl) rfl)
  statusRule := document_indented (decodes_member (Filter.StatusRule.decodes _) rfl)
  segments := by
    refine document_indented (decodes_member (decodes_listOf ?_) rfl)
    rw [List.forall₂_map_left_iff, List.forall₂_map_left_iff, List.forall₂_same]
    exact fun s _ => (r.shareOf total s).decodes_segment
  selected := by
    refine document_indented (decodes_member (decodes_listOf ?_) rfl)
    rw [List.forall₂_map_left_iff, List.forall₂_map_left_iff, List.forall₂_map_right_iff,
      List.forall₂_same]
    exact fun s _ => (r.shareOf total s).decodes_selected 127

/-- **A document reads back to what was rendered.** While the total fits sixty-four bits there is a
document, whatever texts the report holds: a well-formed value and one line end behind it, and every
part of it is read as the query or the report has it. -/
theorem document_readsBack (q : Filter.Query) (r : Report) (h : r.data.devices < 2 ^ 64) :
    ∃ text, r.document q = .ok (text ++ "\n") ∧ text.toList.getLast? ≠ some '\n' ∧
      IsValue (Stream.bytesOf text) ∧ Tells (.whole (Stream.bytesOf (text ++ "\n"))) q r := by
  obtain ⟨total, htotal⟩ := Enrollment.exists_total h
  refine ⟨(r.documentValue q (r.data.segments.map (r.shareOf total))).indented, ?_, ?_,
    isValue_indented _, tells_documentValue q r total⟩
  · rw [document, shares_eq htotal]
    rfl
  · rw [documentValue, getLast?_indented_object]
    decide

/-- Quotes, a backslash and control characters in the texts, an ownership that two segments share
and no status. -/
def quotedReport : Report where
  settings := {}
  data := {
    dateFrom := "2024-01-01\t", dateTo := "\\\x07"
    segments := [⟨"BY\"OD\"", 3⟩, ⟨"", 0⟩, ⟨"BY\"OD\"", 4⟩] }
  params := { dateFrom := "2024-01-01\t", dateTo := "\\\x07", ownership := some "BY\"OD\"" }

theorem document_readsBack_quoted :
    quotedReport.data.devices < 2 ^ 64 ∧
      ∃ text, quotedReport.document (quotedReport.query 20 none) = .ok (text ++ "\n") ∧
        text.toList.getLast? ≠ some '\n' ∧ IsValue (Stream.bytesOf text) ∧
        Tells (.whole (Stream.bytesOf (text ++ "\n"))) (quotedReport.query 20 none) quotedReport :=
  ⟨by decide, document_readsBack _ quotedReport (by decide)⟩

end Report

end DeviceConsole
