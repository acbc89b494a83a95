import DeviceConsole.Decimal.Fixed
import DeviceConsole.Report

/-!
The report as a text to read: the range of dates, the segments with their shares, the filters in
effect and the page of the device table.
-/
namespace DeviceConsole.Report

def title : String := "Summary of enrollments"

/-- A share with six decimal places. -/
def fractionText (x : Float) : String := Decimal.fixed 6 x

/-- A segment's line, marked if the report is filtered to it. -/
def segmentLine (s : Share) : String :=
  (if s.selected then "*" else " ") ++ " " ++ s.item ++ ": " ++ toString s.count.toNat ++
    " (" ++ fractionText s.fraction ++ ")\n"

/-- The lines of the active filters. An ownership that does not filter is given as `all`. -/
def filterLines (p : Filter.Params) : String :=
  String.join (p.pairs.map fun (name, v) => name ++ ": " ++ v ++ "\n") ++
    (if p.ownership.isNone then "ownership: all\n" else "")

/-- The part about the segments. -/
def segmentsPart (shares : List Share) (total : UInt64) : String :=
  "1. Enrollment types\n" ++ (if shares.isEmpty then "No chart data.\n" else "") ++
    String.join (shares.map segmentLine) ++ "Total: " ++ toString total.toNat ++ "\n\n"

/-- The part about the filters. -/
def filtersPart (q : Filter.Query) (r : Report) : String :=
  "2. Active filters\n" ++ filterLines q.params ++ "Status rule: " ++ r.statusRule.name ++ "\n\n"

/-- The part about the device table. -/
def tablePart (q : Filter.Query) (r : Report) : String :=
  "3. Device table\nPage: offset=" ++ toString q.offset.toNat ++ ", limit=" ++
    toString q.limit.toNat ++ "\nQuery: " ++ q.path r.settings ++ "\n"

/-- The whole text. -/
def summary (q : Filter.Query) (r : Report) : Except Error String := do
  let shares ← r.shares
  let total ← r.data.total
  pure <| title ++ "\n" ++ String.ofList (List.replicate title.length '=') ++ "\n\n" ++
    "Date range: " ++ r.data.dateFrom ++ " .. " ++ r.data.dateTo ++ "\n\n" ++
    segmentsPart shares total ++ filtersPart q r ++ tablePart q r

end DeviceConsole.Report
