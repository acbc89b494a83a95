import DeviceConsole.Error

/-!
Enrollment data: a range of dates, and how many devices fall into each segment of the chart.
-/
namespace DeviceConsole

structure Segment where
  item : String
  count : UInt64
deriving DecidableEq, Repr

structure Enrollment where
  dateFrom : String
  dateTo : String
  segments : List Segment := []
deriving DecidableEq, Repr

namespace Segment

def json (s : Segment) : Json.Value :=
  .object [("item", .text s.item), ("count", .natural s.count.toNat)]

def reader : Json.Reader Segment :=
  Json.record "ChartSegment"
    [.required "item" Json.string fun v s => { s with item := v },
     .required "count" Json.uint64 fun v s => { s with count := v }]
    ⟨"", 0⟩

end Segment

/-- The sum of two counts, unless it needs more than sixty-four bits. -/
def addCounts (a b : UInt64) : Except Error UInt64 :=
  if a.toNat + b.toNat < UInt64.size then .ok (a + b) else .error .totalOverflow

namespace Enrollment

/-- The sum of all counts. -/
def total (e : Enrollment) : Except Error UInt64 :=
  e.segments.foldlM (fun sum s => addCounts sum s.count) 0

/-- The items that stand behind an equal one, in order. -/
def repeatedItems (e : Enrollment) : List String :=
  go [] e.segments
where
  go (seen : List String) : List Segment → List String
    | [] => []
    | s :: rest =>
      if seen.contains s.item then s.item :: go seen rest else go (s.item :: seen) rest

def warnings (e : Enrollment) : List Warning :=
  e.repeatedItems.map .repeatedSegment

def json (e : Enrollment) : Json.Value :=
  .object [
    ("duration", .list [.text e.dateFrom, .text e.dateTo]),
    ("segments", .list (e.segments.map Segment.json))]

def reader : Json.Reader Enrollment :=
  Json.record "ReportData"
    [.required "duration" (Json.pair Json.string "") fun (a, b) e =>
      { e with dateFrom := a, dateTo := b },
     .defaulted "segments" (Json.listOf Segment.reader) fun v e => { e with segments := v }]
    { dateFrom := "", dateTo := "" }

end Enrollment

end DeviceConsole
