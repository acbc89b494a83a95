import DeviceConsole.Enrollment
import DeviceConsole.Event
import DeviceConsole.Filter.Query

/-!
An enrollment report: settings, data and the filters in effect.

Events and named filters change the filters and nothing else. The shares of the segments are
reckoned from the data each time they are shown, so they cannot go stale; they exist only while
the total fits sixty-four bits.
-/
namespace DeviceConsole

structure Report where
  settings : Settings
  data : Enrollment
  params : Filter.Params
deriving DecidableEq, Repr

/-- A segment with its share of all devices, and whether the report is filtered to it. -/
structure Share where
  item : String
  count : UInt64
  fraction : Float
  selected : Bool

namespace Report

/-- A report without filters but its range of dates. -/
def begin (settings : Settings) (data : Enrollment) : Report where
  settings := settings
  data := data
  params := { dateFrom := data.dateFrom, dateTo := data.dateTo }

def statusRule (r : Report) : Filter.StatusRule := r.settings.statusRule

/-! ### Changes -/

def handle (event : Event) (r : Report) : Report :=
  { r with params := match event with
    | .status value => r.params.setStatus r.statusRule value
    | .ownership value => r.params.setOwnership value
    | .segment label => r.params.selectSegment label }

def handleAll (events : List Event) (r : Report) : Report :=
  events.foldl (fun r event => r.handle event) r

/-- Set the filter with the given name. -/
def setNamed (name : String) (value : Option String) (r : Report) : Except Error Report :=
  (r.params.setNamed r.statusRule name value).map fun params => { r with params := params }

/-! ### Views -/

/-- The query for a page of the device table, of the settings' length unless one is given. -/
def query (offset : UInt32) (limit : Option UInt32) (r : Report) : Filter.Query where
  params := r.params
  offset := offset
  limit := limit.getD r.settings.pageSize

/-- The segment that the report is filtered to, if the data has it. -/
def selected? (r : Report) : Option String :=
  r.params.ownership.bind fun ownership =>
    (r.data.segments.find? fun s => s.item == ownership).map (·.item)

/-- A count's part of the total, nothing of an empty total. -/
def fractionOf (count total : UInt64) : Float :=
  if total = 0 then 0 else count.toFloat / total.toFloat

/-- The segments in order with their shares. -/
def shares (r : Report) : Except Error (List Share) := do
  let total ← r.data.total
  pure <| r.data.segments.map fun s =>
    { item := s.item
      count := s.count
      fraction := fractionOf s.count total
      selected := r.selected? == some s.item }

end Report

namespace Share

def json (s : Share) : Json.Value :=
  .object [
    ("item", .text s.item),
    ("count", .natural s.count.toNat),
    ("fraction", .real s.fraction),
    ("selected", .bool s.selected)]

end Share

end DeviceConsole
