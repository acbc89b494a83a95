import DeviceConsole.Form
import DeviceConsole.Settings
import DeviceConsole.Text.Blank

/-!
The query for a page of the device table: the active filters, then the page.
-/
namespace DeviceConsole.Filter

structure Query where
  params : Params
  offset : UInt32
  limit : UInt32
deriving DecidableEq, Repr

namespace Query

/-- The parameters of the query in order. -/
def pairs (q : Query) : List (String × String) :=
  q.params.pairs ++ [("offset", toString q.offset.toNat), ("limit", toString q.limit.toNat)]

/-- The parameters as the text behind the question mark. -/
def text (q : Query) : String :=
  String.ofList (Form.encodePairs q.pairs)

/-- A context without the slashes at its end. -/
def base (context : String) : String :=
  Text.trimEnd (· == '/') context

/-- Where the device table answers the query. -/
def path (q : Query) (s : Settings) : String :=
  base s.apiContext ++ "/reports/devices" ++ "?" ++ q.text

/-- The query as a document of its own, with the filters as they are printed. -/
def json (q : Query) : Json.Value :=
  .object [
    ("params", q.params.json),
    ("offset", .natural q.offset.toNat),
    ("limit", .natural q.limit.toNat)]

end Query

end DeviceConsole.Filter
