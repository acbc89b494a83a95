import DeviceConsole.Filter.Params

/-!
The settings of a console: where its interfaces are, how long a page of the device table is, and
how statuses are treated. A settings file overrides what it names and nothing else.
-/
namespace DeviceConsole

structure Settings where
  apiContext : String := "/entgra-ui/api/device-mgt/v1.0"
  storeContext : String := "/store/api/application-mgt-store/v1.0"
  pageSize : UInt32 := 10
  statusRule : Filter.StatusRule := .retain
deriving DecidableEq, Repr

namespace Settings

def json (s : Settings) : Json.Value :=
  .object [
    ("api_context", .text s.apiContext),
    ("store_context", .text s.storeContext),
    ("page_size", .natural s.pageSize.toNat),
    ("status_rule", .text s.statusRule.name)]

def reader : Json.Reader Settings :=
  Json.record "ReportConfig"
    [.defaulted "api_context" Json.string fun v s => { s with apiContext := v },
     .defaulted "store_context" Json.string fun v s => { s with storeContext := v },
     .defaulted "page_size" Json.uint32 fun v s => { s with pageSize := v },
     .defaulted "status_rule" Filter.StatusRule.reader fun v s => { s with statusRule := v }]
    {}

/-- The settings with the rule of a command line, if it gives one. -/
def withRule (rule : Option Filter.StatusRule) (s : Settings) : Settings :=
  match rule with
  | some rule => { s with statusRule := rule }
  | none => s

/-- What the settings give reason to point out. -/
def warnings (s : Settings) : List Warning :=
  if s.statusRule = .dropTruthy then [.statusesDropped] else []

end Settings

end DeviceConsole
