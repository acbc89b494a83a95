import DeviceConsole.Report

/-!
The document that records the filters of a report, the device query they make and the shares of
the segments.
-/
namespace DeviceConsole.Report

/-- The tool that writes the document, and its version. -/
def toolName : String := "devmgt-report"

def toolVersion : String := "0.1.0"

/-- The document as a JSON value. -/
def documentValue (q : Filter.Query) (shares : List Share) (r : Report) : Json.Value :=
  .object [
    ("tool", .text toolName),
    ("version", .text toolVersion),
    ("status_rule", .text r.statusRule.name),
    ("params", q.params.json),
    ("device_query", .object [
      ("path", .text (q.path r.settings)),
      ("offset", .natural q.offset.toNat),
      ("limit", .natural q.limit.toNat)]),
    ("segments", .list (shares.map Share.json))]

/-- The document as a text of indented lines. -/
def document (q : Filter.Query) (r : Report) : Except Error String := do
  let shares ← r.shares
  pure ((r.documentValue q shares).indented ++ "\n")

end DeviceConsole.Report
