import DeviceConsole.Report

/-!
What happens to a report over time.

A history is a list of changes in order, of any of the three kinds that a report knows. A change
that is refused leaves the report as it was, so every history leads somewhere (`after`). What a
change sets is said apart from how it is carried out (`statusSet`, `ownershipSet`): a list, because
one change can bring several events, and one that is refused sets nothing. So is what it answers
(`refusal?`): it depends on the change and not on the report.
-/
namespace DeviceConsole

namespace Event

/-- The key that an event sets. A click on a segment sets the ownership. -/
def key : Event → Filter.Key
  | .status _ => .status
  | .ownership _ | .segment _ => .ownership

/-- The status values that an event sets. -/
def statusSet : Event → List (Option String)
  | .status value => [value]
  | .ownership _ | .segment _ => []

/-- The ownership values that an event sets. A click on a segment sets its label. -/
def ownershipSet : Event → List (Option String)
  | .status _ => []
  | .ownership value => [value]
  | .segment label => [some label]

end Event

namespace Report

inductive Change where
  | event (event : Event)
  | events (events : List Event)
  | named (name : String) (value : Option String)
deriving DecidableEq, Repr

namespace Change

/-- The status values that a change sets, in order. -/
def statusSet : Change → List (Option String)
  | .event e => e.statusSet
  | .events es => es.flatMap Event.statusSet
  | .named name value => if name = "status" then [value] else []

/-- The ownership values that a change sets, in order. -/
def ownershipSet : Change → List (Option String)
  | .event e => e.ownershipSet
  | .events es => es.flatMap Event.ownershipSet
  | .named name value => if name = "ownership" then [value] else []

/-- Why a change is refused, if it is: its name is that of a date, or of nothing. -/
def refusal? : Change → Option Error
  | .event _ | .events _ => none
  | .named name _ =>
    if name = "status" ∨ name = "ownership" then none
    else if name = "from" then some (.fixedFilterKey .dateFrom)
    else if name = "to" then some (.fixedFilterKey .dateTo)
    else some (.unknownFilterKey name)

end Change

/-- The report with a change, if the change is not refused. -/
def change? : Change → Report → Except Error Report
  | .event e, r => .ok (r.handle e)
  | .events es, r => .ok (r.handleAll es)
  | .named name value, r => r.setNamed name value

/-- The report after a change, refused or not. -/
def change (c : Change) (r : Report) : Report :=
  match r.change? c with
  | .ok changed => changed
  | .error _ => r

/-- What a report answers to a change: nothing, or why it is refused. -/
def reply? (c : Change) (r : Report) : Option Error :=
  match r.change? c with
  | .ok _ => none
  | .error e => some e

/-- The report after a history. -/
def after (changes : List Change) (r : Report) : Report :=
  changes.foldl (fun r c => r.change c) r

/-- What a report answers to the changes of a history, one after the other. -/
def replies : List Change → Report → List (Option Error)
  | [], _ => []
  | c :: cs, r => r.reply? c :: (r.change c).replies cs

theorem after_nil (r : Report) : r.after [] = r := rfl

theorem after_cons (c : Change) (cs : List Change) (r : Report) :
    r.after (c :: cs) = (r.change c).after cs := rfl

theorem after_append (cs ds : List Change) (r : Report) :
    r.after (cs ++ ds) = (r.after cs).after ds := by
  simp [after]

end Report

end DeviceConsole
