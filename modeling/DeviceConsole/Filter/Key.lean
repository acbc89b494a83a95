/-!
The filters of an enrollment report and the rule for status values.

A report is filtered by four keys. The two dates are fixed when the report is made; status and
ownership change while it is looked at.
-/
namespace DeviceConsole.Filter

inductive Key where
  | dateFrom
  | dateTo
  | status
  | ownership
deriving DecidableEq, Repr

namespace Key

/-- The keys in the order in which a query gives them. -/
def all : List Key := [.dateFrom, .dateTo, .status, .ownership]

def name : Key → String
  | .dateFrom => "from"
  | .dateTo => "to"
  | .status => "status"
  | .ownership => "ownership"

def ofName? (s : String) : Option Key :=
  all.find? fun k => k.name == s

theorem mem_all (k : Key) : k ∈ all := by
  cases k <;> decide

theorem name_injective {j k : Key} (h : j.name = k.name) : j = k := by
  cases j <;> cases k <;> first | rfl | exact absurd h (by decide)

theorem ofName?_eq_some_iff {s : String} {k : Key} : ofName? s = some k ↔ k.name = s := by
  constructor
  · intro h
    simpa using List.find?_some h
  · rintro rfl
    cases k <;> rfl

end Key

/-- What happens to a status that is set. -/
inductive StatusRule where
  /-- It becomes a filter. -/
  | retain
  /-- It is dropped again, so no status ever filters. -/
  | dropTruthy
deriving DecidableEq, Repr, Inhabited

namespace StatusRule

def all : List StatusRule := [.retain, .dropTruthy]

def name : StatusRule → String
  | .retain => "retain"
  | .dropTruthy => "drop-truthy"

def ofName? (s : String) : Option StatusRule :=
  all.find? fun r => r.name == s

/-- What is kept of a status: nothing of an empty one, and nothing at all if statuses are
dropped. -/
def keep : StatusRule → Option String → Option String
  | _, none => none
  | rule, some v => if v = "" then none else match rule with
    | .retain => some v
    | .dropTruthy => none

theorem keep_eq_filter (rule : StatusRule) (value : Option String) :
    rule.keep value = value.filter fun v => v ≠ "" ∧ rule = .retain := by
  cases value with
  | none => rfl
  | some v =>
    by_cases hv : v = ""
    · simp [keep, hv, Option.filter]
    · cases rule <;> simp [keep, hv, Option.filter]

end StatusRule

/-- The ownership that stands for every one of them. -/
def everyOwnership : String := "ALL"

/-- What is kept of an ownership: nothing of the one that stands for all. -/
def keepOwnership : Option String → Option String
  | none => none
  | some v => if v = everyOwnership then none else some v

theorem keepOwnership_eq_filter (value : Option String) :
    keepOwnership value = value.filter fun v => v ≠ "ALL" := by
  cases value with
  | none => rfl
  | some v => by_cases hv : v = "ALL" <;> simp [keepOwnership, everyOwnership, hv, Option.filter]

end DeviceConsole.Filter
