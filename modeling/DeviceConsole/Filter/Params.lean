import DeviceConsole.Error

/-!
The filters that are in effect.

A status or an ownership is present only while it constrains the device query, so what is set is
first reduced to what is kept of it. Setting a key by name is the only way that can fail; it fails
before anything changes.
-/
namespace DeviceConsole.Filter

structure Params where
  dateFrom : String
  dateTo : String
  status : Option String := none
  ownership : Option String := none
deriving DecidableEq, Repr

namespace Params

def get? (p : Params) : Key → Option String
  | .dateFrom => some p.dateFrom
  | .dateTo => some p.dateTo
  | .status => p.status
  | .ownership => p.ownership

/-- The keys that constrain the device query. -/
def activeKeys (p : Params) : List Key :=
  Key.all.filter fun k => (p.get? k).isSome

/-- The names and values of the active keys. -/
def pairs (p : Params) : List (String × String) :=
  Key.all.filterMap fun k => (p.get? k).map fun v => (k.name, v)

theorem pairs_eq (p : Params) :
    p.pairs = ("from", p.dateFrom) :: ("to", p.dateTo) ::
      ((p.status.map ("status", ·)).toList ++ (p.ownership.map ("ownership", ·)).toList) := by
  obtain ⟨dateFrom, dateTo, status, ownership⟩ := p
  cases status <;> cases ownership <;> rfl

theorem mem_pairs_iff {p : Params} {key : Key} {v : String} :
    (key.name, v) ∈ p.pairs ↔ p.get? key = some v := by
  simp only [pairs, List.mem_filterMap, Option.map_eq_some_iff, Prod.mk.injEq]
  constructor
  · rintro ⟨k, -, w, hw, hk, rfl⟩
    rwa [← Key.name_injective hk]
  · intro h
    exact ⟨key, key.mem_all, v, h, rfl, rfl⟩

/-! ### Changes -/

def setStatus (rule : StatusRule) (value : Option String) (p : Params) : Params :=
  { p with status := rule.keep value }

def setOwnership (value : Option String) (p : Params) : Params :=
  { p with ownership := keepOwnership value }

/-- Select a segment of the chart, which is an ownership. -/
def selectSegment (label : String) (p : Params) : Params :=
  p.setOwnership (some label)

/-- Set a key. The dates stay as they are. -/
def set (rule : StatusRule) (key : Key) (value : Option String) (p : Params) :
    Except Error Params :=
  match key with
  | .status => .ok (p.setStatus rule value)
  | .ownership => .ok (p.setOwnership value)
  | .dateFrom | .dateTo => .error (.fixedFilterKey key)

/-- Set the key with the given name. -/
def setNamed (rule : StatusRule) (name : String) (value : Option String) (p : Params) :
    Except Error Params :=
  match Key.ofName? name with
  | some key => p.set rule key value
  | none => .error (.unknownFilterKey name)

/-! ### Documents -/

def json (p : Params) : Json.Value :=
  .object (p.pairs.map fun (name, v) => (name, .text v))

def reader : Json.Reader Params :=
  Json.record "FilterParams"
    [.required "from" Json.string fun v p => { p with dateFrom := v },
     .required "to" Json.string fun v p => { p with dateTo := v },
     .defaulted "status" (Json.optional Json.string) fun v p => { p with status := v },
     .defaulted "ownership" (Json.optional Json.string) fun v p => { p with ownership := v }]
    { dateFrom := "", dateTo := "" }

end Params

def StatusRule.reader : Json.Reader StatusRule :=
  Json.choice (StatusRule.all.map fun r => (r.name, r))

end DeviceConsole.Filter
