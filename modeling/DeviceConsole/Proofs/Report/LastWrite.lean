import DeviceConsole.Report.History

/-!
What a history leaves of a report.

A change does three things and nothing else: it sets some values of the status, sets some of the
ownership, and answers whether it is refused. `Sets` says the first two of a pair of reports, for
lists of values, so that it composes: a change, an events file and a whole history all satisfy it
(`sets_change`, `sets_after`). From it the last write wins, on either filter and however the writes
are mixed (`after_lastWrite`).
-/
namespace DeviceConsole

/-! ### Values set one after the other -/

namespace Filter

/-- What is left when values are set one after the other: what is kept of the last one, or what was
there before. -/
def lastKept (keep : Option String → Option String) (start : Option String)
    (values : List (Option String)) : Option String :=
  values.foldl (fun _ value => keep value) start

variable (keep : Option String → Option String) (start : Option String)

theorem lastKept_append (values more : List (Option String)) :
    lastKept keep start (values ++ more) = lastKept keep (lastKept keep start values) more := by
  simp only [lastKept, List.foldl_append]

theorem lastKept_eq_getLast? (values : List (Option String)) :
    lastKept keep start values = (values.getLast?.map keep).getD start := by
  induction values generalizing start with
  | nil => rfl
  | cons value rest ih =>
    show lastKept keep (keep value) rest = _
    rw [ih, List.getLast?_cons]
    cases rest.getLast? <;> rfl

/-- From nothing on, setting no value at all is like setting none last. -/
theorem lastKept_none (hkeep : keep none = none) (values : List (Option String)) :
    lastKept keep none values = keep values.getLast?.join := by
  rw [lastKept_eq_getLast?]
  cases values.getLast? with
  | none => exact hkeep.symm
  | some value => rfl

/-- What holds of the start and of everything that is kept holds of what is left. -/
theorem lastKept_holds {P : Option String → Prop} (hstart : P start) (hkeep : ∀ v, P (keep v))
    (values : List (Option String)) : P (lastKept keep start values) := by
  rw [lastKept_eq_getLast?]
  cases values.getLast? with
  | none => exact hstart
  | some value => exact hkeep value

end Filter

namespace Report
open DeviceConsole.Filter

/-! ### What a change does -/

/-- The report `t` is `r` with some statuses and some ownerships set, in order; nothing else
differs. -/
structure Sets (statuses ownerships : List (Option String)) (r t : Report) : Prop where
  settings : t.settings = r.settings
  data : t.data = r.data
  dateFrom : t.params.dateFrom = r.params.dateFrom
  dateTo : t.params.dateTo = r.params.dateTo
  status : t.params.status = lastKept r.statusRule.keep r.params.status statuses
  ownership : t.params.ownership = lastKept keepOwnership r.params.ownership ownerships

theorem Sets.nil (r : Report) : Sets [] [] r r := ⟨rfl, rfl, rfl, rfl, rfl, rfl⟩

theorem Sets.append {ss os ss' os' : List (Option String)} {r t u : Report} (h : Sets ss os r t)
    (h' : Sets ss' os' t u) : Sets (ss ++ ss') (os ++ os') r u := by
  have hrule : t.statusRule = r.statusRule := congrArg Settings.statusRule h.settings
  refine ⟨h'.settings.trans h.settings, h'.data.trans h.data, h'.dateFrom.trans h.dateFrom,
    h'.dateTo.trans h.dateTo, ?_, ?_⟩
  · rw [h'.status, h.status, hrule, lastKept_append]
  · rw [h'.ownership, h.ownership, lastKept_append]

theorem sets_handle (e : Event) (r : Report) :
    Sets e.statusSet e.ownershipSet r (r.handle e) := by
  cases e <;> exact ⟨rfl, rfl, rfl, rfl, rfl, rfl⟩

theorem sets_handleAll (es : List Event) (r : Report) :
    Sets (es.flatMap Event.statusSet) (es.flatMap Event.ownershipSet) r (r.handleAll es) := by
  induction es generalizing r with
  | nil => exact .nil r
  | cons e es ih => exact (sets_handle e r).append (ih (r.handle e))

/-! ### Named filters -/

/-- A name that is no key's is none of the four. -/
theorem ofName?_eq_none {name : String} (h : Key.ofName? name = none) :
    name ≠ "status" ∧ name ≠ "ownership" ∧ name ≠ "from" ∧ name ≠ "to" := by
  refine ⟨?_, ?_, ?_, ?_⟩ <;> rintro rfl <;> exact absurd h (by decide)

/-- The answer to a named filter, by its name. -/
theorem setNamed_cases (name : String) (value : Option String) (r : Report) :
    (name = "status" ∧
      r.setNamed name value = .ok { r with params := r.params.setStatus r.statusRule value }) ∨
    (name = "ownership" ∧
      r.setNamed name value = .ok { r with params := r.params.setOwnership value }) ∨
    (∃ e, (Change.named name value).refusal? = some e ∧ r.setNamed name value = .error e ∧
      name ≠ "status" ∧ name ≠ "ownership") := by
  cases hkey : Key.ofName? name with
  | none =>
    obtain ⟨hs, ho, hf, ht⟩ := ofName?_eq_none hkey
    refine .inr (.inr ⟨.unknownFilterKey name, ?_, ?_, hs, ho⟩)
    · simp [Change.refusal?, hs, ho, hf, ht]
    · simp [setNamed, Params.setNamed, hkey, Except.map]
  | some key =>
    obtain rfl := Key.ofName?_eq_some_iff.1 hkey
    cases key with
    | status => exact .inl ⟨rfl, rfl⟩
    | ownership => exact .inr (.inl ⟨rfl, rfl⟩)
    | dateFrom => exact .inr (.inr ⟨.fixedFilterKey .dateFrom, rfl, rfl, by decide, by decide⟩)
    | dateTo => exact .inr (.inr ⟨.fixedFilterKey .dateTo, rfl, rfl, by decide, by decide⟩)

/-- A change is answered as its name alone demands, and one that is refused changes nothing. -/
theorem change?_eq (c : Change) (r : Report) :
    r.change? c = match c.refusal? with
      | none => .ok (r.change c)
      | some e => .error e := by
  cases c with
  | event e => rfl
  | events es => rfl
  | named name value =>
    rcases setNamed_cases name value r with ⟨rfl, h⟩ | ⟨rfl, h⟩ | ⟨e, he, h, -⟩
    · simp [change, change?, h, Change.refusal?]
    · simp [change, change?, h, Change.refusal?]
    · simp [change?, h, he]

theorem reply?_eq (c : Change) (r : Report) : r.reply? c = c.refusal? := by
  unfold reply?
  rw [change?_eq]
  cases c.refusal? <;> rfl

theorem change_of_refused {c : Change} {e : Error} (h : c.refusal? = some e) (r : Report) :
    r.change c = r := by
  unfold change
  rw [change?_eq, h]

theorem sets_change (c : Change) (r : Report) :
    Sets c.statusSet c.ownershipSet r (r.change c) := by
  cases c with
  | event e => exact sets_handle e r
  | events es => exact sets_handleAll es r
  | named name value =>
    rcases setNamed_cases name value r with ⟨rfl, h⟩ | ⟨rfl, h⟩ | ⟨e, he, -, hs, ho⟩
    · rw [change, change?, h]
      exact ⟨rfl, rfl, rfl, rfl, rfl, rfl⟩
    · rw [change, change?, h]
      exact ⟨rfl, rfl, rfl, rfl, rfl, rfl⟩
    · rw [change_of_refused he]
      simp only [Change.statusSet, Change.ownershipSet, hs, ho, if_false]
      exact .nil r

/-! ### Histories -/

theorem sets_after (cs : List Change) (r : Report) :
    Sets (cs.flatMap Change.statusSet) (cs.flatMap Change.ownershipSet) r (r.after cs) := by
  induction cs generalizing r with
  | nil => exact .nil r
  | cons c cs ih => exact (sets_change c r).append (ih (r.change c))

theorem replies_eq (cs : List Change) (r : Report) : r.replies cs = cs.map Change.refusal? := by
  induction cs generalizing r with
  | nil => rfl
  | cons c cs ih => rw [replies, reply?_eq, ih, List.map_cons]

/-- Handling an event is setting its key, which is never refused. -/
theorem set_key (e : Event) (r : Report) :
    r.params.set r.statusRule e.key e.value? = .ok (r.handle e).params := by
  cases e <;> rfl

/-- **The last write wins.** Events set their key and are never refused; a named filter is refused
exactly as its name demands, and leaves the whole report as it was. Settings, data, rule and dates
stay through any history. A status is what the rule keeps of the last one that was set, an ownership
is the last one that was set unless it stands for all, and each is as before if none was set. -/
theorem after_lastWrite (cs : List Change) (r : Report) :
    (∀ (e : Event) (t : Report),
      t.params.set t.statusRule e.key e.value? = .ok (t.handle e).params) ∧
    r.replies cs = cs.map Change.refusal? ∧
    (∀ pre c post, cs = pre ++ c :: post → c.refusal? ≠ none →
      r.after (pre ++ [c]) = r.after pre) ∧
    ((r.after cs).settings = r.settings ∧ (r.after cs).data = r.data ∧
      (r.after cs).statusRule = r.statusRule ∧
      (r.after cs).params.dateFrom = r.params.dateFrom ∧
      (r.after cs).params.dateTo = r.params.dateTo) ∧
    (r.after cs).params.status =
      ((cs.flatMap Change.statusSet).getLast?.map fun value =>
        value.filter fun v => v ≠ "" ∧ r.statusRule = .retain).getD r.params.status ∧
    (r.after cs).params.ownership =
      ((cs.flatMap Change.ownershipSet).getLast?.map fun value =>
        value.filter fun v => v ≠ "ALL").getD r.params.ownership := by
  have h := sets_after cs r
  refine ⟨set_key, replies_eq cs r, ?_, ⟨h.settings, h.data, ?_, h.dateFrom, h.dateTo⟩, ?_, ?_⟩
  · intro pre c post _ hc
    obtain ⟨e, he⟩ := Option.ne_none_iff_exists'.1 hc
    rw [after_append, after_cons, after_nil, change_of_refused he]
  · exact congrArg Settings.statusRule h.settings
  · rw [h.status, lastKept_eq_getLast?]
    simp only [← StatusRule.keep_eq_filter]
  · rw [h.ownership, lastKept_eq_getLast?]
    simp only [← keepOwnership_eq_filter]

/-- A date that is named in the middle of a history is refused and changes nothing. -/
theorem after_lastWrite_fixedDate :
    (Change.named "from" (some "2020-01-01")).refusal? ≠ none ∧
      (begin {} ⟨"2019-01-01", "2019-01-31", []⟩).after
          ([.event (.segment "BYOD")] ++ [.named "from" (some "2020-01-01")]) =
        (begin {} ⟨"2019-01-01", "2019-01-31", []⟩).after [.event (.segment "BYOD")] :=
  ⟨Option.some_ne_none _,
    (after_lastWrite ([.event (.segment "BYOD")] ++ .named "from" (some "2020-01-01") ::
      [.event (.segment "ALL")]) _).2.2.1 _ _ _ rfl (Option.some_ne_none _)⟩

end Report

end DeviceConsole
