import DeviceConsole.Proofs.Report.LastWrite

/-!
Which filters a report can come to have.

A filter is there only while it constrains the query: no empty status, no status at all under the
rule that drops them, and no ownership that stands for all. Every history keeps to that from the
first report on (`attainable_after`), and two events are enough to reach whatever keeps to it
(`after_pick`), so these filters are exactly the ones that can be reached. What a report asks the
device table is read off the same invariant (`reachable_iff_attainable`).
-/
namespace DeviceConsole.Report
open DeviceConsole.Filter

/-- The filters of a report on some data under some settings, each of which is there only if it
constrains the query. -/
structure Attainable (s : Settings) (d : Enrollment) (p : Params) : Prop where
  dateFrom : p.dateFrom = d.dateFrom
  dateTo : p.dateTo = d.dateTo
  status_ne_empty : p.status ≠ some ""
  status_dropped : s.statusRule = .dropTruthy → p.status = none
  ownership_ne_all : p.ownership ≠ some "ALL"

/-! ### Only these -/

theorem keep_ne_empty (rule : StatusRule) (value : Option String) : rule.keep value ≠ some "" := by
  rw [StatusRule.keep_eq_filter]
  intro h
  simpa using (Option.filter_eq_some_iff.1 h).2

theorem keep_dropTruthy (value : Option String) : StatusRule.dropTruthy.keep value = none := by
  rw [StatusRule.keep_eq_filter]
  simp

theorem keepOwnership_ne_all (value : Option String) : keepOwnership value ≠ some "ALL" := by
  rw [keepOwnership_eq_filter]
  intro h
  simpa using (Option.filter_eq_some_iff.1 h).2

theorem attainable_begin (s : Settings) (d : Enrollment) : Attainable s d (begin s d).params :=
  ⟨rfl, rfl, nofun, fun _ => rfl, nofun⟩

/-- Whatever is set keeps to it, since only what is kept of it is stored. -/
theorem Sets.attainable {ss os : List (Option String)} {r t : Report} {d : Enrollment}
    (h : Sets ss os r t) (hr : Attainable r.settings d r.params) :
    Attainable t.settings d t.params := by
  refine ⟨h.dateFrom.trans hr.dateFrom, h.dateTo.trans hr.dateTo, ?_, fun hrule => ?_, ?_⟩
  · rw [h.status]
    exact lastKept_holds (P := (· ≠ some "")) _ _ hr.status_ne_empty (keep_ne_empty _) ss
  · rw [h.settings] at hrule
    rw [h.status, statusRule, hrule]
    exact lastKept_holds (P := (· = none)) _ _ (hr.status_dropped hrule) keep_dropTruthy ss
  · rw [h.ownership]
    exact lastKept_holds (P := (· ≠ some "ALL")) _ _ hr.ownership_ne_all keepOwnership_ne_all os

theorem attainable_change {r : Report} {d : Enrollment} (c : Change)
    (hr : Attainable r.settings d r.params) :
    Attainable (r.change c).settings d (r.change c).params :=
  (sets_change c r).attainable hr

theorem attainable_after {r : Report} {d : Enrollment} (cs : List Change)
    (hr : Attainable r.settings d r.params) :
    Attainable (r.after cs).settings d (r.after cs).params := by
  induction cs generalizing r with
  | nil => exact hr
  | cons c cs ih => exact ih (attainable_change c hr)

/-! ### All of these -/

theorem keep_of_attainable {s : Settings} {d : Enrollment} {p : Params} (h : Attainable s d p) :
    s.statusRule.keep p.status = p.status := by
  cases hp : p.status with
  | none => rfl
  | some v =>
    have hne : v ≠ "" := fun he => h.status_ne_empty (he ▸ hp)
    have hrule : s.statusRule = .retain := by
      cases hrule : s.statusRule with
      | retain => rfl
      | dropTruthy => exact absurd (hp.symm.trans (h.status_dropped hrule)) (Option.some_ne_none v)
    simp [StatusRule.keep, hrule, hne]

theorem keepOwnership_of_attainable {s : Settings} {d : Enrollment} {p : Params}
    (h : Attainable s d p) : keepOwnership p.ownership = p.ownership := by
  cases hp : p.ownership with
  | none => rfl
  | some v =>
    have hne : v ≠ "ALL" := fun he => h.ownership_ne_all (he ▸ hp)
    exact if_neg hne

/-- The events that pick a status and an ownership lead straight to them. -/
theorem after_pick {s : Settings} {d : Enrollment} {p : Params} (h : Attainable s d p) :
    ((begin s d).after [.event (.status p.status), .event (.ownership p.ownership)]).params = p := by
  show Params.mk d.dateFrom d.dateTo (s.statusRule.keep p.status) (keepOwnership p.ownership) = p
  rw [keep_of_attainable h, keepOwnership_of_attainable h, ← h.dateFrom, ← h.dateTo]

/-! ### The query -/

/-- A parameter of the query that bears a key's name is that key's filter. -/
theorem mem_query_pairs {r : Report} {offset : UInt32} {limit : Option UInt32} {k : Key}
    {v : String} (h : (k.name, v) ∈ (r.query offset limit).pairs) :
    r.params.get? k = some v := by
  rcases List.mem_append.1 h with h | h
  · exact Params.mem_pairs_iff.1 h
  · simp only [List.mem_cons, Prod.mk.injEq, List.not_mem_nil, or_false] at h
    rcases h with ⟨h, -⟩ | ⟨h, -⟩ <;> exact absurd h (by cases k <;> decide)

theorem query_pairs_dates (r : Report) (offset : UInt32) (limit : Option UInt32) :
    [("from", r.params.dateFrom), ("to", r.params.dateTo)] <+: (r.query offset limit).pairs := by
  show _ <+: r.params.pairs ++ _
  rw [Params.pairs_eq]
  exact ⟨_, rfl⟩

/-- **The filters that some history leads to are exactly the attainable ones.** So the query of a
report never carries an empty status or the ownership that stands for all, carries no status where
statuses are dropped, and starts with the report's own dates. -/
theorem reachable_iff_attainable (s : Settings) (d : Enrollment) :
    (∀ p : Params, (∃ cs, ((begin s d).after cs).params = p) ↔
      p.dateFrom = d.dateFrom ∧ p.dateTo = d.dateTo ∧ p.status ≠ some "" ∧
        (s.statusRule = .dropTruthy → p.status = none) ∧ p.ownership ≠ some "ALL") ∧
    ∀ (cs : List Change) (offset : UInt32) (limit : Option UInt32),
      ("status", "") ∉ (((begin s d).after cs).query offset limit).pairs ∧
      ("ownership", "ALL") ∉ (((begin s d).after cs).query offset limit).pairs ∧
      (s.statusRule = .dropTruthy →
        ∀ v, ("status", v) ∉ (((begin s d).after cs).query offset limit).pairs) ∧
      [("from", d.dateFrom), ("to", d.dateTo)] <+:
        (((begin s d).after cs).query offset limit).pairs := by
  have hall (cs : List Change) : Attainable s d ((begin s d).after cs).params := by
    have h := attainable_after (r := begin s d) cs (attainable_begin s d)
    rwa [(sets_after cs (begin s d)).settings] at h
  constructor
  · intro p
    constructor
    · rintro ⟨cs, rfl⟩
      have h := hall cs
      exact ⟨h.dateFrom, h.dateTo, h.status_ne_empty, h.status_dropped, h.ownership_ne_all⟩
    · rintro ⟨hf, ht, hs, hd, ho⟩
      exact ⟨_, after_pick ⟨hf, ht, hs, hd, ho⟩⟩
  · intro cs offset limit
    have h := hall cs
    refine ⟨fun hm => ?_, fun hm => ?_, fun hrule v hm => ?_, ?_⟩
    · exact h.status_ne_empty (mem_query_pairs (k := .status) hm)
    · exact h.ownership_ne_all (mem_query_pairs (k := .ownership) hm)
    · have hv : _ = some v := mem_query_pairs (k := .status) hm
      exact Option.some_ne_none v (hv.symm.trans (h.status_dropped hrule))
    · have hp := query_pairs_dates ((begin s d).after cs) offset limit
      rwa [h.dateFrom, h.dateTo] at hp

/-- Where statuses are dropped, one that is set never reaches the query. -/
theorem reachable_iff_attainable_dropped :
    Settings.statusRule { statusRule := .dropTruthy } = .dropTruthy ∧
      ("status", "ACTIVE") ∉
        (((begin { statusRule := .dropTruthy } ⟨"2019-01-01", "2019-01-31", []⟩).after
          [.event (.status (some "ACTIVE"))]).query 0 none).pairs :=
  ⟨rfl, ((reachable_iff_attainable { statusRule := .dropTruthy } _).2 _ _ _).2.2.1 rfl _⟩

end DeviceConsole.Report
