import DeviceConsole.Proofs.Lists
import DeviceConsole.Proofs.Report.LastWrite
import DeviceConsole.Proofs.Report.Rendering

/-!
What the summary tells of the filters.

The part about the filters is made to be read: an ownership that does not filter is given as `all`,
and every value stands as it is, whatever it holds. So there are filters that look alike. No ownership
looks like the ownership `all` (`DifferInAll`), and a status with a line in it that looks like the
line of an ownership can take over what another report has as its ownership (`RunsOn`). These are all
of them: other than so, the part determines the filters (`filtersPart_eq_iff`).
-/
namespace DeviceConsole.Report
open DeviceConsole.Filter

/-- The ownership as the summary gives it. -/
def shownOwnership (p : Params) : String := p.ownership.getD "all"

/-- One is filtered to the ownership `all`, the other to none, and they have the same status. -/
def DifferInAll (p p' : Params) : Prop :=
  p.status = p'.status ∧
    ((p.ownership = none ∧ p'.ownership = some "all") ∨
      (p.ownership = some "all" ∧ p'.ownership = none))

/-- The status of `p'` starts with that of `p` and goes on with a line that looks like that of an
ownership, and the ownership of `p` ends with a line that looks like the one of `p'`. -/
def RunsOn (p p' : Params) : Prop :=
  ∃ s more, p.status = some s ∧ p'.status = some (s ++ "\nownership: " ++ more) ∧
    shownOwnership p = more ++ "\nownership: " ++ shownOwnership p'

theorem shownOwnership_eq_iff {p p' : Params} :
    shownOwnership p = shownOwnership p' ↔ p.ownership = p'.ownership ∨
      ((p.ownership = none ∧ p'.ownership = some "all") ∨
        (p.ownership = some "all" ∧ p'.ownership = none)) := by
  unfold shownOwnership
  cases p.ownership <;> cases p'.ownership <;> simp [eq_comm]

/-! ### The lines -/

/-- The lines of the status and the ownership, but for the last line end. -/
def toldFilters (p : Params) : String :=
  match p.status with
  | none => "ownership: " ++ shownOwnership p
  | some s => "status: " ++ (s ++ "\nownership: " ++ shownOwnership p)

theorem filterLines_eq (p : Params) :
    filterLines p =
      "from: " ++ p.dateFrom ++ "\nto: " ++ p.dateTo ++ "\n" ++ toldFilters p ++ "\n" := by
  obtain ⟨dateFrom, dateTo, status, ownership⟩ := p
  rw [filterLines, Params.pairs_eq]
  apply String.toList_inj.1
  cases status <;> cases ownership <;> simp [toldFilters, shownOwnership, String.join]

theorem exists_toList {P : List Char → Prop} : (∃ cs, P cs) ↔ ∃ s : String, P s.toList := by
  constructor
  · rintro ⟨cs, h⟩
    exact ⟨String.ofList cs, by rwa [String.toList_ofList]⟩
  · rintro ⟨s, h⟩
    exact ⟨s.toList, h⟩

/-- A status and an ownership in their lines. -/
theorem joined_eq_iff {s s' o o' : String} :
    s ++ "\nownership: " ++ o = s' ++ "\nownership: " ++ o' ↔
      (s = s' ∧ o = o') ∨
      (∃ more, s' = s ++ "\nownership: " ++ more ∧ o = more ++ "\nownership: " ++ o') ∨
      ∃ more, s = s' ++ "\nownership: " ++ more ∧ o' = more ++ "\nownership: " ++ o := by
  have hchars (a b : String) :
      (a ++ "\nownership: " ++ b).toList = a.toList ++ '\n' :: ("ownership: ".toList ++ b.toList) := by
    simp
  have hjoint : '\n' ∉ "ownership: ".toList := by decide
  simp only [← String.toList_inj, hchars]
  rw [append_cons_append_eq_iff hjoint, exists_toList, exists_toList]

theorem toldFilters_eq_iff {p p' : Params} :
    toldFilters p = toldFilters p' ↔
      (p.status = p'.status ∧ shownOwnership p = shownOwnership p') ∨ RunsOn p p' ∨ RunsOn p' p := by
  unfold toldFilters RunsOn
  cases hs : p.status with
  | none =>
    cases hs' : p'.status with
    | none => simp
    | some s' => simp [← String.toList_inj]
  | some s =>
    cases hs' : p'.status with
    | none => simp [← String.toList_inj]
    | some s' =>
      rw [String.append_right_inj, joined_eq_iff]
      simp

/-! ### The part -/

/-- The part about the filters in the summary of a report after a history. -/
def toldAfter (cs : List Change) (offset : UInt32) (limit : Option UInt32) (r : Report) : String :=
  (r.after cs).filtersPart ((r.after cs).query offset limit)

theorem filtersPart_starts (q : Query) (r : Report) :
    ∃ lines, r.filtersPart q = "2. Active filters\n" ++ lines := by
  unfold filtersPart
  simp only [String.append_assoc]
  exact ⟨_, rfl⟩

theorem tablePart_starts (q : Query) (r : Report) :
    ∃ lines, r.tablePart q = "3. Device table\n" ++ lines := by
  have hheading : "3. Device table\nPage: offset=" = "3. Device table\n" ++ "Page: offset=" := rfl
  unfold tablePart
  simp only [hheading, String.append_assoc]
  exact ⟨_, rfl⟩

theorem summary_parts {r : Report} {total : UInt64} (h : r.data.total = .ok total) (q : Query) :
    ∃ before, r.summary q = .ok (before ++ r.filtersPart q ++ r.tablePart q) := by
  rw [summary, shares_eq h, h]
  exact ⟨_, rfl⟩

/-- Under one rule and with the same dates, the part is a matter of the status and the ownership. -/
theorem filtersPart_eq_iff_toldFilters {r t : Report} (hrule : r.statusRule = t.statusRule)
    {q q' : Query} (hfrom : q.params.dateFrom = q'.params.dateFrom)
    (hto : q.params.dateTo = q'.params.dateTo) :
    r.filtersPart q = t.filtersPart q' ↔ toldFilters q.params = toldFilters q'.params := by
  unfold filtersPart
  rw [hrule, String.append_left_inj, String.append_left_inj, String.append_left_inj,
    String.append_right_inj, filterLines_eq, filterLines_eq, hfrom, hto, String.append_left_inj,
    String.append_right_inj]

theorem params_eq_iff {p p' : Params} (hfrom : p.dateFrom = p'.dateFrom)
    (hto : p.dateTo = p'.dateTo) :
    p = p' ↔ p.status = p'.status ∧ p.ownership = p'.ownership := by
  obtain ⟨dateFrom, dateTo, status, ownership⟩ := p
  obtain ⟨dateFrom', dateTo', status', ownership'⟩ := p'
  obtain rfl : dateFrom = dateFrom' := hfrom
  obtain rfl : dateTo = dateTo' := hto
  simp

/-- **The part about the filters determines them, but for two ways of looking alike.** The summary of
a report after any history has such a part, behind the text about the segments and before the part
about the device table. For two histories of one report the parts are the same exactly if the filters
are, or if one of them is filtered to the ownership `all` and the other to none, or if the status of
one runs on into what the other has as its ownership. -/
theorem toldAfter_eq_iff (r : Report) (h : r.data.devices < 2 ^ 64) (cs cs' : List Change)
    (offset offset' : UInt32) (limit limit' : Option UInt32) :
    ((∃ before, (r.after cs).summary ((r.after cs).query offset limit) =
        .ok (before ++ r.toldAfter cs offset limit ++
          (r.after cs).tablePart ((r.after cs).query offset limit))) ∧
      (∃ lines, r.toldAfter cs offset limit = "2. Active filters\n" ++ lines) ∧
      ∃ lines, (r.after cs).tablePart ((r.after cs).query offset limit) =
        "3. Device table\n" ++ lines) ∧
    (r.toldAfter cs offset limit = r.toldAfter cs' offset' limit' ↔
      (r.after cs).params = (r.after cs').params ∨
      DifferInAll (r.after cs).params (r.after cs').params ∨
      RunsOn (r.after cs).params (r.after cs').params ∨
      RunsOn (r.after cs').params (r.after cs).params) := by
  have hset := sets_after cs r
  have hset' := sets_after cs' r
  obtain ⟨total, htotal⟩ := Enrollment.exists_total h
  rw [← hset.data] at htotal
  have hrule : (r.after cs).statusRule = (r.after cs').statusRule :=
    congrArg Settings.statusRule (hset.settings.trans hset'.settings.symm)
  have hfrom := hset.dateFrom.trans hset'.dateFrom.symm
  have hto := hset.dateTo.trans hset'.dateTo.symm
  refine ⟨⟨summary_parts htotal _, filtersPart_starts _ _, tablePart_starts _ _⟩, ?_⟩
  unfold toldAfter
  rw [filtersPart_eq_iff_toldFilters hrule hfrom hto, params_eq_iff hfrom hto]
  show toldFilters (r.after cs).params = toldFilters (r.after cs').params ↔ _
  rw [toldFilters_eq_iff, shownOwnership_eq_iff, and_or_left, or_assoc]
  rfl

/-- A report without segments. -/
def plainReport : Report := begin {} ⟨"2019-01-01", "2019-01-31", []⟩

/-- A status runs on into the ownership of another report, and the parts are the same. -/
theorem toldAfter_eq_iff_runsOn :
    plainReport.data.devices < 2 ^ 64 ∧
      plainReport.toldAfter [.event (.status (some "A")), .event (.ownership (some "B\nownership: all"))]
          0 none =
        plainReport.toldAfter [.event (.status (some "A\nownership: B"))] 20 (some 5) := by
  refine ⟨by decide, ((toldAfter_eq_iff plainReport (by decide) _ _ _ _ _ _).2).2 ?_⟩
  exact .inr (.inr (.inl ⟨"A", "B", rfl, rfl, rfl⟩))

/-- Whether the part about the filters tells one history of a report from another that leads to other
filters. -/
def TellsApart (r : Report) (cs cs' : List Change) : Prop :=
  ∀ offset limit offset' limit',
    r.toldAfter cs offset limit = r.toldAfter cs' offset' limit' →
      (r.after cs).params = (r.after cs').params

/-- The part about the filters does not tell no ownership from the ownership `all`, nor a status with
a line in it from a status and an ownership. -/
theorem not_tellsApart :
    plainReport.data.devices < 2 ^ 64 ∧
      ¬ TellsApart plainReport [] [.event (.ownership (some "all"))] ∧
      ¬ TellsApart plainReport [.event (.status (some "A\nownership: B"))]
        [.event (.status (some "A")), .event (.ownership (some "B\nownership: all"))] := by
  refine ⟨by decide, fun h => ?_, fun h => ?_⟩
  · exact absurd (h 0 none 0 none (by decide +kernel)) (by decide)
  · exact absurd (h 0 none 0 none (by decide +kernel)) (by decide)

end DeviceConsole.Report
