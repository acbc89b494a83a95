import DeviceConsole.Proofs.Event.Grammar
import DeviceConsole.Proofs.Gzip.Member
import DeviceConsole.Proofs.Report.LastWrite
import DeviceConsole.Proofs.Run.Stages

/-!
What a report is made from, and the report that this calls for.

The named filters and the events of a run are told by their texts: an argument is cut at its first
equals sign (`Names`), and a file says what its lines say, once what it holds compressed has been
taken out of it (`Files.Tells`). Both are what the readers give (`splitFilter_eq_ok_iff`,
`Files.events_eq_ok_iff`), so that a run can be told without them.

A prepared report is the one that the options and the files call for (`prepare_eq_ok`): its filters
are set by the events, the named filters and the flags in that order.
-/
namespace DeviceConsole

/-! ### Named filters -/

namespace CommandLine
open DeviceConsole.Text

/-- The key and the value that a filter argument names. The first equals sign stands between them,
white space around either does not count, and an empty value is none. -/
inductive Names (raw : String) : String × Option String → Prop
  | valueless {before key after : List Char} (hraw : raw.toList = before ++ '=' :: after)
      (hfirst : '=' ∉ before) (hkey : IsTrim isBlank before key)
      (hafter : ∀ c ∈ after, isBlank c = true) : Names raw (String.ofList key, none)
  | valued {before key after value : List Char} (hraw : raw.toList = before ++ '=' :: after)
      (hfirst : '=' ∉ before) (hkey : IsTrim isBlank before key)
      (hvalue : IsTrim isBlank after value) (hne : value ≠ []) :
      Names raw (String.ofList key, some (String.ofList value))

theorem splitFilter_of_cut {raw : String} {before key after : List Char}
    (hraw : raw.toList = before ++ '=' :: after) (hfirst : '=' ∉ before)
    (hkey : IsTrim isBlank before key) :
    splitFilter raw = .ok (String.ofList key, Event.valueOf? after) := by
  rw [splitFilter, hraw, cut?_append after hfirst, ← strip_eq_iff.2 hkey]

/-- **A filter argument is split into what it names.** -/
theorem splitFilter_eq_ok_iff {raw : String} {filter : String × Option String} :
    splitFilter raw = .ok filter ↔ Names raw filter := by
  constructor
  · intro h
    unfold splitFilter at h
    split at h
    · next before after hcut =>
      obtain ⟨hraw, hfirst⟩ := cut?_eq_some_iff.1 hcut
      obtain rfl := Except.ok.inj h
      cases hvalue : Event.valueOf? after with
      | none => exact .valueless hraw hfirst (isTrim_strip _ _) (Event.valueOf?_eq_none_iff.1 hvalue)
      | some v =>
        obtain ⟨value, htrim, hne, rfl⟩ := Event.valueOf?_eq_some_iff.1 hvalue
        exact .valued hraw hfirst (isTrim_strip _ _) htrim hne
    · cases h
  · intro h
    cases h with
    | valueless hraw hfirst hkey hafter =>
      rw [splitFilter_of_cut hraw hfirst hkey, Event.valueOf?_eq_none_iff.2 hafter]
    | valued hraw hfirst hkey hvalue hne =>
      rw [splitFilter_of_cut hraw hfirst hkey, Event.valueOf?_eq_some_iff.2 ⟨_, hvalue, hne, rfl⟩]

end CommandLine

/-! ### Events files -/

namespace Files
open Event (Cut Answered)

/-- The content of a file at a path, given its bytes: what they hold compressed if the path ends in
`.gz`, and otherwise the bytes. -/
def Contains (path : String) (bytes content : List UInt8) : Prop :=
  if Path.extension? path = some "gz" then Gzip.IsFile bytes content else content = bytes

/-- The events that the lines of a file say, one after the other. -/
inductive Tells (path : String) (bytes : List UInt8) : List Event → Prop
  | mk {content : List UInt8} {lines : List (List UInt8)} {answers : List (Option Event)}
      (hcontent : Contains path bytes content) (hcut : Cut content lines)
      (hanswers : Answered (lines.zipIdx 1) answers) : Tells path bytes answers.reduceOption

/-- The content that is read whole is the content of a whole file. -/
theorem content_eq_whole_iff {path : String} {opened : Except Fault Stream} {held : List UInt8} :
    content path opened = .ok (.whole held) ↔
      ∃ bytes, opened = .ok (.whole bytes) ∧ Contains path bytes held := by
  constructor
  · intro h
    unfold content at h
    split at h
    · cases h
    · next file =>
      have hstream := Except.ok.inj h
      obtain ⟨bytes, ending⟩ := file
      cases ending with
      | broken fault => split at hstream <;> cases hstream
      | complete =>
        refine ⟨bytes, rfl, ?_⟩
        unfold Contains
        split at hstream
        · next hpacked =>
          rw [if_pos hpacked]
          exact Gzip.expand_eq_whole_iff.1 hstream
        · next hplain =>
          rw [if_neg hplain]
          exact (congrArg Stream.bytes hstream).symm
  · rintro ⟨bytes, rfl, hcontains⟩
    unfold Contains at hcontains
    rw [content]
    split at hcontains
    · next hpacked => rw [if_pos hpacked, Gzip.expand_of_isFile hcontains]
    · next hplain => rw [if_neg hplain, hcontains]

/-- The events of a whole stream are what its lines say. -/
theorem ofStream_eq_ok_iff {bytes : List UInt8} {lines : List (List UInt8)} {es : List Event}
    (hcut : Cut bytes lines) :
    Event.ofStream (.whole bytes) = .ok es ↔
      ∃ answers, Answered (lines.zipIdx 1) answers ∧ es = answers.reduceOption := by
  rw [Event.ofStream, Event.linesOf_whole hcut]
  exact Event.ofLinesFrom_eq_ok_iff 1 [] lines es

/-- **An events file gives what its lines say.** -/
theorem events_eq_ok_iff {path : String} {opened : Except Fault Stream} {es : List Event} :
    events path opened = .ok es ↔ ∃ bytes, opened = .ok (.whole bytes) ∧ Tells path bytes es := by
  constructor
  · intro h
    obtain ⟨⟨held, ending⟩, hcontent, hread⟩ := bind_eq_ok_iff.1 h
    obtain rfl : ending = .complete := Event.complete_of_ofStream hread
    obtain ⟨bytes, rfl, hcontains⟩ := content_eq_whole_iff.1 hcontent
    obtain ⟨lines, hcut⟩ := Event.exists_cut held
    obtain ⟨answers, hanswers, rfl⟩ := (ofStream_eq_ok_iff hcut).1 hread
    exact ⟨bytes, rfl, .mk hcontains hcut hanswers⟩
  · rintro ⟨bytes, rfl, ⟨hcontains, hcut, hanswers⟩⟩
    exact bind_eq_ok_iff.2 ⟨_, content_eq_whole_iff.2 ⟨bytes, rfl, hcontains⟩,
      (ofStream_eq_ok_iff hcut).2 ⟨_, hanswers, rfl⟩⟩

end Files

namespace Run
open CommandLine

/-! ### Inputs -/

/-- The settings of a file, the usual ones if none is named. -/
def fileSettings (path : Option String) (s : Storage) : Except Error Settings :=
  match path with
  | none => .ok {}
  | some path => Files.settings path (s.load path)

/-- The events that a storage holds where an option says, none if it does not say where. -/
inductive EventsFrom (s : Storage) : Option String → List Event → Prop
  | unnamed : EventsFrom s none []
  | named {path : String} {bytes : List UInt8} {events : List Event}
      (hload : s.load path = .ok (.whole bytes)) (htells : Files.Tells path bytes events) :
      EventsFrom s (some path) events

/-- What a report is made from, once everything that the options name has been read. -/
structure Inputs where
  /-- The settings of the file, or the usual ones. -/
  file : Settings
  data : Enrollment
  events : List Event
  filters : List (String × Option String)

namespace Inputs

/-- The inputs are what a storage holds where the options say. -/
structure ReadFrom (i : Inputs) (o : ReportOptions) (s : Storage) : Prop where
  file : fileSettings o.settings s = .ok i.file
  data : Files.enrollment o.data (s.load o.data) = .ok i.data
  events : EventsFrom s o.events i.events
  filters : List.Forall₂ Names o.filters i.filters

variable (i : Inputs) (o : ReportOptions)

/-- The settings, with the rule of the command line if it gives one. -/
def settings : Settings :=
  { i.file with statusRule := o.statusRule.getD i.file.statusRule }

/-- The statuses that are set, in order: by events, by named filters, by the flag. -/
def statuses : List (Option String) :=
  i.events.flatMap Event.statusSet ++ (i.filters.filter (·.1 = "status")).map (·.2) ++
    o.status.toList.map some

/-- The ownerships that are set, in order: by events and clicks on the chart, by named filters, by
the flag, by the click that a flag stands for. -/
def ownerships : List (Option String) :=
  i.events.flatMap Event.ownershipSet ++ (i.filters.filter (·.1 = "ownership")).map (·.2) ++
    o.ownership.toList.map some ++ o.chart.toList.map some

/-- The query that the last of them and the page call for. -/
def query : Filter.Query where
  params := {
    dateFrom := i.data.dateFrom
    dateTo := i.data.dateTo
    status := (i.statuses o).getLast?.join.filter fun v =>
      v ≠ "" ∧ (i.settings o).statusRule = .retain
    ownership := (i.ownerships o).getLast?.join.filter fun v => v ≠ "ALL" }
  offset := o.offset
  limit := o.limit.getD (i.settings o).pageSize

def report : Report where
  settings := i.settings o
  data := i.data
  params := (i.query o).params

end Inputs

theorem resolveSettings_eq_ok {path : Option String} {rule : Option Filter.StatusRule}
    {settings : Settings} {s : Storage}
    (h : Files.resolveSettings (path.map fun p => (p, s.load p)) rule = .ok settings) :
    ∃ file, fileSettings path s = .ok file ∧
      settings = { file with statusRule := rule.getD file.statusRule } := by
  have hbind : fileSettings path s >>= (fun file => .ok (file.withRule rule)) = .ok settings := by
    cases path <;> exact h
  obtain ⟨file, hfile, hrule⟩ := bind_eq_ok_iff.1 hbind
  refine ⟨file, hfile, ?_⟩
  rw [← Except.ok.inj hrule]
  cases rule <;> rfl

/-- Named filters that are all accepted are a history. -/
theorem applyFilters_eq_ok {raws : List String} {r t : Report} (h : applyFilters raws r = .ok t) :
    ∃ filters, List.Forall₂ Names raws filters ∧
      t = r.after (filters.map fun f => .named f.1 f.2) := by
  induction raws generalizing r with
  | nil => exact ⟨[], .nil, (Except.ok.inj h).symm⟩
  | cons raw raws ih =>
    obtain ⟨⟨name, value⟩, hsplit, h⟩ := bind_eq_ok_iff.1 h
    obtain ⟨u, hset, h⟩ := bind_eq_ok_iff.1 h
    obtain ⟨filters, hfilters, ht⟩ := ih h
    have hchange : r.change (.named name value) = u := by
      rw [Report.change, Report.change?, hset]
    refine ⟨(name, value) :: filters, .cons (splitFilter_eq_ok_iff.1 hsplit) hfilters, ?_⟩
    rw [List.map_cons, Report.after_cons, hchange, ht]

/-- The values under one name, in order. -/
theorem flatMap_named (name : String) (filters : List (String × Option String)) :
    (filters.flatMap fun f => if f.1 = name then [f.2] else []) =
      (filters.filter (·.1 = name)).map (·.2) := by
  induction filters with
  | nil => rfl
  | cons f filters ih =>
    rw [List.flatMap_cons, ih]
    by_cases hf : f.1 = name <;> simp [hf]

theorem flatMap_statusSet_named (filters : List (String × Option String)) :
    (filters.map fun f => Report.Change.named f.1 f.2).flatMap Report.Change.statusSet =
      (filters.filter (·.1 = "status")).map (·.2) := by
  rw [List.flatMap_map]
  exact flatMap_named "status" filters

theorem flatMap_ownershipSet_named (filters : List (String × Option String)) :
    (filters.map fun f => Report.Change.named f.1 f.2).flatMap Report.Change.ownershipSet =
      (filters.filter (·.1 = "ownership")).map (·.2) := by
  rw [List.flatMap_map]
  exact flatMap_named "ownership" filters

theorem flagEvents_statusSet (o : ReportOptions) :
    o.flagEvents.flatMap Event.statusSet = o.status.toList.map some := by
  unfold ReportOptions.flagEvents
  cases o.status <;> cases o.ownership <;> cases o.chart <;> rfl

theorem flagEvents_ownershipSet (o : ReportOptions) :
    o.flagEvents.flatMap Event.ownershipSet =
      o.ownership.toList.map some ++ o.chart.toList.map some := by
  unfold ReportOptions.flagEvents
  cases o.status <;> cases o.ownership <;> cases o.chart <;> rfl

/-- All the changes of a run, and what they set. -/
theorem changed_eq_ok {o : ReportOptions} {s : Storage} {r t : Report}
    (h : changed o (sources o s).events r = .ok t) :
    ∃ events filters, EventsFrom s o.events events ∧ List.Forall₂ Names o.filters filters ∧
      Report.Sets
        (events.flatMap Event.statusSet ++ (filters.filter (·.1 = "status")).map (·.2) ++
          o.status.toList.map some)
        (events.flatMap Event.ownershipSet ++ (filters.filter (·.1 = "ownership")).map (·.2) ++
          (o.ownership.toList.map some ++ o.chart.toList.map some)) r t := by
  obtain ⟨events, hevents, hrest⟩ : ∃ events, EventsFrom s o.events events ∧
      applyFilters o.filters (r.handleAll events) >>= (fun u => .ok (u.handleAll o.flagEvents)) =
        .ok t := by
    unfold changed sources at h
    cases hpath : o.events with
    | none =>
      rw [hpath] at h
      exact ⟨[], .unnamed, h⟩
    | some path =>
      rw [hpath] at h
      obtain ⟨events, hread, hrest⟩ := bind_eq_ok_iff.1 h
      obtain ⟨bytes, hload, htells⟩ := Files.events_eq_ok_iff.1 hread
      exact ⟨events, .named hload htells, hrest⟩
  obtain ⟨u, hfilters, hflags⟩ := bind_eq_ok_iff.1 hrest
  obtain ⟨filters, hsplit, rfl⟩ := applyFilters_eq_ok hfilters
  refine ⟨events, filters, hevents, hsplit, ?_⟩
  rw [← Except.ok.inj hflags, ← flatMap_statusSet_named, ← flatMap_ownershipSet_named,
    ← flagEvents_statusSet, ← flagEvents_ownershipSet]
  exact ((Report.sets_handleAll events r).append (Report.sets_after _ _)).append
    (Report.sets_handleAll o.flagEvents _)

/-- A report on which the inputs' values have been set is the inputs' report. -/
theorem eq_report_of_sets {i : Inputs} {o : ReportOptions} {t : Report}
    (h : Report.Sets (i.statuses o) (i.ownerships o) (Report.begin (i.settings o) i.data) t) :
    t = i.report o := by
  have hstatus : t.params.status =
    Filter.lastKept (i.settings o).statusRule.keep none (i.statuses o) := h.status
  have hownership : t.params.ownership =
    Filter.lastKept Filter.keepOwnership none (i.ownerships o) := h.ownership
  rw [Filter.lastKept_none _ rfl, Filter.StatusRule.keep_eq_filter] at hstatus
  rw [Filter.lastKept_none _ rfl, Filter.keepOwnership_eq_filter] at hownership
  obtain ⟨settings, data, ⟨dateFrom, dateTo, status, ownership⟩⟩ := t
  obtain rfl : settings = i.settings o := h.settings
  obtain rfl : data = i.data := h.data
  obtain rfl : dateFrom = i.data.dateFrom := h.dateFrom
  obtain rfl : dateTo = i.data.dateTo := h.dateTo
  obtain rfl := hstatus
  obtain rfl := hownership
  rfl

/-- **A prepared report is the one that the options and the files call for.** -/
theorem prepare_eq_ok {o : ReportOptions} {s : Storage} {warnings : List Warning} {r : Report}
    {q : Filter.Query} (h : prepare o (sources o s) = (warnings, .ok (r, q))) :
    ∃ i : Inputs, i.ReadFrom o s ∧ r = i.report o ∧ q = i.query o := by
  unfold prepare at h
  split at h
  · cases h
  · next settings hsettings =>
    split at h
    · cases h
    · next data hdata =>
      obtain ⟨-, h⟩ := Prod.mk.inj h
      obtain ⟨t, hchanged, h⟩ := map_eq_ok_iff.1 h
      obtain ⟨rfl, rfl⟩ := Prod.mk.inj h
      obtain ⟨file, hfile, rfl⟩ := resolveSettings_eq_ok hsettings
      obtain ⟨events, filters, hevents, hfilters, hsets⟩ := changed_eq_ok hchanged
      have ht : t = Inputs.report ⟨file, data, events, filters⟩ o := by
        apply eq_report_of_sets
        unfold Inputs.ownerships
        rw [List.append_assoc]
        exact hsets
      rw [ht]
      exact ⟨⟨file, data, events, filters⟩, ⟨hfile, hdata, hevents, hfilters⟩, rfl, rfl⟩

end Run

end DeviceConsole
