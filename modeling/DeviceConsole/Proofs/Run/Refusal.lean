import DeviceConsole.Proofs.Report.LastWrite
import DeviceConsole.Proofs.Run.Stages

/-!
Runs that are refused.

What a report can be refused for before it is written are the defects of the files that it is told
to read and of its named filters, in the order in which they are looked at (`defects`). None of them
depends on what an earlier part gave, so a run answers with the first one (`failure?_prepare`), and
by then it has changed nothing and printed nothing (`refused_untouched`).
-/
namespace DeviceConsole

variable {ε α β : Type}

/-- Why a computation fails, if it does. -/
def failure? : Except ε α → Option ε
  | .ok _ => none
  | .error e => some e

theorem failure?_bind {x : Except ε α} {f : α → Except ε β} {e : Option ε}
    (h : ∀ a, failure? (f a) = e) : failure? (x >>= f) = (failure? x).or e := by
  cases x with
  | error e => rfl
  | ok a => exact h a

theorem eq_error_of_failure? {x : Except ε α} {e : ε} (h : failure? x = some e) :
    x = .error e := by
  cases x with
  | error e' => rw [Option.some_inj.1 h]
  | ok a => cases h

namespace Run
open CommandLine

/-! ### Defects -/

/-- Why a filter argument is refused, if it is: it has no equals sign, or the name in front of the
first one cannot be set. -/
def filterDefect? (raw : String) : Option Error :=
  match Text.cut? '=' raw.toList with
  | none => some (.input (.filterWithoutEquals raw))
  | some (key, _) =>
    (Report.Change.named (String.ofList (Text.strip Text.isBlank key)) none).refusal?

/-- All that is wrong with what a report is made from: its settings, its data, its events and its
filters, each if there is something wrong with it. -/
def defects (o : ReportOptions) (src : Sources) : List Error :=
  (src.settings.bind fun f => failure? (Files.settings f.1 f.2)).toList ++
    (failure? (Files.enrollment src.data.1 src.data.2)).toList ++
    (src.events.bind fun f => failure? (Files.events f.1 f.2)).toList ++
    o.filters.filterMap filterDefect?

theorem refusal?_named_eq_none_iff {name : String} {value : Option String} :
    (Report.Change.named name value).refusal? = none ↔ name = "status" ∨ name = "ownership" := by
  unfold Report.Change.refusal?
  grind

theorem filterDefect?_eq_none_iff {raw : String} :
    filterDefect? raw = none ↔
      ∃ key value, raw.toList = key ++ '=' :: value ∧ '=' ∉ key ∧
        (String.ofList (Text.strip Text.isBlank key) = "status" ∨
          String.ofList (Text.strip Text.isBlank key) = "ownership") := by
  unfold filterDefect?
  cases hcut : Text.cut? '=' raw.toList with
  | none =>
    refine iff_of_false nofun ?_
    intro ⟨key, value, hraw, hkey, _⟩
    rw [hraw, Text.cut?_append value hkey] at hcut
    cases hcut
  | some cut =>
    obtain ⟨key, value⟩ := cut
    obtain ⟨hraw, hkey⟩ := Text.cut?_eq_some_iff.1 hcut
    refine refusal?_named_eq_none_iff.trans ⟨fun h => ⟨key, value, hraw, hkey, h⟩, ?_⟩
    intro ⟨key', value', hraw', hkey', h⟩
    rw [hraw', Text.cut?_append value' hkey'] at hcut
    obtain ⟨rfl, rfl⟩ := Prod.mk.inj (Option.some_inj.1 hcut)
    exact h

/-! ### Preparing -/

theorem failure?_setNamed (name : String) (value : Option String) (r : Report) :
    failure? (r.setNamed name value) = (Report.Change.named name none).refusal? := by
  have h := Report.change?_eq (.named name value) r
  rw [show r.setNamed name value = r.change? (.named name value) from rfl, h]
  show _ = (Report.Change.named name value).refusal?
  cases (Report.Change.named name value).refusal? <;> rfl

theorem failure?_filter (raw : String) (r : Report) :
    failure? (splitFilter raw >>= fun f => r.setNamed f.1 f.2) = filterDefect? raw := by
  unfold splitFilter filterDefect?
  cases Text.cut? '=' raw.toList with
  | none => rfl
  | some cut => exact failure?_setNamed _ _ r

/-- The first filter that is refused ends the filters, after any number of good ones. -/
theorem failure?_applyFilters (raws : List String) (r : Report) :
    failure? (applyFilters raws r) = (raws.filterMap filterDefect?).head? := by
  induction raws generalizing r with
  | nil => rfl
  | cons raw raws ih =>
    have hcons : applyFilters (raw :: raws) r =
        (splitFilter raw >>= fun f => r.setNamed f.1 f.2) >>= applyFilters raws := by
      rw [bind_assoc]
      rfl
    rw [hcons, failure?_bind ih, failure?_filter, List.filterMap_cons]
    cases filterDefect? raw <;> rfl

theorem failure?_changed (o : ReportOptions) (events : Option Opened) (r : Report) :
    failure? (changed o events r) =
      (events.bind fun f => failure? (Files.events f.1 f.2)).or
        (o.filters.filterMap filterDefect?).head? := by
  have hrest (es : List Event) : failure? (applyFilters o.filters (r.handleAll es) >>= fun u =>
      Except.ok (u.handleAll o.flagEvents)) = (o.filters.filterMap filterDefect?).head? := by
    rw [failure?_bind (e := none) fun _ => rfl, failure?_applyFilters, Option.or_none]
  cases events with
  | none => exact hrest []
  | some f => exact failure?_bind hrest

theorem failure?_resolveSettings (file : Option Opened) (rule : Option Filter.StatusRule) :
    failure? (Files.resolveSettings file rule) =
      file.bind fun f => failure? (Files.settings f.1 f.2) := by
  cases file with
  | none => rfl
  | some f =>
    show failure? (Files.settings f.1 f.2 >>= fun s => Except.ok (s.withRule rule)) = _
    rw [failure?_bind (e := none) fun _ => rfl, Option.or_none]
    rfl

/-- **A report is refused for its first defect**, and for nothing else. -/
theorem failure?_prepare (o : ReportOptions) (src : Sources) :
    failure? (prepare o src).2 = (defects o src).head? := by
  have hsettings := failure?_resolveSettings src.settings o.statusRule
  rw [defects, List.append_assoc, List.append_assoc, List.head?_append, List.head?_append,
    List.head?_append, Option.head?_toList, Option.head?_toList, Option.head?_toList, ← hsettings]
  unfold prepare
  cases Files.resolveSettings src.settings o.statusRule with
  | error e => rfl
  | ok settings =>
    cases Files.enrollment src.data.1 src.data.2 with
    | error e => rfl
    | ok data =>
      rw [failure?, failure?, Option.none_or, Option.none_or, ← failure?_changed o src.events
        (Report.begin settings data)]
      dsimp only
      cases changed o src.events (Report.begin settings data) <;> rfl

/-! ### Running -/

/-- **A refused run leaves no trace.** Whatever the disk is, as long as reading does not change it: a
report with a defect answers with the first one and prints nothing, and the disk is as it was. A
filter has a defect unless it sets a status or an ownership. An uninstall request never changes the
disk, and prints nothing if it is refused. -/
theorem refused_untouched {σ : Type} {disk : Disk (StateM σ)} (h : disk.IsSteady) :
    (∀ (o : ReportOptions) (s : σ) (e : Error), (defects o (found disk o s)).head? = some e →
      ∃ warnings,
        (report disk o).run s = ({ result := .error e, printed := "", warnings := warnings }, s)) ∧
    (∀ raw, filterDefect? raw = none ↔
      ∃ key value, raw.toList = key ++ '=' :: value ∧ '=' ∉ key ∧
        (String.ofList (Text.strip Text.isBlank key) = "status" ∨
          String.ofList (Text.strip Text.isBlank key) = "ownership")) ∧
    ∀ (o : UninstallOptions) (s : σ),
      ((uninstall disk o).run s).2 = s ∧
        (((uninstall disk o).run s).1.result ≠ .ok () →
          ((uninstall disk o).run s).1.printed = "") := by
  refine ⟨fun o s e hdefect => ?_, fun raw => filterDefect?_eq_none_iff, fun o s => ?_⟩
  · have hprepare := eq_error_of_failure? ((failure?_prepare o _).trans hdefect)
    refine ⟨(prepare o (found disk o s)).1, ?_⟩
    rw [report_run_of_steady h, ← Prod.eta (prepare o (found disk o s)), hprepare]
  · rw [uninstall_run_of_steady h]
    rcases prepareUninstall o (o.settings.map (opened disk s)) with ⟨warnings, e | ⟨request, settings⟩⟩
    · exact ⟨rfl, fun _ => rfl⟩
    · exact ⟨rfl, fun hresult => absurd rfl hresult⟩

/-- A storage with the data of a report and one event. -/
def oneEvent : Storage where
  home := ["work"]
  entries := [(["work"], .folder),
    (["work", "in.json"], .file (Stream.bytesOf "\x7b\"duration\": [\"a\", \"b\"]\x7d")),
    (["work", "e.tsv"], .file (Stream.bytesOf "chart\tBYOD\n"))]

/-- Two good filters, a name that is no filter's and a filter without an equals sign. -/
def lateDefects : ReportOptions where
  data := "in.json"
  out := "out"
  events := some "e.tsv"
  filters := ["status = x", "ownership=", " owner =BYOD", "BYOD"]

theorem refused_untouched_lateDefects :
    Storage.disk.IsSteady ∧
      (defects lateDefects (found Storage.disk lateDefects oneEvent)).head? =
        some (.unknownFilterKey "owner") ∧
      ∃ warnings, (report Storage.disk lateDefects).run oneEvent =
        ({ result := .error (.unknownFilterKey "owner"), printed := "", warnings := warnings },
          oneEvent) := by
  have hdefect : (defects lateDefects (found Storage.disk lateDefects oneEvent)).head? =
      some (.unknownFilterKey "owner") := by rfl
  exact ⟨Storage.disk_isSteady, hdefect,
    (refused_untouched Storage.disk_isSteady).1 lateDefects oneEvent _ hdefect⟩

end Run

end DeviceConsole
