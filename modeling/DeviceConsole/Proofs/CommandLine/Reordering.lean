import DeviceConsole.Proofs.CommandLine.Groups
import DeviceConsole.Run

/-!
The order of the options on a command line.

What a command line describes depends on the values that each option is given, and all options but
the filters are given one value at most. So only the order of the filters counts, and only among
themselves (`read_reordered`). The events that the flags of a report stand for have an order of
their own.
-/
namespace DeviceConsole.CommandLine

/-- The same groups in an order that keeps the filters in theirs. -/
structure Reordered (gs hs : List Group) : Prop where
  perm : gs.Perm hs
  filters : values .filter hs = values .filter gs

variable {α : Type} {gs hs : List Group} {i : ReportOption}

/-- One value at most has only one order. -/
theorem IsGiven.reordered {parse : String → Except UsageError α} {a : Option α}
    (hgiven : IsGiven gs i parse a) (h : Reordered gs hs) : IsGiven hs i parse a := by
  have hperm : ((values i hs).map parse).Perm (a.toList.map .ok) := by
    rw [← hgiven]
    exact ((h.perm.filterMap _).map parse).symm
  cases a with
  | none => exact hperm.eq_nil
  | some a => exact hperm.eq_singleton

theorem Describes.reordered {verbose : Bool} {o : ReportOptions} (ho : Describes gs verbose o)
    (h : Reordered gs hs) : Describes hs verbose o where
  plain := fun g hg => ho.plain g (h.perm.mem_iff.2 hg)
  verbose := (h.perm.countP_eq _).symm.trans ho.verbose
  data := ho.data.reordered h
  out := ho.out.reordered h
  events := ho.events.reordered h
  filters := h.filters.trans ho.filters
  status := ho.status.reordered h
  ownership := ho.ownership.reordered h
  chart := ho.chart.reordered h
  settings := ho.settings.reordered h
  statusRule := ho.statusRule.reordered h
  offset := by
    obtain ⟨offset, hgiven, hoffset⟩ := ho.offset
    exact ⟨offset, hgiven.reordered h, hoffset⟩
  limit := ho.limit.reordered h

/-! ### Flags -/

/-- A value that is taken as it is. -/
theorem IsGiven.values_eq {a : Option String} (h : IsGiven gs i .ok a) : values i gs = a.toList :=
  List.map_injective_iff.2 (fun _ _ => Except.ok.inj) h

theorem Describes.flagEvents {verbose : Bool} {o : ReportOptions} (ho : Describes gs verbose o) :
    o.flagEvents = (values .status gs).map (fun v => Event.status (some v)) ++
      (values .ownership gs).map (fun v => Event.ownership (some v)) ++
      (values .chart gs).map Event.segment := by
  rw [ho.status.values_eq, ho.ownership.values_eq, ho.chart.values_eq,
    ReportOptions.flagEvents, Option.toList_map, Option.toList_map, Option.toList_map]

/-! ### Command lines -/

/-- Carry out what a command line asks for, if it can be read. -/
def runLine {m : Type → Type} [Monad m] (disk : Disk m) (words : List String) :
    Except UsageError (m Outcome) :=
  (read words).map fun invocation => Run.command disk invocation.command

/-- **The order of the options does not matter**, except among the filters: a command line that is
read is read as the same invocation in every order that keeps the filters in theirs, and is run
alike. Its filters are those of the command line in order, and the events of its flags are the
status, the ownership and the click on the chart, each if it was given. -/
theorem read_reordered {invocation : Invocation} (hread : read (reportWords gs) = .ok invocation)
    (h : Reordered gs hs) :
    read (reportWords hs) = .ok invocation ∧
      (∃ o, invocation.command = .report o ∧ o.filters = values .filter hs ∧
        o.flagEvents = (values .status hs).map (fun v => Event.status (some v)) ++
          (values .ownership hs).map (fun v => Event.ownership (some v)) ++
          (values .chart hs).map Event.segment) ∧
      ∀ {m : Type → Type} [Monad m] (disk : Disk m),
        runLine disk (reportWords hs) = runLine disk (reportWords gs) := by
  obtain ⟨o, hcommand, ho⟩ := read_eq_ok_iff.1 hread
  have ho' := ho.reordered h
  have hread' : read (reportWords hs) = .ok invocation := read_eq_ok_iff.2 ⟨o, hcommand, ho'⟩
  refine ⟨hread', ⟨o, hcommand, ho'.filters.symm, ho'.flagEvents⟩, fun disk => ?_⟩
  rw [runLine, runLine, hread', hread]

/-- The click on the chart in front of the flags that come before it, and two filters of which the
last one counts. -/
theorem read_reordered_chartFirst :
    let gs := [.option .data "in.json", .option .out "out", .option .filter "status=A",
      .option .filter "status=B", .option .status "-", .option .chart "BYOD", .verbose false]
    let hs := [.option .chart "BYOD", .option .filter "status=A", .verbose false,
      .option .status "-", .option .out "out", .option .filter "status=B", .option .data "in.json"]
    let o : ReportOptions := {
      data := "in.json", out := "out", filters := ["status=A", "status=B"], status := some "-"
      chart := some "BYOD" }
    read (reportWords gs) = .ok ⟨true, .report o⟩ ∧ Reordered gs hs ∧
      read (reportWords hs) = .ok ⟨true, .report o⟩ := by
  intro gs hs o
  have hread : read (reportWords gs) = .ok ⟨true, .report o⟩ := by rfl
  have horder : Reordered gs hs := ⟨by decide, by decide⟩
  exact ⟨hread, horder, (read_reordered hread horder).1⟩

end DeviceConsole.CommandLine
