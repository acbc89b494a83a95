import DeviceConsole.Run

/-!
The stages of a run on a storage.

A run reads, prepares and writes, and each stage is a function of the one before it: what is read
depends on the disk alone (`found`, and `sources` for a storage), preparing does not touch the disk
at all (`report_run_of_steady`), and writing is two files in a row with the first failure in between
(`writeReport_run`).
-/
namespace DeviceConsole

/-! ### The disk in each stage -/

/-- Reading from the disk changes nothing. What it gives may depend on all that is there. -/
def Disk.IsSteady {σ : Type} (disk : Disk (StateM σ)) : Prop :=
  ∀ path s, ((disk.load path).run s).2 = s

theorem Storage.disk_isSteady : Storage.disk.IsSteady := fun _ _ => rfl

namespace Run
open CommandLine

/-- A step on a state hands its result and the state to the next one. -/
theorem run_bind {σ α β : Type} (x : StateM σ α) (f : α → StateM σ β) (s : σ) :
    (x >>= f).run s = (f (x.run s).1).run (x.run s).2 := rfl

section Steady
variable {σ : Type} {disk : Disk (StateM σ)}

/-- A path with what opening it gives. -/
def opened (disk : Disk (StateM σ)) (s : σ) (path : String) : Opened :=
  (path, ((disk.load path).run s).1)

/-- What the files that the options name give when they are opened. -/
def found (disk : Disk (StateM σ)) (o : ReportOptions) (s : σ) : Sources where
  settings := o.settings.map (opened disk s)
  data := opened disk s o.data
  events := o.events.map (opened disk s)

theorem openPath_run (h : disk.IsSteady) (path : String) (s : σ) :
    (openPath disk path).run s = (opened disk s path, s) := by
  rw [openPath, run_bind, h]
  rfl

theorem openOptional_run (h : disk.IsSteady) (path : Option String) (s : σ) :
    (openOptional disk path).run s = (path.map (opened disk s), s) := by
  cases path with
  | none => rfl
  | some path =>
    rw [openOptional, run_bind, openPath_run h]
    rfl

/-- Preparing a report does not touch the disk. -/
theorem report_run_of_steady (h : disk.IsSteady) (o : ReportOptions) (s : σ) :
    (report disk o).run s =
      match prepare o (found disk o s) with
      | (warnings, .error e) => ({ result := .error e, warnings := warnings }, s)
      | (warnings, .ok (r, q)) =>
        match (writeReport disk q o.out r).run s with
        | (.error e, t) => ({ result := .error e, warnings := warnings }, t)
        | (.ok (), t) =>
          ({ result := .ok (), printed := q.path r.settings ++ "\n", warnings := warnings }, t) := by
  unfold report
  simp only [run_bind, openOptional_run h, openPath_run h]
  rw [found]
  generalize prepare o _ = prepared
  rcases prepared with ⟨warnings, e | ⟨r, q⟩⟩
  · rfl
  · dsimp only
    rw [run_bind]
    rcases (writeReport disk q o.out r).run s with ⟨e | u, t⟩ <;> rfl

/-- An uninstall request does not touch the disk at all. -/
theorem uninstall_run_of_steady (h : disk.IsSteady) (o : UninstallOptions) (s : σ) :
    (uninstall disk o).run s =
      match prepareUninstall o (o.settings.map (opened disk s)) with
      | (warnings, .error e) => ({ result := .error e, warnings := warnings }, s)
      | (warnings, .ok (request, settings)) =>
        ({ result := .ok (), printed := request.printed settings, warnings := warnings }, s) := by
  unfold uninstall
  simp only [run_bind, openOptional_run h]
  generalize prepareUninstall o _ = prepared
  rcases prepared with ⟨warnings, e | ⟨request, settings⟩⟩ <;> rfl

end Steady

theorem save_run (path content : String) (s : Storage) :
    (Storage.disk.save path content).run s = s.save path content := rfl

theorem makeFolders_run (path : String) (s : Storage) :
    (Storage.disk.makeFolders path).run s = s.makeFolders path := rfl

/-- What the files that the options name give when they are opened. -/
def sources (o : ReportOptions) (s : Storage) : Sources where
  settings := o.settings.map fun path => (path, s.load path)
  data := (o.data, s.load o.data)
  events := o.events.map fun path => (path, s.load path)

theorem sources_eq (o : ReportOptions) (s : Storage) : sources o s = found Storage.disk o s := rfl

theorem report_run (o : ReportOptions) (s : Storage) :
    (report Storage.disk o).run s =
      match prepare o (sources o s) with
      | (warnings, .error e) => ({ result := .error e, warnings := warnings }, s)
      | (warnings, .ok (r, q)) =>
        match (writeReport Storage.disk q o.out r).run s with
        | (.error e, t) => ({ result := .error e, warnings := warnings }, t)
        | (.ok (), t) =>
          ({ result := .ok (), printed := q.path r.settings ++ "\n", warnings := warnings }, t) := by
  rw [report_run_of_steady Storage.disk_isSteady, sources_eq]
  rcases prepare o (found Storage.disk o s) with ⟨warnings, e | ⟨r, q⟩⟩
  · rfl
  · dsimp only
    rcases (writeReport Storage.disk q o.out r).run s with ⟨e | u, t⟩ <;> rfl

theorem writeReport_run (q : Filter.Query) (folder : String) (r : Report) (s : Storage) :
    (writeReport Storage.disk q folder r).run s =
      match s.makeFolders folder with
      | (.error fault, t) => (.error (.io fault), t)
      | (.ok (), t) =>
        match r.document q with
        | .error e => (.error e, t)
        | .ok document =>
          match t.save (Path.join folder "params.json") document with
          | (.error fault, u) => (.error (.io fault), u)
          | (.ok (), u) =>
            match r.summary q with
            | .error e => (.error e, u)
            | .ok summary =>
              match u.save (Path.join folder "report.txt") summary with
              | (.error fault, v) => (.error (.io fault), v)
              | (.ok (), v) => (.ok (), v) := by
  unfold writeReport
  rw [run_bind, makeFolders_run]
  rcases s.makeFolders folder with ⟨fault | made, t⟩
  · rfl
  · cases r.document q with
    | error e => rfl
    | ok document =>
      simp only [run_bind, save_run]
      rcases t.save (Path.join folder "params.json") document with ⟨fault | saved, u⟩
      · rfl
      · cases r.summary q with
        | error e => rfl
        | ok summary =>
          simp only [run_bind, save_run]
          rcases u.save (Path.join folder "report.txt") summary with ⟨fault | saved', v⟩ <;> rfl

end Run

end DeviceConsole
