import DeviceConsole.Proofs.Report.LastWrite
import DeviceConsole.Proofs.Report.Rendering
import DeviceConsole.Proofs.Run.Stages
import DeviceConsole.Proofs.Storage.Writes

/-!
Which reports can be shown and written.

Reading enrollment data bounds each count but not their sum. A report on counts of which the sum
fits sixty-four bits completes whatever is asked of it (`completes_of_fits`), and on other data
everything that needs the total overflows (`overflows_of_large`). No history changes which of the two
it is (`completes_or_overflows`). Data of the second kind is read without an error
(`not_completes_of_read`).
-/
namespace DeviceConsole

/-- The folder of a report can be made, and then either file of a report can be saved in it. -/
structure Storage.Writable (folder : String) (s : Storage) : Prop where
  made : (s.makeFolders folder).1 = .ok ()
  admits : ∀ name ∈ ["params.json", "report.txt"], ∀ text,
    ∃ t, (s.makeFolders folder).2.save (Path.join folder name) text = (.ok (), t)

namespace Run

/-- All that can be asked of a report succeeds, and its total is exact. -/
structure Completes (q : Filter.Query) (r : Report) : Prop where
  total : ∃ total, r.data.total = .ok total ∧ total.toNat = r.data.devices
  shares : ∃ shares, r.shares = .ok shares
  document : ∃ text, r.document q = .ok text
  summary : ∃ text, r.summary q = .ok text
  written : ∀ folder s, Storage.Writable folder s →
    ∃ t, (writeReport Storage.disk q folder r).run s = (.ok (), t)

/-- Whatever is asked of a report overflows. Writing it makes its folder and no more. -/
structure Overflows (q : Filter.Query) (r : Report) : Prop where
  total : r.data.total = .error .totalOverflow
  shares : r.shares = .error .totalOverflow
  document : r.document q = .error .totalOverflow
  summary : r.summary q = .error .totalOverflow
  written : ∀ folder s, (s.makeFolders folder).1 = .ok () →
    (writeReport Storage.disk q folder r).run s =
      (.error .totalOverflow, (s.makeFolders folder).2)

variable {q : Filter.Query} {r : Report}

/-! ### Writing -/

/-- What is rendered is written, if the storage admits it. -/
theorem writeReport_of_writable {folder document summary : String} {s : Storage}
    (hdocument : r.document q = .ok document) (hsummary : r.summary q = .ok summary)
    (hwritable : s.Writable folder) :
    ∃ t, (writeReport Storage.disk q folder r).run s = (.ok (), t) := by
  obtain ⟨t, hsave⟩ := hwritable.admits "params.json" (by decide) document
  obtain ⟨u, hsave'⟩ := hwritable.admits "report.txt" (by decide) summary
  obtain ⟨v, hafter⟩ := Storage.exists_save_of_save hsave hsave'
  have hmade : s.makeFolders folder = (.ok (), (s.makeFolders folder).2) :=
    Prod.ext hwritable.made rfl
  refine ⟨v, ?_⟩
  rw [writeReport_run, hmade, hdocument]
  dsimp only
  rw [hsave, hsummary]
  dsimp only
  rw [hafter]

/-- Without a document the folder is made and no file is saved. -/
theorem writeReport_of_unrendered {folder : String} {s : Storage} {e : Error}
    (hdocument : r.document q = .error e) (hmade : (s.makeFolders folder).1 = .ok ()) :
    (writeReport Storage.disk q folder r).run s = (.error e, (s.makeFolders folder).2) := by
  have hmade : s.makeFolders folder = (.ok (), (s.makeFolders folder).2) := Prod.ext hmade rfl
  rw [writeReport_run, hmade, hdocument]

/-! ### The two kinds of data -/

theorem completes_of_fits (h : r.data.devices < UInt64.size) (q : Filter.Query) :
    Completes q r := by
  obtain ⟨total, htotal⟩ := Enrollment.exists_total h
  obtain ⟨document, hdocument⟩ := Report.exists_document htotal q
  obtain ⟨summary, hsummary⟩ := Report.exists_summary htotal q
  refine ⟨⟨total, htotal, Enrollment.total_eq_ok_iff.1 htotal⟩, ⟨_, Report.shares_eq htotal⟩,
    ⟨document, hdocument⟩, ⟨summary, hsummary⟩, fun folder s hwritable => ?_⟩
  exact writeReport_of_writable hdocument hsummary hwritable

theorem overflows_of_large (h : UInt64.size ≤ r.data.devices) (q : Filter.Query) :
    Overflows q r := by
  have htotal := Enrollment.total_of_large h
  have hdocument := Report.document_of_overflow htotal q
  refine ⟨htotal, Report.shares_of_overflow htotal, hdocument, Report.summary_of_overflow htotal q,
    fun folder s hmade => ?_⟩
  exact writeReport_of_unrendered hdocument hmade

/-- **A report completes exactly if the sum of its counts fits sixty-four bits**, whatever its settings
are and whatever happens to it. -/
theorem completes_or_overflows (settings : Settings) (data : Enrollment)
    (changes : List Report.Change) (q : Filter.Query) :
    (data.devices < UInt64.size ∧ Completes q ((Report.begin settings data).after changes)) ∨
      (UInt64.size ≤ data.devices ∧
        Overflows q ((Report.begin settings data).after changes)) := by
  have hdata : ((Report.begin settings data).after changes).data = data :=
    (Report.sets_after changes _).data
  rcases Nat.lt_or_ge data.devices UInt64.size with hfits | hlarge
  · refine .inl ⟨hfits, completes_of_fits ?_ q⟩
    rwa [hdata]
  · refine .inr ⟨hlarge, overflows_of_large ?_ q⟩
    rwa [hdata]

/-- Two counts of half of all that sixty-four bits can tell apart. -/
def twoHalves : Enrollment where
  dateFrom := "2019-01-01"
  dateTo := "2019-01-31"
  segments := [⟨"BYOD", 9223372036854775808⟩, ⟨"COPE", 9223372036854775808⟩]

/-- The file of `twoHalves`. -/
def twoHalvesFile : String :=
  "\x7b\"duration\":[\"2019-01-01\",\"2019-01-31\"],\"segments\":[" ++
    "\x7b\"item\":\"BYOD\",\"count\":9223372036854775808\x7d," ++
    "\x7b\"item\":\"COPE\",\"count\":9223372036854775808\x7d]\x7d"

/-- **Data that is read without an error can overflow.** -/
theorem not_completes_of_read :
    ¬ ∀ path opened data, Files.enrollment path opened = .ok data →
      ∀ settings changes q, Completes q ((Report.begin settings data).after changes) := by
  intro h
  have hread : Files.enrollment "in.json" (.ok (.whole (Stream.bytesOf twoHalvesFile))) =
      .ok twoHalves :=
    toOption_eq_some_iff.1 (by decide +kernel)
  have hcompletes := h _ _ _ hread {} [] ((Report.begin {} twoHalves).query 0 none)
  obtain ⟨total, -, hexact⟩ := hcompletes.total
  -- The two counts add up to more than a total can be.
  have hfits := total.toNat_lt_size
  rw [hexact] at hfits
  exact absurd hfits (by decide)

end Run

end DeviceConsole
