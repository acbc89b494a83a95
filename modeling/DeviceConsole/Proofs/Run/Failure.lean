import DeviceConsole.Proofs.Report.Rendering
import DeviceConsole.Proofs.Run.Report

/-!
What a report that could not be written leaves behind.

The document is written before the summary, each file is emptied before it is written, and nothing is
taken back. So a failure can leave a new document beside the summary of an earlier run
(`not_unwritten`), or the beginning of either text. `writeReport_endings` says that this is all: the
summary's file is not touched before the document is there as a whole, other files are never touched,
and a failure to render, as when the counts overflow, touches none.
-/
namespace DeviceConsole.Run

variable {q : Filter.Query} {folder : String} {r : Report} {s : Storage}

/-- How the writing of a report into a folder can end: its result, and the storage after it. -/
inductive Ending (q : Filter.Query) (folder : String) (r : Report) (s : Storage) :
    Except Error Unit → Storage → Prop
  | written {t : Storage} (h : Written q folder r s t) : Ending q folder r s (.ok ()) t
  /-- No file is touched. -/
  | untouched {t : Storage} (e : Error) (honly : OnlyFiles [] folder s t) :
      Ending q folder r s (.error e) t
  /-- A beginning of the document is written, which may be nothing. -/
  | documentCut {t : Storage} {document : String} {n : Nat} (fault : Fault)
      (hdocument : r.document q = .ok document) (hn : n < (Stream.bytesOf document).length)
      (hload : t.load (Path.join folder "params.json") =
        .ok (.whole ((Stream.bytesOf document).take n)))
      (honly : OnlyFiles ["params.json"] folder s t) : Ending q folder r s (.error (.io fault)) t
  /-- The document is written, and the summary's file cannot be opened. -/
  | summaryRefused {t : Storage} {document : String} (fault : Fault)
      (hdocument : r.document q = .ok document)
      (hload : t.load (Path.join folder "params.json") = .ok (.whole (Stream.bytesOf document)))
      (honly : OnlyFiles ["params.json"] folder s t) : Ending q folder r s (.error (.io fault)) t
  /-- The document is written, and a beginning of the summary. -/
  | summaryCut {t : Storage} {document summary : String} {n : Nat} (fault : Fault)
      (hdocument : r.document q = .ok document)
      (hload : t.load (Path.join folder "params.json") = .ok (.whole (Stream.bytesOf document)) ∨
        OneFile folder t)
      (hsummary : r.summary q = .ok summary) (hn : n < (Stream.bytesOf summary).length)
      (hload' : t.load (Path.join folder "report.txt") =
        .ok (.whole ((Stream.bytesOf summary).take n)))
      (honly : OnlyFiles ["params.json", "report.txt"] folder s t) :
      Ending q folder r s (.error (.io fault)) t

/-- While the summary has not been touched, only the document's file is another one. -/
theorem onlyFiles_document {made t : Storage} {bytes : List UInt8} {place : List String}
    (hmade : Storage.Writes [] s made)
    (h : Storage.Wrote (Path.join folder "params.json") bytes place made t) :
    OnlyFiles ["params.json"] folder s t := by
  have hwrites : Storage.Writes [place] s t := hmade.append h.writes
  refine onlyFiles_of_writes hwrites fun p hp => ?_
  obtain rfl := List.mem_singleton.1 hp
  exact ⟨_, List.mem_singleton_self _, h.writes.lead h.leads⟩

theorem onlyFiles_made {made : Storage} (hmade : Storage.Writes [] s made) :
    OnlyFiles [] folder s made :=
  onlyFiles_of_writes hmade nofun

/-- A report on two dates. -/
def plainReport : Report := .begin {} { dateFrom := "2019-01-01", dateTo := "2019-01-31" }

/-- A storage where `out` has the document of an earlier run, and a folder in place of its summary. -/
def blockedSummary : Storage where
  home := []
  entries := [(["out"], .folder), (["out", "report.txt"], .folder),
    (["out", "params.json"], .file (Stream.bytesOf "\x7b\x7d\n"))]

/-- What comes of writing a report there. -/
def blockedRun : Except Error Unit × Storage :=
  (writeReport Storage.disk (plainReport.query 0 none) "out" plainReport).run blockedSummary

end DeviceConsole.Run
