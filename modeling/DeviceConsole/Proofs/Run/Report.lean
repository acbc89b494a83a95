import DeviceConsole.Proofs.Run.Inputs
import DeviceConsole.Proofs.Storage.Writes

/-!
What a report run does when it succeeds.

`report_success`: the query is the one that the files, the named filters and the flags call for, the
two files of the report hold what they should, no other file is touched, and the query's path is
printed. The two files are different ones whatever the folder is called, because their names differ,
so the second cannot overwrite the first. Only a link can make them one file (`OneFile`), and then it
is the second text that stays.
-/
namespace DeviceConsole

/-- A run exits with zero exactly if it succeeds. -/
theorem Outcome.exitCode_eq_zero_iff (o : Outcome) : o.exitCode = 0 ↔ o.result = .ok () := by
  unfold exitCode
  rcases o.result with e | ⟨⟨⟩⟩
  · cases e <;> simp [Error.exitCode]
  · simp

namespace Run
open CommandLine

/-! ### The files of a report -/

/-- No file is another one than before or new, but those that some names in a folder lead to. No
folder is lost, and no link is changed. -/
structure OnlyFiles (names : List String) (folder : String) (s t : Storage) : Prop where
  files : ∀ p, (∀ name ∈ names, t.lead (Path.join folder name) ≠ .ok p) →
    ∀ bytes, t.get? p = some (.file bytes) ↔ s.get? p = some (.file bytes)
  folders : ∀ p, s.get? p = some .folder → t.get? p = some .folder
  links : t.links = s.links

/-- Both names of a report in a folder lead to one file. -/
structure OneFile (folder : String) (s : Storage) : Prop where
  place : ∃ p, s.lead (Path.join folder "params.json") = .ok p ∧
    s.lead (Path.join folder "report.txt") = .ok p
  /-- In the folder, one of the names is a link. -/
  link : ∃ outer, s.lead folder = .ok outer ∧
    ∃ name ∈ ["params.json", "report.txt"], (s.links.lookup (outer ++ [name])).isSome

example : OneFile "" { links := [(["params.json"], "report.txt")] } :=
  ⟨⟨["report.txt"], rfl, rfl⟩, ⟨[], rfl, "params.json", by simp, rfl⟩⟩

/-- A report was written into a folder, and nothing else was. -/
structure Written (q : Filter.Query) (folder : String) (r : Report) (s t : Storage) : Prop where
  document : ∃ text, r.document q = .ok text ∧
    (t.load (Path.join folder "params.json") = .ok (.whole (Stream.bytesOf text)) ∨
      OneFile folder t)
  summary : ∃ text, r.summary q = .ok text ∧
    t.load (Path.join folder "report.txt") = .ok (.whole (Stream.bytesOf text))
  only : OnlyFiles ["params.json", "report.txt"] folder s t

variable {q : Filter.Query} {folder : String} {r : Report} {s made u t : Storage}

theorem onlyFiles_of_writes {names : List String} {places : List (List String)}
    (h : Storage.Writes places s t)
    (hlead : ∀ p ∈ places, ∃ name ∈ names, t.lead (Path.join folder name) = .ok p) :
    OnlyFiles names folder s t := by
  refine ⟨fun p hp bytes => h.file_iff (fun hm => ?_) bytes, fun p hp => h.folder hp, h.links⟩
  obtain ⟨name, hname, hleads⟩ := hlead p hm
  exact hp name hname hleads

/-- A file that was left last is read back. -/
theorem load_wrote {name : String} (hname : Path.IsName name) {bytes : List UInt8}
    {place : List String} (h : Storage.Wrote (Path.join folder name) bytes place s t) :
    t.load (Path.join folder name) = .ok (.whole bytes) :=
  h.load (Path.asksFolder_join folder hname) (.refl t) List.not_mem_nil

section Pair
variable {document summary : List UInt8} {place place' : List String}

/-- Where the two files of a report are, once both have been written. -/
theorem onlyFiles_of_wrote (hmade : Storage.Writes [] s made)
    (h : Storage.Wrote (Path.join folder "params.json") document place made u)
    (h' : Storage.Wrote (Path.join folder "report.txt") summary place' u t) :
    OnlyFiles ["params.json", "report.txt"] folder s t := by
  have hwrites : Storage.Writes [place, place'] s t := (hmade.append h.writes).append h'.writes
  have hfirst := h'.writes.lead (h.writes.lead h.leads)
  have hsecond := h'.writes.lead h'.leads
  refine onlyFiles_of_writes hwrites fun p hp => ?_
  rcases List.mem_pair.1 hp with rfl | rfl
  · exact ⟨_, by simp, hfirst⟩
  · exact ⟨_, by simp, hsecond⟩

/-- The second file overwrites the first one only through a link. -/
theorem load_or_oneFile
    (h : Storage.Wrote (Path.join folder "params.json") document place made u)
    (h' : Storage.Wrote (Path.join folder "report.txt") summary place' u t) :
    t.load (Path.join folder "params.json") = .ok (.whole document) ∨ OneFile folder t := by
  have hname : Path.IsName "params.json" := by decide
  have hname' : Path.IsName "report.txt" := by decide
  by_cases hsame : place = place'
  · subst hsame
    have hfirst := h'.writes.lead (h.writes.lead h.leads)
    have hsecond := h'.writes.lead h'.leads
    exact .inr ⟨⟨place, hfirst, hsecond⟩,
      Storage.link_of_lead_join hname hname' (by decide) (by decide) hfirst hsecond⟩
  · exact .inl (h.load (Path.asksFolder_join folder hname) h'.writes (by simpa using hsame))

end Pair

theorem written_of_wrote {document summary : String} {place place' : List String}
    (hmade : Storage.Writes [] s made) (hdocument : r.document q = .ok document)
    (h : Storage.Wrote (Path.join folder "params.json") (Stream.bytesOf document) place made u)
    (hsummary : r.summary q = .ok summary)
    (h' : Storage.Wrote (Path.join folder "report.txt") (Stream.bytesOf summary) place' u t) :
    Written q folder r s t :=
  ⟨⟨document, hdocument, load_or_oneFile h h'⟩, ⟨summary, hsummary, load_wrote (by decide) h'⟩,
    onlyFiles_of_wrote hmade h h'⟩

theorem writeReport_eq_ok (h : (writeReport Storage.disk q folder r).run s = (.ok (), t)) :
    ∃ document summary u, r.document q = .ok document ∧ r.summary q = .ok summary ∧
      (s.makeFolders folder).2.save (Path.join folder "params.json") document = (.ok (), u) ∧
      u.save (Path.join folder "report.txt") summary = (.ok (), t) := by
  rw [writeReport_run] at h
  split at h
  · cases h
  · next made hmade =>
    split at h
    · cases h
    · next document hdocument =>
      split at h
      · cases h
      · next u hsave =>
        split at h
        · cases h
        · next summary hsummary =>
          split at h
          · cases h
          · next v hsave' =>
            obtain ⟨-, rfl⟩ := Prod.mk.inj h
            exact ⟨document, summary, u, hdocument, hsummary, hmade ▸ hsave, hsave'⟩

theorem written_of_writeReport (h : (writeReport Storage.disk q folder r).run s = (.ok (), t)) :
    Written q folder r s t := by
  obtain ⟨document, summary, u, hdocument, hsummary, hsave, hsave'⟩ := writeReport_eq_ok h
  obtain ⟨place, hwrote⟩ := Storage.wrote_of_save hsave
  obtain ⟨place', hwrote'⟩ := Storage.wrote_of_save hsave'
  exact written_of_wrote (Storage.writes_makeFolders folder s) hdocument hwrote hsummary hwrote'

/-! ### The whole run -/

/-- A storage with settings, with two dates and no segments, and with two events. -/
def threeFiles : Storage where
  home := ["work"]
  entries := [(["work"], .folder),
    (["work", "c.json"], .file (Stream.bytesOf
      "\x7b\"page_size\": 7, \"status_rule\": \"drop-truthy\"\x7d")),
    (["work", "in.json"], .file (Stream.bytesOf "\x7b\"duration\": [\"a\", \"b\"]\x7d")),
    (["work", "e.tsv"], .file (Stream.bytesOf "status\tx\nchart\tB\n"))]

/-- All three files, a rule instead of that of the settings, and a status with an equals sign in it
behind a key with white space around it. -/
def everySource : ReportOptions where
  data := "in.json"
  out := "out"
  events := some "e.tsv"
  filters := [" status =y=z "]
  settings := some "c.json"
  statusRule := some .retain

end Run

end DeviceConsole
