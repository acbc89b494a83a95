import DeviceConsole.Proofs.Event.RoundTrip
import DeviceConsole.Proofs.Report.LastWrite
import DeviceConsole.Run

/-!
A filter that an events file sets and one that an argument sets.

A line of a file is cut at a tab and an argument at an equals sign; a line becomes an event, whose
kind is looked up, and an argument a named filter, whose name is. Both come to the same kind and the
same value (`ofStream_tabbed`, `splitFilter_append`), so a report answers both in the same way and
is left as the same report (`readEvents_agrees_readFilter`).
-/
namespace DeviceConsole

/-! ### One key and one value -/

namespace Event
open DeviceConsole.Text

/-- Bytes that are one line are read as that line is. -/
theorem ofStream_single {cs : List Char} (h : Cut (Stream.utf8 cs) [Stream.utf8 cs]) :
    ofStream (.whole (Stream.utf8 cs)) =
      match ofLine cs with
      | .ok answer => .ok answer.toList
      | .error defect => .error (.event 1 defect) := by
  rw [ofStream, linesOf_whole h, List.map_singleton, ofLinesFrom, ← Stream.bytesOf_ofList,
    ofLineBytes_bytesOf, String.toList_ofList]
  rcases ofLine cs with defect | (_ | e) <;> rfl

/-- White space behind a value does not count. -/
theorem valueOf?_append (value : List Char) {blanks : List Char}
    (h : ∀ c ∈ blanks, isBlank c = true) : valueOf? (value ++ blanks) = valueOf? value := by
  have hstrip := strip_append_of_all (p := isBlank) [] value blanks nofun h
  rw [List.nil_append] at hstrip
  rw [valueOf?, valueOf?, hstrip]

/-- A kind that does not start a comment, as the key of a line or of an argument. -/
structure IsKey (k : String) : Prop where
  nonempty : trim k ≠ ""
  loud : (trim k).toList.head? ≠ some '#'

theorem IsKey.not_silent {k : String} (h : IsKey k) (rest : List Char) :
    ¬ Silent (k.toList ++ rest) := by
  obtain ⟨⟨blanks, after, hk, hblanks, -⟩, hfirst, -⟩ := isTrim_strip isBlank k.toList
  have hnonempty := h.nonempty
  have hloud := h.loud
  rw [trim] at hnonempty hloud
  rw [String.toList_ofList] at hloud
  cases hkey : strip isBlank k.toList with
  | nil => exact absurd (by rw [hkey]) hnonempty
  | cons c cs =>
    rw [hkey] at hk hfirst hloud
    rw [hk, List.append_assoc, List.append_assoc]
    exact Event.not_silent hblanks (hfirst c rfl) fun hc => hloud (congrArg some hc)

/-- A line with a tab behind its kind. -/
theorem ofLine_tabbed {k : String} (hkey : IsKey k) (htab : '\t' ∉ k.toList) (value : List Char) :
    ofLine (k.toList ++ '\t' :: value) = (ofFields (trim k) (valueOf? value)).map some := by
  obtain ⟨ending, hvalue, hending⟩ := exists_dropEnd_append isLineEnd value
  have hsame : valueOf? (dropEnd isLineEnd value) = valueOf? value := by
    rw [← valueOf?_append _ fun c hc => isBlank_of_isLineEnd (hending c hc), ← hvalue]
  have hloud : ¬ isSilent (k.toList ++ '\t' :: dropEnd isLineEnd value) = true := fun h =>
    hkey.not_silent _ (isSilent_iff.1 h)
  have hfields : fields (k.toList ++ '\t' :: dropEnd isLineEnd value) =
      (trim k, valueOf? value) := by
    simp only [fields, cut?_append _ htab, hsame]
    rfl
  rw [ofLine, dropEnd_append_cons (by decide)]
  simp only [if_neg hloud, hfields]

/-- A file that is one line with a tab in it. -/
theorem ofStream_tabbed {k v : String} {ending : List Char} (hkey : IsKey k)
    (htab : '\t' ∉ k.toList) (hk : '\n' ∉ k.toList) (hv : '\n' ∉ v.toList)
    (hending : ending = [] ∨ LineEnd ending) :
    ofStream (.whole (Stream.utf8 (k.toList ++ '\t' :: (v.toList ++ ending)))) =
      match ofFields (trim k) (valueOf? v.toList) with
      | .ok e => .ok [e]
      | .error defect => .error (.event 1 defect) := by
  have hline : '\n' ∉ k.toList ++ '\t' :: v.toList := by simp [hk, hv]
  have hcut : Cut (Stream.utf8 (k.toList ++ '\t' :: (v.toList ++ ending)))
      [Stream.utf8 (k.toList ++ '\t' :: (v.toList ++ ending))] := by
    rcases hending with rfl | hending
    · rw [List.append_nil]
      exact .last (by simp) (feed_not_mem_utf8 hline)
    · have hended : Cut (Stream.utf8 (k.toList ++ '\t' :: v.toList ++ ending ++ [])) _ :=
        .ended hline hending .nothing
      simpa using hended
  have hblank : ∀ c ∈ ending, isBlank c = true := by
    rcases hending with rfl | hending
    · exact nofun
    · exact fun c hc => isBlank_of_isLineEnd (hending.isLineEnd c hc)
  rw [ofStream_single hcut, ofLine_tabbed hkey htab, valueOf?_append _ hblank]
  cases ofFields (trim k) (valueOf? v.toList) <;> rfl

end Event

namespace CommandLine

theorem splitFilter_append {k : String} (h : '=' ∉ k.toList) (v : String) :
    splitFilter (k ++ "=" ++ v) = .ok (Text.trim k, Event.valueOf? v.toList) := by
  have hraw : (k ++ "=" ++ v).toList = k.toList ++ '=' :: v.toList := by simp
  rw [splitFilter, hraw, Text.cut?_append _ h]
  rfl

end CommandLine

/-! ### Two ways in -/

namespace Report
open DeviceConsole.Text

/-- What a report answers to an events file, and the report after it. Of a file that is refused no
event is handled. -/
def readEvents (bytes : List UInt8) (r : Report) : Option Error × Report :=
  match Event.ofStream (.whole bytes) with
  | .ok events => (r.reply? (.events events), r.change (.events events))
  | .error e => (some e, r)

/-- What a report answers to a filter argument, and the report after it. -/
def readFilter (raw : String) (r : Report) : Option Error × Report :=
  match CommandLine.splitFilter raw with
  | .ok (name, value) => (r.reply? (.named name value), r.change (.named name value))
  | .error e => (some e, r)

/-- A run reads its only filter argument in this way. -/
theorem applyFilters_singleton (raw : String) (r s : Report) :
    Run.applyFilters [raw] r = .ok s ↔ r.readFilter raw = (none, s) := by
  cases hsplit : CommandLine.splitFilter raw with
  | error e =>
    simp only [Run.applyFilters, readFilter, hsplit]
    exact ⟨nofun, nofun⟩
  | ok split =>
    obtain ⟨name, value⟩ := split
    have hrun : Run.applyFilters [raw] r = r.change? (.named name value) := by
      simp only [Run.applyFilters, hsplit]
      show (r.change? (.named name value) >>= fun s => .ok s) = _
      cases r.change? (.named name value) <;> rfl
    rw [hrun, change?_eq, readFilter, hsplit]
    simp only [reply?_eq]
    cases Change.refusal? (.named name value) <;> simp

/-- A kind other than a click stands for an event exactly if it names a filter that can be set, and
handling the event is then setting that filter. -/
theorem ofFields_setNamed {kind : String} (hchart : kind ≠ "chart") (value : Option String)
    (r : Report) :
    (∃ e, Event.ofFields kind value = .ok e ∧ kind = e.key.name ∧ e.value? = value ∧
      r.change? (.named kind value) = .ok (r.handle e)) ∨
    (∃ defect e, Event.ofFields kind value = .error defect ∧
      (Change.named kind value).refusal? = some e) := by
  cases hfor : Event.ofFields kind value with
  | ok e =>
    cases Event.ofFields_eq_iff.1 hfor with
    | status => exact .inl ⟨.status value, rfl, rfl, rfl, rfl⟩
    | ownership => exact .inl ⟨.ownership value, rfl, rfl, rfl, rfl⟩
    | segment => exact absurd rfl hchart
  | error defect =>
    rcases setNamed_cases kind value r with ⟨rfl, -⟩ | ⟨rfl, -⟩ | ⟨e, he, -⟩
    · cases hfor
    · cases hfor
    · exact .inr ⟨defect, e, rfl, he⟩

theorem readEvents_tabbed {k v : String} {ending : List Char} (r : Report) (hkey : Event.IsKey k)
    (htab : '\t' ∉ k.toList) (hk : '\n' ∉ k.toList) (hv : '\n' ∉ v.toList)
    (hending : ending = [] ∨ Event.LineEnd ending) :
    r.readEvents (Stream.bytesOf (k ++ "\t" ++ v ++ String.ofList ending)) =
      match Event.ofFields (trim k) (Event.valueOf? v.toList) with
      | .ok e => (none, r.handle e)
      | .error defect => (some (.event 1 defect), r) := by
  have hline : (k ++ "\t" ++ v ++ String.ofList ending).toList =
      k.toList ++ '\t' :: (v.toList ++ ending) := by simp
  rw [readEvents, Stream.bytesOf_eq_utf8, hline, Event.ofStream_tabbed hkey htab hk hv hending]
  cases Event.ofFields (trim k) (Event.valueOf? v.toList) <;> rfl

theorem readFilter_append {k : String} (h : '=' ∉ k.toList) (v : String) (r : Report) :
    r.readFilter (k ++ "=" ++ v) =
      ((Change.named (trim k) (Event.valueOf? v.toList)).refusal?,
        r.change (.named (trim k) (Event.valueOf? v.toList))) := by
  simp only [readFilter, CommandLine.splitFilter_append h, reply?_eq]

/-- A value of a line or an argument is not empty and has no white space at its ends. -/
theorem of_valueOf? {cs : List Char} {w : String} (h : Event.valueOf? cs = some w) :
    w ≠ "" ∧ trim w = w := by
  obtain ⟨t, ht, hne, rfl⟩ := Event.valueOf?_eq_some_iff.1 h
  exact ht.ofList hne

theorem valueOf?_of_trimmed {v : String} (hne : v ≠ "") (h : trim v = v) :
    Event.valueOf? v.toList = some v :=
  Event.valueOf?_eq_some_iff.2 ⟨v.toList, isTrim_of_trim_eq h,
    fun hnil => hne (String.toList_eq_nil_iff.1 hnil), String.ofList_toList.symm⟩

/-- A report with one filter set, which it keeps only if it is one. -/
structure Settled (key : Filter.Key) (r s : Report) : Prop where
  settings : s.settings = r.settings
  data : s.data = r.data
  others : ∀ other, other ≠ key → s.params.get? other = r.params.get? other
  nonempty : s.params.get? key ≠ some ""
  trimmed : ∀ w, s.params.get? key = some w → trim w = w
  narrow : key = .ownership → s.params.get? key ≠ some "ALL"

/-- An event with a value that has been read. -/
theorem settled_handle {e : Event} (hvalue : ∀ w, e.value? = some w → w ≠ "" ∧ trim w = w)
    (r : Report) : Settled e.key r (r.handle e) := by
  have hstatus {w : String} (h : r.statusRule.keep e.value? = some w) : e.value? = some w := by
    rw [Filter.StatusRule.keep_eq_filter, Option.filter_eq_some_iff] at h
    exact h.1
  have hownership {w : String} (h : Filter.keepOwnership e.value? = some w) :
      e.value? = some w ∧ w ≠ "ALL" := by
    rw [Filter.keepOwnership_eq_filter, Option.filter_eq_some_iff] at h
    exact ⟨h.1, of_decide_eq_true h.2⟩
  have hkept {w : String} (h : (r.handle e).params.get? e.key = some w) : e.value? = some w := by
    cases e with
    | status => exact hstatus h
    | _ => exact (hownership h).1
  refine ⟨rfl, rfl, fun other hother => ?_, fun h => (hvalue "" (hkept h)).1 rfl,
    fun w h => (hvalue w (hkept h)).2, fun hkey h => ?_⟩
  · cases e <;> cases other <;> first | rfl | exact absurd rfl hother
  · cases e with
    | status => cases hkey
    | _ => exact (hownership h).2 rfl

/-- What an event does depends on its key and its value only. -/
theorem handle_congr {e e' : Event} (hkey : e.key = e'.key) (hvalue : e.value? = e'.value?)
    (r : Report) : r.handle e = r.handle e' := by
  have hset := set_key e r
  rw [hkey, hvalue, set_key e' r] at hset
  have hparams : (r.handle e').params = (r.handle e).params := Except.ok.inj hset
  show { r with params := (r.handle e).params } = { r with params := (r.handle e').params }
  rw [hparams]

/-- A flag with the key and the value of an event is handled as the event is. A click sets what the
ownership flag sets. -/
theorem handleAll_flagEvents {e : Event} {v : String} (hvalue : e.value? = some v) (r : Report)
    (o : CommandLine.ReportOptions) :
    (e.key = .status → o.status = some v → o.ownership = none → o.chart = none →
      r.handleAll o.flagEvents = r.handle e) ∧
    (e.key = .ownership → o.status = none →
      (o.ownership = some v ∧ o.chart = none ∨ o.ownership = none ∧ o.chart = some v) →
      r.handleAll o.flagEvents = r.handle e) := by
  constructor
  · intro hkey hs ho hc
    rw [CommandLine.ReportOptions.flagEvents, hs, ho, hc]
    exact handle_congr (e := .status (some v)) hkey.symm hvalue.symm r
  · intro hkey hs hoc
    rw [CommandLine.ReportOptions.flagEvents, hs]
    rcases hoc with ⟨ho, hc⟩ | ⟨ho, hc⟩
    · rw [ho, hc]
      exact handle_congr (e := .ownership (some v)) hkey.symm hvalue.symm r
    · rw [ho, hc]
      exact handle_congr (e := .segment v) hkey.symm hvalue.symm r

/-- **An events file and a filter argument do the same.** Let `k` be no comment and no click, and
`v` one line. The line with a tab between them and the argument with an equals sign are both
accepted or both refused. Both leave the report as it was when they are refused. When they are
accepted they leave the same report, with the filter that `k` names set to what is kept of a value
without white space around it; and so do the flags with `v`, if `v` is such a value. -/
theorem readEvents_agrees_readFilter {k v : String} {ending : List Char} (r : Report)
    (hkey : Event.IsKey k) (hchart : trim k ≠ "chart") (htab : '\t' ∉ k.toList)
    (hequals : '=' ∉ k.toList) (hk : '\n' ∉ k.toList) (hv : '\n' ∉ v.toList)
    (hending : ending = [] ∨ Event.LineEnd ending) :
    let file := r.readEvents (Stream.bytesOf (k ++ "\t" ++ v ++ String.ofList ending))
    let argument := r.readFilter (k ++ "=" ++ v)
    (∀ s, Run.applyFilters [k ++ "=" ++ v] r = .ok s ↔ argument = (none, s)) ∧
      (file.1 = none ↔ argument.1 = none) ∧
      (file.1 ≠ none → file.2 = r ∧ argument.2 = r) ∧
      (file.1 = none → file.2 = argument.2 ∧
        ∃ key, (key = .status ∨ key = .ownership) ∧ trim k = key.name ∧ Settled key r file.2) ∧
      (v ≠ "" → trim v = v → ∀ o : CommandLine.ReportOptions,
        (trim k = "status" → o.status = some v → o.ownership = none → o.chart = none →
          r.handleAll o.flagEvents = file.2) ∧
        (trim k = "ownership" → o.status = none →
          (o.ownership = some v ∧ o.chart = none ∨ o.ownership = none ∧ o.chart = some v) →
          r.handleAll o.flagEvents = file.2)) := by
  have hfile := readEvents_tabbed r hkey htab hk hv hending
  have hargument := readFilter_append hequals v r
  intro file argument
  refine ⟨fun s => applyFilters_singleton _ r s, ?_⟩
  rcases ofFields_setNamed hchart (Event.valueOf? v.toList) r with
    ⟨e, hfor, hname, hvalue, hset⟩ | ⟨defect, e, hfor, hrefused⟩
  · have hf : file = (none, r.handle e) := by rw [show file = _ from hfile, hfor]
    have ha : argument = (none, r.handle e) := by
      rw [show argument = _ from hargument, ← reply?_eq _ r, reply?, change, hset]
    rw [hf, ha]
    refine ⟨Iff.rfl, fun h => absurd rfl h, fun _ => ⟨rfl, e.key, ?_, hname, ?_⟩,
      fun hne htrim o => ?_⟩
    · cases e <;> simp [Event.key]
    · exact settled_handle (fun w hw => of_valueOf? (hvalue ▸ hw)) r
    · have hkey {key : Filter.Key} (h : trim k = key.name) : e.key = key :=
        Filter.Key.name_injective (hname.symm.trans h)
      obtain ⟨hstatus, hownership⟩ :=
        handleAll_flagEvents (hvalue.trans (valueOf?_of_trimmed hne htrim)) r o
      exact ⟨fun h => hstatus (hkey h), fun h => hownership (hkey h)⟩
  · have hf : file = (some (.event 1 defect), r) := by rw [show file = _ from hfile, hfor]
    have ha : argument = (some e, r) := by
      rw [show argument = _ from hargument, hrefused, change_of_refused hrefused]
    rw [hf, ha]
    refine ⟨iff_of_false (Option.some_ne_none _) (Option.some_ne_none _), fun _ => ⟨rfl, rfl⟩,
      fun h => absurd h (Option.some_ne_none _), fun _ _ o =>
        ⟨fun hstatus => ?_, fun hownership => ?_⟩⟩
    · rw [hstatus] at hrefused
      cases hrefused
    · rw [hownership] at hrefused
      cases hrefused

/-- White space around a key, on all three ways. -/
theorem readEvents_agrees_readFilter_padded :
    let r := begin {} ⟨"2019-01-01", "2019-01-31", []⟩
    let s := { r with params := { r.params with status := some "Active" } }
    let o : CommandLine.ReportOptions := { data := "d", out := "o", status := some "Active" }
    r.readEvents (Stream.bytesOf (" status " ++ "\t" ++ "Active" ++ "\r\n")) = (none, s) ∧
      r.readFilter (" status " ++ "=" ++ "Active") = (none, s) ∧ r.handleAll o.flagEvents = s := by
  intro r s o
  obtain ⟨-, haccepted, -, hsame, hflags⟩ := readEvents_agrees_readFilter (k := " status ")
    (v := "Active") r ⟨by decide, by decide⟩ (by decide) (by decide) (by decide) (by decide)
    (by decide) (.inr .returned)
  have hfile : r.readEvents (Stream.bytesOf (" status " ++ "\t" ++ "Active" ++ "\r\n")) =
    (none, s) := rfl
  have hargument := (hsame (congrArg Prod.fst hfile)).1
  have hflag := (hflags (by decide) (by decide) o).1 (by decide) rfl rfl rfl
  exact ⟨hfile, Prod.ext (haccepted.1 (congrArg Prod.fst hfile))
    (hargument.symm.trans (congrArg Prod.snd hfile)), hflag.trans (congrArg Prod.snd hfile)⟩

end Report

end DeviceConsole
