import DeviceConsole.Proofs.Event.Lines
import DeviceConsole.Proofs.Lists
import DeviceConsole.Proofs.Text.Trimming
import Mathlib.Data.List.ReduceOption

/-!
What the lines of an events file say.

A line says nothing, or one event, or it has a defect; which, is told by its bytes and its number
alone (`Says`), and every line says exactly one thing (`says_iff`). A file is accepted if and only if
none of its lines has a defect, and gives the events that they say in order; otherwise the defect of
the first line that has one is the defect of the file (`ofStream_lineGrammar`).
-/
namespace DeviceConsole.Event
open DeviceConsole.Text

/-! ### One line -/

/-- White space only, or a comment behind white space. -/
inductive Silent : List Char → Prop
  | blank {line : List Char} (h : ∀ c ∈ line, isBlank c = true) : Silent line
  | comment {blanks rest : List Char} (h : ∀ c ∈ blanks, isBlank c = true) :
      Silent (blanks ++ '#' :: rest)

/-- The kind that a line names and the value that it gives. The first tab stands between them, and an
empty value is none. -/
inductive Gives : List Char → String → Option String → Prop
  | untabbed {line kind : List Char} (htab : '\t' ∉ line) (hkind : IsTrim isBlank line kind) :
      Gives line (String.ofList kind) none
  | valueless {before kind after : List Char} (htab : '\t' ∉ before)
      (hkind : IsTrim isBlank before kind) (hafter : ∀ c ∈ after, isBlank c = true) :
      Gives (before ++ '\t' :: after) (String.ofList kind) none
  | valued {before kind after value : List Char} (htab : '\t' ∉ before)
      (hkind : IsTrim isBlank before kind) (hvalue : IsTrim isBlank after value)
      (hne : value ≠ []) :
      Gives (before ++ '\t' :: after) (String.ofList kind) (some (String.ofList value))

/-- What a kind and a value stand for: an event, or a defect. -/
inductive StandsFor : String → Option String → Except EventDefect Event → Prop
  | status (value : Option String) : StandsFor "status" value (.ok (.status value))
  | ownership (value : Option String) : StandsFor "ownership" value (.ok (.ownership value))
  | segment (label : String) : StandsFor "chart" (some label) (.ok (.segment label))
  | unlabelled : StandsFor "chart" none (.error .missingLabel)
  | dateFrom (value : Option String) : StandsFor "from" value (.error (.fixedKind .dateFrom))
  | dateTo (value : Option String) : StandsFor "to" value (.error (.fixedKind .dateTo))
  | unknown {kind : String} (value : Option String)
      (h : kind ∉ ["status", "ownership", "chart", "from", "to"]) :
      StandsFor kind value (.error (.unknownKind kind))

/-- What the `n`-th line says: nothing, an event, or a defect. -/
inductive Says (n : Nat) : List UInt8 → Except Error (Option Event) → Prop
  | garbled {bytes : List UInt8} (h : ∀ s, Stream.bytesOf s ≠ bytes) :
      Says n bytes (.error (.io .notUtf8))
  | silent {s : String} {line : List Char} (hline : IsTrimEnd isLineEnd s.toList line)
      (h : Silent line) : Says n (Stream.bytesOf s) (.ok none)
  | event {s : String} {line : List Char} {kind : String} {value : Option String} {e : Event}
      (hline : IsTrimEnd isLineEnd s.toList line) (hloud : ¬ Silent line)
      (hgives : Gives line kind value) (hfor : StandsFor kind value (.ok e)) :
      Says n (Stream.bytesOf s) (.ok (some e))
  | defect {s : String} {line : List Char} {kind : String} {value : Option String}
      {defect : EventDefect} (hline : IsTrimEnd isLineEnd s.toList line) (hloud : ¬ Silent line)
      (hgives : Gives line kind value) (hfor : StandsFor kind value (.error defect)) :
      Says n (Stream.bytesOf s) (.error (.event n defect))

/-! ### Reading one line -/

theorem isSilent_iff {line : List Char} : isSilent line = true ↔ Silent line := by
  have hblanks : ∀ c ∈ line.takeWhile isBlank, isBlank c = true :=
    List.all_eq_true.1 List.all_takeWhile
  have hline := List.takeWhile_append_dropWhile (p := isBlank) (l := line)
  unfold isSilent
  constructor
  · intro h
    split at h
    · next hnil => exact .blank (List.dropWhile_eq_nil_iff.1 hnil)
    · next c rest hcons =>
      obtain rfl : c = '#' := of_decide_eq_true h
      rw [hcons] at hline
      rw [← hline]
      exact .comment hblanks
  · rintro (h | h)
    · rw [List.dropWhile_eq_nil_iff.2 h]
    · next blanks rest =>
      rw [List.dropWhile_append_of_pos h, List.dropWhile_cons_of_neg (by decide)]
      rfl

theorem valueOf?_eq_none_iff {cs : List Char} :
    valueOf? cs = none ↔ ∀ c ∈ cs, isBlank c = true := by
  rw [← strip_eq_nil_iff]
  simp [valueOf?]

theorem valueOf?_eq_some_iff {cs : List Char} {v : String} :
    valueOf? cs = some v ↔ ∃ t, IsTrim isBlank cs t ∧ t ≠ [] ∧ v = String.ofList t := by
  dsimp only [valueOf?]
  constructor
  · intro h
    split at h
    · cases h
    · next hne =>
      exact ⟨_, isTrim_strip _ _, by simpa using hne, (Option.some_inj.1 h).symm⟩
  · rintro ⟨t, ht, hne, rfl⟩
    rw [strip_eq_iff.2 ht, if_neg (by simpa using hne)]

theorem fields_eq_iff {line : List Char} {kind : String} {value : Option String} :
    fields line = (kind, value) ↔ Gives line kind value := by
  constructor
  · intro h
    unfold fields at h
    split at h
    · next before after hcut =>
      obtain ⟨rfl, htab⟩ := cut?_eq_some_iff.1 hcut
      obtain ⟨rfl, rfl⟩ := Prod.mk.inj h
      cases hvalue : valueOf? after with
      | none =>
        exact .valueless htab (isTrim_strip _ _) (valueOf?_eq_none_iff.1 hvalue)
      | some v =>
        obtain ⟨t, ht, hne, rfl⟩ := valueOf?_eq_some_iff.1 hvalue
        exact .valued htab (isTrim_strip _ _) ht hne
    · next hcut =>
      obtain ⟨rfl, rfl⟩ := Prod.mk.inj h
      refine .untabbed (fun htab => ?_) (isTrim_strip _ _)
      obtain ⟨before, after, hline, hbefore⟩ := List.eq_append_cons_of_mem htab
      rw [cut?_eq_some_iff.2 ⟨hline, hbefore⟩] at hcut
      cases hcut
  · intro h
    cases h with
    | untabbed htab hkind => rw [fields, cut?_of_not_mem htab, strip_eq_iff.2 hkind]
    | valueless htab hkind hafter =>
      simp only [fields, cut?_append _ htab, strip_eq_iff.2 hkind, valueOf?_eq_none_iff.2 hafter]
    | valued htab hkind hvalue hne =>
      simp only [fields, cut?_append _ htab, strip_eq_iff.2 hkind,
        valueOf?_eq_some_iff.2 ⟨_, hvalue, hne, rfl⟩]

/-- A kind that is none of the five names neither an event nor a key. -/
theorem ofFields_unknown {kind : String} (value : Option String)
    (h : kind ∉ ["status", "ownership", "chart", "from", "to"]) :
    ofFields kind value = .error (.unknownKind kind) := by
  obtain ⟨hs, ho, hc, hf, ht⟩ : kind ≠ "status" ∧ kind ≠ "ownership" ∧ kind ≠ "chart" ∧
      kind ≠ "from" ∧ kind ≠ "to" := by simpa using h
  unfold ofFields
  rw [if_neg hc]
  cases hkey : Filter.Key.ofName? kind with
  | none => rfl
  | some key =>
    obtain rfl := Filter.Key.ofName?_eq_some_iff.1 hkey
    cases key with
    | dateFrom => exact absurd rfl hf
    | dateTo => exact absurd rfl ht
    | status => exact absurd rfl hs
    | ownership => exact absurd rfl ho

theorem ofFields_eq_iff {kind : String} {value : Option String}
    {r : Except EventDefect Event} : ofFields kind value = r ↔ StandsFor kind value r := by
  constructor
  · rintro rfl
    by_cases h : kind ∈ ["status", "ownership", "chart", "from", "to"]
    · simp only [List.mem_cons, List.not_mem_nil, or_false] at h
      rcases h with rfl | rfl | rfl | rfl | rfl
      · exact .status value
      · exact .ownership value
      · cases value with
        | none => exact .unlabelled
        | some label => exact .segment label
      · exact .dateFrom value
      · exact .dateTo value
    · rw [ofFields_unknown value h]
      exact .unknown value h
  · intro h
    cases h with
    | unknown _ h => exact ofFields_unknown value h
    | _ => rfl

theorem ofLine_eq {s : List Char} {line : List Char} (hline : IsTrimEnd isLineEnd s line)
    (hloud : ¬ Silent line) {kind : String} {value : Option String}
    (hgives : Gives line kind value) : ofLine s = (ofFields kind value).map some := by
  have hsilent : ¬ isSilent line = true := fun h => hloud (isSilent_iff.1 h)
  simp only [ofLine, dropEnd_eq_iff.2 hline, if_neg hsilent, fields_eq_iff.2 hgives]

theorem ofLine_silent {s : List Char} {line : List Char} (hline : IsTrimEnd isLineEnd s line)
    (h : Silent line) : ofLine s = .ok none := by
  simp only [ofLine, dropEnd_eq_iff.2 hline, if_pos (isSilent_iff.2 h)]

theorem ofLineBytes_bytesOf (n : Nat) (s : String) :
    ofLineBytes n (.ok (Stream.bytesOf s)) =
      match ofLine s.toList with
      | .ok event => .ok event
      | .error defect => .error (.event n defect) := by
  cases hline : ofLine s.toList <;> simp only [ofLineBytes, Stream.text?_bytesOf, hline]

/-- Every line says something. -/
theorem says_ofLineBytes (n : Nat) (bytes : List UInt8) :
    Says n bytes (ofLineBytes n (.ok bytes)) := by
  cases htext : Stream.text? bytes with
  | none =>
    have hread : ofLineBytes n (.ok bytes) = .error (.io .notUtf8) := by
      simp only [ofLineBytes, htext]
    rw [hread]
    refine .garbled fun s hs => ?_
    rw [← hs, Stream.text?_bytesOf] at htext
    cases htext
  | some s =>
    obtain rfl := Stream.bytesOf_of_text? htext
    have hline := isTrimEnd_dropEnd isLineEnd s.toList
    rw [ofLineBytes_bytesOf]
    by_cases hsilent : Silent (dropEnd isLineEnd s.toList)
    · rw [ofLine_silent hline hsilent]
      exact .silent hline hsilent
    · obtain ⟨kind, value, hgives⟩ : ∃ kind value, Gives (dropEnd isLineEnd s.toList) kind value :=
        ⟨_, _, fields_eq_iff.1 rfl⟩
      rw [ofLine_eq hline hsilent hgives]
      cases hfor : ofFields kind value with
      | ok e => exact .event hline hsilent hgives (ofFields_eq_iff.1 hfor)
      | error defect => exact .defect hline hsilent hgives (ofFields_eq_iff.1 hfor)

/-- **A line says exactly what is read of it.** -/
theorem says_iff {n : Nat} {bytes : List UInt8} {answer : Except Error (Option Event)} :
    Says n bytes answer ↔ ofLineBytes n (.ok bytes) = answer := by
  constructor
  · intro h
    cases h with
    | garbled h =>
      cases htext : Stream.text? bytes with
      | none => simp only [ofLineBytes, htext]
      | some s => exact absurd (Stream.bytesOf_of_text? htext) (h s)
    | silent hline h => rw [ofLineBytes_bytesOf, ofLine_silent hline h]
    | event hline hloud hgives hfor =>
      rw [ofLineBytes_bytesOf, ofLine_eq hline hloud hgives, ofFields_eq_iff.2 hfor]
      rfl
    | defect hline hloud hgives hfor =>
      rw [ofLineBytes_bytesOf, ofLine_eq hline hloud hgives, ofFields_eq_iff.2 hfor]
      rfl
  · rintro rfl
    exact says_ofLineBytes n bytes

/-! ### All lines -/

/-- None of some lines has a defect, and these are their answers. The lines come with their
numbers. -/
abbrev Answered (lines : List (List UInt8 × Nat)) (answers : List (Option Event)) : Prop :=
  List.Forall₂ (fun line answer => Says line.2 line.1 (.ok answer)) lines answers

/-- A line without a defect hands on what it says. -/
theorem ofLinesFrom_of_answer {n : Nat} {line : List UInt8} {answer : Option Event}
    (h : Says n line (.ok answer)) (events : List Event)
    (lines : List (Except Fault (List UInt8))) :
    ofLinesFrom n events (.ok line :: lines) =
      ofLinesFrom (n + 1) (answer.toList ++ events) lines := by
  rw [ofLinesFrom, says_iff.1 h]
  cases answer <;> rfl

/-- A line with a defect ends the reading. -/
theorem ofLinesFrom_of_defect {n : Nat} {line : List UInt8} {e : Error}
    (h : Says n line (.error e)) (events : List Event)
    (lines : List (Except Fault (List UInt8))) :
    ofLinesFrom n events (.ok line :: lines) = .error e := by
  rw [ofLinesFrom, says_iff.1 h]

theorem ofLinesFrom_eq_ok_iff (n : Nat) (events : List Event) (lines : List (List UInt8))
    (out : List Event) :
    ofLinesFrom n events (lines.map .ok) = .ok out ↔
      ∃ answers, Answered (lines.zipIdx n) answers ∧
        out = events.reverse ++ answers.reduceOption := by
  induction lines generalizing n events with
  | nil =>
    constructor
    · intro h
      exact ⟨[], .nil, by simpa [ofLinesFrom, eq_comm] using h⟩
    · rintro ⟨_, ⟨⟩, rfl⟩
      simp [ofLinesFrom]
  | cons line lines ih =>
    rw [List.map_cons, List.zipIdx_cons]
    constructor
    · intro h
      cases hanswer : ofLineBytes n (.ok line) with
      | error e =>
        rw [ofLinesFrom_of_defect (says_iff.2 hanswer)] at h
        cases h
      | ok answer =>
        rw [ofLinesFrom_of_answer (says_iff.2 hanswer), ih] at h
        obtain ⟨answers, hanswers, rfl⟩ := h
        refine ⟨answer :: answers, .cons (says_iff.2 hanswer) hanswers, ?_⟩
        cases answer <;> simp
    · rintro ⟨_, hall, rfl⟩
      obtain ⟨answer, answers, hline, hanswers, rfl⟩ := List.forall₂_cons_left_iff.1 hall
      rw [ofLinesFrom_of_answer hline, ih]
      refine ⟨answers, hanswers, ?_⟩
      cases answer <;> simp

theorem ofLinesFrom_eq_error_iff (n : Nat) (events : List Event) (lines : List (List UInt8))
    (e : Error) :
    ofLinesFrom n events (lines.map .ok) = .error e ↔
      ∃ before line after answers, lines.zipIdx n = before ++ line :: after ∧
        Answered before answers ∧ Says line.2 line.1 (.error e) := by
  induction lines generalizing n events with
  | nil => simp [ofLinesFrom]
  | cons line lines ih =>
    rw [List.map_cons, List.zipIdx_cons]
    constructor
    · intro h
      cases hanswer : ofLineBytes n (.ok line) with
      | error e' =>
        rw [ofLinesFrom_of_defect (says_iff.2 hanswer)] at h
        obtain rfl := Except.error.inj h
        exact ⟨[], (line, n), _, [], rfl, .nil, says_iff.2 hanswer⟩
      | ok answer =>
        rw [ofLinesFrom_of_answer (says_iff.2 hanswer), ih] at h
        obtain ⟨before, bad, after, answers, hlines, hbefore, hbad⟩ := h
        exact ⟨(line, n) :: before, bad, after, answer :: answers, by rw [hlines]; rfl,
          .cons (says_iff.2 hanswer) hbefore, hbad⟩
    · rintro ⟨before, bad, after, answers, hlines, hbefore, hbad⟩
      cases before with
      | nil =>
        obtain ⟨rfl, -⟩ := List.cons.inj hlines
        exact ofLinesFrom_of_defect hbad _ _
      | cons first before =>
        obtain ⟨rfl, hrest⟩ := List.cons.inj hlines
        obtain ⟨answer, rest, hline, hanswers, rfl⟩ := List.forall₂_cons_left_iff.1 hbefore
        rw [ofLinesFrom_of_answer hline, ih]
        exact ⟨before, bad, after, rest, hrest, hanswers, hbad⟩

/-- **A file is accepted if and only if all its lines are**, and gives the events that they say in
order; otherwise the defect of its first bad line is the defect of the file. The bytes are cut into
lines in one way, lines count from one, and every line says exactly one thing. -/
theorem ofStream_lineGrammar (bytes : List UInt8) :
    ∃ lines, (Cut bytes lines ∧ ∀ other, Cut bytes other → other = lines) ∧
      (∀ n line, ∃! answer, Says n line answer) ∧
      (∀ events, ofStream (.whole bytes) = .ok events ↔
        ∃ answers, Answered (lines.zipIdx 1) answers ∧ events = answers.reduceOption) ∧
      (∀ e, ofStream (.whole bytes) = .error e ↔
        ∃ before line after answers, lines.zipIdx 1 = before ++ line :: after ∧
          Answered before answers ∧ Says line.2 line.1 (.error e)) ∧
      (Error.io .notUtf8).message = "IO error: stream did not contain valid UTF-8" := by
  obtain ⟨lines, hcut, hother⟩ := existsUnique_cut bytes
  have hread : ofStream (.whole bytes) = ofLinesFrom 1 [] (lines.map .ok) := by
    rw [ofStream, linesOf_whole hcut]
  refine ⟨lines, ⟨hcut, hother⟩, fun n line => ?_, fun events => ?_, fun e => ?_, by decide⟩
  · exact ⟨_, says_iff.2 rfl, fun answer h => (says_iff.1 h).symm⟩
  · rw [hread]
    exact ofLinesFrom_eq_ok_iff 1 [] lines events
  · rw [hread]
    exact ofLinesFrom_eq_error_iff 1 [] lines e

/-- A comment that is no text is the defect of its file, behind whatever is accepted. -/
theorem ofStream_lineGrammar_garbledComment :
    Cut (Stream.bytesOf "status\tx\n" ++ [0x23, 0xff]) [Stream.bytesOf "status\tx\n", [0x23, 0xff]] ∧
      ofStream (.whole (Stream.bytesOf "status\tx\n" ++ [0x23, 0xff])) =
        .error (.io .notUtf8) := by
  have hcut : Cut (Stream.bytesOf "status\tx" ++ 0x0a :: [0x23, 0xff])
      [Stream.bytesOf "status\tx" ++ [0x0a], [0x23, 0xff]] :=
    .fed (by decide +kernel) (.last (by decide) (by decide))
  have hfirst : Says 1 (Stream.bytesOf "status\tx\n") (.ok (some (.status (some "x")))) :=
    says_iff.2 (by rfl)
  have hsecond : Says 2 [0x23, 0xff] (.error (.io .notUtf8)) := says_iff.2 (by rfl)
  obtain ⟨lines, ⟨-, hother⟩, -, -, herror, -⟩ :=
    ofStream_lineGrammar (Stream.bytesOf "status\tx\n" ++ [0x23, 0xff])
  obtain rfl := hother _ hcut
  exact ⟨hcut, (herror _).2 ⟨[(Stream.bytesOf "status\tx\n", 1)], ([0x23, 0xff], 2), [], _, rfl,
    .cons hfirst .nil, hsecond⟩⟩

end DeviceConsole.Event
