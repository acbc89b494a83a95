import DeviceConsole.Proofs.Event.Grammar
import DeviceConsole.Proofs.Text.Utf8

/-!
Events written to a file are read back.

What is read is always fit to be written: a value is not empty, has no white space at its ends and
no line feed in it (`allFiled_of_ofStream`). Events with such values may be written with white space
around kinds and values, with either line end, and with blank lines and comments among them
(`Writes`), and all of these files are read as the same events (`ofStream_of_writes`). So writing
what was read and reading it again changes nothing, however it is written (`ofStream_roundTrip`).
-/
namespace DeviceConsole.Event
open DeviceConsole.Text

/-! ### Written lines -/

/-- A value that a line can hold. -/
structure IsFiled (v : String) : Prop where
  nonempty : v ≠ ""
  trimmed : trim v = v
  unbroken : '\n' ∉ v.toList

/-- Events that lines can hold. -/
def AllFiled (es : List Event) : Prop := ∀ e ∈ es, ∀ v, e.value? = some v → IsFiled v

/-- White space that does not end the line. -/
def IsMargin (cs : List Char) : Prop := ∀ c ∈ cs, isBlank c = true ∧ c ≠ '\n'

/-- What may stand at the end of a line. -/
inductive LineEnd : List Char → Prop
  | feed : LineEnd ['\n']
  | returned : LineEnd ['\r', '\n']

/-- A blank line or a comment. -/
inductive Noise : List Char → Prop
  | blank {line : List Char} (h : IsMargin line) : Noise line
  | comment {margin rest : List Char} (hmargin : IsMargin margin) (hrest : '\n' ∉ rest) :
      Noise (margin ++ '#' :: rest)

/-- A line with an event: its kind, and behind a tab its value, if there is one. No other tab may
stand before that one. -/
inductive Spells (e : Event) : List Char → Prop
  | valueless {left right : List Char} (hvalue : e.value? = none) (hleft : IsMargin left)
      (hright : IsMargin right) (htab : '\t' ∉ left) :
      Spells e (left ++ (e.kind.toList ++ right))
  | valued {left right before after : List Char} {v : String} (hvalue : e.value? = some v)
      (hleft : IsMargin left) (hright : IsMargin right) (hbefore : IsMargin before)
      (hafter : IsMargin after) (htab : '\t' ∉ left) (htab' : '\t' ∉ right) :
      Spells e (left ++ (e.kind.toList ++ right) ++ '\t' :: (before ++ v.toList ++ after))

/-- A file with some events. The last line may do without an end, and may be empty then. -/
inductive Writes : List Event → List Char → Prop
  | lastNoise {line : List Char} (h : Noise line) : Writes [] line
  | lastEvent {e : Event} {line : List Char} (h : Spells e line) : Writes [e] line
  | noise {line ending rest : List Char} {es : List Event} (h : Noise line)
      (hending : LineEnd ending) (hrest : Writes es rest) : Writes es (line ++ ending ++ rest)
  | event {e : Event} {line ending rest : List Char} {es : List Event} (h : Spells e line)
      (hending : LineEnd ending) (hrest : Writes es rest) :
      Writes (e :: es) (line ++ ending ++ rest)

/-! ### What they say -/

theorem isBlank_of_isLineEnd {c : Char} (h : isLineEnd c = true) : isBlank c = true := by
  simp only [isLineEnd, Bool.or_eq_true, decide_eq_true_eq] at h
  rcases h with rfl | rfl <;> decide

theorem IsMargin.isBlank {cs : List Char} (h : IsMargin cs) : ∀ c ∈ cs, isBlank c = true :=
  fun c hc => (h c hc).1

theorem IsMargin.dropEnd {cs : List Char} (h : IsMargin cs) : IsMargin (dropEnd isLineEnd cs) :=
  fun c hc => h c (mem_of_mem_dropEnd hc)

theorem LineEnd.isLineEnd {ending : List Char} (h : LineEnd ending) :
    ∀ c ∈ ending, isLineEnd c = true := by
  cases h <;> exact forall_mem_of_all (by decide)

/-- A line is what it is whatever ends it. -/
theorem isTrimEnd_append (line : List Char) {ending : List Char}
    (h : ∀ c ∈ ending, isLineEnd c = true) :
    IsTrimEnd isLineEnd (line ++ ending) (dropEnd isLineEnd line) :=
  dropEnd_eq_iff.1 (dropEnd_append_of_all line h)

theorem says_noise {line ending : List Char} (h : Noise line)
    (hending : ∀ c ∈ ending, isLineEnd c = true) (n : Nat) :
    Says n (Stream.utf8 (line ++ ending)) (.ok none) := by
  have hsilent : Silent (dropEnd isLineEnd line) := by
    cases h with
    | blank h => exact .blank h.dropEnd.isBlank
    | comment hmargin =>
      rw [dropEnd_append_cons (by decide)]
      exact .comment hmargin.isBlank
  have hline := isTrimEnd_append line hending
  rw [says_iff, ← Stream.bytesOf_ofList, ofLineBytes_bytesOf, String.toList_ofList,
    ofLine_silent hline hsilent]

/-- A line whose first character counts is not silent. -/
theorem not_silent {blanks rest : List Char} {c : Char} (hblanks : ∀ b ∈ blanks, isBlank b = true)
    (hc : isBlank c = false) (hne : c ≠ '#') : ¬ Silent (blanks ++ c :: rest) := by
  rw [← isSilent_iff, isSilent, List.dropWhile_append_of_pos hblanks,
    List.dropWhile_cons_of_neg (by simp [hc])]
  simpa using hne

theorem kind_mem (e : Event) : e.kind ∈ ["status", "ownership", "chart"] := by
  cases e <;> simp [kind]

/-- A kind has no white space in it, and does not look like a comment. -/
theorem kind_solid (e : Event) : ∀ c ∈ e.kind.toList, isBlank c = false ∧ c ≠ '#' := by
  have hkinds : ∀ k ∈ ["status", "ownership", "chart"],
      (k.toList.all fun c => decide (isBlank c = false ∧ c ≠ '#')) = true :=
    forall_mem_of_all (by decide)
  exact forall_mem_of_all (hkinds e.kind (kind_mem e))

theorem kind_ne_nil (e : Event) : e.kind.toList ≠ [] := by
  cases e <;> simp [kind]

theorem not_mem_kind (e : Event) {c : Char} (hc : isBlank c = true) : c ∉ e.kind.toList := by
  intro h
  rw [(kind_solid e c h).1] at hc
  cases hc

theorem isTrim_kind (e : Event) {left right : List Char} (hleft : IsMargin left)
    (hright : IsMargin right) :
    IsTrim isBlank (left ++ (e.kind.toList ++ right)) e.kind.toList :=
  ⟨⟨left, right, (List.append_assoc ..).symm, hleft.isBlank, hright.isBlank⟩,
    fun c hc => (kind_solid e c (List.mem_of_head? hc)).1,
    fun c hc => (kind_solid e c (List.mem_of_getLast? hc)).1⟩

theorem not_silent_kind (e : Event) {left : List Char} (hleft : IsMargin left)
    (rest : List Char) : ¬ Silent (left ++ (e.kind.toList ++ rest)) := by
  obtain ⟨c, cs, hkind⟩ := List.exists_cons_of_ne_nil (kind_ne_nil e)
  have hc := kind_solid e c (hkind ▸ List.mem_cons_self)
  rw [hkind]
  exact not_silent hleft.isBlank hc.1 hc.2

theorem IsFiled.isTrim {v : String} (h : IsFiled v) : IsTrim isBlank v.toList v.toList :=
  isTrim_of_trim_eq h.trimmed

theorem IsFiled.toList_ne_nil {v : String} (h : IsFiled v) : v.toList ≠ [] :=
  fun hnil => h.nonempty (String.toList_eq_nil_iff.1 hnil)

/-- Line ends are dropped up to a character that is no white space. -/
theorem dropEnd_append_of_solid {cs : List Char} (hne : cs ≠ [])
    (hlast : ∀ c, cs.getLast? = some c → isBlank c = false) (ds : List Char) :
    dropEnd isLineEnd (cs ++ ds) = cs ++ dropEnd isLineEnd ds := by
  have hget := List.getLast?_eq_some_getLast hne
  refine dropEnd_append_of_last hget (Bool.eq_false_iff.2 fun hend => ?_) ds
  have hblank := isBlank_of_isLineEnd hend
  rw [hlast _ hget] at hblank
  cases hblank

/-- An event's kind and value stand for it. -/
theorem standsFor_self (e : Event) : StandsFor e.kind e.value? (.ok e) := by
  cases e with
  | status value => exact .status value
  | ownership value => exact .ownership value
  | segment label => exact .segment label

/-- A kind alone gives itself, and behind a tab white space is no value. -/
theorem gives_kind (e : Event) {left right : List Char} (hleft : IsMargin left)
    (hright : IsMargin right) (htab : '\t' ∉ left) :
    Gives (left ++ (e.kind.toList ++ right)) e.kind none := by
  have hkind := not_mem_kind e (c := '\t') (by decide)
  by_cases hmem : '\t' ∈ right
  · obtain ⟨before, after, rfl, hbefore⟩ := List.eq_append_cons_of_mem hmem
    have hmargin : IsMargin before := fun c hc => hright c (by simp [hc])
    have hafter : IsMargin after := fun c hc => hright c (by simp [hc])
    have hgives := Gives.valueless (by simp [htab, hkind, hbefore]) (isTrim_kind e hleft hmargin)
      hafter.isBlank
    simpa using hgives
  · have hgives := Gives.untabbed (by simp [htab, hkind, hmem]) (isTrim_kind e hleft hright)
    simpa using hgives

/-- A value behind a tab is given without the white space around it. -/
theorem gives_value (e : Event) {left right before after : List Char} {v : String}
    (hv : IsFiled v) (hleft : IsMargin left) (hright : IsMargin right) (hbefore : IsMargin before)
    (hafter : IsMargin after) (htab : '\t' ∉ left) (htab' : '\t' ∉ right) :
    Gives (left ++ (e.kind.toList ++ right) ++ '\t' :: (before ++ v.toList ++ after)) e.kind
      (some v) := by
  have hkind := not_mem_kind e (c := '\t') (by decide)
  have hvalue : IsTrim isBlank (before ++ v.toList ++ after) v.toList :=
    ⟨⟨before, after, rfl, hbefore.isBlank, hafter.isBlank⟩, hv.isTrim.first, hv.isTrim.last⟩
  have hgives := Gives.valued (by simp [htab, htab', hkind]) (isTrim_kind e hleft hright) hvalue
    hv.toList_ne_nil
  rwa [String.ofList_toList, String.ofList_toList] at hgives

/-- A line that spells an event gives its kind and its value once its end is gone, and is not
silent. -/
theorem gives_of_spells {e : Event} {line : List Char} (h : Spells e line)
    (hfiled : ∀ v, e.value? = some v → IsFiled v) :
    Gives (dropEnd isLineEnd line) e.kind e.value? ∧ ¬ Silent (dropEnd isLineEnd line) := by
  cases h with
  | @valueless left right hvalue hleft hright htab =>
    have hne : left ++ e.kind.toList ≠ [] := by simp [kind_ne_nil e]
    have hsolid (c : Char) (hc : (left ++ e.kind.toList).getLast? = some c) :
        isBlank c = false := by
      rw [List.getLast?_append_of_ne_nil _ (kind_ne_nil e)] at hc
      exact (kind_solid e c (List.mem_of_getLast? hc)).1
    rw [← List.append_assoc, dropEnd_append_of_solid hne hsolid, List.append_assoc, hvalue]
    exact ⟨gives_kind e hleft hright.dropEnd htab, not_silent_kind e hleft _⟩
  | @valued left right before after v hvalue hleft hright hbefore hafter htab htab' =>
    have hv := hfiled v hvalue
    have hne : before ++ v.toList ≠ [] := by simp [hv.toList_ne_nil]
    have hsolid (c : Char) (hc : (before ++ v.toList).getLast? = some c) : isBlank c = false := by
      rw [List.getLast?_append_of_ne_nil _ hv.toList_ne_nil] at hc
      exact hv.isTrim.last c hc
    rw [dropEnd_append_cons (c := '\t') (by decide), dropEnd_append_of_solid hne hsolid, hvalue]
    refine ⟨gives_value e hv hleft hright hbefore hafter.dropEnd htab htab', ?_⟩
    rw [List.append_assoc, List.append_assoc]
    exact not_silent_kind e hleft _

theorem says_spells {e : Event} {line ending : List Char} (h : Spells e line)
    (hfiled : ∀ v, e.value? = some v → IsFiled v) (hending : ∀ c ∈ ending, isLineEnd c = true)
    (n : Nat) : Says n (Stream.utf8 (line ++ ending)) (.ok (some e)) := by
  obtain ⟨hgives, hloud⟩ := gives_of_spells h hfiled
  have hline := isTrimEnd_append line hending
  rw [says_iff, ← Stream.bytesOf_ofList, ofLineBytes_bytesOf, String.toList_ofList,
    ofLine_eq hline hloud hgives, ofFields_eq_iff.2 (standsFor_self e)]
  rfl

/-! ### Written files -/

theorem IsMargin.unbroken {cs : List Char} (h : IsMargin cs) : '\n' ∉ cs :=
  fun hmem => (h _ hmem).2 rfl

theorem Noise.unbroken {line : List Char} (h : Noise line) : '\n' ∉ line := by
  cases h with
  | blank h => exact h.unbroken
  | comment hmargin hrest => simp [hmargin.unbroken, hrest]

theorem Spells.unbroken {e : Event} {line : List Char} (h : Spells e line)
    (hfiled : ∀ v, e.value? = some v → IsFiled v) : '\n' ∉ line := by
  have hkind := not_mem_kind e (c := '\n') (by decide)
  cases h with
  | valueless hvalue hleft hright htab => simp [hleft.unbroken, hright.unbroken, hkind]
  | valued hvalue hleft hright hbefore hafter htab htab' =>
    simp [hleft.unbroken, hright.unbroken, hbefore.unbroken, hafter.unbroken, hkind,
      (hfiled _ hvalue).unbroken]

theorem Spells.ne_nil {e : Event} {line : List Char} (h : Spells e line) : line ≠ [] := by
  cases h <;> simp [kind_ne_nil e]

theorem feed_not_mem_utf8 {cs : List Char} (h : '\n' ∉ cs) : 0x0a ∉ Stream.utf8 cs :=
  fun hmem => h ((Stream.mem_utf8_iff (c := '\n') (by decide)).1 hmem)

/-- A line with its end is cut off behind the end. -/
theorem Cut.ended {line ending rest : List Char} {lines : List (List UInt8)} (h : '\n' ∉ line)
    (hending : LineEnd ending) (hrest : Cut (Stream.utf8 rest) lines) :
    Cut (Stream.utf8 (line ++ ending ++ rest)) (Stream.utf8 (line ++ ending) :: lines) := by
  have hfeed : Stream.utf8 ['\n'] = [0x0a] := by decide
  cases hending with
  | feed =>
    rw [Stream.utf8_append, Stream.utf8_append, hfeed, List.append_assoc, List.singleton_append]
    exact .fed (feed_not_mem_utf8 h) hrest
  | returned =>
    have hline : '\n' ∉ line ++ ['\r'] := by simp [h]
    have hending : line ++ ['\r', '\n'] = (line ++ ['\r']) ++ ['\n'] := by simp
    rw [hending, Stream.utf8_append, Stream.utf8_append, hfeed, List.append_assoc,
      List.singleton_append]
    exact .fed (feed_not_mem_utf8 hline) hrest

/-- Some text is cut into lines that are accepted with some events. -/
structure Accepted (cs : List Char) (es : List Event) (lines : List (List UInt8))
    (answers : List (Option Event)) : Prop where
  cut : Cut (Stream.utf8 cs) lines
  answered : ∀ n, Answered (lines.zipIdx n) answers
  events : answers.reduceOption = es

/-- The last line may do without an end. -/
theorem Accepted.last {line : List Char} {answer : Option Event} (h : '\n' ∉ line)
    (hne : line ≠ []) (hmeans : ∀ n, Says n (Stream.utf8 line) (.ok answer)) :
    Accepted line answer.toList [Stream.utf8 line] [answer] where
  cut := .last (fun hnil => hne (Stream.utf8_injective hnil)) (feed_not_mem_utf8 h)
  answered n := .cons (hmeans n) .nil
  events := by cases answer <;> rfl

theorem Accepted.ended {line ending rest : List Char} {answer : Option Event} {es : List Event}
    {lines : List (List UInt8)} {answers : List (Option Event)} (h : '\n' ∉ line)
    (hending : LineEnd ending) (hmeans : ∀ n, Says n (Stream.utf8 (line ++ ending)) (.ok answer))
    (hrest : Accepted rest es lines answers) :
    Accepted (line ++ ending ++ rest) (answer.toList ++ es) (Stream.utf8 (line ++ ending) :: lines)
      (answer :: answers) where
  cut := .ended h hending hrest.cut
  answered n := by
    rw [List.zipIdx_cons]
    exact .cons (hmeans n) (hrest.answered (n + 1))
  events := by cases answer <;> simp [hrest.events]

/-- Every written file is accepted with the events that were written. -/
theorem accepted_of_writes {es : List Event} {cs : List Char} (h : Writes es cs)
    (hfiled : AllFiled es) :
    ∃ lines answers, Accepted cs es lines answers := by
  have hnone : ∀ c ∈ ([] : List Char), isLineEnd c = true := by simp
  induction h with
  | @lastNoise line h =>
    by_cases hne : line = []
    · subst hne
      exact ⟨[], [], .nothing, fun _ => .nil, rfl⟩
    · have hmeans (n : Nat) : Says n (Stream.utf8 line) (.ok none) := by
        simpa using says_noise h hnone n
      exact ⟨_, _, .last h.unbroken hne hmeans⟩
  | @lastEvent e line h =>
    have hfile := hfiled e (by simp)
    have hmeans (n : Nat) : Says n (Stream.utf8 line) (.ok (some e)) := by
      simpa using says_spells h hfile hnone n
    exact ⟨_, _, .last (h.unbroken hfile) h.ne_nil hmeans⟩
  | noise h hending hrest ih =>
    obtain ⟨lines, answers, hrest⟩ := ih hfiled
    exact ⟨_, _, hrest.ended h.unbroken hending fun n => says_noise h hending.isLineEnd n⟩
  | @event e line ending rest es h hending hrest ih =>
    have hfile := hfiled e (by simp)
    obtain ⟨lines, answers, hrest⟩ := ih fun e he => hfiled e (by simp [he])
    exact ⟨_, _, hrest.ended (h.unbroken hfile) hending fun n =>
      says_spells h hfile hending.isLineEnd n⟩

theorem ofStream_of_writes {es : List Event} {cs : List Char} (h : Writes es cs)
    (hfiled : AllFiled es) :
    ofStream (.whole (Stream.bytesOf (String.ofList cs))) = .ok es := by
  obtain ⟨lines, answers, haccepted⟩ := accepted_of_writes h hfiled
  rw [Stream.bytesOf_ofList, ofStream, linesOf_whole haccepted.cut, ofLinesFrom_eq_ok_iff]
  exact ⟨answers, haccepted.answered 1, by simp [haccepted.events]⟩

/-! ### What is read -/

/-- Nothing stands behind the line feed of a line. -/
theorem Cut.unbroken {bytes : List UInt8} {lines : List (List UInt8)} (h : Cut bytes lines) :
    ∀ line ∈ lines, 0x0a ∉ line.dropLast := by
  induction h with
  | nothing => simp
  | @last line hne hfeed =>
    intro line' hline
    obtain rfl := List.mem_singleton.1 hline
    exact fun hmem => hfeed ((List.dropLast_sublist _).mem hmem)
  | @fed line rest lines hfeed hrest ih =>
    intro line' hline
    rcases List.mem_cons.1 hline with rfl | hline
    · rwa [List.dropLast_concat]
    · exact ih line' hline

/-- A line without its end has no line feed in it. -/
theorem unbroken_of_isTrimEnd {cs line : List Char} (h : IsTrimEnd isLineEnd cs line)
    (hfeed : 0x0a ∉ (Stream.utf8 cs).dropLast) : '\n' ∉ line := by
  intro hmem
  obtain ⟨before, after, rfl⟩ := List.append_of_mem hmem
  obtain ⟨⟨ending, rfl, -⟩, hlast⟩ := h
  have hafter : after ≠ [] := by
    rintro rfl
    have hend := hlast '\n' List.getLast?_concat
    cases hend
  -- so bytes stand behind those of the line feed, which is then none at the end
  have hne : Stream.utf8 (after ++ ending) ≠ [] := fun hnil =>
    hafter (List.append_eq_nil_iff.1 (Stream.utf8_injective hnil)).1
  have hbytes : Stream.utf8 (before ++ '\n' :: after ++ ending) =
      Stream.utf8 before ++ ([0x0a] ++ Stream.utf8 (after ++ ending)) := by
    simp [String.utf8EncodeChar]
  rw [hbytes, List.dropLast_append_of_ne_nil (by simp), List.dropLast_append_of_ne_nil hne] at hfeed
  simp at hfeed

theorem value?_of_standsFor {kind : String} {value : Option String} {e : Event}
    (h : StandsFor kind value (.ok e)) : e.value? = value := by
  cases h <;> rfl

theorem isFiled_of_gives {line : List Char} {kind v : String} (h : Gives line kind (some v))
    (hline : '\n' ∉ line) : IsFiled v := by
  cases h with
  | @valued before kind after value htab hkind hvalue hne =>
    obtain ⟨hnonempty, htrimmed⟩ := hvalue.ofList hne
    obtain ⟨⟨as, bs, rfl, -⟩, -⟩ := hvalue
    refine ⟨hnonempty, htrimmed, ?_⟩
    rw [String.toList_ofList]
    exact fun hmem => hline (by simp [hmem])

theorem isFiled_of_answer {n : Nat} {line : List UInt8} {e : Event} {v : String}
    (h : Says n line (.ok (some e))) (hfeed : 0x0a ∉ line.dropLast) (hv : e.value? = some v) :
    IsFiled v := by
  cases h with
  | @event s line kind value _ hline hloud hgives hfor =>
    obtain rfl := (value?_of_standsFor hfor).symm.trans hv
    rw [Stream.bytesOf_eq_utf8] at hfeed
    exact isFiled_of_gives hgives (unbroken_of_isTrimEnd hline hfeed)

theorem allFiled_of_ofStream {bytes : List UInt8} {es : List Event}
    (h : ofStream (.whole bytes) = .ok es) : AllFiled es := by
  intro e he v hv
  obtain ⟨lines, hcut⟩ := exists_cut bytes
  rw [ofStream, linesOf_whole hcut, ofLinesFrom_eq_ok_iff] at h
  obtain ⟨answers, hanswers, rfl⟩ := h
  rw [List.reverse_nil, List.nil_append, List.reduceOption_mem_iff] at he
  obtain ⟨line, hline, hmeans⟩ := exists_of_forall₂ hanswers he
  exact isFiled_of_answer hmeans (hcut.unbroken _ (List.fst_mem_of_mem_zipIdx hline)) hv

/-! ### Writing -/

/-- An event as a line with nothing to spare. -/
def spelling (e : Event) : String :=
  match e.value? with
  | some v => e.kind ++ "\t" ++ v
  | none => e.kind

/-- Events line by line. -/
def written : List Event → String
  | [] => ""
  | e :: es => e.spelling ++ "\n" ++ written es

theorem spells_spelling (e : Event) : Spells e e.spelling.toList := by
  have hnil : IsMargin [] := fun _ h => absurd h List.not_mem_nil
  cases hvalue : e.value? with
  | none =>
    have hspells := Spells.valueless hvalue hnil hnil List.not_mem_nil
    simpa [spelling, hvalue] using hspells
  | some v =>
    have hspells := Spells.valued hvalue hnil hnil hnil hnil List.not_mem_nil List.not_mem_nil
    simpa [spelling, hvalue] using hspells

theorem writes_written (es : List Event) : Writes es (written es).toList := by
  induction es with
  | nil => exact .lastNoise (.blank fun _ h => absurd h List.not_mem_nil)
  | cons e es ih =>
    rw [written, String.toList_append, String.toList_append]
    exact .event (spells_spelling e) .feed ih

/-- **What is written is read back, however it is written.** Values that are read are filed. A file
with some events whose values are filed is read as these events, whatever white space, line ends,
blank lines and comments it has. So events that have been read are read again from what is written
of them. -/
theorem ofStream_roundTrip :
    (∀ bytes es, ofStream (.whole bytes) = .ok es → AllFiled es) ∧
      (∀ es cs, AllFiled es → Writes es cs →
        ofStream (.whole (Stream.bytesOf (String.ofList cs))) = .ok es) ∧
      (∀ es, Writes es (written es).toList) ∧
      ∀ bytes es, ofStream (.whole bytes) = .ok es →
        ofStream (.whole (Stream.bytesOf (written es))) = .ok es := by
  refine ⟨fun _ _ => allFiled_of_ofStream, fun _ _ hfiled h => ofStream_of_writes h hfiled,
    writes_written, fun _ es h => ?_⟩
  have hread := ofStream_of_writes (writes_written es) (allFiled_of_ofStream h)
  rwa [String.ofList_toList] at hread

/-- A comment, white space and a tab inside a value. -/
theorem ofStream_roundTrip_spaced :
    ofStream (.whole (Stream.bytesOf "# now\r\n status\t a\tb \nchart\tALL")) =
        .ok [.status (some "a\tb"), .segment "ALL"] ∧
      ofStream (.whole (Stream.bytesOf (written [.status (some "a\tb"), .segment "ALL"]))) =
        .ok [.status (some "a\tb"), .segment "ALL"] := by
  obtain ⟨-, hread, -, hagain⟩ := ofStream_roundTrip
  have hnil : IsMargin [] := by simp [IsMargin]
  have hspace : IsMargin [' '] := by simp [IsMargin, isBlank]
  have hfiled : AllFiled [.status (some "a\tb"), .segment "ALL"] := by
    intro e he v hv
    simp only [List.mem_cons, List.not_mem_nil, or_false] at he
    rcases he with rfl | rfl <;> cases hv <;> exact ⟨by decide, by decide, by decide⟩
  have hcomment : Noise "# now".toList := .comment hnil (by decide)
  have hstatus : Spells (.status (some "a\tb")) " status\t a\tb ".toList :=
    .valued (e := .status (some "a\tb")) (v := "a\tb") rfl hspace hnil hspace hspace (by decide)
      (by decide)
  have hchart : Spells (.segment "ALL") "chart\tALL".toList :=
    .valued (e := .segment "ALL") (v := "ALL") rfl hnil hnil hnil hnil (by decide) (by decide)
  have hwrites : Writes [.status (some "a\tb"), .segment "ALL"]
      "# now\r\n status\t a\tb \nchart\tALL".toList :=
    .noise hcomment .returned (.event hstatus .feed (.lastEvent hchart))
  have hevents := hread _ _ hfiled hwrites
  exact ⟨hevents, hagain _ _ hevents⟩

end DeviceConsole.Event
