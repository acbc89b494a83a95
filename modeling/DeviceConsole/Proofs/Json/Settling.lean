import DeviceConsole.Proofs.Json.Endings
import DeviceConsole.Proofs.Json.Refusing

/-!
A well-formed value is read or refused, and where it stands has no part in that.

A reader that gives up on a value need not have come to its end, and one that succeeds has to have
come to its end and no further. So whatever well-formed value a reader meets, either it takes the
bytes of that value and nothing else, or it fails (`Settles`). The readers of texts and of choices
settle every well-formed value, of the kind they are made for or not (`settles_string`,
`settles_choice`).
-/
namespace DeviceConsole.Json

variable {α σ : Type}

/-- The bytes are read as some value wherever they stand, or refused wherever they stand. -/
def Settles (r : Reader α) (bytes : List UInt8) : Prop :=
  (∃ a, Reads r bytes a) ∨ Refuses r bytes

theorem Settles.map {β : Type} {r : Reader α} {bytes : List UInt8} (h : Settles r bytes)
    (f : α → β) :
    Settles (fun c => do
      let (a, after) ← r c
      pure (f a, after)) bytes := by
  rcases h with ⟨a, hreads⟩ | hrefuses
  · exact .inl ⟨f a, hreads.map f⟩
  · exact .inr (hrefuses.map f)

/-- What can give nothing fails. -/
theorem exists_error_of_gives {ε : Type} {x : Except ε α} (h : Gives x fun _ => False) :
    ∃ e, x = .error e := by
  cases x with
  | ok a => exact (h a rfl).elim
  | error e => exact ⟨e, rfl⟩

theorem mismatch_eq_error (expected : String) (c : Cursor) (b : UInt8) (after : Cursor) :
    ∃ failure, (mismatch expected c b after : Except Failure α) = .error failure :=
  exists_error_of_gives (gives_mismatch expected c b after _)

/-! ### Quoted texts -/

namespace Quotation

/-- Between two characters of a text: behind a leading surrogate or not. -/
def between : Option Nat → State
  | none => .plain
  | some lead => .partner lead

/-- The machine fails before it is behind the closing quote. -/
def Halts (state : State) (body : List UInt8) : Prop :=
  ∀ before place rest, ∃ failure,
    run true .complete state before place (body ++ 0x22 :: rest) = .error failure

theorem halts_of_step {state : State} {b : UInt8} {cause : Cause}
    (h : step true state b = .error cause) (body : List UInt8) : Halts state (b :: body) := by
  intro before place rest
  exact ⟨⟨cause, some (place.past b)⟩, by rw [List.cons_append, run, h]⟩

theorem Emits.halts {state state' : State} {bytes body out : List UInt8}
    (h : Emits true state bytes state' out) (h' : Halts state' body) :
    Halts state (bytes ++ body) := by
  intro before place rest
  obtain ⟨marked, place', hrun, -⟩ := h before place (body ++ 0x22 :: rest)
  obtain ⟨failure, hhalts⟩ := h' (marked.reverse ++ before) place' rest
  exact ⟨failure, by rw [List.append_assoc, hrun, hhalts]⟩

/-- A surrogate needs its partner at once. -/
theorem halts_partner {lead : Nat} {b : UInt8} (h : b ≠ 0x5c) (body : List UInt8) :
    Halts (.partner lead) (b :: body) :=
  halts_of_step (by rw [step, if_neg h]) body

theorem halts_partnerEscape {lead : Nat} {b : UInt8} (h : b ≠ 0x75) (body : List UInt8) :
    Halts (.partner lead) (0x5c :: b :: body) := by
  have hescape : Emits true (.partner lead) [0x5c] (.partnerEscape lead) [] := .byte rfl
  have hletter : step true (.partnerEscape lead) b = .error .unfinishedSurrogates := by
    rw [step, if_neg h]
  exact hescape.halts (halts_of_step hletter body)

theorem emits_backslash (lead : Option Nat) :
    Emits true (between lead) [0x5c, 0x75] (.hex lead []) [] := by
  cases lead with
  | none =>
    have hescape : Emits true .plain [0x5c] .escape [] := .byte rfl
    exact hescape.append (.byte rfl)
  | some lead =>
    have hescape : Emits true (.partner lead) [0x5c] (.partnerEscape lead) [] := .byte rfl
    exact hescape.append (.byte rfl)

/-- A code unit leads on to what may stand between two characters, unless it is a surrogate out of
place. -/
theorem ofUnit_cases (lead : Option Nat) (unit : Nat) :
    (∃ lead' out, ofUnit lead unit = .ok (.more (between lead') out)) ∨
      ∃ cause, ofUnit lead unit = .error cause := by
  cases lead with
  | none =>
    unfold ofUnit
    dsimp only
    split
    · exact .inr ⟨_, rfl⟩
    · split
      · exact .inl ⟨some unit, [], rfl⟩
      · exact .inl ⟨none, _, rfl⟩
  | some lead =>
    unfold ofUnit
    dsimp only
    split
    · exact .inl ⟨none, _, rfl⟩
    · exact .inr ⟨_, rfl⟩

/-- A code unit is taken or refused. -/
theorem emits_or_halts_unit {hex : List UInt8} {unit : Nat} (h : HexUnit hex unit)
    (lead : Option Nat) :
    (∃ lead' out, Emits true (between lead) (0x5c :: 0x75 :: hex) (between lead') out) ∨
      ∀ body, Halts (between lead) (0x5c :: 0x75 :: (hex ++ body)) := by
  obtain ⟨front, last, digits, rfl, hfront, hlast⟩ := exists_last_digit h true lead
  have hdigits := (emits_backslash lead).append hfront
  rw [if_pos rfl] at hlast
  rcases ofUnit_cases lead unit with ⟨lead', out, hunit⟩ | ⟨cause, hunit⟩
  · exact .inl ⟨lead', _, hdigits.append (.byte (hlast.trans hunit))⟩
  · refine .inr fun body => ?_
    rw [List.append_assoc]
    exact hdigits.halts (halts_of_step (hlast.trans hunit) body)

/-- What may stand between quotes is taken as a whole or not at all. -/
theorem emits_or_halts {body : List UInt8} (h : Body body) (lead : Option Nat) :
    (∃ out, Emits true (between lead) body .plain out) ∨ Halts (between lead) body := by
  -- Behind a leading surrogate only a code unit can go on, so the states go together.
  induction h generalizing lead with
  | nothing =>
    cases lead with
    | none => exact .inl ⟨[], .nil⟩
    | some lead => exact .inr fun _ place _ => ⟨⟨.unfinishedSurrogates, some (place.past 0x22)⟩, rfl⟩
  | @plain b rest hplain _ ih =>
    cases lead with
    | none =>
      have hbyte := emits_plain hplain true
      rcases ih none with ⟨out, hrest⟩ | hrest
      · exact .inl ⟨_, hbyte.append hrest⟩
      · exact .inr (hbyte.halts hrest)
    | some lead => exact .inr (halts_partner hplain.notBackslash rest)
  | @letter b o rest hletter _ ih =>
    cases lead with
    | none =>
      have hbyte := emits_letter hletter true
      rcases ih none with ⟨out, hrest⟩ | hrest
      · exact .inl ⟨_, hbyte.append hrest⟩
      · exact .inr (hbyte.halts hrest)
    | some lead => exact .inr (halts_partnerEscape (escapeByte?_of_mem hletter).2 rest)
  | @unit hex rest n hunit _ ih =>
    rcases emits_or_halts_unit hunit lead with ⟨lead', out, htaken⟩ | hhalts
    · rcases ih lead' with ⟨out', hrest⟩ | hrest
      · exact .inl ⟨_, htaken.append hrest⟩
      · exact .inr (htaken.halts hrest)
    · exact .inr (hhalts rest)

end Quotation

/-- `Settles` for a reader that starts at the bytes at once and can tell where they end. -/
def SettlesHere (r : Reader α) (bytes : List UInt8) : Prop :=
  (∃ a, ∀ rest place, ∃ place', r ⟨bytes ++ rest, .complete, place⟩ =
    .ok (a, ⟨rest, .complete, place'⟩)) ∨
  ∀ rest place, ∃ failure, r ⟨bytes ++ rest, .complete, place⟩ = .error failure

/-- One reader after the other. -/
theorem SettlesHere.bind {β : Type} {r : Reader α} {f : α → Reader β} {bytes bytes' : List UInt8}
    (h : SettlesHere r bytes) (hf : ∀ a, SettlesHere (f a) bytes') :
    SettlesHere (fun c => do
      let (a, after) ← r c
      f a after) (bytes ++ bytes') := by
  rcases h with ⟨a, hread⟩ | hrefused
  · rcases hf a with ⟨b, hread'⟩ | hrefused'
    · refine .inl ⟨b, fun rest place => ?_⟩
      obtain ⟨middle, hr⟩ := hread (bytes' ++ rest) place
      obtain ⟨place', hb⟩ := hread' rest middle
      exact ⟨place', by simp only [List.append_assoc, hr, ok_bind, hb]⟩
    · refine .inr fun rest place => ?_
      obtain ⟨middle, hr⟩ := hread (bytes' ++ rest) place
      obtain ⟨failure, hb⟩ := hrefused' rest middle
      exact ⟨failure, by simp only [List.append_assoc, hr, ok_bind, hb]⟩
  · refine .inr fun rest place => ?_
    obtain ⟨failure, hr⟩ := hrefused (bytes' ++ rest) place
    exact ⟨failure, by simp only [List.append_assoc, hr]; rfl⟩

theorem settlesHere_text {body : List UInt8} (h : Body body) :
    SettlesHere text (body ++ [0x22]) := by
  have hbytes (rest : List UInt8) : body ++ [0x22] ++ rest = body ++ 0x22 :: rest := by simp
  rcases Quotation.emits_or_halts h none with ⟨out, hemits⟩ | hhalts
  · cases hout : Stream.text? out with
    | some s =>
      refine .inl ⟨s, fun rest place => ?_⟩
      obtain ⟨marked, place', hrun, hmarked⟩ := Quotation.run_of_emits hemits place rest
      refine ⟨place', ?_⟩
      simp only [text, hbytes, hrun, ok_bind, hmarked, hout]
      rfl
    | none =>
      refine .inr fun rest place => ?_
      obtain ⟨marked, place', hrun, hmarked⟩ := Quotation.run_of_emits hemits place rest
      simp only [text, hbytes, hrun, ok_bind, hmarked, hout]
      exact ⟨_, rfl⟩
  · refine .inr fun rest place => ?_
    obtain ⟨failure, hrun⟩ := hhalts [] place rest
    refine ⟨failure, ?_⟩
    rw [Quotation.between] at hrun
    simp only [text, hbytes, hrun]
    rfl

theorem settlesHere_variant {body : List UInt8} (h : Body body) (options : List (String × α)) :
    SettlesHere (variant options) (body ++ [0x22]) := by
  rcases settlesHere_text h with ⟨name, hread⟩ | hrefused
  · cases hfind : options.find? fun o => o.1 == name with
    | some o =>
      refine .inl ⟨o.2, fun rest place => ?_⟩
      obtain ⟨place', htext⟩ := hread rest place
      refine ⟨place', ?_⟩
      simp only [variant, htext, ok_bind, hfind]
      rfl
    | none =>
      refine .inr fun rest place => ?_
      obtain ⟨place', htext⟩ := hread rest place
      simp only [variant, htext, ok_bind, hfind]
      exact ⟨_, rfl⟩
  · refine .inr fun rest place => ?_
    obtain ⟨failure, htext⟩ := hrefused rest place
    exact ⟨failure, by rw [variant, htext]; rfl⟩

/-! ### Kinds of values -/

/-- A value of no kind that a reader of single values is made for, by its first byte. -/
structure IsForeign (b : UInt8) : Prop where
  starts : Starts b
  notQuote : b ≠ 0x22
  notNumber : Number.starts b = false
  notBrace : b ≠ 0x7b

/-- A well-formed value by its kind, so far as readers of single values tell kinds apart. -/
inductive Kind : List UInt8 → Prop
  | text {body : List UInt8} (h : Body body) : Kind (0x22 :: (body ++ [0x22]))
  | number {bytes : List UInt8} (h : IsNumber bytes) : Kind bytes
  | object {members : List (List UInt8 × List UInt8)} {entries : List (List UInt8)}
      {bytes : List UInt8} (h : Enclosed 0x7d entries bytes)
      (hentries : List.Forall₂ IsMember members entries) (hnames : ∀ m ∈ members, IsQuoted m.1)
      (hvalues : ∀ m ∈ members, IsValue m.2) : Kind (0x7b :: bytes)
  | foreign {b : UInt8} {rest : List UInt8} (h : IsForeign b) : Kind (b :: rest)

theorem IsValue.kind {bytes : List UInt8} (h : IsValue bytes) : Kind bytes := by
  cases h with
  | word h =>
    simp only [words, List.mem_cons, List.not_mem_nil, or_false] at h
    rcases h with rfl | rfl | rfl <;>
      exact .foreign ⟨⟨by decide, by decide⟩, by decide, by decide, by decide⟩
  | number h => exact .number h
  | text h =>
    obtain ⟨h⟩ := h
    exact .text h
  | list => exact .foreign ⟨⟨by decide, by decide⟩, by decide, by decide, by decide⟩
  | object h hentries hnames hvalues => exact .object h hentries hnames hvalues

/-- The null is the only value that starts as it does. -/
theorem IsValue.null {bytes : List UInt8} (h : IsValue (0x6e :: bytes)) :
    0x6e :: bytes = 0x6e :: [0x75, 0x6c, 0x6c] := by
  cases h with
  | word h =>
    simp only [words, List.mem_cons, List.not_mem_nil, or_false] at h
    rcases h with h | h | h
    · exact h
    · cases h
    · cases h
  | number h =>
    obtain ⟨b, rest, hbytes, hb⟩ := h.starts
    exact absurd (List.cons.inj hbytes).1.symm (ne_of_starts hb (by decide))
  | text h => cases h

/-- What a reader leaves to another one behind the first byte of a value. -/
theorem SettlesHere.settles {r q : Reader α} {b : UInt8} {bytes : List UInt8}
    (h : SettlesHere q bytes) (hb : Starts b)
    (hr : ∀ c start after, valueStart c = .ok (start, b, after) → r c = q after) :
    Settles r (b :: bytes) := by
  rcases h with ⟨a, hread⟩ | hrefused
  · refine .inl ⟨a, fun blanks rest place hblanks _ => ?_⟩
    obtain ⟨middle, hstart⟩ := valueStart_append hblanks hb.solid (bytes ++ rest) place
    obtain ⟨place', hq⟩ := hread rest (middle.past b)
    exact ⟨place', by rw [List.cons_append, hr _ _ _ hstart, hq]⟩
  · refine .inr fun blanks rest place hblanks _ => ?_
    obtain ⟨middle, hstart⟩ := valueStart_append hblanks hb.solid (bytes ++ rest) place
    obtain ⟨failure, hq⟩ := hrefused rest (middle.past b)
    exact ⟨failure, by rw [List.cons_append, hr _ _ _ hstart, hq]⟩

theorem starts_quote : Starts 0x22 := ⟨by decide, by decide⟩

theorem starts_brace : Starts 0x7b := ⟨by decide, by decide⟩

/-- A value may be refused for its first byte alone. -/
theorem refuses_of_start {r : Reader α} {b : UInt8} (hb : Starts b) (bytes : List UInt8)
    (hr : ∀ c start after, valueStart c = .ok (start, b, after) → ∃ failure, r c = .error failure) :
    Refuses r (b :: bytes) := by
  intro blanks rest place hblanks _
  obtain ⟨middle, hstart⟩ := valueStart_append hblanks hb.solid (bytes ++ rest) place
  exact hr _ _ _ hstart

/-! ### Texts -/

theorem string_eq_text {c start after : Cursor} (h : valueStart c = .ok (start, 0x22, after)) :
    string c = text after := by
  rw [string, h]
  rfl

theorem string_eq_error {c start after : Cursor} {b : UInt8}
    (h : valueStart c = .ok (start, b, after)) (hb : b ≠ 0x22) :
    ∃ failure, string c = .error failure := by
  rw [string, h]
  simp only [ok_bind, if_neg hb]
  exact mismatch_eq_error _ _ _ _

theorem refuses_string {b : UInt8} (hb : Starts b) (hquote : b ≠ 0x22) (bytes : List UInt8) :
    Refuses string (b :: bytes) :=
  refuses_of_start hb bytes fun _ _ _ h => string_eq_error h hquote

theorem settles_string {bytes : List UInt8} (h : IsValue bytes) : Settles string bytes := by
  cases h.kind with
  | text hbody => exact (settlesHere_text hbody).settles starts_quote fun _ _ _ => string_eq_text
  | number hnumber =>
    obtain ⟨b, more, rfl, hb⟩ := hnumber.starts
    exact .inr (refuses_string (starts_of_number hb) (ne_of_starts hb (by decide)) more)
  | object => exact .inr (refuses_string starts_brace (by decide) _)
  | foreign hb => exact .inr (refuses_string hb.starts hb.notQuote _)

/-! ### Choices -/

theorem unit_eq_error {c start after : Cursor} {b : UInt8}
    (h : valueStart c = .ok (start, b, after)) (hb : b ≠ 0x6e) :
    ∃ failure, unit c = .error failure := by
  rw [unit, h]
  simp only [ok_bind, if_neg hb]
  exact mismatch_eq_error _ _ _ _

/-- The null behind the name of a choice. -/
def nullMember : Reader Unit := fun c => do
  let after ← unit (← colon c)
  pure ((), after)

/-- The closing brace behind the one member of a choice. -/
def closeChoice (a : α) : Reader α := fun c => do
  let (b, after) ← c.skipSpaces.next .endInObject
  if b = 0x7d then pure (a, after) else after.fail .expectedValue

/-- A choice from behind the opening quote of the one name of an object. -/
def choiceMember (options : List (String × α)) : Reader α := fun c => do
  let (a, after) ← variant options c
  let (_, after) ← nullMember after
  closeChoice a after

/-- A choice from behind the opening brace of an object. -/
def choiceObject (options : List (String × α)) : Reader α := fun c => do
  let (_, b, after) ← valueStart c
  if b = 0x22 then choiceMember options after
  else after.fail (if b = 0x7d then .expectedValue else .nameNotText)

/-- The null is passed over, and every other value refused. -/
theorem settlesHere_nullMember {value assigned : List UInt8} (h : Assigns value assigned)
    (hvalue : IsValue value) : SettlesHere nullMember assigned := by
  have hcolon (rest : List UInt8) (place : Position) : ∃ lead middle, Blanks lead ∧
      colon ⟨assigned ++ rest, .complete, place⟩ =
        .ok ⟨lead ++ (value ++ rest), .complete, middle⟩ := by
    obtain ⟨lead, middle, hlead, -, hcolon⟩ := colon_assigns h blanks_nil rest place
    exact ⟨lead, middle, hlead, hcolon⟩
  by_cases hnull : value = 0x6e :: [0x75, 0x6c, 0x6c]
  · refine .inl ⟨(), fun rest place => ?_⟩
    obtain ⟨lead, middle, hlead, hcolon⟩ := hcolon rest place
    obtain ⟨inner, hstart⟩ := valueStart_append hlead (b := 0x6e) (by decide)
      ([0x75, 0x6c, 0x6c] ++ rest) middle
    obtain ⟨place', hword⟩ := word_append [0x75, 0x6c, 0x6c] rest (inner.past 0x6e)
    rw [hnull, List.cons_append] at hcolon
    refine ⟨place', ?_⟩
    simp only [nullMember, hcolon, unit, hstart, ok_bind, if_true, hword]
    rfl
  · obtain ⟨b, more, rfl, hb⟩ := hvalue.starts
    have hother : b ≠ 0x6e := by
      rintro rfl
      exact hnull hvalue.null
    refine .inr fun rest place => ?_
    obtain ⟨lead, middle, hlead, hcolon⟩ := hcolon rest place
    obtain ⟨inner, hstart⟩ := valueStart_append hlead hb.solid (more ++ rest) middle
    obtain ⟨failure, hunit⟩ := unit_eq_error hstart hother
    rw [List.cons_append] at hcolon
    refine ⟨failure, ?_⟩
    simp only [nullMember, hcolon, ok_bind, hunit]
    rfl

/-- An object that is a choice ends behind its one member. -/
theorem settlesHere_closeChoice {entries : List (List UInt8)} {bytes : List UInt8}
    (h : Entries 0x7d entries bytes) (a : α) : SettlesHere (closeChoice a) bytes := by
  cases h with
  | @nil blanks hblanks =>
    refine .inl ⟨a, fun rest place => ?_⟩
    obtain ⟨place', hnext⟩ := next_skipSpaces hblanks (b := 0x7d) (by decide) rest .endInObject
      place
    refine ⟨place', ?_⟩
    rw [List.append_assoc, List.singleton_append, closeChoice, hnext]
    rfl
  | @cons blanks lead entry after entries hblanks =>
    refine .inr fun rest place => ?_
    obtain ⟨place', hnext⟩ := next_skipSpaces hblanks (b := 0x2c) (by decide)
      (lead ++ (entry ++ after) ++ rest) .endInObject place
    rw [List.append_assoc, List.cons_append, closeChoice, hnext]
    exact ⟨_, rfl⟩

/-- An object is a choice if its one member is, and then it is read whole. -/
theorem settlesHere_choiceObject {members : List (List UInt8 × List UInt8)}
    {entries : List (List UInt8)} {bytes : List UInt8} (h : Enclosed 0x7d entries bytes)
    (hentries : List.Forall₂ IsMember members entries) (hnames : ∀ m ∈ members, IsQuoted m.1)
    (hvalues : ∀ m ∈ members, IsValue m.2) (options : List (String × α)) :
    SettlesHere (choiceObject options) bytes := by
  cases h with
  | @nil blanks hblanks =>
    refine .inr fun rest place => ?_
    obtain ⟨middle, hstart⟩ := valueStart_append hblanks (b := 0x7d) (by decide) rest place
    rw [List.append_assoc, List.singleton_append, choiceObject, hstart]
    exact ⟨_, rfl⟩
  | @cons lead entry after entries hlead hafter =>
    obtain ⟨m, members, hmember, -, rfl⟩ := List.forall₂_cons_right_iff.1 hentries
    have hname := hnames m List.mem_cons_self
    have hvalue := hvalues m List.mem_cons_self
    obtain @⟨name, value, assigned, hassigned⟩ := hmember
    obtain @⟨body, hbody⟩ := hname
    have hmember : SettlesHere (choiceMember options) (body ++ [0x22] ++ (assigned ++ after)) :=
      (settlesHere_variant hbody options).bind fun a =>
        (settlesHere_nullMember hassigned hvalue).bind fun _ => settlesHere_closeChoice hafter a
    have hreach (rest : List UInt8) (place : Position) : ∃ middle,
        choiceObject options
            ⟨lead ++ (0x22 :: (body ++ [0x22]) ++ assigned ++ after) ++ rest, .complete, place⟩ =
          choiceMember options
            ⟨body ++ [0x22] ++ (assigned ++ after) ++ rest, .complete, middle⟩ := by
      obtain ⟨middle, hstart⟩ := valueStart_append hlead starts_quote.solid
        (body ++ [0x22] ++ (assigned ++ after) ++ rest) place
      have hbytes : lead ++ (0x22 :: (body ++ [0x22]) ++ assigned ++ after) ++ rest =
          lead ++ 0x22 :: (body ++ [0x22] ++ (assigned ++ after) ++ rest) := by simp
      exact ⟨middle.past 0x22, by rw [hbytes, choiceObject, hstart]; rfl⟩
    rcases hmember with ⟨a, hread⟩ | hrefused
    · refine .inl ⟨a, fun rest place => ?_⟩
      obtain ⟨middle, heq⟩ := hreach rest place
      obtain ⟨place', hmember⟩ := hread rest middle
      exact ⟨place', heq.trans hmember⟩
    · refine .inr fun rest place => ?_
      obtain ⟨middle, heq⟩ := hreach rest place
      obtain ⟨failure, hmember⟩ := hrefused rest middle
      exact ⟨failure, heq.trans hmember⟩

section Choice
variable {options : List (String × α)} {c start after : Cursor} {b : UInt8}

theorem choice_eq_variant (h : valueStart c = .ok (start, 0x22, after)) :
    choice options c = variant options after := by
  rw [choice, h]
  rfl

theorem choice_eq_choiceObject (h : valueStart c = .ok (start, 0x7b, after)) :
    choice options c = choiceObject options after := by
  have hquote : (0x7b : UInt8) ≠ 0x22 := by decide
  rw [choice, h]
  simp only [ok_bind, if_neg hquote, if_true, choiceObject, choiceMember, nullMember, closeChoice,
    bind_assoc, pure_bind]

theorem choice_eq_error (h : valueStart c = .ok (start, b, after)) (hquote : b ≠ 0x22)
    (hbrace : b ≠ 0x7b) : ∃ failure, choice options c = .error failure := by
  rw [choice, h]
  simp only [ok_bind, if_neg hquote, if_neg hbrace]
  exact ⟨_, rfl⟩

end Choice

theorem settles_choice {bytes : List UInt8} (h : IsValue bytes) (options : List (String × α)) :
    Settles (choice options) bytes := by
  cases h.kind with
  | text hbody =>
    exact (settlesHere_variant hbody options).settles starts_quote fun _ _ _ => choice_eq_variant
  | number hnumber =>
    obtain ⟨b, more, rfl, hb⟩ := hnumber.starts
    have hquote : b ≠ 0x22 := ne_of_starts hb (by decide)
    have hbrace : b ≠ 0x7b := ne_of_starts hb (by decide)
    exact .inr (refuses_of_start (starts_of_number hb) more fun _ _ _ hstart =>
      choice_eq_error hstart hquote hbrace)
  | object henclosed hentries hnames hvalues =>
    exact (settlesHere_choiceObject henclosed hentries hnames hvalues options).settles starts_brace
      fun _ _ _ => choice_eq_choiceObject
  | foreign hb =>
    exact .inr (refuses_of_start hb.starts _ fun _ _ _ hstart =>
      choice_eq_error hstart hb.notQuote hb.notBrace)

end DeviceConsole.Json
