import DeviceConsole.Json.Skip
import DeviceConsole.Proofs.Json.Grammar
import DeviceConsole.Proofs.Lists
import DeviceConsole.Proofs.Success

/-!
The parts of a value that have no parts themselves.

A complete document is scanned here from some bytes with more behind them, and what is left is what
stood behind: blanks, words, the digits and the parts of a number, and the inside of a quoted text.
Where a scanned part ends does not matter for what it is, so places are said to exist and no more.
-/
namespace DeviceConsole.Json

/-! ### Blanks and words -/

@[simp] theorem next_cons (b : UInt8) (rest : List UInt8) (place : Position) (cause : Cause) :
    Cursor.next ⟨b :: rest, .complete, place⟩ cause = .ok (b, ⟨rest, .complete, place.past b⟩) :=
  rfl

theorem isSpace_iff {b : UInt8} :
    Cursor.isSpace b = true ↔ b ∈ [0x20, 0x09, 0x0a, 0x0d] := by
  simp [Cursor.isSpace, or_assoc]

/-- Nothing of what follows is a blank. -/
def Solid (rest : List UInt8) : Prop := ∀ b, rest.head? = some b → Cursor.isSpace b = false

theorem solid_cons {b : UInt8} (h : Cursor.isSpace b = false) (rest : List UInt8) :
    Solid (b :: rest) := by
  intro c hc
  obtain rfl := Option.some_inj.1 hc
  exact h

theorem skipWhile_append {p : UInt8 → Bool} {front rest : List UInt8}
    (hfront : ∀ b ∈ front, p b = true) (hrest : ∀ b, rest.head? = some b → p b = false)
    (place : Position) :
    ∃ place', Cursor.skipWhile p ⟨front ++ rest, .complete, place⟩ = ⟨rest, .complete, place'⟩ := by
  have hdrop : (front ++ rest).dropWhile p = rest := by
    rw [List.dropWhile_append_of_pos hfront]
    cases rest with
    | nil => rfl
    | cons b rest => exact List.dropWhile_cons_of_neg (by simp [hrest b rfl])
  exact ⟨((front ++ rest).takeWhile p).foldl Position.past place, by rw [Cursor.skipWhile, hdrop]⟩

theorem skipSpaces_append {blanks rest : List UInt8} (h : Blanks blanks) (hrest : Solid rest)
    (place : Position) :
    ∃ place', Cursor.skipSpaces ⟨blanks ++ rest, .complete, place⟩ = ⟨rest, .complete, place'⟩ :=
  skipWhile_append (fun b hb => isSpace_iff.2 (h b hb)) hrest place

theorem valueStart_append {blanks : List UInt8} (h : Blanks blanks) {b : UInt8}
    (hb : Cursor.isSpace b = false) (rest : List UInt8) (place : Position) :
    ∃ place', valueStart ⟨blanks ++ b :: rest, .complete, place⟩ =
      .ok (⟨b :: rest, .complete, place'⟩, b, ⟨rest, .complete, place'.past b⟩) := by
  obtain ⟨place', hskip⟩ := skipSpaces_append h (solid_cons hb rest) place
  exact ⟨place', by rw [valueStart, hskip]; rfl⟩

/-- The next byte behind blanks. -/
theorem next_skipSpaces {blanks : List UInt8} (h : Blanks blanks) {b : UInt8}
    (hb : Cursor.isSpace b = false) (rest : List UInt8) (cause : Cause) (place : Position) :
    ∃ place', (Cursor.skipSpaces ⟨blanks ++ b :: rest, .complete, place⟩).next cause =
      .ok (b, ⟨rest, .complete, place'⟩) := by
  obtain ⟨place', hskip⟩ := skipSpaces_append h (solid_cons hb rest) place
  exact ⟨place'.past b, by rw [hskip]; rfl⟩

theorem colon_append {blanks : List UInt8} (h : Blanks blanks) (rest : List UInt8)
    (place : Position) :
    ∃ place', colon ⟨blanks ++ 0x3a :: rest, .complete, place⟩ = .ok ⟨rest, .complete, place'⟩ := by
  obtain ⟨place', hnext⟩ := next_skipSpaces h (b := 0x3a) (by decide) rest .endInObject place
  exact ⟨place', by rw [colon, hnext]; rfl⟩

/-- The colon behind a name leads to the value, up to blanks. -/
theorem colon_assigns {value assigned : List UInt8} (h : Assigns value assigned)
    {blanks : List UInt8} (hblanks : Blanks blanks) (rest : List UInt8) (place : Position) :
    ∃ (lead : List UInt8) (place' : Position), Blanks lead ∧
      (lead ++ value).length ≤ assigned.length ∧
      colon ⟨blanks ++ (assigned ++ rest), .complete, place⟩ =
        .ok ⟨lead ++ (value ++ rest), .complete, place'⟩ := by
  obtain @⟨before, lead, value, hbefore, hlead⟩ := h
  have hboth : Blanks (blanks ++ before) := fun b hb =>
    (List.mem_append.1 hb).elim (hblanks b) (hbefore b)
  obtain ⟨place', hcolon⟩ := colon_append hboth (lead ++ (value ++ rest)) place
  refine ⟨lead, place', hlead, ?_, ?_⟩
  · simp only [List.length_append, List.length_cons]
    omega
  · rw [← hcolon]
    simp

theorem word_append (word rest : List UInt8) (place : Position) :
    ∃ place', Cursor.word word ⟨word ++ rest, .complete, place⟩ = .ok ⟨rest, .complete, place'⟩ := by
  induction word generalizing place with
  | nil => exact ⟨place, rfl⟩
  | cons b word ih =>
    obtain ⟨place', hword⟩ := ih (place.past b)
    refine ⟨place', ?_⟩
    rw [← hword]
    show (if b = b then _ else _) = _
    rw [if_pos rfl]
    rfl

/-! ### Quoted texts -/

namespace Quotation

theorem hexValue?_of_hexDigit {b : UInt8} {n : Nat} (h : HexDigit b n) : hexValue? b = some n := by
  cases h with
  | @decimal n h => exact (by decide : ∀ n < 10, hexValue? (UInt8.ofNat (0x30 + n)) = some n) n h
  | @lower n h =>
    exact (by decide : ∀ n < 6, hexValue? (UInt8.ofNat (0x61 + n)) = some (10 + n)) n h
  | @upper n h =>
    exact (by decide : ∀ n < 6, hexValue? (UInt8.ofNat (0x41 + n)) = some (10 + n)) n h

theorem escapeByte?_of_mem {b out : UInt8} (h : (b, out) ∈ letters) :
    escapeByte? b = some out ∧ b ≠ 0x75 :=
  (forall_mem_of_all (by decide) : ∀ p ∈ letters, escapeByte? p.1 = some p.2 ∧ p.1 ≠ 0x75) _ h

theorem run_cons {exact : Bool} {state state' : State} {b : UInt8} {more : List UInt8}
    (h : step exact state b = .ok (.more state' more)) (out : List (UInt8 × Position))
    (place : Position) (rest : List UInt8) :
    run exact .complete state out place (b :: rest) =
      run exact .complete state' ((more.map fun m => (m, place.past b)).reverse ++ out)
        (place.past b) rest := by
  rw [run, h]

/-- The machine passes from one state to another and gives some bytes of the text. -/
def Emits (exact : Bool) (state : State) (bytes : List UInt8) (state' : State)
    (out : List UInt8) : Prop :=
  ∀ before place rest, ∃ (marked : List (UInt8 × Position)) (place' : Position),
    run exact .complete state before place (bytes ++ rest) =
      run exact .complete state' (marked.reverse ++ before) place' rest ∧
    marked.map (·.1) = out

theorem Emits.nil {exact : Bool} {state : State} : Emits exact state [] state [] :=
  fun _ place _ => ⟨[], place, rfl, rfl⟩

theorem Emits.append {exact : Bool} {s t u : State} {bytes bytes' out out' : List UInt8}
    (h : Emits exact s bytes t out) (h' : Emits exact t bytes' u out') :
    Emits exact s (bytes ++ bytes') u (out ++ out') := by
  intro before place rest
  obtain ⟨marked, place', hrun, rfl⟩ := h before place (bytes' ++ rest)
  obtain ⟨marked', place'', hrun', rfl⟩ := h' (marked.reverse ++ before) place' rest
  refine ⟨marked ++ marked', place'', ?_, List.map_append⟩
  rw [List.append_assoc, hrun, hrun', List.reverse_append, List.append_assoc]

theorem Emits.byte {exact : Bool} {state state' : State} {b : UInt8} {out : List UInt8}
    (h : step exact state b = .ok (.more state' out)) : Emits exact state [b] state' out :=
  fun before place rest =>
    ⟨out.map fun m => (m, place.past b), place.past b, run_cons h before place rest,
      by simp [Function.comp_def]⟩

theorem emits_plain {b : UInt8} (h : IsPlain b) (exact : Bool) :
    Emits exact .plain [b] .plain [b] := by
  have hprinting : ¬ b < 0x20 := UInt8.not_lt.2 h.printing
  exact .byte (by rw [step, if_neg h.notQuote, if_neg h.notBackslash, if_neg hprinting])

theorem emits_letter {b out : UInt8} (h : (b, out) ∈ letters) (exact : Bool) :
    Emits exact .plain [0x5c, b] .plain [out] := by
  obtain ⟨hbyte, hne⟩ := escapeByte?_of_mem h
  have hescape : Emits exact .plain [0x5c] .escape [] := .byte rfl
  exact hescape.append (.byte (by rw [step, if_neg hne, hbyte]))

/-- The last of four digits decides for all of them. -/
theorem exists_last_digit {hex : List UInt8} {n : Nat} (h : HexUnit hex n) (exact : Bool)
    (lead : Option Nat) : ∃ (front : List UInt8) (last : UInt8) (digits : List UInt8),
      hex = front ++ [last] ∧ Emits exact (.hex lead []) front (.hex lead digits) [] ∧
      step exact (.hex lead digits) last =
        if exact then ofUnit lead n else .ok (.more .plain []) := by
  obtain @⟨b₁, b₂, b₃, b₄, n₁, n₂, n₃, n₄, h₁, h₂, h₃, h₄⟩ := h
  have hvalue : hexUnit? [b₄, b₃, b₂, b₁] =
      some (((n₁ * 16 + n₂) * 16 + n₃) * 16 + n₄) := by
    simp [hexUnit?, hexValue?_of_hexDigit h₁, hexValue?_of_hexDigit h₂, hexValue?_of_hexDigit h₃,
      hexValue?_of_hexDigit h₄]
  have h₁' : Emits exact (.hex lead []) [b₁] (.hex lead [b₁]) [] := .byte rfl
  have h₂' : Emits exact (.hex lead [b₁]) [b₂] (.hex lead [b₂, b₁]) [] := .byte rfl
  have h₃' : Emits exact (.hex lead [b₂, b₁]) [b₃] (.hex lead [b₃, b₂, b₁]) [] := .byte rfl
  refine ⟨[b₁, b₂, b₃], b₄, [b₃, b₂, b₁], rfl, h₁'.append (h₂'.append h₃'), ?_⟩
  rw [step, if_neg (by simp), hvalue]

/-- Four digits lead to what their code unit leads to. -/
theorem emits_hex {hex : List UInt8} {n : Nat} (h : HexUnit hex n) {exact : Bool}
    {lead : Option Nat} {state : State} {out : List UInt8}
    (hunit : (if exact then ofUnit lead n else .ok (.more .plain [])) = .ok (.more state out)) :
    Emits exact (.hex lead []) hex state out := by
  obtain ⟨front, last, digits, rfl, hfront, hlast⟩ := exists_last_digit h exact lead
  exact hfront.append (.byte (hlast.trans hunit))

theorem emits_unit {hex : List UInt8} {n : Nat} (h : HexUnit hex n) {exact : Bool}
    {state : State} {out : List UInt8}
    (hunit : (if exact then ofUnit none n else .ok (.more .plain [])) = .ok (.more state out)) :
    Emits exact .plain (0x5c :: 0x75 :: hex) state out := by
  have hescape : Emits exact .plain [0x5c] .escape [] := .byte rfl
  have hletter : Emits exact .escape [0x75] (.hex none []) [] := .byte rfl
  exact hescape.append (hletter.append (emits_hex h hunit))

theorem isLeading_iff {n : Nat} : isLeading n = true ↔ 0xd800 ≤ n ∧ n ≤ 0xdbff := by
  simp [isLeading]

theorem isTrailing_iff {n : Nat} : isTrailing n = true ↔ 0xdc00 ≤ n ∧ n ≤ 0xdfff := by
  simp [isTrailing]

theorem ofUnit_plain {n : Nat} (h : n < 0xd800 ∨ 0xdfff < n) :
    ofUnit none n = .ok (.more .plain (String.utf8EncodeChar (Char.ofNat n))) := by
  have htrailing : ¬ isTrailing n = true := by
    rw [isTrailing_iff]
    omega
  have hleading : ¬ isLeading n = true := by
    rw [isLeading_iff]
    omega
  rw [ofUnit, if_neg htrailing, if_neg hleading]

theorem ofUnit_leading {n : Nat} (h : 0xd800 ≤ n ∧ n ≤ 0xdbff) :
    ofUnit none n = .ok (.more (.partner n) []) := by
  have htrailing : ¬ isTrailing n = true := by
    rw [isTrailing_iff]
    omega
  rw [ofUnit, if_neg htrailing, if_pos (isLeading_iff.2 h)]

theorem ofUnit_trailing {n n' : Nat} (h : 0xdc00 ≤ n' ∧ n' ≤ 0xdfff) :
    ofUnit (some n) n' = .ok (.more .plain (String.utf8EncodeChar (pairChar n n'))) := by
  rw [ofUnit, if_pos (isTrailing_iff.2 h)]

theorem emits_leading {hex : List UInt8} {n : Nat} (h : HexUnit hex n)
    (hn : 0xd800 ≤ n ∧ n ≤ 0xdbff) : Emits true .plain (0x5c :: 0x75 :: hex) (.partner n) [] :=
  emits_unit h (by rw [if_pos rfl, ofUnit_leading hn])

theorem emits_trailing {hex : List UInt8} {n n' : Nat} (h : HexUnit hex n')
    (hn' : 0xdc00 ≤ n' ∧ n' ≤ 0xdfff) :
    Emits true (.hex (some n) []) hex .plain (String.utf8EncodeChar (pairChar n n')) :=
  emits_hex h (by rw [if_pos rfl, ofUnit_trailing hn'])

/-- Two surrogates, where what the second gives is known. -/
theorem Emits.pair {hex hex' out : List UInt8} {n : Nat}
    (h : Emits true .plain (0x5c :: 0x75 :: hex) (.partner n) [])
    (h' : Emits true (.hex (some n) []) hex' .plain out) :
    Emits true .plain (0x5c :: 0x75 :: (hex ++ 0x5c :: 0x75 :: hex')) .plain out := by
  have hescape : Emits true (.partner n) [0x5c] (.partnerEscape n) [] := .byte rfl
  have hletter : Emits true (.partnerEscape n) [0x75] (.hex (some n) []) [] := .byte rfl
  exact h.append (hescape.append (hletter.append h'))

theorem emits_of_body {bytes : List UInt8} (h : Body bytes) :
    ∃ out, Emits false .plain bytes .plain out := by
  induction h with
  | nothing => exact ⟨[], .nil⟩
  | plain h _ ih =>
    obtain ⟨out, ih⟩ := ih
    exact ⟨_, (emits_plain h false).append ih⟩
  | letter h _ ih =>
    obtain ⟨out, ih⟩ := ih
    exact ⟨_, (emits_letter h false).append ih⟩
  | unit h _ ih =>
    obtain ⟨out, ih⟩ := ih
    exact ⟨_, (emits_unit h rfl).append ih⟩

theorem emits_of_spells {bytes out : List UInt8} (h : Spells bytes out) :
    Emits true .plain bytes .plain out := by
  induction h with
  | nothing => exact .nil
  | plain h _ ih => exact (emits_plain h true).append ih
  | letter h _ ih => exact (emits_letter h true).append ih
  | @unit hex rest out n h hn _ ih =>
    have hunit : Emits true .plain (0x5c :: 0x75 :: hex) .plain
        (String.utf8EncodeChar (Char.ofNat n)) :=
      emits_unit h (by rw [if_pos rfl, ofUnit_plain hn])
    exact hunit.append ih
  | pair h h' hn hn' _ ih =>
    have hpair := ((emits_leading h hn).pair (emits_trailing h' hn')).append ih
    simpa [pairChar] using hpair

/-- The closing quote ends the machine. -/
theorem run_close {exact : Bool} (out : List (UInt8 × Position)) (place : Position)
    (rest : List UInt8) :
    run exact .complete .plain out place (0x22 :: rest) =
      .ok (out.reverse, ⟨rest, .complete, place.past 0x22⟩) :=
  rfl

theorem run_of_emits {exact : Bool} {body out : List UInt8}
    (h : Emits exact .plain body .plain out) (place : Position) (rest : List UInt8) :
    ∃ (marked : List (UInt8 × Position)) (place' : Position),
      run exact .complete .plain [] place (body ++ 0x22 :: rest) =
        .ok (marked, ⟨rest, .complete, place'⟩) ∧ marked.map (·.1) = out := by
  obtain ⟨marked, place', hrun, hout⟩ := h [] place (0x22 :: rest)
  refine ⟨marked, place'.past 0x22, ?_, hout⟩
  rw [hrun, run_close, List.append_nil, List.reverse_reverse]

end Quotation

/-- What stands between quotes is read as the text it stands for. -/
theorem text_of_spells {body : List UInt8} {s : String} (h : Spells body (Stream.bytesOf s))
    (rest : List UInt8) (place : Position) :
    ∃ place', text ⟨body ++ 0x22 :: rest, .complete, place⟩ =
      .ok (s, ⟨rest, .complete, place'⟩) := by
  obtain ⟨marked, place', hrun, hout⟩ :=
    Quotation.run_of_emits (Quotation.emits_of_spells h) place rest
  refine ⟨place', ?_⟩
  simp only [text, hrun, ok_bind, hout, Stream.text?_bytesOf]
  rfl

theorem skipText_of_body {body : List UInt8} (h : Body body) (rest : List UInt8)
    (place : Position) :
    ∃ place', skipText ⟨body ++ 0x22 :: rest, .complete, place⟩ =
      .ok ⟨rest, .complete, place'⟩ := by
  obtain ⟨out, hemits⟩ := Quotation.emits_of_body h
  obtain ⟨marked, place', hrun, -⟩ := Quotation.run_of_emits hemits place rest
  exact ⟨place', by rw [skipText, hrun]; rfl⟩

/-! ### Numbers -/

theorem isDigit_iff {b : UInt8} : Cursor.isDigit b = true ↔ IsDigit b := by
  simp [Cursor.isDigit, IsDigit]

/-- What may stand behind a value: nothing that could belong to a number. -/
def Ends (rest : List UInt8) : Prop :=
  ∀ b, rest.head? = some b → Cursor.isDigit b = false ∧ b ≠ 0x2e ∧ b ≠ 0x65 ∧ b ≠ 0x45

namespace Skip

theorem digits_append {ds rest : List UInt8} (h : Digits ds)
    (hrest : ∀ b, rest.head? = some b → Cursor.isDigit b = false) (place : Position) :
    ∃ place', digits ⟨ds ++ rest, .complete, place⟩ = .ok ⟨rest, .complete, place'⟩ := by
  obtain ⟨place', hskip⟩ := skipWhile_append (fun b hb => isDigit_iff.2 (h.digits b hb)) hrest place
  refine ⟨place', ?_⟩
  obtain ⟨d, more, rfl⟩ := List.exists_cons_of_ne_nil h.nonempty
  have hd := isDigit_iff.2 (h.digits d List.mem_cons_self)
  show (if Cursor.isDigit d = true then _ else _) = _
  rw [if_pos hd]
  show (do
    let _ ← (Cursor.skipWhile Cursor.isDigit ⟨d :: more ++ rest, .complete, place⟩).next?
    pure (Cursor.skipWhile Cursor.isDigit ⟨d :: more ++ rest, .complete, place⟩)) = _
  rw [hskip]
  cases rest <;> rfl

theorem exponent_cons {e : UInt8} (he : e = 0x65 ∨ e = 0x45) (b : UInt8) (rest : List UInt8)
    (place : Position) :
    exponent ⟨e :: b :: rest, .complete, place⟩ =
      digits (if b = 0x2b || b = 0x2d then ⟨rest, .complete, (place.past e).past b⟩
        else ⟨b :: rest, .complete, place.past e⟩) := by
  have hletter : Number.isExponent e = true := by
    rcases he with rfl | rfl <;> rfl
  show (if Number.isExponent e = true then _ else _) = _
  rw [if_pos hletter]
  rfl

theorem exponent_append {bytes rest : List UInt8} (h : Exponent bytes) (hrest : Ends rest)
    (place : Position) :
    ∃ place', exponent ⟨bytes ++ rest, .complete, place⟩ = .ok ⟨rest, .complete, place'⟩ := by
  have hdigits (b : UInt8) (hb : rest.head? = some b) : Cursor.isDigit b = false := (hrest b hb).1
  cases h with
  | absent =>
    refine ⟨place, ?_⟩
    cases rest with
    | nil => rfl
    | cons b rest =>
      obtain ⟨-, -, he, hE⟩ := hrest b rfl
      have hletter : ¬ Number.isExponent b = true := by simp [Number.isExponent, he, hE]
      show (if Number.isExponent b = true then _ else _) = _
      rw [if_neg hletter]
      rfl
  | @unsigned e bytes he h =>
    obtain ⟨place', hscan⟩ := digits_append h hdigits (place.past e)
    obtain ⟨d, more, rfl⟩ := List.exists_cons_of_ne_nil h.nonempty
    have hsign : ¬ (d = 0x2b || d = 0x2d) = true := by
      have hd := (h.digits d List.mem_cons_self).1
      rw [Bool.or_eq_true, decide_eq_true_eq, decide_eq_true_eq]
      rintro (rfl | rfl) <;> exact absurd hd (by decide)
    refine ⟨place', ?_⟩
    rw [List.cons_append, List.cons_append, exponent_cons he, if_neg hsign]
    exact hscan
  | @signed e sign bytes he hsign h =>
    obtain ⟨place', hscan⟩ := digits_append h hdigits ((place.past e).past sign)
    refine ⟨place', ?_⟩
    rw [List.cons_append, List.cons_append, exponent_cons he, if_pos (by simpa using hsign)]
    exact hscan

/-- The cursor after what may stand behind the whole digits of a number. -/
def afterWhole (c : Cursor) : Except Failure Cursor := do
  match ← c.next? with
  | some (b, after) => if b = 0x2e then exponent (← digits after) else exponent c
  | none => pure c

/-- The cursor after a number without its sign. -/
def unsigned (c : Cursor) : Except Failure Cursor := do
  let (b, after) ← c.next .invalidNumber
  let c ← if b = 0x30 then do
      match ← after.next? with
      | some (d, beyond) => if Cursor.isDigit d then beyond.fail .invalidNumber else pure after
      | none => pure after
    else digits c
  afterWhole c

theorem number_cons (b : UInt8) (rest : List UInt8) (place : Position) :
    number ⟨b :: rest, .complete, place⟩ =
      unsigned (if b = 0x2d then ⟨rest, .complete, place.past b⟩
        else ⟨b :: rest, .complete, place⟩) :=
  rfl

/-- No digit may stand behind the digits of a part. -/
theorem head_exponent {exponent rest : List UInt8} (h : Exponent exponent) (hrest : Ends rest) :
    ∀ b, (exponent ++ rest).head? = some b → Cursor.isDigit b = false ∧ b ≠ 0x2e := by
  intro b hb
  cases h with
  | absent => exact ⟨(hrest b hb).1, (hrest b hb).2.1⟩
  | unsigned he | signed he =>
    obtain rfl := Option.some_inj.1 hb
    rcases he with rfl | rfl <;> decide

theorem head_fraction {fraction exponent rest : List UInt8} (hf : Fraction fraction)
    (he : Exponent exponent) (hrest : Ends rest) :
    ∀ b, (fraction ++ (exponent ++ rest)).head? = some b → Cursor.isDigit b = false := by
  intro b hb
  cases hf with
  | absent => exact (head_exponent he hrest b hb).1
  | present =>
    obtain rfl := Option.some_inj.1 hb
    decide

theorem afterWhole_append {fraction exponent rest : List UInt8} (hf : Fraction fraction)
    (he : Exponent exponent) (hrest : Ends rest) (place : Position) :
    ∃ place', afterWhole ⟨fraction ++ (exponent ++ rest), .complete, place⟩ =
      .ok ⟨rest, .complete, place'⟩ := by
  have hhead := head_exponent he hrest
  cases hf with
  | absent =>
    obtain ⟨place', hscan⟩ := exponent_append he hrest place
    cases hbytes : exponent ++ rest with
    | nil =>
      obtain ⟨-, rfl⟩ := List.append_eq_nil_iff.1 hbytes
      exact ⟨place, rfl⟩
    | cons b more =>
      have hpoint : b ≠ 0x2e := (hhead b (by rw [hbytes]; rfl)).2
      rw [hbytes] at hscan
      refine ⟨place', ?_⟩
      show (if b = 0x2e then _ else _) = _
      rw [if_neg hpoint]
      exact hscan
  | @present bytes h =>
    obtain ⟨middle, hdigits⟩ := digits_append h (fun b hb => (hhead b hb).1) (place.past 0x2e)
    obtain ⟨place', hscan⟩ := exponent_append he hrest middle
    refine ⟨place', ?_⟩
    show (do Skip.exponent (← digits ⟨bytes ++ (exponent ++ rest), .complete, place.past 0x2e⟩)) = _
    rw [hdigits]
    exact hscan

theorem unsigned_append {whole fraction exponent rest : List UInt8} (hw : Whole whole)
    (hf : Fraction fraction) (he : Exponent exponent) (hrest : Ends rest) (place : Position) :
    ∃ place', unsigned ⟨whole ++ (fraction ++ (exponent ++ rest)), .complete, place⟩ =
      .ok ⟨rest, .complete, place'⟩ := by
  have hhead := head_fraction hf he hrest
  cases hw with
  | zero =>
    obtain ⟨place', hscan⟩ := afterWhole_append hf he hrest (place.past 0x30)
    refine ⟨place', ?_⟩
    rw [← hscan]
    cases hbytes : fraction ++ (exponent ++ rest) with
    | nil => rfl
    | cons b more =>
      have hdigit := hhead b (by rw [hbytes]; rfl)
      show (do
        let c ← if Cursor.isDigit b = true then _ else _
        afterWhole c) = _
      rw [if_neg (by simp [hdigit])]
      rfl
  | @digits b bytes hb hzero h =>
    have hall : Digits (b :: bytes) := by
      refine ⟨List.cons_ne_nil b bytes, fun d hd => ?_⟩
      rcases List.mem_cons.1 hd with rfl | hd
      · exact hb
      · exact h d hd
    obtain ⟨middle, hdigits⟩ := digits_append hall hhead place
    obtain ⟨place', hscan⟩ := afterWhole_append hf he hrest middle
    refine ⟨place', ?_⟩
    show (if b = 0x30 then _ else do
      let c ← digits ⟨b :: bytes ++ (fraction ++ (exponent ++ rest)), .complete, place⟩
      afterWhole c) = _
    rw [if_neg hzero, hdigits]
    exact hscan

theorem number_append {bytes rest : List UInt8} (h : IsNumber bytes) (hrest : Ends rest)
    (place : Position) :
    ∃ place', number ⟨bytes ++ rest, .complete, place⟩ = .ok ⟨rest, .complete, place'⟩ := by
  cases h with
  | @positive whole fraction exponent hw hf he =>
    obtain ⟨place', hscan⟩ := unsigned_append hw hf he hrest place
    refine ⟨place', ?_⟩
    rw [List.append_assoc, List.append_assoc, ← hscan]
    cases hw with
    | zero => rfl
    | @digits b bytes hb hzero h =>
      have hminus : b ≠ 0x2d := by
        rintro rfl
        exact absurd hb.1 (by decide)
      rw [List.cons_append, number_cons, if_neg hminus]
  | @negative whole fraction exponent hw hf he =>
    obtain ⟨place', hscan⟩ := unsigned_append hw hf he hrest (place.past 0x2d)
    refine ⟨place', ?_⟩
    rw [List.cons_append, number_cons, if_pos rfl, List.append_assoc, List.append_assoc]
    exact hscan

end Skip

end DeviceConsole.Json
