import DeviceConsole.Json.Printer
import DeviceConsole.Proofs.Decimal.Shortest
import DeviceConsole.Proofs.Json.Scanning
import DeviceConsole.Proofs.Text.Utf8

/-!
Numbers as they are written, and natural numbers read back.

Whatever is written for a number is a number of the grammar (`isNumber_integerText`,
`realText_cases`); for a float this rests on its shortest digits having a first one that is no zero.
A natural number that fits sixty-four bits is read back from its digits (`reader_digitsOf`).
-/
namespace DeviceConsole.Json
open DeviceConsole.Decimal DeviceConsole.Stream

/-! ### Digits -/

theorem isDigit_ofNat {c : Char} (h : c.isDigit = true) :
    String.utf8EncodeChar c = [UInt8.ofNat c.toNat] ∧ IsDigit (UInt8.ofNat c.toNat) := by
  obtain ⟨hlow, hhigh⟩ : 0x30 ≤ c.toNat ∧ c.toNat ≤ 0x39 := Char.isDigit_iff_toNat.1 h
  have hnat := toNat_ofNat_ascii (c := c) (by omega)
  refine ⟨utf8EncodeChar_ascii (by omega), ?_, ?_⟩ <;>
    rw [UInt8.le_iff_toNat_le, hnat] <;> assumption

theorem isDigit_of_mem_utf8 {cs : List Char} (h : ∀ c ∈ cs, c.isDigit = true) :
    ∀ b ∈ utf8 cs, IsDigit b := by
  intro b hb
  obtain ⟨c, hc, hbc⟩ := List.mem_flatMap.1 hb
  obtain ⟨hencode, hdigit⟩ := isDigit_ofNat (h c hc)
  rw [hencode, List.mem_singleton] at hbc
  rwa [hbc]

theorem digits_utf8 {cs : List Char} (hne : cs ≠ []) (h : ∀ c ∈ cs, c.isDigit = true) :
    Digits (utf8 cs) :=
  ⟨fun hnil => hne (utf8_injective hnil), isDigit_of_mem_utf8 h⟩

theorem digits_digitsOf (n : Nat) : Digits (utf8 (digitsOf n)) :=
  digits_utf8 Nat.toDigits_ne_nil fun _ hc => isDigit_of_mem_digitsOf hc

/-- Digits of which the first is no zero. -/
theorem whole_cons {c : Char} {cs : List Char} (hc : c ≠ '0')
    (h : ∀ d ∈ c :: cs, d.isDigit = true) : Whole (utf8 (c :: cs)) := by
  obtain ⟨hencode, hdigit⟩ := isDigit_ofNat (h c List.mem_cons_self)
  rw [utf8_cons, hencode]
  refine .digits hdigit (fun hzero => hc ?_)
    (isDigit_of_mem_utf8 fun d hd => h d (List.mem_cons_of_mem c hd))
  have hbyte : utf8 [c] = utf8 ['0'] := by
    rw [utf8_singleton, hencode, hzero]
    rfl
  exact List.singleton_inj.1 (utf8_injective hbyte)

theorem whole_digitsOf (n : Nat) : Whole (utf8 (digitsOf n)) := by
  by_cases hn : 0 < n
  · obtain ⟨c, cs, hdigits, hc⟩ := exists_digitsOf_eq_cons hn
    rw [hdigits]
    exact whole_cons hc fun d hd => isDigit_of_mem_digitsOf (hdigits ▸ hd)
  · obtain rfl : n = 0 := by omega
    exact .zero

/-! ### Written numbers -/

/-- The sign in front of a number. -/
theorem isNumber_signed (negative : Bool) {whole fraction exponent : List UInt8}
    (hw : Whole whole) (hf : Fraction fraction) (he : Exponent exponent) :
    IsNumber (utf8 (if negative then ['-'] else []) ++ (whole ++ (fraction ++ exponent))) := by
  cases negative with
  | true =>
    show IsNumber (0x2d :: (whole ++ (fraction ++ exponent)))
    exact .negative hw hf he
  | false =>
    show IsNumber (whole ++ (fraction ++ exponent))
    exact .positive hw hf he

theorem isNumber_integerText (i : Int) : IsNumber (utf8 (integerText i)) := by
  have hnumber := isNumber_signed (decide (i < 0)) (whole_digitsOf i.natAbs) .absent .absent
  simpa [integerText] using hnumber

theorem fraction_utf8 {cs : List Char} (hne : cs ≠ []) (h : ∀ c ∈ cs, c.isDigit = true) :
    Fraction (utf8 ('.' :: cs)) :=
  .present (digits_utf8 hne h)

theorem isDigit_of_mem_replicate {n : Nat} {c : Char} (h : c ∈ List.replicate n '0') :
    c.isDigit = true := by
  rw [List.eq_of_mem_replicate h]
  decide

/-- Positional notation has whole digits and a fraction. -/
theorem exists_positional {s : Scientific} (h : s.Proper) (exponent : Int) :
    ∃ whole fraction, utf8 (positional s.digits exponent) = whole ++ fraction ∧ Whole whole ∧
      Fraction fraction := by
  obtain ⟨c, cs, hdigits, hc⟩ := h.leading
  unfold positional
  dsimp only
  split
  · refine ⟨[0x30], _, rfl, .zero, fraction_utf8 (by simp [hdigits]) fun d hd => ?_⟩
    rcases List.mem_append.1 hd with hd | hd
    · exact isDigit_of_mem_replicate hd
    · exact h.digits d hd
  · refine ⟨_, _, utf8_append _ _, ?_, ?_⟩
    · have hall : ∀ d ∈ s.digits.take (exponent.toNat + 1) ++
          List.replicate (exponent.toNat + 1 - s.digits.length) '0', d.isDigit = true := by
        intro d hd
        rcases List.mem_append.1 hd with hd | hd
        · exact h.digits d (List.mem_of_mem_take hd)
        · exact isDigit_of_mem_replicate hd
      rw [hdigits, List.take_succ_cons, List.cons_append] at hall ⊢
      exact whole_cons hc hall
    · split
      · exact fraction_utf8 (by simp) (by simp)
      · next hne =>
        exact fraction_utf8 (by simpa using hne) fun d hd => h.digits d (List.mem_of_mem_drop hd)

/-- Notation with an exponent has one whole digit and maybe a fraction. -/
theorem exists_exponential {s : Scientific} (h : s.Proper) (e : Int) :
    ∃ whole fraction exponent, utf8 (exponential s.digits e) = whole ++ (fraction ++ exponent) ∧
      Whole whole ∧ Fraction fraction ∧ Exponent exponent := by
  obtain ⟨c, cs, hdigits, hc⟩ := h.leading
  refine ⟨_, _, _, by rw [exponential, List.append_assoc, utf8_append, utf8_append], ?_, ?_, ?_⟩
  · rw [hdigits]
    exact whole_cons hc fun d hd => h.digits d (by rw [hdigits]; simp_all)
  · split
    · next hlen =>
      have hne : s.digits.drop 1 ≠ [] := by
        rw [Ne, List.drop_eq_nil_iff]
        omega
      exact fraction_utf8 hne fun d hd => h.digits d (List.mem_of_mem_drop hd)
    · exact .absent
  · split
    · exact .signed (.inl rfl) (.inr rfl) (digits_digitsOf e.natAbs)
    · exact .signed (.inl rfl) (.inl rfl) (digits_digitsOf e.natAbs)

/-- A float is written as a number, unless it is an infinity or no number. -/
theorem realText_cases (x : Float) :
    utf8 (realText x) = [0x6e, 0x75, 0x6c, 0x6c] ∨ IsNumber (utf8 (realText x)) := by
  unfold realText
  split
  · exact .inl (by decide)
  · exact .inl (by decide)
  · next negative m hread =>
    refine .inr ?_
    rw [utf8_append]
    by_cases hm : m.significand = 0
    · have hpoint : Fraction (utf8 ['.', '0']) := fraction_utf8 (by simp) (by simp)
      have hnumber := isNumber_signed negative .zero hpoint .absent
      rw [if_pos hm]
      exact hnumber
    rw [if_neg hm]
    have hproper := shortest_proper (usual_of_read hread hm)
    dsimp only
    generalize shortest m = s at hproper
    by_cases hpositional : isPositional s.exponent = true
    · obtain ⟨whole, fraction, htext, hw, hf⟩ := exists_positional hproper s.exponent
      have hnumber := isNumber_signed negative hw hf .absent
      rw [if_pos hpositional, htext]
      rwa [List.append_nil] at hnumber
    · obtain ⟨whole, fraction, exponent, htext, hw, hf, he⟩ :=
        exists_exponential hproper s.exponent
      rw [if_neg hpositional, htext]
      exact isNumber_signed negative hw hf he

/-! ### Natural numbers -/

namespace Number

theorem digitValue {c : Char} (h : c.isDigit = true) :
    (UInt8.ofNat c.toNat - 0x30).toNat = c.toNat - '0'.toNat := by
  obtain ⟨hlow, hhigh⟩ : 0x30 ≤ c.toNat ∧ c.toNat ≤ 0x39 := Char.isDigit_iff_toNat.1 h
  have hnat := toNat_ofNat_ascii (c := c) (by omega)
  have hle : (0x30 : UInt8) ≤ UInt8.ofNat c.toNat := (isDigit_ofNat h).2.1
  rw [UInt8.toNat_sub_of_le _ _ hle, hnat]
  rfl

/-- The values of digits. -/
def digitValues (ds : List UInt8) : List Nat := ds.map fun b => (b - 0x30).toNat

/-- Digits are absorbed whole as long as the number they make fits. -/
theorem absorb_digits {cs : List Char} (h : ∀ c ∈ cs, c.isDigit = true) {significand : Nat}
    (hfits : Nat.ofDigitChars 10 cs significand ≤ maxSignificand) :
    absorb significand (digitValues (utf8 cs)) =
      (Nat.ofDigitChars 10 cs significand, []) := by
  induction cs generalizing significand with
  | nil => rw [Nat.ofDigitChars_nil, utf8_nil, digitValues, List.map_nil, absorb]
  | cons c cs ih =>
    have hc := h c List.mem_cons_self
    rw [Nat.ofDigitChars_cons, Nat.mul_comm] at hfits ⊢
    have hnext : significand * 10 + (c.toNat - '0'.toNat) ≤ maxSignificand := by
      rw [Nat.ofDigitChars_eq_ofDigitChars_zero] at hfits
      have hpow : 1 ≤ 10 ^ cs.length := Nat.one_le_pow _ _ (by decide)
      have hmul := Nat.mul_le_mul_right (significand * 10 + (c.toNat - '0'.toNat)) hpow
      omega
    rw [utf8_cons, (isDigit_ofNat hc).1, List.singleton_append, digitValues, List.map_cons,
      digitValue hc, absorb, if_pos hnext]
    exact ih (fun d hd => h d (List.mem_cons_of_mem c hd)) hfits

theorem digits_append {ds rest : List UInt8} (h : ∀ d ∈ ds, Cursor.isDigit d = true)
    (hrest : ∀ b, rest.head? = some b → Cursor.isDigit b = false) (place : Position) :
    ∃ place', Cursor.digits ⟨ds ++ rest, .complete, place⟩ =
      (digitValues ds, ⟨rest, .complete, place'⟩) := by
  obtain ⟨place', hskip⟩ := skipWhile_append h hrest place
  have htake : (ds ++ rest).takeWhile Cursor.isDigit = ds := by
    rw [List.takeWhile_append_of_pos h]
    cases rest with
    | nil => simp
    | cons b rest => simp [hrest b rfl]
  exact ⟨place', by rw [Cursor.digits, hskip, htake, digitValues]⟩

/-- A number that ends with its whole digits. -/
theorem tailPart_ends (negative : Bool) (significand left : Nat) {rest : List UInt8}
    (hrest : Ends rest) (place : Position) :
    tailPart negative significand left ⟨rest, .complete, place⟩ =
      if left = 0 then .ok (ofSignificand negative significand, ⟨rest, .complete, place⟩)
      else ofParts negative significand left ⟨rest, .complete, place⟩ := by
  cases rest with
  | nil => rfl
  | cons b rest =>
    obtain ⟨-, hpoint, he, hE⟩ := hrest b rfl
    have hletter : ¬ isExponent b = true := by simp [isExponent, he, hE]
    show (if b = 0x2e then _ else if isExponent b = true then _ else _) = _
    rw [if_neg hpoint, if_neg hletter]

/-- The whole digits are absorbed as far as they fit, and the number is read on from behind them. -/
theorem unsigned_whole {whole : List UInt8} (h : Whole whole) (negative : Bool)
    {rest : List UInt8} (hrest : ∀ b, rest.head? = some b → Cursor.isDigit b = false)
    (place : Position) :
    ∃ place', unsigned negative ⟨whole ++ rest, .complete, place⟩ =
      tailPart negative (absorb 0 (digitValues whole)).1 (absorb 0 (digitValues whole)).2.length
        ⟨rest, .complete, place'⟩ := by
  cases h with
  | zero =>
    refine ⟨place.past 0x30, ?_⟩
    cases rest with
    | nil => rfl
    | cons d rest =>
      have hdigit : ¬ Cursor.isDigit d = true := by simp [hrest d rfl]
      show (if Cursor.isDigit d = true then _ else _) = _
      rw [if_neg hdigit]
      rfl
  | @digits b bytes hb hzero h =>
    have hall : ∀ d ∈ b :: bytes, Cursor.isDigit d = true :=
      List.forall_mem_cons.2 ⟨isDigit_iff.2 hb, fun d hd => isDigit_iff.2 (h d hd)⟩
    obtain ⟨place', hdigits⟩ := digits_append hall hrest place
    refine ⟨place', ?_⟩
    show (if b = 0x30 then _ else if Cursor.isDigit b = true then _ else _) = _
    rw [if_neg hzero, if_pos (isDigit_iff.2 hb)]
    dsimp only
    rw [hdigits]

/-- A number without a minus. -/
theorem reader_whole {whole : List UInt8} (h : Whole whole) (rest : List UInt8)
    (place : Position) :
    reader ⟨whole ++ rest, .complete, place⟩ = unsigned false ⟨whole ++ rest, .complete, place⟩ := by
  cases h with
  | zero => rfl
  | @digits b bytes hb =>
    have hminus : b ≠ 0x2d := by
      rintro rfl
      exact absurd hb.1 (by decide)
    show (if b = 0x2d then _ else _) = _
    rw [if_neg hminus]

/-- A natural number is read back from its digits. -/
theorem reader_digitsOf {n : Nat} (hn : n < UInt64.size) {rest : List UInt8} (hrest : Ends rest)
    (place : Position) :
    ∃ place', reader ⟨utf8 (digitsOf n) ++ rest, .complete, place⟩ =
      .ok (.integer n, ⟨rest, .complete, place'⟩) := by
  have hall : ∀ d ∈ digitsOf n, d.isDigit = true := fun d hd => isDigit_of_mem_digitsOf hd
  have hvalue : Nat.ofDigitChars 10 (digitsOf n) 0 = n := Nat.ofDigitChars_ten_toDigits
  have hmax : Nat.ofDigitChars 10 (digitsOf n) 0 ≤ maxSignificand := by
    rw [hvalue, maxSignificand]
    omega
  have habsorb := absorb_digits hall hmax
  have hwhole := whole_digitsOf n
  obtain ⟨place', hread⟩ := unsigned_whole hwhole false (fun b hb => (hrest b hb).1) place
  refine ⟨place', ?_⟩
  rw [reader_whole hwhole, hread, habsorb, hvalue]
  exact tailPart_ends false n 0 hrest place'

end Number

end DeviceConsole.Json
