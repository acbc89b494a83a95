import DeviceConsole.Proofs.Json.Settling

/-!
A number is read as a natural one, or it is none.

Only whole digits without a minus can make a natural number, and only if they fit: a point, an
exponent or more digits than fit lead to a float, whatever follows (`Unnatural`). So of the numbers
that are well formed, a reader of natural numbers settles each one, and it refuses all other values
(`settles_natural`).
-/
namespace DeviceConsole.Json

namespace Number

/-- What is read as a number, but not as a natural one. -/
def Unnatural (p : Number × Cursor) : Prop := ∀ n : Nat, p.1 ≠ .integer n

theorem holdsOfReals_unnatural (e : Ending) : HoldsOfReals e Unnatural :=
  fun _ _ _ _ => nofun

/-- What follows the whole digits makes the number no natural one. -/
theorem gives_tailPart {b : UInt8} (hb : b = 0x2e ∨ b = 0x65 ∨ b = 0x45) (negative : Bool)
    (significand left : Nat) (rest : List UInt8) (place : Position) :
    Gives (tailPart negative significand left ⟨b :: rest, .complete, place⟩) Unnatural := by
  have hreals := holdsOfReals_unnatural .complete
  rcases hb with rfl | rfl | rfl
  · exact gives_fractionPart hreals _ _ _ rfl
  · exact gives_exponentPart hreals _ _ _ rfl
  · exact gives_exponentPart hreals _ _ _ rfl

/-- Digits that end a number make it no natural one if they do not fit or a minus stands before
them. -/
theorem gives_tailPart_ends (negative : Bool) (significand left : Nat)
    (h : left ≠ 0 ∨ negative = true) {rest : List UInt8} (hrest : Ends rest) (place : Position) :
    Gives (tailPart negative significand left ⟨rest, .complete, place⟩) Unnatural := by
  rw [tailPart_ends negative significand left hrest place]
  split
  · next hleft =>
    obtain rfl := h.resolve_left (not_not_intro hleft)
    apply gives_pure
    intro n hn
    simp only [ofSignificand, if_true] at hn
    split at hn
    · next hpos =>
      simp only [Bool.and_eq_true, decide_eq_true_eq] at hpos
      have hint := Number.integer.inj hn
      omega
    · cases hn
  · exact gives_ofParts (holdsOfReals_unnatural .complete) _ _ _ rfl

/-- A part behind the whole digits, if there is one, starts like no digit and no end. -/
theorem exists_tail {fraction exponent : List UInt8} (hf : Fraction fraction)
    (he : Exponent exponent) : fraction ++ exponent = [] ∨
      ∃ b rest, fraction ++ exponent = b :: rest ∧ (b = 0x2e ∨ b = 0x65 ∨ b = 0x45) := by
  cases hf with
  | present => exact .inr ⟨_, _, rfl, .inl rfl⟩
  | absent =>
    cases he with
    | absent => exact .inl rfl
    | unsigned hletter => exact .inr ⟨_, _, rfl, .inr hletter⟩
    | signed hletter => exact .inr ⟨_, _, rfl, .inr hletter⟩

/-- A number without its sign is read as a natural one, the same wherever it stands, or never as
one. -/
theorem unsigned_cases {whole fraction exponent : List UInt8} (hw : Whole whole)
    (hf : Fraction fraction) (he : Exponent exponent) (negative : Bool) :
    (negative = false ∧ ∃ n : Nat, ∀ rest place, Ends rest → ∃ place',
      unsigned negative ⟨whole ++ (fraction ++ exponent ++ rest), .complete, place⟩ =
        .ok (.integer n, ⟨rest, .complete, place'⟩)) ∨
    ∀ rest place, Ends rest →
      Gives (unsigned negative ⟨whole ++ (fraction ++ exponent ++ rest), .complete, place⟩)
        Unnatural := by
  have hhead {rest : List UInt8} (hrest : Ends rest) :
      ∀ b, (fraction ++ exponent ++ rest).head? = some b → Cursor.isDigit b = false := by
    rw [List.append_assoc]
    exact Skip.head_fraction hf he hrest
  rcases exists_tail hf he with htail | ⟨b, more, htail, hb⟩
  · rw [htail] at hhead ⊢
    by_cases h : (absorb 0 (digitValues whole)).2.length ≠ 0 ∨ negative = true
    · refine .inr fun rest place hrest => ?_
      obtain ⟨middle, hread⟩ := unsigned_whole hw negative (hhead hrest) place
      rw [hread]
      exact gives_tailPart_ends _ _ _ h hrest middle
    · obtain ⟨hleft, hnegative⟩ := not_or.1 h
      rw [not_ne_iff] at hleft
      rw [Bool.not_eq_true] at hnegative
      refine .inl ⟨hnegative, (absorb 0 (digitValues whole)).1, fun rest place hrest => ?_⟩
      obtain ⟨middle, hread⟩ := unsigned_whole hw negative (hhead hrest) place
      refine ⟨middle, ?_⟩
      rw [hread, List.nil_append, tailPart_ends _ _ _ hrest, if_pos hleft, hnegative]
      rfl
  · refine .inr fun rest place hrest => ?_
    obtain ⟨middle, hread⟩ := unsigned_whole hw negative (hhead hrest) place
    rw [hread, htail]
    exact gives_tailPart hb _ _ _ _ _

/-- A number is read as a natural one, the same wherever it stands, or never as one. -/
theorem reader_cases {bytes : List UInt8} (h : IsNumber bytes) :
    (∃ n : Nat, ∀ rest place, Ends rest → ∃ place',
      reader ⟨bytes ++ rest, .complete, place⟩ = .ok (.integer n, ⟨rest, .complete, place'⟩)) ∨
    ∀ rest place, Ends rest → Gives (reader ⟨bytes ++ rest, .complete, place⟩) Unnatural := by
  cases h with
  | @positive whole fraction exponent hw hf he =>
    have hreader (rest : List UInt8) (place : Position) :
        reader ⟨whole ++ (fraction ++ exponent) ++ rest, .complete, place⟩ =
          unsigned false ⟨whole ++ (fraction ++ exponent ++ rest), .complete, place⟩ := by
      rw [List.append_assoc]
      exact reader_whole hw _ place
    simp only [hreader]
    exact (unsigned_cases hw hf he false).imp_left And.right
  | @negative whole fraction exponent hw hf he =>
    have hreader (rest : List UInt8) (place : Position) :
        reader ⟨0x2d :: (whole ++ (fraction ++ exponent)) ++ rest, .complete, place⟩ =
          unsigned true ⟨whole ++ (fraction ++ exponent ++ rest), .complete, place.past 0x2d⟩ := by
      rw [List.cons_append, List.append_assoc]
      rfl
    simp only [hreader]
    rcases unsigned_cases hw hf he true with ⟨hfalse, -⟩ | hunnatural
    · cases hfalse
    · exact .inr fun rest place => hunnatural rest (place.past 0x2d)

end Number

section Natural
variable {type : String} {bound : Nat} {c start after beyond : Cursor} {b : UInt8}

theorem natural_eq_error (h : valueStart c = .ok (start, b, after))
    (hb : ¬ Number.starts b = true) : ∃ failure, natural type bound c = .error failure := by
  rw [natural, h]
  simp only [ok_bind, if_neg hb]
  exact mismatch_eq_error _ _ _ _

theorem natural_of_integer (h : valueStart c = .ok (start, b, after)) (hb : Number.starts b = true)
    {n : Nat} (hread : Number.reader start = .ok (.integer n, beyond)) :
    natural type bound c =
      if n ≤ bound then .ok (n, beyond)
      else beyond.ahead.fail (.outOfRange (.integer n) type) := by
  rw [natural, h]
  simp only [ok_bind, if_pos hb, hread]
  rfl

theorem natural_of_unnatural (h : valueStart c = .ok (start, b, after))
    (hb : Number.starts b = true) (hread : Gives (Number.reader start) Number.Unnatural) :
    ∃ failure, natural type bound c = .error failure := by
  rw [natural, h]
  simp only [ok_bind, if_pos hb]
  refine exists_error_of_gives (hread.bind fun p hp => ?_)
  obtain ⟨number, beyond⟩ := p
  dsimp only
  split
  · next n => exact absurd rfl (hp n)
  · exact gives_fail _ _ _
  · exact gives_fail _ _ _

end Natural

theorem settles_natural_number (type : String) (bound : Nat) {bytes : List UInt8}
    (h : IsNumber bytes) : Settles (natural type bound) bytes := by
  have hcases := Number.reader_cases h
  obtain ⟨b, more, rfl, hb⟩ := h.starts
  have hsolid := (starts_of_number hb).solid
  rcases hcases with ⟨n, hread⟩ | hunnatural
  · by_cases hn : n ≤ bound
    · refine .inl ⟨n, fun blanks rest place hblanks hrest => ?_⟩
      obtain ⟨middle, hstart⟩ := valueStart_append hblanks hsolid (more ++ rest) place
      obtain ⟨place', hreader⟩ := hread rest middle hrest
      refine ⟨place', ?_⟩
      rw [List.cons_append, natural_of_integer hstart hb hreader, if_pos hn]
    · refine .inr fun blanks rest place hblanks hrest => ?_
      obtain ⟨middle, hstart⟩ := valueStart_append hblanks hsolid (more ++ rest) place
      obtain ⟨place', hreader⟩ := hread rest middle hrest
      rw [List.cons_append, natural_of_integer hstart hb hreader, if_neg hn]
      exact ⟨_, rfl⟩
  · refine .inr fun blanks rest place hblanks hrest => ?_
    obtain ⟨middle, hstart⟩ := valueStart_append hblanks hsolid (more ++ rest) place
    exact natural_of_unnatural hstart hb (hunnatural rest middle hrest)

theorem settles_natural (type : String) (bound : Nat) {bytes : List UInt8} (h : IsValue bytes) :
    Settles (natural type bound) bytes := by
  have hrefuses {b : UInt8} (hb : Starts b) (hnumber : ¬ Number.starts b = true)
      (more : List UInt8) : Settles (natural type bound) (b :: more) :=
    .inr (refuses_of_start hb more fun _ _ _ hstart => natural_eq_error hstart hnumber)
  cases h.kind with
  | text => exact hrefuses starts_quote (by decide) _
  | number hnumber => exact settles_natural_number type bound hnumber
  | object => exact hrefuses starts_brace (by decide) _
  | foreign hb => exact hrefuses hb.starts (by simp [hb.notNumber]) _

theorem settles_uint32 {bytes : List UInt8} (h : IsValue bytes) : Settles uint32 bytes :=
  (settles_natural "u32" (UInt32.size - 1) h).map Nat.toUInt32

end DeviceConsole.Json
