import DeviceConsole.Proofs.Lists
import DeviceConsole.Text.Pieces
import DeviceConsole.Text.Quoted

/-!
A text that is quoted for a diagnostic is told from every other one.

No character is shown so that what is shown begins like another one, and none of it begins with the
quote that ends the text. So a quoted text ends where it is seen to end, whatever is printed behind
it, and says exactly which text it is (`quotedChars_append_inj`).
-/
namespace DeviceConsole.Text

/-! ### Hexadecimal digits -/

theorem digitChar_injective :
    ∀ m < 16, ∀ n < 16, Nat.digitChar m = Nat.digitChar n → m = n := by decide

theorem brace_ne_digitChar : ∀ n < 16, '\x7d' ≠ Nat.digitChar n := by decide

/-- The digits of a number are those of its sixteenth and one more. -/
theorem toDigits_of_le {n : Nat} (h : 16 ≤ n) :
    Nat.toDigits 16 n = Nat.toDigits 16 (n / 16) ++ [Nat.digitChar (n % 16)] :=
  Nat.toDigits_of_base_le (by decide) h

theorem brace_not_mem_toDigits (n : Nat) : '\x7d' ∉ Nat.toDigits 16 n := by
  induction n using Nat.strongRecOn with
  | ind n ih =>
    by_cases h : n < 16
    · rw [Nat.toDigits_of_lt_base h, List.mem_singleton]
      exact brace_ne_digitChar n h
    · have hless : n / 16 < n := by omega
      rw [toDigits_of_le (Nat.le_of_not_lt h), List.mem_append, List.mem_singleton]
      intro hmem
      rcases hmem with hmem | hmem
      · exact ih _ hless hmem
      · exact brace_ne_digitChar _ (Nat.mod_lt n (by decide)) hmem

theorem toDigits_injective {m n : Nat} (h : Nat.toDigits 16 m = Nat.toDigits 16 n) : m = n := by
  induction m using Nat.strongRecOn generalizing n with
  | ind m ih =>
    -- A number below sixteen has one digit and no other number has.
    have hlong {k : Nat} (hk : 16 ≤ k) (d : Char) : Nat.toDigits 16 k ≠ [d] := by
      rw [toDigits_of_le hk]
      intro hone
      exact Nat.toDigits_ne_nil (List.append_eq_singleton_iff.1 hone |>.resolve_right (by simp)).1
    by_cases hm : m < 16
    · by_cases hn : n < 16
      · rw [Nat.toDigits_of_lt_base hm, Nat.toDigits_of_lt_base hn] at h
        exact digitChar_injective m hm n hn (List.singleton_inj.1 h)
      · rw [Nat.toDigits_of_lt_base hm] at h
        exact absurd h.symm (hlong (Nat.le_of_not_lt hn) _)
    · by_cases hn : n < 16
      · rw [Nat.toDigits_of_lt_base hn] at h
        exact absurd h (hlong (Nat.le_of_not_lt hm) _)
      · rw [toDigits_of_le (Nat.le_of_not_lt hm), toDigits_of_le (Nat.le_of_not_lt hn)] at h
        obtain ⟨hhigh, hlow⟩ := List.append_inj' h rfl
        have hquotient : m / 16 = n / 16 := ih (m / 16) (by omega) hhigh
        have hremainder : m % 16 = n % 16 := digitChar_injective _ (Nat.mod_lt m (by decide)) _
          (Nat.mod_lt n (by decide)) (List.singleton_inj.1 hlow)
        omega

/-! ### Characters -/

/-- The characters that have an escape of one letter, and the letter. -/
def shortEscapes : List (Char × Char) :=
  [('\x00', '0'), ('\t', 't'), ('\r', 'r'), ('\n', 'n'), ('\\', '\\'), ('"', '"')]

/-- What a character is shown as inside a quoted text. -/
inductive Shows : Char → List Char → Prop
  | short {c letter : Char} (h : (c, letter) ∈ shortEscapes) : Shows c ['\\', letter]
  | plain {c : Char} (hquote : c ≠ '"') (hbackslash : c ≠ '\\') : Shows c [c]
  | coded {c : Char} : Shows c (codePoint c)

theorem shows_quotedChar (c : Char) : Shows c (quotedChar c) := by
  unfold quotedChar
  split
  case h_7 hbackslash hquote =>
    split
    · exact .plain hquote hbackslash
    · exact .coded
  all_goals exact .short (by decide)

theorem shortEscapes_injective {c d letter : Char} (hc : (c, letter) ∈ shortEscapes)
    (hd : (d, letter) ∈ shortEscapes) : c = d :=
  (forall_mem_of_all (by decide) :
    ∀ p ∈ shortEscapes, ∀ q ∈ shortEscapes, p.2 = q.2 → p.1 = q.1) _ hc _ hd rfl

theorem ne_of_mem_shortEscapes {c letter : Char} (h : (c, letter) ∈ shortEscapes) :
    letter ≠ 'u' :=
  (forall_mem_of_all (by decide) : ∀ p ∈ shortEscapes, p.2 ≠ 'u') _ h

theorem codePoint_append (c : Char) (rest : List Char) :
    codePoint c ++ rest =
      '\\' :: 'u' :: '\x7b' :: (Nat.toDigits 16 c.toNat ++ '\x7d' :: rest) := by
  simp [codePoint]

/-- Characters that are shown in the same way in front are the same. -/
theorem Shows.append_inj {c d : Char} {as bs x y : List Char} (hc : Shows c as) (hd : Shows d bs)
    (h : as ++ x = bs ++ y) : c = d ∧ x = y := by
  cases hc with
  | short hc =>
    cases hd with
    | short hd =>
      obtain ⟨-, htail⟩ := List.cons.inj h
      obtain ⟨rfl, hrest⟩ := List.cons.inj htail
      exact ⟨shortEscapes_injective hc hd, hrest⟩
    | plain _ hbackslash => exact absurd (List.cons.inj h).1.symm hbackslash
    | coded =>
      rw [codePoint_append] at h
      exact absurd (List.cons.inj (List.cons.inj h).2).1 (ne_of_mem_shortEscapes hc)
  | plain _ hbackslash =>
    cases hd with
    | short => exact absurd (List.cons.inj h).1 hbackslash
    | plain => exact List.cons.inj h
    | coded =>
      rw [codePoint_append] at h
      exact absurd (List.cons.inj h).1 hbackslash
  | coded =>
    rw [codePoint_append] at h
    cases hd with
    | short hd => exact absurd (List.cons.inj (List.cons.inj h).2).1.symm (ne_of_mem_shortEscapes hd)
    | plain _ hbackslash => exact absurd (List.cons.inj h).1.symm hbackslash
    | coded =>
      rw [codePoint_append] at h
      have htail := (List.cons.inj (List.cons.inj (List.cons.inj h).2).2).2
      have hcut := congrArg (cut? '\x7d') htail
      rw [cut?_append x (brace_not_mem_toDigits _), cut?_append y (brace_not_mem_toDigits _)] at hcut
      obtain ⟨hdigits, hrest⟩ := Prod.mk.inj (Option.some_inj.1 hcut)
      exact ⟨Char.toNat_inj.1 (toDigits_injective hdigits), hrest⟩

/-- What is shown of a character does not end the text. -/
theorem Shows.ne_quote {c : Char} {as x y : List Char} (h : Shows c as) : as ++ x ≠ '"' :: y := by
  intro heq
  cases h with
  | short => exact absurd (List.cons.inj heq).1 (by decide)
  | plain hquote => exact hquote (List.cons.inj heq).1
  | coded =>
    rw [codePoint_append] at heq
    exact absurd (List.cons.inj heq).1 (by decide)

/-! ### Texts -/

/-- Two texts that are quoted with something behind them and read alike are the same. -/
theorem quotedChars_append_inj {cs ds x y : List Char}
    (h : cs.flatMap quotedChar ++ '"' :: x = ds.flatMap quotedChar ++ '"' :: y) :
    cs = ds ∧ x = y := by
  induction cs generalizing ds with
  | nil =>
    cases ds with
    | nil => exact ⟨rfl, (List.cons.inj h).2⟩
    | cons d ds =>
      rw [List.flatMap_cons, List.append_assoc] at h
      exact absurd h.symm (shows_quotedChar d).ne_quote
  | cons c cs ih =>
    rw [List.flatMap_cons, List.append_assoc] at h
    cases ds with
    | nil => exact absurd h (shows_quotedChar c).ne_quote
    | cons d ds =>
      rw [List.flatMap_cons, List.append_assoc] at h
      obtain ⟨rfl, hrest⟩ := (shows_quotedChar c).append_inj (shows_quotedChar d) h
      obtain ⟨rfl, rfl⟩ := ih hrest
      exact ⟨rfl, rfl⟩

theorem quoted_append_inj {s t : String} {x y : List Char}
    (h : (quoted s).toList ++ x = (quoted t).toList ++ y) : s = t ∧ x = y := by
  simp only [quoted, String.toList_ofList, List.cons_append, List.append_assoc] at h
  obtain ⟨hchars, hrest⟩ := quotedChars_append_inj (List.cons.inj h).2
  exact ⟨String.toList_inj.1 hchars, hrest⟩

end DeviceConsole.Text
