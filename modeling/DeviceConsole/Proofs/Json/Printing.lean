import DeviceConsole.Proofs.Json.Reading

/-!
What is printed is well formed, in either layout.

A text is quoted so that it is spelled (`quotes_quote`). The entries of a container are printed as
the grammar wants them (`enclosed_list`, `enclosed_object`), so a printed value is a value of the
grammar, whatever it holds (`isValue_bytes`), and a container that is printed can be read entry by
entry.
-/
namespace DeviceConsole.Json
open DeviceConsole.Stream

/-! ### Texts -/

/-- Bytes that stand for themselves. -/
theorem spells_plain {bytes rest out : List UInt8} (h : ∀ b ∈ bytes, IsPlain b)
    (hrest : Spells rest out) : Spells (bytes ++ rest) (bytes ++ out) := by
  induction bytes with
  | nil => exact hrest
  | cons b bytes ih =>
    exact .plain (h b List.mem_cons_self) (ih fun c hc => h c (List.mem_cons_of_mem b hc))

theorem exists_hexDigit {n : Nat} (h : n < 16) :
    ∃ b, String.utf8EncodeChar (hexDigit n) = [b] ∧ HexDigit b n := by
  by_cases hn : n < 10
  · exact ⟨_, (by decide : ∀ n < 10, String.utf8EncodeChar (hexDigit n) = [UInt8.ofNat (0x30 + n)])
      n hn, .decimal hn⟩
  · obtain ⟨k, rfl⟩ : ∃ k, n = 10 + k := ⟨n - 10, by omega⟩
    exact ⟨_, (by decide : ∀ k < 6, String.utf8EncodeChar (hexDigit (10 + k)) =
      [UInt8.ofNat (0x61 + k)]) k (by omega), .lower (by omega)⟩

/-- A control character as the digits of its code point. -/
theorem spells_control {c : Char} (h : c.toNat < 0x20) {rest out : List UInt8}
    (hrest : Spells rest out) :
    Spells (utf8 ['\\', 'u', '0', '0', hexDigit (c.toNat / 16), hexDigit (c.toNat % 16)] ++ rest)
      (String.utf8EncodeChar c ++ out) := by
  obtain ⟨high, hencode, hhigh⟩ := exists_hexDigit (n := c.toNat / 16) (by omega)
  obtain ⟨low, hencode', hlow⟩ := exists_hexDigit (n := c.toNat % 16) (by omega)
  have hzero : HexDigit 0x30 0 := .decimal (n := 0) (by decide)
  have hunit := HexUnit.mk hzero hzero hhigh hlow
  have hvalue : ((0 * 16 + 0) * 16 + c.toNat / 16) * 16 + c.toNat % 16 = c.toNat := by omega
  rw [hvalue] at hunit
  have hspells := Spells.unit hunit (.inl (by omega)) hrest
  rw [Char.ofNat_toNat] at hspells
  have hbytes : utf8 ['\\', 'u', '0', '0', hexDigit (c.toNat / 16), hexDigit (c.toNat % 16)] =
      [0x5c, 0x75, 0x30, 0x30, high, low] := by
    simp only [utf8_cons, hencode, hencode', utf8_nil]
    rfl
  rw [hbytes]
  exact hspells

/-- The bytes of a character that need not be escaped. -/
theorem isPlain_of_mem {c : Char} (hcontrol : ¬ c.toNat < 0x20) (hquote : c ≠ '"')
    (hbackslash : c ≠ '\\') : ∀ b ∈ String.utf8EncodeChar c, IsPlain b := by
  intro b hb
  rw [← utf8_singleton] at hb
  have hne {d : Char} (hd : d.toNat < 0x80) (hcd : c ≠ d) : b ≠ UInt8.ofNat d.toNat := by
    rintro rfl
    exact hcd (List.mem_singleton.1 ((mem_utf8_iff hd).1 hb)).symm
  refine ⟨?_, hne (d := '"') (by decide) hquote, hne (d := '\\') (by decide) hbackslash⟩
  rw [utf8_singleton] at hb
  by_cases hascii : c.toNat < 0x80
  · rw [utf8EncodeChar_ascii hascii, List.mem_singleton] at hb
    rw [hb, UInt8.le_iff_toNat_le, toNat_ofNat_ascii hascii]
    exact Nat.le_of_not_lt hcontrol
  · exact UInt8.le_trans (by decide) (le_of_mem_utf8EncodeChar (by omega) hb)

theorem spells_escaped (c : Char) {rest out : List UInt8} (hrest : Spells rest out) :
    Spells (utf8 (escaped c) ++ rest) (String.utf8EncodeChar c ++ out) := by
  unfold escaped
  split
  · exact .letter (b := 0x22) (by decide) hrest
  · exact .letter (b := 0x5c) (by decide) hrest
  · exact .letter (b := 0x62) (by decide) hrest
  · exact .letter (b := 0x66) (by decide) hrest
  · exact .letter (b := 0x6e) (by decide) hrest
  · exact .letter (b := 0x72) (by decide) hrest
  · exact .letter (b := 0x74) (by decide) hrest
  · next hquote hbackslash _ _ _ _ _ =>
    split
    · next hcontrol => exact spells_control hcontrol hrest
    · next hcontrol =>
      rw [utf8_singleton]
      exact spells_plain (isPlain_of_mem hcontrol hquote hbackslash) hrest

theorem quotes_quote (s : String) : Quotes (utf8 (quote s)) s := by
  have hspells (cs : List Char) : Spells (utf8 (cs.flatMap escaped)) (utf8 cs) := by
    induction cs with
    | nil => exact .nothing
    | cons c cs ih =>
      rw [List.flatMap_cons, utf8_append]
      exact spells_escaped c ih
  have hquote : utf8 (quote s) = 0x22 :: (utf8 (s.toList.flatMap escaped) ++ [0x22]) := by
    rw [quote, utf8_cons, utf8_append]
    rfl
  rw [hquote]
  refine .mk ?_
  rw [bytesOf_eq_utf8]
  exact hspells s.toList

/-! ### Containers -/

theorem blanks_gap (l : Layout) (level : Nat) : Blanks (utf8 (l.gap level)) := by
  cases l with
  | compact => exact blanks_nil
  | indented =>
    intro b hb
    obtain ⟨c, hc, hbc⟩ := List.mem_flatMap.1 hb
    rcases List.mem_cons.1 hc with rfl | hc
    · obtain rfl := List.mem_singleton.1 hbc
      decide
    · rw [List.eq_of_mem_replicate hc] at hbc
      obtain rfl := List.mem_singleton.1 hbc
      decide

theorem assigns_colon (l : Layout) (value : List UInt8) : Assigns value (utf8 l.colon ++ value) := by
  cases l with
  | compact => exact .mk blanks_nil blanks_nil
  | indented =>
    have hspace : Blanks [0x20] := by simp [Blanks]
    exact .mk blanks_nil hspace

/-- The bytes of a value nested in a container. -/
def Value.bytes (l : Layout) (level : Nat) (v : Value) : List UInt8 := utf8 (v.chars l level)

/-- The bytes of a member of an object. -/
def memberBytes (l : Layout) (level : Nat) (m : String × Value) : List UInt8 :=
  utf8 (quote m.1) ++ (utf8 l.colon ++ m.2.bytes l level)

/-- An entry behind the comma and the gap that a printer puts before it. -/
theorem entries_cons (l : Layout) (level : Nat) {close : UInt8} (entry : List UInt8)
    {entries : List (List UInt8)} {rest : List UInt8} (h : Entries close entries rest) :
    Entries close (entry :: entries) (0x2c :: (utf8 (l.gap level) ++ (entry ++ rest))) :=
  .cons blanks_nil (blanks_gap l level) h

theorem enclosed_cons (l : Layout) (level : Nat) {close : UInt8} (entry : List UInt8)
    {entries : List (List UInt8)} {rest : List UInt8} (h : Entries close entries rest) :
    Enclosed close (entry :: entries) (utf8 (l.gap level) ++ (entry ++ rest)) :=
  .cons (blanks_gap l level) h

theorem entries_items (l : Layout) (level : Nat) (items : List Value) {gap : List UInt8}
    (hgap : Blanks gap) :
    Entries 0x5d (items.map (Value.bytes l level))
      (utf8 (itemsChars l level items) ++ (gap ++ [0x5d])) := by
  induction items with
  | nil =>
    rw [itemsChars]
    exact .nil hgap
  | cons v items ih =>
    have hentry := entries_cons l level (v.bytes l level) ih
    rw [itemsChars, utf8_cons, utf8_append, utf8_append]
    simpa [Value.bytes, String.utf8EncodeChar] using hentry

theorem entries_members (l : Layout) (level : Nat) (members : List (String × Value))
    {gap : List UInt8} (hgap : Blanks gap) :
    Entries 0x7d (members.map (memberBytes l level))
      (utf8 (membersChars l level members) ++ (gap ++ [0x7d])) := by
  induction members with
  | nil =>
    rw [membersChars]
    exact .nil hgap
  | cons m members ih =>
    obtain ⟨name, v⟩ := m
    have hentry := entries_cons l level (memberBytes l level (name, v)) ih
    rw [membersChars, utf8_cons]
    simpa [memberBytes, Value.bytes, String.utf8EncodeChar] using hentry

/-- A list is printed as its items between brackets. -/
theorem enclosed_list (l : Layout) (level : Nat) (items : List Value) :
    ∃ bytes, (Value.list items).bytes l level = 0x5b :: bytes ∧
      Enclosed 0x5d (items.map (Value.bytes l (level + 1))) bytes := by
  cases items with
  | nil => exact ⟨[0x5d], rfl, .nil blanks_nil⟩
  | cons v items =>
    have hentries := entries_items l (level + 1) items (blanks_gap l level)
    have henclosed := enclosed_cons l (level + 1) (v.bytes l (level + 1)) hentries
    refine ⟨_, ?_, henclosed⟩
    simp [Value.bytes, Value.chars, String.utf8EncodeChar]

theorem enclosed_object (l : Layout) (level : Nat) (members : List (String × Value)) :
    ∃ bytes, (Value.object members).bytes l level = 0x7b :: bytes ∧
      Enclosed 0x7d (members.map (memberBytes l (level + 1))) bytes := by
  cases members with
  | nil => exact ⟨[0x7d], rfl, .nil blanks_nil⟩
  | cons m members =>
    obtain ⟨name, v⟩ := m
    have hentries := entries_members l (level + 1) members (blanks_gap l level)
    have henclosed := enclosed_cons l (level + 1) (memberBytes l (level + 1) (name, v)) hentries
    refine ⟨_, ?_, henclosed⟩
    simp [memberBytes, Value.bytes, Value.chars, String.utf8EncodeChar]

/-! ### Values -/

variable (l : Layout) (level : Nat)

theorem bytes_null : Value.null.bytes l level = [0x6e, 0x75, 0x6c, 0x6c] := rfl

theorem bytes_bool (b : Bool) : (Value.bool b).bytes l level = wordOf b := by
  cases b <;> rfl

theorem bytes_text (s : String) : (Value.text s).bytes l level = utf8 (quote s) := rfl

theorem isValue_real (x : Float) : IsValue (utf8 (realText x)) := by
  rcases realText_cases x with hnull | hnumber
  · rw [hnull]
    exact .word (by decide)
  · exact .number hnumber

theorem isMember_memberBytes (members : List (String × Value)) :
    List.Forall₂ IsMember (members.map fun m => (utf8 (quote m.1), m.2.bytes l level))
      (members.map (memberBytes l level)) := by
  rw [List.forall₂_map_left_iff, List.forall₂_map_right_iff, List.forall₂_same]
  exact fun m _ => .mk (assigns_colon l (m.2.bytes l level))

mutual

/-- **A printed value is well formed**, in either layout and however deep it is nested. -/
theorem isValue_bytes : (v : Value) → (level : Nat) → IsValue (v.bytes l level)
  | .null, level => by
    rw [bytes_null]
    exact .word (by decide)
  | .bool b, level => by
    rw [bytes_bool]
    exact .word (by cases b <;> decide)
  | .integer i, _ => .number (isNumber_integerText i)
  | .real x, _ => isValue_real x
  | .text s, _ => .text (quotes_quote s).isQuoted
  | .list items, level => by
    obtain ⟨bytes, hbytes, henclosed⟩ := enclosed_list l level items
    rw [hbytes]
    exact .list henclosed (isValue_items items (level + 1))
  | .object members, level => by
    obtain ⟨bytes, hbytes, henclosed⟩ := enclosed_object l level members
    rw [hbytes]
    refine .object henclosed (isMember_memberBytes l (level + 1) members) (fun m hm => ?_)
      (isValue_members members (level + 1))
    obtain ⟨member, -, rfl⟩ := List.mem_map.1 hm
    exact (quotes_quote member.1).isQuoted

theorem isValue_items : (items : List Value) → (level : Nat) →
    ∀ entry ∈ items.map (Value.bytes l level), IsValue entry
  | [], _, _, h => absurd h List.not_mem_nil
  | v :: items, level, entry, h => by
    rcases List.mem_cons.1 h with rfl | h
    · exact isValue_bytes v level
    · exact isValue_items items level entry h

theorem isValue_members : (members : List (String × Value)) → (level : Nat) →
    ∀ m ∈ members.map fun m => (utf8 (quote m.1), m.2.bytes l level), IsValue m.2
  | [], _, _, h => absurd h List.not_mem_nil
  | (name, v) :: members, level, m, h => by
    rcases List.mem_cons.1 h with rfl | h
    · exact isValue_bytes v level
    · exact isValue_members members level m h

end

end DeviceConsole.Json
