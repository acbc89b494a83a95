import DeviceConsole.Proofs.Json.Printing

/-!
What is printed without indentation is one line.

A control character in a text is printed as its escape, and nothing else that is printed holds one;
only the indented layout breaks lines. So every character of a compact text is a space or comes after
it in the order of code points (`printing_compact`), and a line end that stands behind such a text is
the first one.
-/
namespace DeviceConsole.Json
open DeviceConsole.Stream

/-- Without control characters. -/
def Printing (cs : List Char) : Prop := ∀ c ∈ cs, 0x20 ≤ c.toNat

@[simp] theorem printing_nil : Printing [] := nofun

@[simp] theorem printing_cons_iff {c : Char} {cs : List Char} :
    Printing (c :: cs) ↔ 0x20 ≤ c.toNat ∧ Printing cs :=
  List.forall_mem_cons

@[simp] theorem printing_append_iff {cs ds : List Char} :
    Printing (cs ++ ds) ↔ Printing cs ∧ Printing ds :=
  List.forall_mem_append

/-! ### Texts -/

theorem printing_hexDigit {n : Nat} (h : n < 16) : 0x20 ≤ (hexDigit n).toNat :=
  (by decide : ∀ n < 16, 0x20 ≤ (hexDigit n).toNat) n h

theorem printing_escaped (c : Char) : Printing (escaped c) := by
  unfold escaped
  split
  case h_8 =>
    split
    · next hcontrol =>
      have hhigh := printing_hexDigit (n := c.toNat / 16) (by omega)
      have hlow := printing_hexDigit (n := c.toNat % 16) (by omega)
      simp [hhigh, hlow]
    · next hcontrol => simpa using hcontrol
  all_goals simp

theorem printing_quote (s : String) : Printing (quote s) := by
  have hescaped : Printing (s.toList.flatMap escaped) := by
    intro c hc
    obtain ⟨d, -, hd⟩ := List.mem_flatMap.1 hc
    exact printing_escaped d c hd
  simp [quote, hescaped]

/-! ### Numbers -/

/-- A control character is its own byte, so it is looked for among the bytes. -/
theorem printing_of_utf8 {cs : List Char} (h : ∀ b ∈ utf8 cs, 0x20 ≤ b) : Printing cs := by
  intro c hc
  by_cases hascii : c.toNat < 0x80
  · have hle := h _ ((mem_utf8_iff hascii).2 hc)
    rwa [UInt8.le_iff_toNat_le, toNat_ofNat_ascii hascii] at hle
  · exact Nat.le_trans (by decide) (Nat.le_of_not_lt hascii)

theorem IsDigit.printing {b : UInt8} (h : IsDigit b) : 0x20 ≤ b :=
  UInt8.le_trans (by decide) h.1

theorem Digits.printing {bytes : List UInt8} (h : Digits bytes) : ∀ b ∈ bytes, 0x20 ≤ b :=
  fun b hb => (h.digits b hb).printing

theorem Whole.printing {bytes : List UInt8} (h : Whole bytes) : ∀ b ∈ bytes, 0x20 ≤ b := by
  cases h with
  | zero => exact List.forall_mem_singleton.2 (by decide)
  | digits hb _ h => exact List.forall_mem_cons.2 ⟨hb.printing, fun d hd => (h d hd).printing⟩

theorem Fraction.printing {bytes : List UInt8} (h : Fraction bytes) : ∀ b ∈ bytes, 0x20 ≤ b := by
  cases h with
  | absent => exact nofun
  | present h => exact List.forall_mem_cons.2 ⟨by decide, h.printing⟩

theorem Exponent.printing {bytes : List UInt8} (h : Exponent bytes) : ∀ b ∈ bytes, 0x20 ≤ b := by
  have hletter {e : UInt8} (he : e = 0x65 ∨ e = 0x45) : 0x20 ≤ e := by
    rcases he with rfl | rfl <;> decide
  cases h with
  | absent => exact nofun
  | unsigned he h => exact List.forall_mem_cons.2 ⟨hletter he, h.printing⟩
  | @signed e sign bytes he hsign h =>
    have hplus : 0x20 ≤ sign := by rcases hsign with rfl | rfl <;> decide
    exact List.forall_mem_cons.2 ⟨hletter he, List.forall_mem_cons.2 ⟨hplus, h.printing⟩⟩

theorem IsNumber.printing {bytes : List UInt8} (h : IsNumber bytes) : ∀ b ∈ bytes, 0x20 ≤ b := by
  cases h with
  | positive hw hf he =>
    exact List.forall_mem_append.2 ⟨hw.printing, List.forall_mem_append.2 ⟨hf.printing, he.printing⟩⟩
  | negative hw hf he =>
    exact List.forall_mem_cons.2 ⟨by decide,
      List.forall_mem_append.2 ⟨hw.printing, List.forall_mem_append.2 ⟨hf.printing, he.printing⟩⟩⟩

theorem printing_integerText (i : Int) : Printing (integerText i) :=
  printing_of_utf8 (isNumber_integerText i).printing

theorem printing_realText (x : Float) : Printing (realText x) := by
  refine printing_of_utf8 fun b hb => ?_
  rcases realText_cases x with hnull | hnumber
  · rw [hnull] at hb
    exact (forall_mem_of_all (by decide) :
      ∀ b ∈ ([0x6e, 0x75, 0x6c, 0x6c] : List UInt8), 0x20 ≤ b) b hb
  · exact hnumber.printing b hb

/-! ### Values -/

theorem printing_gap (level : Nat) : Printing (Layout.compact.gap level) := printing_nil

theorem printing_colon : Printing Layout.compact.colon := by simp [Layout.colon]

mutual

theorem printing_chars : (v : Value) → (level : Nat) → Printing (v.chars .compact level)
  | .null, _ => by simp [Value.chars]
  | .bool true, _ => by simp [Value.chars]
  | .bool false, _ => by simp [Value.chars]
  | .integer i, _ => by
    rw [Value.chars]
    exact printing_integerText i
  | .real x, _ => by
    rw [Value.chars]
    exact printing_realText x
  | .text s, _ => by
    rw [Value.chars]
    exact printing_quote s
  | .list [], _ => by simp [Value.chars]
  | .list (v :: items), level => by
    simp [Value.chars, printing_gap, printing_chars v, printing_items items]
  | .object [], _ => by simp [Value.chars]
  | .object ((name, v) :: members), level => by
    simp [Value.chars, printing_gap, printing_colon, printing_quote, printing_chars v,
      printing_members members]

theorem printing_items : (items : List Value) → (level : Nat) →
    Printing (itemsChars .compact level items)
  | [], _ => by simp [itemsChars]
  | v :: items, level => by
    simp [itemsChars, printing_gap, printing_chars v, printing_items items]

theorem printing_members : (members : List (String × Value)) → (level : Nat) →
    Printing (membersChars .compact level members)
  | [], _ => by simp [membersChars]
  | (name, v) :: members, level => by
    simp [membersChars, printing_gap, printing_colon, printing_quote, printing_chars v,
      printing_members members]

end

/-- **A compact text is one line**, whatever texts the value holds. -/
theorem printing_compact (v : Value) : Printing v.compact.toList := by
  rw [Value.compact, String.toList_ofList]
  exact printing_chars v 0

end DeviceConsole.Json
