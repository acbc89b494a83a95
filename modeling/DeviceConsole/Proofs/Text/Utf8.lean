import DeviceConsole.Stream

/-!
The bytes of a text, character by character.

A text's bytes are those of its characters in order (`bytesOf_ofList`). The characters below 0x80 are
one byte each, their own code point, and every byte of any other character is 0x80 or more. So a byte
below 0x80 stands for one character wherever it occurs, and looking for a line feed or a quote among
the bytes is looking for it among the characters (`mem_utf8_iff`).
-/
namespace DeviceConsole.Stream

/-- The bytes of characters. -/
def utf8 (cs : List Char) : List UInt8 :=
  cs.flatMap String.utf8EncodeChar

@[simp] theorem utf8_nil : utf8 [] = [] := rfl

@[simp] theorem utf8_cons (c : Char) (cs : List Char) :
    utf8 (c :: cs) = String.utf8EncodeChar c ++ utf8 cs := rfl

@[simp] theorem utf8_append (cs ds : List Char) : utf8 (cs ++ ds) = utf8 cs ++ utf8 ds :=
  List.flatMap_append

theorem utf8_singleton (c : Char) : utf8 [c] = String.utf8EncodeChar c :=
  List.append_nil _

theorem bytesOf_ofList (cs : List Char) : bytesOf (String.ofList cs) = utf8 cs := by
  simp [bytesOf, String.toUTF8, List.utf8Encode, utf8]

theorem bytesOf_eq_utf8 (s : String) : bytesOf s = utf8 s.toList := by
  rw [← bytesOf_ofList, String.ofList_toList]

theorem bytesOf_append (s t : String) : bytesOf (s ++ t) = bytesOf s ++ bytesOf t := by
  simp only [bytesOf_eq_utf8, String.toList_append, utf8_append]

theorem text?_utf8 (cs : List Char) : text? (utf8 cs) = some (String.ofList cs) := by
  rw [← bytesOf_ofList, text?_bytesOf]

theorem utf8_injective {cs ds : List Char} (h : utf8 cs = utf8 ds) : cs = ds := by
  have htext := congrArg text? h
  rw [text?_utf8, text?_utf8] at htext
  exact String.ofList_injective (Option.some_inj.1 htext)

/-! ### Single bytes -/

theorem utf8EncodeChar_ascii {c : Char} (h : c.toNat < 0x80) :
    String.utf8EncodeChar c = [UInt8.ofNat c.toNat] :=
  if_pos (Nat.le_of_lt_succ h)

theorem le_ofNat {n : Nat} (h : 0x80 ≤ n) (hlt : n < 0x100) : 0x80 ≤ UInt8.ofNat n := by
  rw [UInt8.le_iff_toNat_le, UInt8.toNat_ofNat_of_lt' hlt]
  exact h

/-- No byte of a longer character could be mistaken for a one-byte character. -/
theorem le_of_mem_utf8EncodeChar {c : Char} {b : UInt8} (h : 0x80 ≤ c.toNat)
    (hb : b ∈ String.utf8EncodeChar c) : 0x80 ≤ b := by
  have hlong : ¬ c.val.toNat ≤ 0x7f := Nat.not_le_of_lt h
  simp only [String.utf8EncodeChar, if_neg hlong] at hb
  split at hb
  · simp only [List.mem_cons, List.not_mem_nil, or_false] at hb
    rcases hb with rfl | rfl <;> exact le_ofNat (by omega) (by omega)
  · split at hb
    · simp only [List.mem_cons, List.not_mem_nil, or_false] at hb
      rcases hb with rfl | rfl | rfl <;> exact le_ofNat (by omega) (by omega)
    · simp only [List.mem_cons, List.not_mem_nil, or_false] at hb
      rcases hb with rfl | rfl | rfl | rfl <;> exact le_ofNat (by omega) (by omega)

theorem toNat_ofNat_ascii {c : Char} (h : c.toNat < 0x80) :
    (UInt8.ofNat c.toNat).toNat = c.toNat :=
  UInt8.toNat_ofNat_of_lt' (Nat.lt_trans h (by decide))

/-- The one-byte characters are found among the bytes. -/
theorem mem_utf8_iff {c : Char} (hc : c.toNat < 0x80) {cs : List Char} :
    UInt8.ofNat c.toNat ∈ utf8 cs ↔ c ∈ cs := by
  constructor
  · intro h
    obtain ⟨d, hd, hb⟩ := List.mem_flatMap.1 h
    by_cases hascii : d.toNat < 0x80
    · rw [utf8EncodeChar_ascii hascii, List.mem_singleton] at hb
      have hnat := congrArg UInt8.toNat hb
      rw [toNat_ofNat_ascii hc, toNat_ofNat_ascii hascii] at hnat
      rwa [Char.toNat_inj.1 hnat]
    · have hle := le_of_mem_utf8EncodeChar (by omega) hb
      rw [UInt8.le_iff_toNat_le, toNat_ofNat_ascii hc] at hle
      exact absurd hc (Nat.not_lt_of_le hle)
  · intro h
    exact List.mem_flatMap.2 ⟨c, h, by rw [utf8EncodeChar_ascii hc]; exact List.mem_singleton_self _⟩

end DeviceConsole.Stream
