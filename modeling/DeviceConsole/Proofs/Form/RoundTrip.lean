import DeviceConsole.Form

/-!
What is written in a query reads back.

Byte by byte, what stands for a byte reads as that byte whatever follows it
(`decodeBytes_encodeByte`), so a name or a value reads back through its UTF-8 (`decode?_encode`).
Neither is ever written with one of the two separators, so cutting at the separators finds the pairs
again, all of them and no others (`decodePairs?_encodePairs`).
-/
namespace DeviceConsole.Form

/-! ### Bytes -/

/-- What holds of the 256 bytes holds of every byte. -/
theorem forall_byte {P : UInt8 → Prop} (h : ∀ n < 256, P (UInt8.ofNat n)) (b : UInt8) : P b := by
  have hb := h b.toNat b.toNat_lt
  rwa [UInt8.ofNat_toNat] at hb

/-- The characters that a byte is written with. -/
def isWritten (c : Char) : Bool :=
  c.isAlphanum || ['*', '-', '.', '_', '+', '%'].contains c

/-- A byte that stands for itself is written as the one character whose UTF-8 it is. -/
theorem plain_char (b : UInt8) (h : isPlain b = true) :
    isWritten (Char.ofNat b.toNat) = true ∧ Char.ofNat b.toNat ≠ '+' ∧ Char.ofNat b.toNat ≠ '%' ∧
      String.utf8EncodeChar (Char.ofNat b.toNat) = [b] := by
  revert b
  exact forall_byte (by decide +kernel)

theorem hexValue?_hexDigit : ∀ n < 16, hexValue? (hexDigit n) = some n := by decide

theorem isWritten_hexDigit : ∀ n < 16, isWritten (hexDigit n) = true := by decide

theorem isWritten_of_mem_encodeByte {b : UInt8} {c : Char} (h : c ∈ encodeByte b) :
    isWritten c = true := by
  have hb := b.toNat_lt
  unfold encodeByte at h
  split at h
  · next hplain =>
    rw [List.mem_singleton.1 h]
    exact (plain_char b hplain).1
  · split at h
    · rw [List.mem_singleton.1 h]
      decide
    · simp only [List.mem_cons, List.not_mem_nil, or_false] at h
      rcases h with rfl | rfl | rfl
      · decide
      · exact isWritten_hexDigit _ (by omega)
      · exact isWritten_hexDigit _ (by omega)

/-- What stands for a byte reads as that byte, whatever follows. -/
theorem decodeBytes_encodeByte (b : UInt8) (cs : List Char) :
    decodeBytes (encodeByte b ++ cs) = b :: decodeBytes cs := by
  have hb := b.toNat_lt
  unfold encodeByte
  split
  · next hplain =>
    obtain ⟨-, hplus, hpercent, hutf⟩ := plain_char b hplain
    show decodeBytes (Char.ofNat b.toNat :: cs) = _
    rw [decodeBytes.eq_4 _ _ hplus fun _ _ _ h _ => hpercent h, hutf]
    rfl
  · split
    · next hspace => rw [hspace]; rfl
    · have hhigh := hexValue?_hexDigit (b.toNat / 16) (by omega)
      have hlow := hexValue?_hexDigit (b.toNat % 16) (by omega)
      show decodeBytes ('%' :: hexDigit (b.toNat / 16) :: hexDigit (b.toNat % 16) :: cs) = _
      rw [decodeBytes.eq_3, hhigh, hlow]
      show (16 * (b.toNat / 16) + b.toNat % 16).toUInt8 :: _ = _
      rw [Nat.div_add_mod, Nat.toUInt8_eq, UInt8.ofNat_toNat]

theorem decodeBytes_flatMap_encodeByte (bytes : List UInt8) :
    decodeBytes (bytes.flatMap encodeByte) = bytes := by
  induction bytes with
  | nil => rfl
  | cons b bytes ih => rw [List.flatMap_cons, decodeBytes_encodeByte, ih]

/-! ### Names and values -/

theorem decode?_encode (s : String) : decode? (encode s) = some s := by
  rw [decode?, encode, decodeBytes_flatMap_encodeByte, Stream.text?_bytesOf]

theorem isWritten_of_mem_encode {s : String} {c : Char} (h : c ∈ encode s) :
    isWritten c = true := by
  obtain ⟨b, -, hc⟩ := List.mem_flatMap.1 h
  exact isWritten_of_mem_encodeByte hc

/-! ### Pairs -/

theorem decodePair?_encodePair (p : String × String) : decodePair? (encodePair p) = some p := by
  have hequals : '=' ∉ encode p.1 := fun h => absurd (isWritten_of_mem_encode h) (by decide)
  rw [decodePair?, encodePair, Text.cut?_append _ hequals]
  simp [decode?_encode]

theorem not_mem_encodePair {c : Char} (hc : isWritten c = false) (hne : c ≠ '=')
    (p : String × String) : c ∉ encodePair p := by
  intro h
  rcases List.mem_append.1 h with h | h
  · exact absurd (isWritten_of_mem_encode h) (by simp [hc])
  · rcases List.mem_cons.1 h with h | h
    · exact hne h
    · exact absurd (isWritten_of_mem_encode h) (by simp [hc])

theorem mapM_decodePair? (ps : List (String × String)) :
    (ps.map encodePair).mapM decodePair? = some ps := by
  induction ps with
  | nil => rfl
  | cons p ps ih => simp [decodePair?_encodePair, ih]

/-- **Pairs read back**, in order, none added and none lost. -/
theorem decodePairs?_encodePairs (ps : List (String × String)) :
    decodePairs? (encodePairs ps) = some ps := by
  cases ps with
  | nil => rfl
  | cons p ps =>
    have hamp : ∀ piece ∈ (p :: ps).map encodePair, '&' ∉ piece := by
      intro piece hpiece
      obtain ⟨q, -, rfl⟩ := List.mem_map.1 hpiece
      exact not_mem_encodePair (by decide) (by decide) q
    have hfilter : ((p :: ps).map encodePair).filter (· ≠ []) = (p :: ps).map encodePair := by
      apply List.filter_eq_self.2
      intro piece hpiece
      obtain ⟨q, -, rfl⟩ := List.mem_map.1 hpiece
      simp [encodePair]
    rw [decodePairs?, encodePairs, Text.split_intercalate hamp (by simp), hfilter, mapM_decodePair?]

/-- The characters of pairs: those of names and values, and the two separators. -/
theorem mem_encodePairs {ps : List (String × String)} {c : Char} (h : c ∈ encodePairs ps) :
    isWritten c = true ∨ c = '=' ∨ c = '&' := by
  induction ps with
  | nil => exact absurd h List.not_mem_nil
  | cons p ps ih =>
    by_cases hc : isWritten c = true
    · exact .inl hc
    · by_cases he : c = '='
      · exact .inr (.inl he)
      · have hp := not_mem_encodePair (by simpa using hc) he p
        cases ps with
        | nil => exact absurd (by simpa [encodePairs] using h) hp
        | cons q ps =>
          rw [encodePairs, List.map_cons, List.map_cons, List.intercalate_cons_cons] at h
          rcases List.mem_append.1 h with h | h
          · rcases List.mem_append.1 h with h | h
            · exact absurd h hp
            · exact .inr (.inr (List.mem_singleton.1 h))
          · exact ih h

end DeviceConsole.Form
