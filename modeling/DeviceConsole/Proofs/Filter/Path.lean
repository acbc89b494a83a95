import DeviceConsole.Filter.Query
import DeviceConsole.Proofs.Form.RoundTrip

/-!
The path of a query says the query and nothing else.

Behind its last question mark the path holds one text of pairs, which reads back as the parameters
of the query; before it stand the context without the slashes at its end and the fixed name of the
device table. Every parameter has its own name, so the pairs give back each filter, the offset and
the limit, and under one context two queries never share a path (`path_lossless`).
-/
namespace DeviceConsole.Filter

/-! ### The parameters -/

theorem toString_injective {m n : Nat} (h : toString m = toString n) : m = n := by
  have hdigits : Nat.toDigits 10 m = Nat.toDigits 10 n := by
    rw [Nat.toString_eq_repr, Nat.toString_eq_repr, Nat.repr_eq_ofList_toDigits,
      Nat.repr_eq_ofList_toDigits] at h
    exact String.ofList_injective h
  rw [← Nat.ofDigitChars_ten_toDigits (n := m), hdigits, Nat.ofDigitChars_ten_toDigits]

namespace Query

/-- The names of the parameters do not depend on their values. -/
theorem pairs_names (q : Query) :
    q.pairs.map Prod.fst = q.params.activeKeys.map Key.name ++ ["offset", "limit"] := by
  obtain ⟨⟨dateFrom, dateTo, status, ownership⟩, offset, limit⟩ := q
  cases status <;> cases ownership <;> rfl

/-- The parameter with a key's name is that key's filter. -/
theorem lookup_pairs (q : Query) (k : Key) : q.pairs.lookup k.name = q.params.get? k := by
  obtain ⟨⟨dateFrom, dateTo, status, ownership⟩, offset, limit⟩ := q
  cases status <;> cases ownership <;> cases k <;> rfl

theorem lookup_pairs_offset (q : Query) :
    q.pairs.lookup "offset" = some (toString q.offset.toNat) := by
  obtain ⟨⟨dateFrom, dateTo, status, ownership⟩, offset, limit⟩ := q
  cases status <;> cases ownership <;> rfl

theorem lookup_pairs_limit (q : Query) :
    q.pairs.lookup "limit" = some (toString q.limit.toNat) := by
  obtain ⟨⟨dateFrom, dateTo, status, ownership⟩, offset, limit⟩ := q
  cases status <;> cases ownership <;> rfl

theorem pairs_injective {q q' : Query} (h : q.pairs = q'.pairs) : q = q' := by
  have hkey (k : Key) : q.params.get? k = q'.params.get? k := by
    rw [← lookup_pairs, h, lookup_pairs]
  have hoffset : toString q.offset.toNat = toString q'.offset.toNat := by
    rw [← Option.some_inj, ← lookup_pairs_offset, h, lookup_pairs_offset]
  have hlimit : toString q.limit.toNat = toString q'.limit.toNat := by
    rw [← Option.some_inj, ← lookup_pairs_limit, h, lookup_pairs_limit]
  obtain ⟨⟨dateFrom, dateTo, status, ownership⟩, offset, limit⟩ := q
  obtain ⟨⟨dateFrom', dateTo', status', ownership'⟩, offset', limit'⟩ := q'
  obtain rfl : dateFrom = dateFrom' := Option.some_inj.1 (hkey .dateFrom)
  obtain rfl : dateTo = dateTo' := Option.some_inj.1 (hkey .dateTo)
  obtain rfl : status = status' := hkey .status
  obtain rfl : ownership = ownership' := hkey .ownership
  obtain rfl : offset = offset' := UInt32.toNat_inj.1 (toString_injective hoffset)
  obtain rfl : limit = limit' := UInt32.toNat_inj.1 (toString_injective hlimit)
  rfl

/-! ### The path -/

/-- A context is its base and the slashes at its end. -/
theorem exists_slashes (context : String) :
    ∃ n, context.toList = (base context).toList ++ List.replicate n '/' := by
  obtain ⟨ds, hds, hall⟩ := Text.exists_dropEnd_append (· == '/') context.toList
  refine ⟨ds.length, ?_⟩
  rw [base, Text.trimEnd, String.toList_ofList,
    ← List.eq_replicate_of_mem fun d hd => beq_iff_eq.1 (hall d hd)]
  exact hds

theorem base_getLast? (context : String) : (base context).toList.getLast? ≠ some '/' := by
  intro h
  rw [base, Text.trimEnd, String.toList_ofList] at h
  exact absurd (Text.getLast?_dropEnd h) (by decide)

theorem text_toList (q : Query) : q.text.toList = Form.encodePairs q.pairs :=
  String.toList_ofList

theorem path_toList (q : Query) (s : Settings) :
    (q.path s).toList =
      (base s.apiContext).toList ++ "/reports/devices".toList ++ '?' :: q.text.toList := by
  simp [path]

theorem decodePairs?_text (q : Query) : Form.decodePairs? q.text.toList = some q.pairs := by
  rw [text_toList, Form.decodePairs?_encodePairs]

theorem path_injective {q q' : Query} {s : Settings} (h : q.path s = q'.path s) : q = q' := by
  have hlist := congrArg String.toList h
  rw [path_toList, path_toList] at hlist
  have htext : q.text.toList = q'.text.toList :=
    (List.cons.inj (List.append_cancel_left hlist)).2
  apply pairs_injective
  rw [← Option.some_inj, ← decodePairs?_text, htext, decodePairs?_text]

theorem mem_text {q : Query} {c : Char} (h : c ∈ q.text.toList) :
    c.isAlphanum = true ∨ c ∈ ['*', '-', '.', '_', '+', '%', '=', '&'] := by
  rw [text_toList] at h
  rcases Form.mem_encodePairs h with h | rfl | rfl
  · rw [Form.isWritten, Bool.or_eq_true, List.contains_iff_mem] at h
    exact h.imp id fun hm => List.mem_append_left ['=', '&'] hm
  · decide
  · decide

theorem question_not_mem_text (q : Query) : '?' ∉ q.text.toList :=
  fun h => absurd (mem_text h) (by decide)

/-- **The path is lossless.** It is the context without the slashes at its end, the name of the
device table, a question mark that is the last one, and a text of letters, digits and `*-._+%=&`
that reads back as the parameters in order. One path belongs to one query, and what is read bears
the names of the active filters and of the page, each with its own value. -/
theorem path_lossless (q : Query) (s : Settings) :
    ((q.path s).toList =
        (base s.apiContext).toList ++ "/reports/devices".toList ++ '?' :: q.text.toList ∧
      '?' ∉ q.text.toList) ∧
    ((∃ n, s.apiContext.toList = (base s.apiContext).toList ++ List.replicate n '/') ∧
      (base s.apiContext).toList.getLast? ≠ some '/') ∧
    (∀ c ∈ q.text.toList,
      c.isAlphanum = true ∨ c ∈ ['*', '-', '.', '_', '+', '%', '=', '&']) ∧
    Form.decodePairs? q.text.toList = some (q.params.pairs ++
      [("offset", toString q.offset.toNat), ("limit", toString q.limit.toNat)]) ∧
    (∀ q' : Query, q'.path s = q.path s ↔ q' = q) ∧
    (q.pairs.map Prod.fst = q.params.activeKeys.map Key.name ++ ["offset", "limit"] ∧
      (∀ k : Key, q.pairs.lookup k.name = q.params.get? k) ∧
      q.pairs.lookup "offset" = some (toString q.offset.toNat) ∧
      q.pairs.lookup "limit" = some (toString q.limit.toNat)) := by
  refine ⟨⟨path_toList q s, question_not_mem_text q⟩,
    ⟨exists_slashes s.apiContext, base_getLast? s.apiContext⟩, fun c hc => mem_text hc,
    decodePairs?_text q, fun q' => ⟨path_injective, ?_⟩,
    pairs_names q, lookup_pairs q, lookup_pairs_offset q, lookup_pairs_limit q⟩
  rintro rfl
  rfl

/-- Separators in a value and a question mark in the context are read for what they are. -/
theorem path_lossless_separators :
    '%' ∈ (text ⟨⟨"a", "b", some "x&limit=0?", some ""⟩, 0, 25⟩).toList ∧
      ('%'.isAlphanum = true ∨ '%' ∈ ['*', '-', '.', '_', '+', '%', '=', '&']) ∧
      (path ⟨⟨"a", "b", some "x&limit=0?", some ""⟩, 0, 25⟩ { apiContext := "/v1?//" }).toList =
        (base "/v1?//").toList ++ "/reports/devices".toList ++
          '?' :: (text ⟨⟨"a", "b", some "x&limit=0?", some ""⟩, 0, 25⟩).toList := by
  have hmem : '%' ∈ (text ⟨⟨"a", "b", some "x&limit=0?", some ""⟩, 0, 25⟩).toList := by
    decide +kernel
  obtain ⟨⟨hpath, -⟩, -, hchars, -⟩ :=
    path_lossless ⟨⟨"a", "b", some "x&limit=0?", some ""⟩, 0, 25⟩ { apiContext := "/v1?//" }
  exact ⟨hmem, hchars _ hmem, hpath⟩

end Query

end DeviceConsole.Filter
