import DeviceConsole.Proofs.Gzip.Bits
import Mathlib.Algebra.BigOperators.Group.Finset.Basic
import Mathlib.Data.List.Induction

/-!
Decoding with a book.

A book can be made of some lengths just when their codes leave no gap (`ofLengths?_eq_some_iff`), and
what it then decodes are the codes of those lengths (`parses_symbol`). The walk down the lengths
knows one thing about the bits it has taken: they are no code yet, and reckoned as a number they are
beyond the codes of their length. A code in front of other bits would not be, so a walk cannot miss
the end of a code or stop before it.
-/
namespace DeviceConsole.Gzip

/-! ### Symbols of one length -/

/-- The symbols whose codes have `n` bits, in order. -/
def symbolsOf (lengths : List Nat) (n : Nat) : List Nat :=
  (lengths.zipIdx.filter fun s => s.1 == n).map (·.2)

theorem symbolsOf_cons (m : Nat) (lengths : List Nat) (n : Nat) :
    symbolsOf (m :: lengths) n =
      (if m = n then [0] else []) ++ (symbolsOf lengths n).map (· + 1) := by
  simp only [symbolsOf, List.zipIdx_cons, List.zipIdx_succ (i := 0), List.filter_cons, beq_iff_eq,
    List.filter_map, List.map_map]
  split <;> simp [Function.comp_def]

@[simp] theorem length_symbolsOf (lengths : List Nat) (n : Nat) :
    (symbolsOf lengths n).length = lengths.count n := by
  induction lengths with
  | nil => rfl
  | cons m lengths ih =>
    rw [symbolsOf_cons, List.length_append, List.length_map, ih, List.count_cons, Nat.add_comm]
    simp only [beq_iff_eq]
    split <;> rfl

/-- A symbol stands behind those of its length that come before it. -/
theorem getElem?_symbolsOf {lengths : List Nat} {n i symbol : Nat} :
    (symbolsOf lengths n)[i]? = some symbol ↔
      lengths[symbol]? = some n ∧ (lengths.take symbol).count n = i := by
  induction lengths generalizing i symbol with
  | nil => simp [symbolsOf]
  | cons m lengths ih =>
    rw [symbolsOf_cons]
    by_cases hm : m = n
    · subst hm
      cases i with
      | zero => cases symbol <;> simp
      | succ i => cases symbol <;> simp [ih]
    · cases symbol <;> simp [hm, ih]

/-! ### The walk -/

@[simp] theorem highFirst_concat (bits : List Bool) (x : Bool) :
    highFirst (bits ++ [x]) = 2 * highFirst bits + x.toNat := by
  simp [highFirst]

theorem codesOf_succ (lengths : List Nat) (n : Nat) :
    codesOf lengths (n + 1) = lengths.count (n + 1) := if_neg (Nat.succ_ne_zero n)

/-- Bits that start a longer code are beyond the codes of their own length. -/
theorem beyond_of_firstCode_le {lengths : List Nat} {bits more : List Bool} (hmore : more ≠ [])
    (h : firstCode lengths (bits ++ more).length ≤ highFirst (bits ++ more)) :
    firstCode lengths bits.length + codesOf lengths bits.length ≤ highFirst bits := by
  induction more using List.reverseRecOn with
  | nil => exact absurd rfl hmore
  | append_singleton more x ih =>
    rw [← List.append_assoc, highFirst_concat, List.length_append] at h
    simp only [List.length_singleton, firstCode] at h
    have hx : x.toNat ≤ 1 := Bool.toNat_le x
    by_cases hnil : more = []
    · subst hnil
      rw [List.append_nil] at h
      omega
    · apply ih hnil
      omega

/-- A code by its place among those of its length. -/
theorem isCode_iff {lengths : List Nat} {symbol : Nat} {bits : List Bool} (hbits : bits ≠ []) :
    IsCode lengths symbol bits ↔ ∃ i, (symbolsOf lengths bits.length)[i]? = some symbol ∧
      highFirst bits = firstCode lengths bits.length + i := by
  constructor
  · intro h
    exact ⟨_, getElem?_symbolsOf.2 ⟨h.length, rfl⟩, h.value⟩
  · rintro ⟨i, hi, hvalue⟩
    obtain ⟨hlength, rfl⟩ := getElem?_symbolsOf.1 hi
    exact ⟨hbits, hlength, hvalue⟩

/-- A code is among those of its length. -/
theorem IsCode.lt {lengths : List Nat} {symbol : Nat} {bits : List Bool}
    (h : IsCode lengths symbol bits) :
    highFirst bits < firstCode lengths bits.length + lengths.count bits.length := by
  obtain ⟨i, hi, hvalue⟩ := (isCode_iff h.nonempty).1 h
  obtain ⟨hlt, -⟩ := List.getElem?_eq_some_iff.1 hi
  rw [length_symbolsOf] at hlt
  omega

/-- The walk behind the next bit. -/
def walkPast (symbols : Array Nat) (count : Nat) (counts : List Nat) (code first skipped : Nat)
    (x : Bool) (b : Bits) : Except Halt (Nat × Bits) :=
  if 2 * code + x.toNat < 2 * first + count then
    match symbols[skipped + (2 * code + x.toNat - 2 * first)]? with
    | some symbol => pure (symbol, b)
    | none => .error .malformed
  else Codebook.walk symbols counts (2 * code + x.toNat) (2 * first + count) (skipped + count) b

theorem walk_cons (symbols : Array Nat) (count : Nat) (counts : List Nat)
    (code first skipped : Nat) :
    Codebook.walk symbols (count :: counts) code first skipped =
      fun b => b.next >>= fun p =>
        walkPast symbols count counts code first skipped p.1 p.2 := rfl

/-- A code that has ended leads to its symbol. -/
theorem parses_walkPast_of_lt {lengths : List Nat} {bits : List Bool} {passed rest : List Nat}
    (counts : List Nat) {x : Bool}
    (hbeyond : firstCode lengths bits.length + codesOf lengths bits.length ≤ highFirst bits)
    (hlt : highFirst (bits ++ [x]) <
      firstCode lengths (bits.length + 1) + lengths.count (bits.length + 1)) :
    Parses
      (walkPast (passed ++ (symbolsOf lengths (bits.length + 1) ++ rest)).toArray
        (lengths.count (bits.length + 1)) counts
        (highFirst bits) (firstCode lengths bits.length + codesOf lengths bits.length) passed.length
        x)
      fun symbol more => IsCode lengths symbol (bits ++ [x] ++ more) := by
  rw [highFirst_concat, firstCode] at hlt
  obtain ⟨i, hi⟩ : ∃ i, 2 * highFirst bits + x.toNat =
      2 * (firstCode lengths bits.length + codesOf lengths bits.length) + i :=
    Nat.exists_eq_add_of_le (by omega)
  have hcount : i < (symbolsOf lengths (bits.length + 1)).length := by
    rw [length_symbolsOf]
    omega
  have hsymbol : (passed ++ (symbolsOf lengths (bits.length + 1) ++ rest)).toArray[
      passed.length + i]? = some (symbolsOf lengths (bits.length + 1))[i] := by
    rw [List.getElem?_toArray, List.getElem?_append_right (Nat.le_add_right _ _),
      Nat.add_sub_cancel_left, List.getElem?_append_left hcount, List.getElem?_eq_getElem hcount]
  have hwalk : walkPast (passed ++ (symbolsOf lengths (bits.length + 1) ++ rest)).toArray
      (lengths.count (bits.length + 1)) counts (highFirst bits)
      (firstCode lengths bits.length + codesOf lengths bits.length) passed.length x =
      fun b => pure ((symbolsOf lengths (bits.length + 1))[i], b) := by
    funext b
    rw [walkPast, if_pos hlt, hi, Nat.add_sub_cancel_left, hsymbol]
  rw [hwalk]
  refine (parses_pure _).congr fun symbol more => ?_
  have hcode : highFirst (bits ++ [x]) = firstCode lengths (bits ++ [x]).length + i := by
    rw [highFirst_concat, List.length_append, List.length_singleton, firstCode, hi]
  constructor
  · rintro ⟨rfl, rfl⟩
    rw [List.append_nil]
    refine (isCode_iff (by simp)).2 ⟨i, ?_, hcode⟩
    rw [List.length_append, List.length_singleton, List.getElem?_eq_getElem hcount]
  · intro h
    by_cases hmore : more = []
    · subst hmore
      rw [List.append_nil] at h
      obtain ⟨j, hj, hvalue⟩ := (isCode_iff (by simp)).1 h
      obtain rfl : i = j := Nat.add_left_cancel (hcode.symm.trans hvalue)
      rw [List.length_append, List.length_singleton, List.getElem?_eq_getElem hcount] at hj
      exact ⟨(Option.some.inj hj).symm, rfl⟩
    · -- a longer code would be beyond this one
      have hfirst := Nat.le.intro h.value.symm
      have := beyond_of_firstCode_le hmore hfirst
      rw [highFirst_concat, List.length_append, List.length_singleton, firstCode, codesOf_succ]
        at this
      omega

/-- From bits that are beyond the codes of their length, the walk goes on to the end of a code. -/
theorem parses_walk {lengths : List Nat} (left : Nat) (bits : List Bool) (passed : List Nat)
    (hlengths : ∀ n ∈ lengths, n ≤ bits.length + left)
    (hbeyond : firstCode lengths bits.length + codesOf lengths bits.length ≤ highFirst bits) :
    Parses
      (Codebook.walk
        (passed ++ (List.range' (bits.length + 1) left).flatMap (symbolsOf lengths)).toArray
        ((List.range' (bits.length + 1) left).map fun n => lengths.count n)
        (highFirst bits) (firstCode lengths bits.length + codesOf lengths bits.length) passed.length)
      fun symbol more => more ≠ [] ∧ IsCode lengths symbol (bits ++ more) := by
  induction left generalizing bits passed with
  | zero =>
    refine (parses_error .malformed).congr fun symbol more => ⟨False.elim, ?_⟩
    rintro ⟨hmore, hcode⟩
    have hle := hlengths _ (List.mem_of_getElem? hcode.length)
    have hpos := List.length_pos_of_ne_nil hmore
    rw [List.length_append] at hle
    omega
  | succ left ih =>
    rw [List.range'_succ, List.map_cons, List.flatMap_cons, walk_cons]
    refine (parses_next.bind (T := fun x symbol more =>
      IsCode lengths symbol (bits ++ [x] ++ more)) fun x front hfront => ?_).congr
      fun symbol more => ?_
    · by_cases hlt : highFirst (bits ++ [x]) <
          firstCode lengths (bits.length + 1) + lengths.count (bits.length + 1)
      · exact parses_walkPast_of_lt _ hbeyond hlt
      · have hlength : (bits ++ [x]).length = bits.length + 1 := by simp
        have hon := ih (bits ++ [x]) (passed ++ symbolsOf lengths (bits.length + 1))
          (by rw [hlength]; intro n hn; have := hlengths n hn; omega)
          (by rw [hlength, codesOf_succ]; omega)
        rw [hlength, codesOf_succ, List.append_assoc, List.length_append, length_symbolsOf,
          highFirst_concat, firstCode] at hon
        rw [highFirst_concat, firstCode] at hlt
        have hwalk : walkPast (passed ++ (symbolsOf lengths (bits.length + 1) ++
            (List.range' (bits.length + 1 + 1) left).flatMap (symbolsOf lengths))).toArray
            (lengths.count (bits.length + 1))
            ((List.range' (bits.length + 1 + 1) left).map fun n => lengths.count n)
            (highFirst bits) (firstCode lengths bits.length + codesOf lengths bits.length)
            passed.length x = _ := funext fun b => if_neg hlt
        rw [hwalk]
        refine hon.congr fun symbol more => ⟨And.right, fun hcode => ⟨?_, hcode⟩⟩
        -- the bits so far are no code
        rintro rfl
        rw [List.append_nil] at hcode
        have := hcode.lt
        rw [hlength, highFirst_concat, firstCode] at this
        exact hlt this
    · constructor
      · rintro ⟨x, front, back, rfl, hcode, rfl⟩
        exact ⟨List.cons_ne_nil _ _, by simpa using hcode⟩
      · rintro ⟨hmore, hcode⟩
        obtain ⟨x, back, rfl⟩ := List.exists_cons_of_ne_nil hmore
        exact ⟨x, [x], back, rfl, by simpa using hcode, rfl⟩

/-! ### Books -/

/-- What codes of one length amount to is counted code by code. -/
theorem sum_count_mul {lengths : List Nat} (hlengths : ∀ n ∈ lengths, n ≤ maxCodeLength)
    {f : Nat → Nat} (hf : f 0 = 0) :
    ((List.range' 1 maxCodeLength).map fun n => lengths.count n * f n).sum =
      (lengths.map f).sum := by
  have hsubset : lengths.toFinset ⊆ (List.range (maxCodeLength + 1)).toFinset := by
    intro n hn
    rw [List.mem_toFinset] at hn ⊢
    exact List.mem_range.2 (Nat.lt_succ_of_le (hlengths n hn))
  have hall : (lengths.map f).sum =
      ((List.range (maxCodeLength + 1)).map fun n => lengths.count n * f n).sum := by
    rw [Finset.sum_list_map_count, ← List.sum_toFinset _ List.nodup_range]
    refine Finset.sum_subset hsubset fun n _ hn => ?_
    rw [List.count_eq_zero_of_not_mem (mt List.mem_toFinset.2 hn), zero_nsmul]
  rw [hall, List.range_succ_eq_map, List.map_cons, List.sum_cons, hf, Nat.mul_zero, Nat.zero_add]
  rfl

/-- The book of some lengths. -/
def bookOf (lengths : List Nat) : Codebook where
  counts := (List.range' 1 maxCodeLength).map fun n => lengths.count n
  symbols := ((List.range' 1 maxCodeLength).flatMap (symbolsOf lengths)).toArray

theorem length_symbols {lengths : List Nat} (hlengths : ∀ n ∈ lengths, n ≤ maxCodeLength) :
    ((List.range' 1 maxCodeLength).flatMap (symbolsOf lengths)).length =
      lengths.countP (0 < ·) := by
  have hones := sum_count_mul hlengths (f := fun n => if 0 < n then 1 else 0) rfl
  have hcount : (lengths.map fun n => if 0 < n then 1 else 0).sum = lengths.countP (0 < ·) := by
    clear hlengths hones
    induction lengths with
    | nil => rfl
    | cons n lengths ih =>
      rw [List.map_cons, List.sum_cons, List.countP_cons, ih, Nat.add_comm]
      simp only [decide_eq_true_eq]
  have hlength : ∀ n ∈ List.range' 1 maxCodeLength, (symbolsOf lengths n).length =
      lengths.count n * if 0 < n then 1 else 0 := by
    intro n hn
    have hpos : 0 < n := (List.mem_range'_1.1 hn).1
    rw [length_symbolsOf, if_pos hpos, Nat.mul_one]
  rw [← hcount, ← hones, List.length_flatMap, List.map_congr_left hlength]

/-- What the codes leave free, as the book reckons it. -/
theorem foldl_leaves {lengths : List Nat} (hlengths : ∀ n ∈ lengths, n ≤ maxCodeLength) :
    ((List.range' 1 maxCodeLength).zip
      ((List.range' 1 maxCodeLength).map fun n => lengths.count n)).foldl
      (fun sum s => sum + s.2 <<< (maxCodeLength - s.1)) 0 = (lengths.map room).sum := by
  rw [← sum_count_mul hlengths (f := room) rfl]
  have hzip : (List.range' 1 maxCodeLength).zip
      ((List.range' 1 maxCodeLength).map fun n => lengths.count n) =
      (List.range' 1 maxCodeLength).map fun n => (n, lengths.count n) := by
    rw [List.map_prod_left_eq_zip]
  have hroom : ((List.range' 1 maxCodeLength).map fun n => lengths.count n * room n) =
      (List.range' 1 maxCodeLength).map fun n => lengths.count n <<< (maxCodeLength - n) := by
    apply List.map_congr_left
    intro n hn
    rw [room, if_neg (Nat.ne_of_gt (List.mem_range'_1.1 hn).1), Nat.shiftLeft_eq]
  rw [hzip, hroom, List.foldl_map, List.sum_eq_foldl, List.foldl_map]

theorem ofLengths?_eq_some_iff {allowGap : Bool} {lengths : List Nat} {book : Codebook}
    (hlengths : ∀ n ∈ lengths, n ≤ maxCodeLength) :
    Codebook.ofLengths? allowGap lengths = some book ↔
      IsBook allowGap lengths ∧ book = bookOf lengths := by
  have hrange : (List.range maxCodeLength).map (· + 1) = List.range' 1 maxCodeLength := rfl
  simp only [Codebook.ofLengths?, hrange, foldl_leaves hlengths]
  show (if (decide ((lengths.map room).sum = 1 <<< maxCodeLength) || allowGap && decide
      (((List.range' 1 maxCodeLength).flatMap (symbolsOf lengths)).length ≤ 1)) = true
    then some (bookOf lengths) else none) = some book ↔ _
  rw [length_symbols hlengths, Nat.one_shiftLeft]
  have hbook : (decide ((lengths.map room).sum = 2 ^ maxCodeLength) || allowGap && decide
      (lengths.countP (0 < ·) ≤ 1)) = true ↔ IsBook allowGap lengths := by
    simp only [IsBook, Bool.or_eq_true, Bool.and_eq_true, decide_eq_true_eq]
  by_cases h : IsBook allowGap lengths
  · rw [if_pos (hbook.2 h), Option.some_inj]
    exact ⟨fun heq => ⟨h, heq.symm⟩, fun heq => heq.2.symm⟩
  · rw [if_neg (mt hbook.1 h)]
    exact ⟨nofun, fun heq => absurd heq.1 h⟩

/-- A book decodes the codes of its lengths. -/
theorem parses_symbol {lengths : List Nat} (hlengths : ∀ n ∈ lengths, n ≤ maxCodeLength) :
    Parses (bookOf lengths).symbol (IsCode lengths) := by
  have hwalk := parses_walk maxCodeLength [] []
    (fun n hn => (hlengths n hn).trans (Nat.le_add_left _ _)) (Nat.le_refl 0)
  exact hwalk.congr fun symbol bits => ⟨And.right, fun h => ⟨h.nonempty, h⟩⟩

end DeviceConsole.Gzip
