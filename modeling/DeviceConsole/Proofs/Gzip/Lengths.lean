import DeviceConsole.Proofs.Gzip.Codes

/-!
Decoding the code lengths that a block gives.

The lengths are themselves in a code, whose own lengths come first in three bits each. Both readers
take what the format says and no more: `parses_codeLengths` for the lengths in runs, which the reader
keeps last first, and `parses_givenBooks` for all that stands before the items of a block.
-/
namespace DeviceConsole.Gzip

variable {α : Type}

/-! ### Numbers in fields -/

theorem lowFirst_lt (bits : List Bool) : lowFirst bits < 2 ^ bits.length := by
  induction bits with
  | nil => exact Nat.one_pos
  | cons x bits ih =>
    have hx : x.toNat ≤ 1 := Bool.toNat_le x
    rw [lowFirst, List.length_cons, Nat.pow_succ]
    omega

theorem Fields.lt {width : Nat} {ns : List Nat} {bits : List Bool} (h : Fields width ns bits) :
    ∀ n ∈ ns, n < 2 ^ width := by
  induction h with
  | nil => exact nofun
  | cons hfield _ ih =>
    intro n hn
    rcases List.mem_cons.1 hn with rfl | hn
    · rw [← hfield.length, ← hfield.value]
      exact lowFirst_lt _
    · exact ih n hn

theorem parses_threeBitNumbers (count : Nat) :
    Parses (threeBitNumbers count) fun ns bits => ns.length = count ∧ Fields 3 ns bits := by
  induction count with
  | zero =>
    refine (parses_pure []).congr fun ns bits => ?_
    constructor
    · rintro ⟨rfl, rfl⟩
      exact ⟨rfl, .nil⟩
    · rintro ⟨hlength, h⟩
      cases h with
      | nil => exact ⟨rfl, rfl⟩
      | cons => cases hlength
  | succ count ih =>
    refine ((parses_number 3).bind fun n _ _ => ih.map (n :: ·)).congr fun ns bits => ?_
    constructor
    · rintro ⟨n, field, rest, hfield, ⟨ns, ⟨rfl, hrest⟩, rfl⟩, rfl⟩
      exact ⟨rfl, .cons hfield hrest⟩
    · rintro ⟨hlength, h⟩
      cases h with
      | nil => cases hlength
      | cons hfield hrest =>
        exact ⟨_, _, _, hfield, ⟨_, ⟨Nat.succ.inj hlength, hrest⟩, rfl⟩, rfl⟩

/-! ### Runs -/

theorem IsRun.length_pos {before more : List Nat} {symbol : Nat} {field : List Bool}
    (h : IsRun before symbol more field) : 0 < more.length := by
  cases h with
  | length => exact Nat.one_pos
  | again | zeros | manyZeros => rw [List.length_replicate]; omega

theorem IsRun.le {before more : List Nat} {symbol : Nat} {field : List Bool}
    (h : IsRun before symbol more field) (hbefore : ∀ n ∈ before, n ≤ maxCodeLength) :
    ∀ n ∈ more, n ≤ maxCodeLength := by
  intro n hn
  cases h with
  | length hlt => exact List.mem_singleton.1 hn ▸ Nat.le_of_lt_succ hlt
  | again hlast _ =>
    exact List.eq_of_mem_replicate hn ▸ hbefore _ (List.mem_of_getLast? hlast)
  | zeros | manyZeros => exact List.eq_of_mem_replicate hn ▸ Nat.zero_le _

theorem Runs.length_le {lengths before after : List Nat} {bits : List Bool}
    (h : Runs lengths bits before after) : before.length ≤ after.length := by
  induction h with
  | nil => exact Nat.le_refl _
  | cons _ _ _ ih =>
    rw [List.length_append] at ih
    exact Nat.le_of_add_right_le ih

theorem Runs.le {lengths before after : List Nat} {bits : List Bool}
    (h : Runs lengths bits before after) (hbefore : ∀ n ∈ before, n ≤ maxCodeLength) :
    ∀ n ∈ after, n ≤ maxCodeLength := by
  induction h with
  | nil => exact hbefore
  | cons _ hrun _ ih =>
    apply ih
    intro n hn
    rcases List.mem_append.1 hn with hn | hn
    · exact hbefore n hn
    · exact hrun.le hbefore n hn

/-- When no lengths are to come, no run is. -/
theorem Runs.eq_nil {lengths before after : List Nat} {bits : List Bool}
    (h : Runs lengths bits before after) (hlength : after.length ≤ before.length) :
    after = before ∧ bits = [] := by
  cases h with
  | nil => exact ⟨rfl, rfl⟩
  | cons _ hrun hrest =>
    have hle := hrest.length_le
    have hpos := hrun.length_pos
    rw [List.length_append] at hle
    omega

/-- When lengths are to come, a run is. -/
theorem Runs.exists_run {lengths before after : List Nat} {bits : List Bool}
    (h : Runs lengths bits before after) (hlt : before.length < after.length) :
    ∃ symbol more code field rest, IsCode lengths symbol code ∧ IsRun before symbol more field ∧
      Runs lengths rest (before ++ more) after ∧ bits = code ++ (field ++ rest) := by
  cases h with
  | nil => exact absurd hlt (Nat.lt_irrefl _)
  | cons hcode hrun hrest =>
    exact ⟨_, _, _, _, _, hcode, hrun, hrest, List.append_assoc _ _ _⟩

/-- The lengths behind a symbol, as `codeLengths` goes on. -/
def lengthsPast (book : Codebook) (count fuel : Nat) (lengths : List Nat) (symbol : Nat) (b : Bits) :
    Except Halt (List Nat × Bits) :=
  if symbol < 16 then codeLengths book count fuel (symbol :: lengths) b
  else if symbol = 16 then
    match lengths with
    | [] => .error .malformed
    | last :: _ =>
      b.number 2 >>= fun p =>
        codeLengths book count fuel (List.replicate (3 + p.1) last ++ lengths) p.2
  else if symbol = 17 then
    b.number 3 >>= fun p =>
      codeLengths book count fuel (List.replicate (3 + p.1) 0 ++ lengths) p.2
  else
    b.number 7 >>= fun p =>
      codeLengths book count fuel (List.replicate (11 + p.1) 0 ++ lengths) p.2

theorem codeLengths_succ (book : Codebook) (count fuel : Nat) (lengths : List Nat) (b : Bits) :
    codeLengths book count (fuel + 1) lengths b =
      if lengths.length = count then pure (lengths, b)
      else if lengths.length > count then .error .malformed
      else book.symbol b >>= fun p => lengthsPast book count fuel lengths p.1 p.2 := by
  rw [codeLengths]
  rfl

/-- The lengths that there are in all, last first, where those in `before` are known. -/
def LengthsFrom (lengths : List Nat) (count : Nat) (before all : List Nat) (bits : List Bool) :
    Prop :=
  all.length = count ∧ Runs lengths bits before all.reverse

/-- The same behind a symbol that starts a run. -/
def LengthsPast (lengths : List Nat) (count : Nat) (before : List Nat) (symbol : Nat)
    (all : List Nat) (bits : List Bool) : Prop :=
  ∃ more field rest, IsRun before symbol more field ∧
    LengthsFrom lengths count (before ++ more) all rest ∧ bits = field ++ rest

/-- A repetition whose number of times stands in a field. -/
theorem parses_repetition {lengths before : List Nat} {book : Codebook} {count fuel : Nat}
    (width : Nat) {least : Nat} (hleast : 0 < least) (value : Nat)
    (hgo : ∀ more, 0 < more.length → Parses (codeLengths book count fuel (more ++ before))
      (LengthsFrom lengths count (before.reverse ++ more.reverse))) :
    Parses
      (fun b => b.number width >>= fun p =>
        codeLengths book count fuel (List.replicate (least + p.1) value ++ before) p.2)
      fun all back => ∃ more field rest, IsField width more field ∧
        LengthsFrom lengths count (before.reverse ++ List.replicate (least + more) value) all rest ∧
        back = field ++ rest := by
  refine (parses_number width).bind (g := fun more b => codeLengths book count fuel
    (List.replicate (least + more) value ++ before) b) fun more _ _ => ?_
  have := hgo (List.replicate (least + more) value) (by rw [List.length_replicate]; omega)
  rwa [List.reverse_replicate] at this

theorem parses_lengthsPast {lengths before : List Nat} {book : Codebook} {count fuel symbol : Nat}
    (hsymbol : symbol < 19)
    (hgo : ∀ more, 0 < more.length → Parses (codeLengths book count fuel (more ++ before))
      (LengthsFrom lengths count (before.reverse ++ more.reverse))) :
    Parses (lengthsPast book count fuel before symbol)
      (LengthsPast lengths count before.reverse symbol) := by
  unfold lengthsPast
  by_cases hlength : symbol < 16
  · simp only [if_pos hlength]
    refine (hgo [symbol] Nat.one_pos).congr fun all back => ?_
    constructor
    · exact fun h => ⟨_, _, _, .length hlength, h, rfl⟩
    · rintro ⟨more, field, rest, hrun, hrest, rfl⟩
      cases hrun with
      | length => exact hrest
      | again | zeros | manyZeros => omega
  · simp only [if_neg hlength]
    by_cases hagain : symbol = 16
    · subst hagain
      simp only [if_true]
      cases before with
      | nil =>
        refine (parses_error .malformed).congr fun all back => ⟨False.elim, ?_⟩
        rintro ⟨more, field, rest, hrun, -⟩
        cases hrun with
        | length hlt => exact hlength hlt
        | again hlast => cases hlast
      | cons last before =>
        have hlast : (last :: before).reverse.getLast? = some last := by simp
        refine (parses_repetition 2 (show 0 < 3 by decide) last hgo).congr fun all back => ?_
        constructor
        · rintro ⟨more, field, rest, hfield, hrest, rfl⟩
          exact ⟨_, _, _, .again hlast hfield, hrest, rfl⟩
        · rintro ⟨more, field, rest, hrun, hrest, rfl⟩
          cases hrun with
          | length hlt => exact absurd hlt hlength
          | again hlast' hfield =>
            obtain rfl := Option.some.inj (hlast.symm.trans hlast')
            exact ⟨_, _, _, hfield, hrest, rfl⟩
    · simp only [if_neg hagain]
      by_cases hzeros : symbol = 17
      · subst hzeros
        simp only [if_true]
        refine (parses_repetition 3 (show 0 < 3 by decide) 0 hgo).congr fun all back => ?_
        constructor
        · rintro ⟨more, field, rest, hfield, hrest, rfl⟩
          exact ⟨_, _, _, .zeros hfield, hrest, rfl⟩
        · rintro ⟨more, field, rest, hrun, hrest, rfl⟩
          cases hrun with
          | length hlt => exact absurd hlt hlength
          | zeros hfield => exact ⟨_, _, _, hfield, hrest, rfl⟩
      · obtain rfl : symbol = 18 := by omega
        simp only [if_neg hzeros]
        refine (parses_repetition 7 (show 0 < 11 by decide) 0 hgo).congr fun all back => ?_
        constructor
        · rintro ⟨more, field, rest, hfield, hrest, rfl⟩
          exact ⟨_, _, _, .manyZeros hfield, hrest, rfl⟩
        · rintro ⟨more, field, rest, hrun, hrest, rfl⟩
          cases hrun with
          | length hlt => exact absurd hlt hlength
          | manyZeros hfield => exact ⟨_, _, _, hfield, hrest, rfl⟩

/-- Lengths that are too many stay too many. -/
theorem not_lengthsFrom {lengths before all : List Nat} {count : Nat} {bits : List Bool}
    (hlt : count < before.length) : ¬ LengthsFrom lengths count before all bits := by
  intro h
  have hle := h.2.length_le
  rw [List.length_reverse, h.1] at hle
  exact Nat.not_lt_of_le hle hlt

theorem parses_codeLengths {lengths : List Nat} (hlengths : ∀ n ∈ lengths, n ≤ maxCodeLength)
    (hsymbols : lengths.length = 19) {count fuel : Nat} {before : List Nat}
    (hfuel : count < fuel + before.length) :
    Parses (codeLengths (bookOf lengths) count fuel before)
      (LengthsFrom lengths count before.reverse) := by
  induction fuel generalizing before with
  | zero =>
    have hmany : count < before.reverse.length := by
      rwa [List.length_reverse, ← Nat.zero_add before.length]
    exact (parses_error .cutShort).congr fun all bits => ⟨False.elim, not_lengthsFrom hmany⟩
  | succ fuel ih =>
    have hcases := funext fun b => codeLengths_succ (bookOf lengths) count fuel before b
    rw [hcases]
    by_cases henough : before.length = count
    · simp only [if_pos henough]
      refine (parses_pure before).congr fun all bits => ?_
      constructor
      · rintro ⟨rfl, rfl⟩
        exact ⟨henough, .nil⟩
      · rintro ⟨hall, hruns⟩
        obtain ⟨hreverse, rfl⟩ := hruns.eq_nil (by simp [hall, henough])
        exact ⟨List.reverse_injective hreverse, rfl⟩
    · simp only [if_neg henough]
      by_cases hmany : before.length > count
      · simp only [if_pos hmany]
        rw [← List.length_reverse] at hmany
        exact (parses_error .malformed).congr fun all bits => ⟨False.elim, not_lengthsFrom hmany⟩
      · simp only [if_neg hmany]
        have hgo : ∀ more, 0 < more.length →
            Parses (codeLengths (bookOf lengths) count fuel (more ++ before))
              (LengthsFrom lengths count (before.reverse ++ more.reverse)) := by
          intro more hmore
          rw [← List.reverse_append]
          apply ih
          rw [List.length_append]
          omega
        have hpast : ∀ symbol code, IsCode lengths symbol code →
            Parses (lengthsPast (bookOf lengths) count fuel before symbol)
              (LengthsPast lengths count before.reverse symbol) := by
          intro symbol code hcode
          obtain ⟨hlt, -⟩ := List.getElem?_eq_some_iff.1 hcode.length
          exact parses_lengthsPast (hsymbols ▸ hlt) hgo
        refine ((parses_symbol hlengths).bind hpast).congr fun all bits => ?_
        constructor
        · rintro ⟨symbol, code, _, hcode, ⟨more, field, rest, hrun, hrest, rfl⟩, rfl⟩
          refine ⟨hrest.1, ?_⟩
          rw [← List.append_assoc]
          exact .cons hcode hrun hrest.2
        · rintro ⟨hall, hruns⟩
          obtain ⟨symbol, more, code, field, rest, hcode, hrun, hrest, rfl⟩ := hruns.exists_run (by
            rw [List.length_reverse, List.length_reverse, hall]
            omega)
          exact ⟨symbol, code, _, hcode, ⟨more, field, rest, hrun, ⟨hall, hrest⟩, rfl⟩, rfl⟩

/-! ### The books of a block -/

theorem getD_find?_zip {keys values : List Nat} {k : Nat} (hk : k ∈ keys) :
    (((keys.zip values).find? fun n => n.1 == k).map (·.2)).getD 0 =
      values.getD (keys.idxOf k) 0 := by
  induction keys generalizing values with
  | nil => cases hk
  | cons key keys ih =>
    cases values with
    | nil => rfl
    | cons v values =>
      by_cases hkey : key = k
      · subst hkey
        simp
      · have hk : k ∈ keys := (List.mem_cons.1 hk).resolve_left (Ne.symm hkey)
        simp [hkey, ih hk]

/-- The lengths of the codes for runs, as `givenBooks` finds them. -/
theorem ordered_eq (given : List Nat) :
    ((List.range 19).map fun symbol =>
      (((lengthCodeOrder.zip given).find? fun n => n.1 == symbol).map (·.2)).getD 0) =
      ordered given := by
  apply List.map_congr_left
  intro symbol hsymbol
  apply getD_find?_zip
  exact (by decide : ∀ symbol < 19, symbol ∈ lengthCodeOrder) symbol (List.mem_range.1 hsymbol)

theorem ordered_le {given : List Nat} {bits : List Bool} (h : Fields 3 given bits) :
    ∀ n ∈ ordered given, n ≤ maxCodeLength := by
  intro n hn
  obtain ⟨symbol, -, rfl⟩ := List.mem_map.1 hn
  rw [List.getD_eq_getElem?_getD]
  cases hget : given[lengthCodeOrder.idxOf symbol]? with
  | none => exact Nat.zero_le _
  | some n =>
    have hlt : n < 2 ^ 3 := h.lt n (List.mem_of_getElem? hget)
    exact Nat.le_trans (Nat.le_of_lt hlt) (by decide)

/-- What is read with a book can be read if there is one. -/
theorem parses_withBook {allowGap : Bool} {lengths : List Nat}
    (hlengths : ∀ n ∈ lengths, n ≤ maxCodeLength) {g : Codebook → Bits → Except Halt (α × Bits)}
    {Says : α → List Bool → Prop} (hg : Parses (g (bookOf lengths)) Says) :
    Parses (fun b => orMalformed (Codebook.ofLengths? allowGap lengths) >>= fun book => g book b)
      fun a bits => IsBook allowGap lengths ∧ Says a bits := by
  have hiff : ∀ book, Codebook.ofLengths? allowGap lengths = some book ↔
      IsBook allowGap lengths ∧ book = bookOf lengths := fun _ => ofLengths?_eq_some_iff hlengths
  cases hbook : Codebook.ofLengths? allowGap lengths with
  | none =>
    refine (parses_error .malformed).congr fun a bits => ⟨False.elim, fun h => ?_⟩
    have := (hiff (bookOf lengths)).2 ⟨h.1, rfl⟩
    rw [hbook] at this
    cases this
  | some book =>
    obtain ⟨h, rfl⟩ := (hiff book).1 hbook
    exact hg.congr fun a bits => (and_iff_right h).symm

/-- The books of the lengths, as `givenBooks` ends. -/
def booksOf (literalCount : Nat) (lengths : List Nat) (b : Bits) : Except Halt (Books × Bits) :=
  orMalformed (Codebook.ofLengths? true (lengths.take literalCount)) >>= fun literals =>
    orMalformed (Codebook.ofLengths? true (lengths.drop literalCount)) >>= fun distances =>
      pure (⟨literals, distances⟩, b)

/-- The books behind the lengths of the codes for runs. -/
def booksPast (literalCount distanceCount : Nat) (given : List Nat) (b : Bits) :
    Except Halt (Books × Bits) :=
  orMalformed (Codebook.ofLengths? false (ordered given)) >>= fun book =>
    codeLengths book (literalCount + distanceCount) (literalCount + distanceCount + 1) [] b >>=
      fun p => booksOf literalCount p.1.reverse p.2

/-- The books behind the numbers of codes. -/
def booksFrom (literalCount distanceCount lengthCount : Nat) (b : Bits) :
    Except Halt (Books × Bits) :=
  if literalCount > 286 || distanceCount > 30 then .error .malformed
  else threeBitNumbers lengthCount b >>= fun p => booksPast literalCount distanceCount p.1 p.2

theorem givenBooks_eq : givenBooks = fun b =>
    b.number 5 >>= fun p => p.2.number 5 >>= fun q => q.2.number 4 >>= fun r =>
      booksFrom (p.1 + 257) (q.1 + 1) (r.1 + 4) r.2 := by
  simp only [booksFrom, booksPast, ← ordered_eq]
  rfl

theorem parses_booksOf (literalCount : Nat) {lengths : List Nat}
    (hlengths : ∀ n ∈ lengths, n ≤ maxCodeLength) :
    Parses (booksOf literalCount lengths) fun books bits =>
      IsBook true (lengths.take literalCount) ∧ IsBook true (lengths.drop literalCount) ∧
        books = ⟨bookOf (lengths.take literalCount), bookOf (lengths.drop literalCount)⟩ ∧
        bits = [] :=
  parses_withBook (fun n hn => hlengths n (List.mem_of_mem_take hn)) <|
    parses_withBook (fun n hn => hlengths n (List.mem_of_mem_drop hn)) <| parses_pure _

/-- The books of a block whose lengths stand in the bits. -/
def Gives (IsLengths : List Nat → List Nat → List Bool → Prop) (books : Books) (bits : List Bool) :
    Prop :=
  ∃ literals distances, IsLengths literals distances bits ∧
    books = ⟨bookOf literals, bookOf distances⟩

/-- Lengths in runs, behind the `given` lengths of the codes for runs. -/
structure InRuns (literalCount distanceCount : Nat) (given literals distances : List Nat)
    (bits : List Bool) : Prop where
  book : IsBook false (ordered given)
  runs : Runs (ordered given) bits [] (literals ++ distances)
  literalCount : literals.length = literalCount
  literalBook : IsBook true literals
  distanceCount : distances.length = distanceCount
  distanceBook : IsBook true distances

theorem parses_booksPast (literalCount distanceCount : Nat) {given : List Nat} {fields : List Bool}
    (hgiven : Fields 3 given fields) :
    Parses (booksPast literalCount distanceCount given)
      (Gives (InRuns literalCount distanceCount given)) := by
  have hordered := ordered_le hgiven
  have hlength : (ordered given).length = 19 := by simp [ordered, lengthCodeOrder]
  have hcounted : Parses (codeLengths (bookOf (ordered given)) (literalCount + distanceCount)
      (literalCount + distanceCount + 1) [])
      (LengthsFrom (ordered given) (literalCount + distanceCount) []) :=
    parses_codeLengths hordered hlength (Nat.lt_succ_self _)
  refine (parses_withBook hordered (hcounted.bind (g := fun all => booksOf literalCount all.reverse)
    fun all bits h => parses_booksOf literalCount (h.2.le nofun))).congr fun books bits => ?_
  constructor
  · rintro ⟨hbook, all, runs, _, ⟨hcount, hruns⟩, ⟨hliterals, hdistances, rfl, rfl⟩, rfl⟩
    refine ⟨_, _, ⟨hbook, ?_, ?_, hliterals, ?_, hdistances⟩, rfl⟩
    · rwa [List.take_append_drop, List.append_nil]
    · rw [List.length_take, List.length_reverse]
      omega
    · rw [List.length_drop, List.length_reverse]
      omega
  · rintro ⟨literals, distances, h, rfl⟩
    obtain rfl := h.literalCount
    obtain rfl := h.distanceCount
    refine ⟨h.book, (literals ++ distances).reverse, bits, [], ⟨?_, ?_⟩, ?_,
      (List.append_nil bits).symm⟩
    · rw [List.length_reverse, List.length_append]
    · rw [List.reverse_reverse]
      exact h.runs
    · rw [List.reverse_reverse, List.take_left, List.drop_left]
      exact ⟨h.literalBook, h.distanceBook, rfl, rfl⟩

/-- Lengths behind their numbers. -/
def AreCounted (literalCount distanceCount lengthCount : Nat) (literals distances : List Nat)
    (bits : List Bool) : Prop :=
  literalCount ≤ 286 ∧ distanceCount ≤ 30 ∧ ∃ given fields runs,
    (given.length = lengthCount ∧ Fields 3 given fields) ∧
      InRuns literalCount distanceCount given literals distances runs ∧ bits = fields ++ runs

theorem parses_booksFrom (literalCount distanceCount lengthCount : Nat) :
    Parses (booksFrom literalCount distanceCount lengthCount)
      (Gives (AreCounted literalCount distanceCount lengthCount)) := by
  unfold booksFrom
  by_cases hmany : (literalCount > 286 || distanceCount > 30) = true
  · simp only [if_pos hmany]
    refine (parses_error .malformed).congr fun books bits => ⟨False.elim, ?_⟩
    rintro ⟨literals, distances, ⟨hliterals, hdistances, -⟩, -⟩
    simp only [Bool.or_eq_true, decide_eq_true_eq] at hmany
    omega
  · simp only [if_neg hmany]
    simp only [Bool.or_eq_true, decide_eq_true_eq, not_or, Nat.not_lt, gt_iff_lt] at hmany
    refine ((parses_threeBitNumbers lengthCount).bind fun given fields hgiven =>
      parses_booksPast literalCount distanceCount hgiven.2).congr fun books bits => ?_
    constructor
    · rintro ⟨given, fields, runs, hgiven, ⟨literals, distances, hruns, rfl⟩, rfl⟩
      exact ⟨literals, distances, ⟨hmany.1, hmany.2, given, fields, runs, hgiven, hruns, rfl⟩, rfl⟩
    · rintro ⟨literals, distances, ⟨-, -, given, fields, runs, hgiven, hruns, rfl⟩, rfl⟩
      exact ⟨given, fields, runs, hgiven, ⟨literals, distances, hruns, rfl⟩, rfl⟩

/-- The books of a block are those of the lengths that it gives. -/
theorem parses_givenBooks : Parses givenBooks (Gives IsGiven) := by
  rw [givenBooks_eq]
  refine ((parses_number 5).bind fun literalCount _ _ =>
    (parses_number 5).bind fun distanceCount _ _ =>
      (parses_number 4).bind fun lengthCount _ _ =>
        parses_booksFrom (literalCount + 257) (distanceCount + 1) (lengthCount + 4)).congr
    fun books bits => ?_
  constructor
  · rintro ⟨more, field, _, hfield, ⟨more', field', _, hfield', ⟨more'', field'', _, hfield'',
      ⟨literals, distances, ⟨hliterals, hdistances, given, fields, runs, hgiven, h, rfl⟩, rfl⟩,
      rfl⟩, rfl⟩, rfl⟩
    refine ⟨literals, distances, ?_, rfl⟩
    have := IsGiven.mk hfield (h.literalCount.trans (Nat.add_comm _ _)) (h.literalCount ▸ hliterals)
      hfield' (h.distanceCount.trans (Nat.add_comm _ _)) (h.distanceCount ▸ hdistances) hfield''
      (hgiven.1.trans (Nat.add_comm _ _)) hgiven.2 h.book h.runs h.literalBook h.distanceBook
    simpa using this
  · rintro ⟨literals, distances, h, rfl⟩
    cases h with
    | mk hfield hliterals hliterals' hfield' hdistances hdistances' hfield'' hgiven hfields hbook
        hruns hliteralBook hdistanceBook =>
      rw [Nat.add_comm] at hliterals hdistances hgiven
      refine ⟨_, _, _, hfield, ⟨_, _, _, hfield', ⟨_, _, _, hfield'', ⟨literals, distances,
        ⟨hliterals ▸ hliterals', hdistances ▸ hdistances', _, _, _, ⟨hgiven, hfields⟩,
          ⟨hbook, hruns, hliterals, hliteralBook, hdistances, hdistanceBook⟩, rfl⟩, rfl⟩, rfl⟩,
        rfl⟩, ?_⟩
      simp

end DeviceConsole.Gzip
