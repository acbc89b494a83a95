import DeviceConsole.Proofs.Gzip.Codes

/-!
Decoding the items of a block.

What is decoded from a place is told by `Writes`: it succeeds exactly where some bits that say so are
next. The items of a block write what the format says (`writes_itemsOfBlock`), each taking a bit at
least, so that the fuel never runs out before the bits do.
-/
namespace DeviceConsole.Gzip

variable {α : Type}

/-! ### What is written from a place -/

/-- What is decoded from `b` succeeds exactly where bits for an output are next, and has written that
output then. -/
def Writes (b : Bits) (written : Inflated) (Says : List Bool → List UInt8 → Prop) : Prop :=
  ∀ output b', written = ⟨output, .ok b'⟩ ↔
    b'.Proper ∧ ∃ bits, Says bits output.toList ∧ b.toList = bits ++ b'.toList

theorem Writes.congr {b : Bits} {written : Inflated} {Says Says' : List Bool → List UInt8 → Prop}
    (h : Writes b written Says) (hbits : ∀ bits output, Says bits output ↔ Says' bits output) :
    Writes b written Says' := by
  intro output b'
  simp only [h output b', hbits]

theorem writes_output {b : Bits} (hb : b.Proper) (output : Array UInt8) :
    Writes b ⟨output, .ok b⟩ fun bits after => bits = [] ∧ after = output.toList := by
  intro output' b'
  constructor
  · intro h
    obtain ⟨rfl, hok⟩ := Inflated.mk.inj h
    obtain rfl := Except.ok.inj hok
    exact ⟨hb, [], ⟨rfl, rfl⟩, rfl⟩
  · rintro ⟨hb', bits, ⟨rfl, houtput⟩, hlist⟩
    rw [Bits.toList_injective hb hb' hlist, Array.toList_inj.1 houtput]

theorem writes_error (b : Bits) (output : Array UInt8) (halt : Halt) :
    Writes b ⟨output, .error halt⟩ fun _ _ => False := by
  intro output' b'
  constructor
  · intro h
    cases (Inflated.mk.inj h).2
  · rintro ⟨-, bits, ⟨⟩, -⟩

/-- Decoding that goes on behind what has been read. -/
def goOn (output : Array UInt8) (read : Except Halt (α × Bits)) (go : α → Bits → Inflated) :
    Inflated :=
  match read with
  | .error halt => ⟨output, .error halt⟩
  | .ok (a, b) => go a b

/-- What is written behind some bits that have been read needs to be known only from the place where
the reader stands then. -/
theorem Parses.writes {read : Bits → Except Halt (α × Bits)} {Says : α → List Bool → Prop}
    {T : α → List Bool → List Bool → List UInt8 → Prop} {g : α → Bits → Inflated}
    (h : Parses read Says) {b : Bits} (hb : b.Proper) (output : Array UInt8)
    (hg : ∀ a front b', b'.Proper → Says a front → b.toList = front ++ b'.toList →
      Writes b' (g a b') (T a front)) :
    Writes b (goOn output (read b) g) fun bits after =>
      ∃ a front rest, Says a front ∧ T a front rest after ∧ bits = front ++ rest := by
  intro output' b'
  constructor
  · intro hok
    cases hread : read b with
    | error halt =>
      rw [hread] at hok
      cases (Inflated.mk.inj hok).2
    | ok step =>
      obtain ⟨a, middle⟩ := step
      rw [hread] at hok
      obtain ⟨hmiddle, front, hfront, heq⟩ := (h b a middle hb).1 hread
      obtain ⟨hb', rest, hrest, heq'⟩ := (hg a front middle hmiddle hfront heq output' b').1 hok
      refine ⟨hb', front ++ rest, ⟨a, front, rest, hfront, hrest, rfl⟩, ?_⟩
      rw [heq, heq', List.append_assoc]
  · rintro ⟨hb', bits, ⟨a, front, rest, hfront, hrest, rfl⟩, heq⟩
    obtain ⟨middle, hmiddle, heq, heq'⟩ := Bits.exists_between hb heq
    rw [(h b a middle hb).2 ⟨hmiddle, front, hfront, heq⟩]
    exact (hg a front middle hmiddle hfront heq output' b').2 ⟨hb', rest, hrest, heq'⟩

/-! ### Lengths and distances -/

theorem getElem?_lengthTable (symbol : Nat) : lengthTable[symbol]? = lengthRange? symbol := by
  by_cases h : symbol < 29
  · exact (by decide : ∀ s < 29, lengthTable[s]? = lengthRange? s) symbol h
  · rw [List.getElem?_eq_none (Nat.le_of_not_lt h), lengthRange?, if_neg (by omega),
      if_neg (by omega), if_neg (by omega)]

theorem getElem?_distanceTable (symbol : Nat) : distanceTable[symbol]? = distanceRange? symbol := by
  by_cases h : symbol < 30
  · exact (by decide : ∀ s < 30, distanceTable[s]? = distanceRange? s) symbol h
  · rw [List.getElem?_eq_none (Nat.le_of_not_lt h), distanceRange?, if_neg (by omega),
      if_neg (by omega)]

theorem parses_extended {table : List (Nat × Nat)} {range? : Nat → Option (Nat × Nat)}
    (htable : ∀ symbol, table[symbol]? = range? symbol) (symbol : Nat) :
    Parses (extended table symbol) fun n field => ∃ least extra more,
      range? symbol = some (least, extra) ∧ IsField extra more field ∧ n = least + more := by
  unfold extended
  rw [htable]
  cases hrange : range? symbol with
  | none =>
    refine (parses_error .malformed).congr fun n field => ⟨False.elim, ?_⟩
    rintro ⟨least, extra, more, hnone, -⟩
    cases hnone
  | some range =>
    obtain ⟨least, extra⟩ := range
    refine ((parses_number extra).map (least + ·)).congr fun n field => ?_
    constructor
    · rintro ⟨more, hfield, rfl⟩
      exact ⟨least, extra, more, rfl, hfield, rfl⟩
    · rintro ⟨_, _, more, ⟨⟩, hfield, rfl⟩
      exact ⟨more, hfield, rfl⟩

theorem distance_pos {distances : List Nat} {start distance : Nat} {bits : List Bool}
    (h : IsRanged distanceRange? distances start distance bits) : 0 < distance := by
  obtain @⟨symbol, least, extra, more, code, field, -, hrange, -⟩ := h
  unfold distanceRange? at hrange
  split at hrange
  · cases hrange
    omega
  · split at hrange
    · cases hrange
      omega
    · cases hrange

/-! ### Copies -/

theorem copied_copyBack {distance : Nat} (hdistance : 0 < distance) (length : Nat)
    (output : Array UInt8) :
    Copied length distance output.toList (copyBack distance length output).toList := by
  induction length generalizing output with
  | zero => exact ⟨List.prefix_refl _, rfl, fun i hle hlt => absurd hle (Nat.not_le_of_lt hlt)⟩
  | succ length ih =>
    generalize hx :
      (if distance ≤ output.size then output.getD (output.size - distance) 0 else 0) = x
    have h := ih (output.push x)
    rw [Array.toList_push] at h
    rw [copyBack, hx]
    generalize (copyBack distance length (output.push x)).toList = after at h ⊢
    refine ⟨(List.prefix_append _ _).trans h.kept, ?_, fun i hle hlt => ?_⟩
    · rw [h.grown, List.length_append, List.length_singleton]
      omega
    · by_cases hi : i = output.toList.length
      · -- the first byte of the copy, which is there when the others are made
        obtain ⟨more, rfl⟩ := h.kept
        subst hi
        rw [List.append_assoc, List.getElem?_append_right (Nat.le_refl _), Nat.sub_self]
        show some x = some _
        rw [← hx, Array.length_toList]
        congr 1
        by_cases hreach : distance ≤ output.size
        · have hback : output.size - distance < output.toList.length := by
            rw [Array.length_toList]
            omega
          rw [if_pos hreach, if_pos hreach, Array.getD_eq_getD_getElem?, List.getD_eq_getElem?_getD,
            List.getElem?_append_left hback, Array.getElem?_toList]
        · rw [if_neg hreach, if_neg hreach]
      · apply h.copies i _ hlt
        rw [List.length_append, List.length_singleton]
        omega

/-- The bytes of a copy are determined one after the other. -/
theorem Copied.unique {length distance : Nat} (hdistance : 0 < distance)
    {before after after' : List UInt8} (h : Copied length distance before after)
    (h' : Copied length distance before after') : after = after' := by
  have hlength : after'.length = after.length := h'.grown.trans h.grown.symm
  apply List.ext_getElem?
  intro i
  induction i using Nat.strongRecOn with
  | ind i ih =>
    by_cases hbefore : i < before.length
    · obtain ⟨more, rfl⟩ := h.kept
      obtain ⟨more', rfl⟩ := h'.kept
      rw [List.getElem?_append_left hbefore, List.getElem?_append_left hbefore]
    · by_cases hi : i < after.length
      · rw [h.copies i (Nat.le_of_not_lt hbefore) hi,
          h'.copies i (Nat.le_of_not_lt hbefore) (hlength ▸ hi)]
        congr 1
        by_cases hreach : distance ≤ i
        · rw [if_pos hreach, if_pos hreach, List.getD_eq_getElem?_getD, List.getD_eq_getElem?_getD,
            ih (i - distance) (by omega)]
        · rw [if_neg hreach, if_neg hreach]
      · rw [List.getElem?_eq_none (Nat.le_of_not_lt hi),
          List.getElem?_eq_none (hlength ▸ Nat.le_of_not_lt hi)]

/-! ### Items -/

/-- What a symbol of a block stands for, and the bits behind its code. -/
inductive IsItem (distances : List Nat) : Nat → Item → List Bool → Prop
  | literal {b : UInt8} : IsItem distances b.toNat (.literal b) []
  | copy {symbol least extra more distance : Nat} {field back : List Bool} :
      lengthRange? symbol = some (least, extra) → IsField extra more field →
      IsRanged distanceRange? distances 0 distance back →
      IsItem distances (endOfBlock + 1 + symbol) (.copy (least + more) distance) (field ++ back)
  | done : IsItem distances endOfBlock .done []

/-- The item of a symbol, as `item` goes on behind it. -/
def itemOf (books : Books) (symbol : Nat) (b : Bits) : Except Halt (Item × Bits) :=
  if symbol < endOfBlock then pure (.literal symbol.toUInt8, b)
  else if symbol = endOfBlock then pure (.done, b)
  else
    extended lengthTable (symbol - 257) b >>= fun p =>
      books.distances.symbol p.2 >>= fun q =>
        extended distanceTable q.1 q.2 >>= fun r => pure (.copy p.1 r.1, r.2)

theorem item_eq (books : Books) :
    item books = fun b => books.literals.symbol b >>= fun p => itemOf books p.1 p.2 := rfl

theorem parses_distance {distances : List Nat}
    (hdistances : ∀ n ∈ distances, n ≤ maxCodeLength) (f : Nat → α) :
    Parses (fun b => (bookOf distances).symbol b >>= fun q =>
        extended distanceTable q.1 q.2 >>= fun r => pure (f r.1, r.2))
      fun a bits => ∃ distance, IsRanged distanceRange? distances 0 distance bits ∧
        a = f distance := by
  refine ((parses_symbol hdistances).bind fun symbol _ _ =>
    (parses_extended getElem?_distanceTable symbol).map f).congr fun a bits => ?_
  constructor
  · rintro ⟨symbol, code, field, hcode, ⟨distance, ⟨least, extra, more, hrange, hfield, rfl⟩, rfl⟩,
      rfl⟩
    exact ⟨_, .mk ((Nat.zero_add symbol).symm ▸ hcode) hrange hfield, rfl⟩
  · rintro ⟨_, @⟨symbol, least, extra, more, code, field, hcode, hrange, hfield⟩, rfl⟩
    exact ⟨symbol, code, field, Nat.zero_add symbol ▸ hcode,
      ⟨_, ⟨least, extra, more, hrange, hfield, rfl⟩, rfl⟩, rfl⟩

theorem parses_itemOf (literals : Codebook) {distances : List Nat}
    (hdistances : ∀ n ∈ distances, n ≤ maxCodeLength) (symbol : Nat) :
    Parses (itemOf ⟨literals, bookOf distances⟩ symbol) (IsItem distances symbol) := by
  unfold itemOf
  by_cases hliteral : symbol < endOfBlock
  · simp only [if_pos hliteral]
    have hbyte : symbol.toUInt8.toNat = symbol := Nat.mod_eq_of_lt hliteral
    refine (parses_pure _).congr fun item bits => ?_
    constructor
    · rintro ⟨rfl, rfl⟩
      have := @IsItem.literal distances symbol.toUInt8
      rwa [hbyte] at this
    · intro h
      cases h with
      | literal => exact ⟨by rw [Nat.toUInt8, UInt8.ofNat_toNat], rfl⟩
      | copy => simp only [endOfBlock] at hliteral; omega
      | done => exact absurd hliteral (Nat.lt_irrefl _)
  · simp only [if_neg hliteral]
    by_cases hdone : symbol = endOfBlock
    · simp only [if_pos hdone]
      subst hdone
      refine (parses_pure _).congr fun item bits => ?_
      constructor
      · rintro ⟨rfl, rfl⟩
        exact .done
      · intro h
        generalize hsymbol : endOfBlock = symbol at h
        cases h with
        | @literal x => exact absurd hsymbol (Nat.ne_of_gt x.toNat_lt)
        | copy => simp only [endOfBlock] at hsymbol; omega
        | done => exact ⟨rfl, rfl⟩
    · simp only [if_neg hdone]
      refine ((parses_extended getElem?_lengthTable (symbol - 257)).bind fun length _ _ =>
        parses_distance hdistances (Item.copy length)).congr fun item bits => ?_
      have hsymbol : endOfBlock + 1 + (symbol - 257) = symbol := by
        simp only [endOfBlock] at hliteral hdone ⊢
        omega
      constructor
      · rintro ⟨length, field, back, ⟨least, extra, more, hrange, hfield, rfl⟩,
          ⟨distance, hback, rfl⟩, rfl⟩
        have := IsItem.copy hrange hfield hback
        rwa [hsymbol] at this
      · intro h
        cases h with
        | literal => exact absurd (UInt8.toNat_lt _) hliteral
        | done => exact absurd rfl hdone
        | @copy symbol _ _ _ _ _ _ hrange hfield hback =>
          have hindex : endOfBlock + 1 + symbol - 257 = symbol :=
            Nat.add_sub_cancel_left 257 symbol
          rw [← hindex] at hrange
          exact ⟨_, _, _, ⟨_, _, _, hrange, hfield, rfl⟩, ⟨_, hback, rfl⟩, rfl⟩

/-- An item takes a bit at least, and is one of a block's. -/
theorem parses_item {literals distances : List Nat}
    (hliterals : ∀ n ∈ literals, n ≤ maxCodeLength)
    (hdistances : ∀ n ∈ distances, n ≤ maxCodeLength) :
    Parses (item ⟨bookOf literals, bookOf distances⟩) fun item bits => ∃ symbol front back,
      IsCode literals symbol front ∧ IsItem distances symbol item back ∧ bits = front ++ back := by
  rw [item_eq]
  exact (parses_symbol hliterals).bind fun symbol _ _ => parses_itemOf _ hdistances symbol

/-- What is written behind an item, as `itemsOfBlock` goes on. -/
def writeItem (books : Books) (fuel : Nat) (output : Array UInt8) (item : Item) (b : Bits) :
    Inflated :=
  match item with
  | .literal x => itemsOfBlock books fuel (output.push x) b
  | .copy length distance => itemsOfBlock books fuel (copyBack distance length output) b
  | .done => ⟨output, .ok b⟩

theorem itemsOfBlock_succ (books : Books) (fuel : Nat) (output : Array UInt8) (b : Bits) :
    itemsOfBlock books (fuel + 1) output b =
      goOn output (item books b) (writeItem books fuel output) := by
  rw [itemsOfBlock]
  cases item books b with
  | error halt => rfl
  | ok step =>
    obtain ⟨item, b'⟩ := step
    cases item <;> rfl

/-- What an item and the items behind it append. -/
inductive ThenItems (literals distances : List Nat) (before : List UInt8) :
    Item → List Bool → List UInt8 → Prop
  | literal {b : UInt8} {rest : List Bool} {after : List UInt8} :
      Items literals distances rest (before ++ [b]) after →
      ThenItems literals distances before (.literal b) rest after
  | copy {length distance : Nat} {rest : List Bool} {middle after : List UInt8} :
      Copied length distance before middle → Items literals distances rest middle after →
      ThenItems literals distances before (.copy length distance) rest after
  | done : ThenItems literals distances before .done [] before

theorem items_iff {literals distances : List Nat} {bits : List Bool} {before after : List UInt8} :
    Items literals distances bits before after ↔ ∃ item front rest,
      (∃ symbol code field, IsCode literals symbol code ∧ IsItem distances symbol item field ∧
        front = code ++ field) ∧
      ThenItems literals distances before item rest after ∧ bits = front ++ rest := by
  constructor
  · intro h
    cases h with
    | literal hcode hrest =>
      exact ⟨_, _, _, ⟨_, _, [], hcode, .literal, rfl⟩, .literal hrest, by simp⟩
    | copy hlength hdistance hcopied hrest =>
      obtain ⟨hcode, hrange, hfield⟩ := hlength
      exact ⟨_, _, _, ⟨_, _, _, hcode, .copy hrange hfield hdistance, rfl⟩, .copy hcopied hrest,
        by simp⟩
    | done hcode => exact ⟨_, _, _, ⟨_, _, [], hcode, .done, rfl⟩, .done, by simp⟩
  · rintro ⟨item, front, rest, ⟨symbol, code, field, hcode, hitem, rfl⟩, hthen, rfl⟩
    cases hitem with
    | literal =>
      cases hthen with
      | literal hrest => simpa using Items.literal hcode hrest
    | copy hrange hfield hdistance =>
      cases hthen with
      | copy hcopied hrest =>
        simpa using Items.copy (.mk hcode hrange hfield) hdistance hcopied hrest
    | done =>
      cases hthen with
      | done => simpa using Items.done hcode

/-- The items of a block are decoded from bits that are fewer than the fuel. -/
theorem writes_itemsOfBlock {literals distances : List Nat}
    (hliterals : ∀ n ∈ literals, n ≤ maxCodeLength)
    (hdistances : ∀ n ∈ distances, n ≤ maxCodeLength) {fuel : Nat} {b : Bits} (hb : b.Proper)
    (hfuel : b.toList.length < fuel) (output : Array UInt8) :
    Writes b (itemsOfBlock ⟨bookOf literals, bookOf distances⟩ fuel output b) fun bits after =>
      Items literals distances bits output.toList after := by
  induction fuel generalizing b output with
  | zero => exact absurd hfuel (Nat.not_lt_zero _)
  | succ fuel ih =>
    rw [itemsOfBlock_succ]
    refine ((parses_item hliterals hdistances).writes hb output
      (T := fun item _ => ThenItems literals distances output.toList item)
      fun item front b' hb' hfront hlist => ?_).congr fun bits after => items_iff.symm
    have hless : b'.toList.length < fuel := by
      obtain ⟨symbol, code, field, hcode, -, rfl⟩ := hfront
      have hpos := List.length_pos_of_ne_nil hcode.nonempty
      rw [hlist, List.length_append, List.length_append] at hfuel
      omega
    cases item with
    | literal x =>
      refine (ih hb' hless (output.push x)).congr fun bits after => ?_
      rw [Array.toList_push]
      exact ⟨.literal, fun h => by cases h with | literal h => exact h⟩
    | copy length distance =>
      obtain ⟨symbol, code, field, -, hitem, -⟩ := hfront
      have hdistance : 0 < distance := by
        cases hitem with
        | copy _ _ h => exact distance_pos h
      have hcopied := copied_copyBack hdistance length output
      refine (ih hb' hless (copyBack distance length output)).congr fun bits after => ?_
      constructor
      · exact .copy hcopied
      · intro h
        cases h with
        | copy hcopied' h => rwa [hcopied.unique hdistance hcopied']
    | done =>
      refine (writes_output hb' output).congr fun bits after => ?_
      constructor
      · rintro ⟨rfl, rfl⟩
        exact .done
      · intro h
        cases h with
        | done => exact ⟨rfl, rfl⟩

end DeviceConsole.Gzip
