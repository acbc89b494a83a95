import DeviceConsole.Proofs.Gzip.Items
import DeviceConsole.Proofs.Gzip.Lengths

/-!
Decoding a compressed body.

`inflate_eq_ok_iff`: a body is decoded exactly where some bytes are next that are a compressed body,
and nothing behind them matters. A stored block is the one thing that depends on where it stands; the
place is known from the bits that are left, which with those before them make whole bytes.
-/
namespace DeviceConsole.Gzip

/-! ### Stored blocks -/

theorem Bits.started_eq_nil {b : Bits} (hb : b.Proper) (h : b.toList.length % 8 = 0) :
    b.started = [] := by
  rw [length_toList] at h
  unfold Proper at hb
  apply List.eq_nil_of_length_eq_zero
  omega

theorem storedBytes_eq_ok_iff {length : Nat} {output output' : Array UInt8} {rest : List UInt8}
    {b : Bits} :
    storedBytes length output rest = ⟨output', .ok b⟩ ↔ b.started = [] ∧
      ∃ bytes, bytes.length = length ∧ output'.toList = output.toList ++ bytes ∧
        rest = bytes ++ b.rest := by
  induction length generalizing output rest with
  | zero =>
    rw [storedBytes]
    constructor
    · intro h
      cases h
      exact ⟨rfl, [], rfl, (List.append_nil _).symm, rfl⟩
    · rintro ⟨hstarted, bytes, hlength, houtput, rfl⟩
      obtain rfl := List.eq_nil_of_length_eq_zero hlength
      rw [List.append_nil, Array.toList_inj] at houtput
      obtain ⟨started, rest⟩ := b
      rw [houtput, show started = [] from hstarted]
      rfl
  | succ length ih =>
    cases rest with
    | nil =>
      constructor
      · intro h
        cases h
      · rintro ⟨-, bytes, hlength, -, hrest⟩
        rw [(List.append_eq_nil_iff.1 hrest.symm).1] at hlength
        cases hlength
    | cons x rest =>
      rw [storedBytes, ih, Array.toList_push]
      constructor
      · rintro ⟨hstarted, bytes, hlength, houtput, rfl⟩
        exact ⟨hstarted, x :: bytes, congrArg Nat.succ hlength, by simpa using houtput, rfl⟩
      · rintro ⟨hstarted, bytes, hlength, houtput, hrest⟩
        cases bytes with
        | nil => cases hlength
        | cons y bytes =>
          obtain ⟨rfl, rfl⟩ := List.cons.inj hrest
          exact ⟨hstarted, bytes, Nat.succ.inj hlength, by simpa using houtput, rfl⟩

theorem writes_storedBytes (length : Nat) (output : Array UInt8) (rest : List UInt8) :
    Writes ⟨[], rest⟩ (storedBytes length output rest) fun bits after =>
      ∃ bytes, bytes.length = length ∧ bits = bitsOf bytes ∧ after = output.toList ++ bytes := by
  intro output' b'
  rw [storedBytes_eq_ok_iff]
  constructor
  · rintro ⟨hstarted, bytes, hlength, houtput, rfl⟩
    refine ⟨?_, bitsOf bytes, ⟨bytes, hlength, rfl, houtput⟩, ?_⟩
    · rw [Bits.Proper, hstarted]
      decide
    · rw [Bits.toList, Bits.toList, hstarted]
      exact bitsOf_append _ _
  · rintro ⟨hb', _, ⟨bytes, hlength, rfl, houtput⟩, hlist⟩
    have hbits := congrArg List.length hlist
    rw [List.length_append, length_bitsOf, Bits.length_toList] at hbits
    have hstarted : b'.started = [] := by
      apply Bits.started_eq_nil hb'
      simp only [List.length_nil] at hbits
      omega
    refine ⟨hstarted, bytes, hlength, houtput, bitsOf_injective ?_⟩
    rw [Bits.toList, Bits.toList, hstarted] at hlist
    exact hlist.trans (bitsOf_append _ _).symm

/-- The length of a stored block from the start of a byte. -/
def storedLengthAt (b : Bits) : Except Halt (Nat × Bits) :=
  b.number 16 >>= fun p => p.2.number 16 >>= fun q =>
    if p.1 + q.1 = 0xffff then pure (p.1, q.2) else .error .malformed

theorem storedLength_eq (b : Bits) : storedLength b = storedLengthAt b.alignToByte := rfl

theorem parses_storedLengthAt : Parses storedLengthAt fun length bits =>
    ∃ field field', IsField 16 length field ∧ IsField 16 (0xffff - length) field' ∧
      bits = field ++ field' := by
  have hsame : ∀ length field, IsField 16 length field →
      Parses (fun b => b.number 16 >>= fun q =>
        if length + q.1 = 0xffff then pure (length, q.2) else .error .malformed)
        fun n bits => n = length ∧ IsField 16 (0xffff - length) bits := by
    intro length field hfield
    have hlt : length < 2 ^ 16 := by
      rw [← hfield.value, ← hfield.length]
      exact lowFirst_lt field
    have hinverted : ∀ inverted field', IsField 16 inverted field' →
        Parses (fun b : Bits => if length + inverted = 0xffff then pure (length, b)
          else .error .malformed)
          fun n bits => inverted = 0xffff - length ∧ n = length ∧ bits = [] := by
      intro inverted _ _
      by_cases h : length + inverted = 0xffff
      · simp only [if_pos h]
        exact (parses_pure length).congr fun n bits => (and_iff_right (by omega)).symm
      · simp only [if_neg h]
        exact (parses_error .malformed).congr fun n bits => ⟨False.elim, fun h' => by omega⟩
    refine ((parses_number 16).bind hinverted).congr fun n bits => ?_
    constructor
    · rintro ⟨inverted, field', _, hfield', ⟨rfl, rfl, rfl⟩, rfl⟩
      exact ⟨rfl, (List.append_nil field').symm ▸ hfield'⟩
    · rintro ⟨rfl, hfield'⟩
      exact ⟨_, bits, [], hfield', ⟨rfl, rfl, rfl⟩, (List.append_nil bits).symm⟩
  refine ((parses_number 16).bind hsame).congr fun length bits => ?_
  constructor
  · rintro ⟨_, field, field', hfield, ⟨rfl, hfield'⟩, rfl⟩
    exact ⟨field, field', hfield, hfield', rfl⟩
  · rintro ⟨field, field', hfield, hfield', rfl⟩
    exact ⟨length, field, field', hfield, ⟨rfl, hfield'⟩, rfl⟩

/-- What is written from the start of the next byte, told from any place before it. -/
theorem Writes.aligned {place : Nat} {b : Bits} {written : Inflated}
    {Says : List Bool → List UInt8 → Prop} (h : Writes b.alignToByte written Says) (hb : b.Proper)
    (hplace : (place + b.toList.length) % 8 = 0) :
    Writes b written fun bits after => ∃ filling rest, filling.length < 8 ∧
      (place + filling.length) % 8 = 0 ∧ Says rest after ∧ bits = filling ++ rest := by
  have hsplit : b.toList = b.started ++ b.alignToByte.toList := rfl
  rw [Bits.length_toList] at hplace
  unfold Bits.Proper at hb
  intro output b'
  rw [h output b']
  constructor
  · rintro ⟨hb', rest, hrest, hlist⟩
    refine ⟨hb', b.started ++ rest, ⟨b.started, rest, hb, by omega, hrest, rfl⟩, ?_⟩
    rw [hsplit, hlist, List.append_assoc]
  · rintro ⟨hb', _, ⟨filling, rest, hfilling, hplace', hrest, rfl⟩, hlist⟩
    rw [hsplit, List.append_assoc] at hlist
    exact ⟨hb', rest, hrest, (List.append_inj hlist (by omega)).2⟩

/-! ### The kinds of blocks -/

theorem fixedLiterals_le : ∀ n ∈ fixedLiterals, n ≤ maxCodeLength := by
  intro n hn
  simp only [fixedLiterals, List.mem_append, List.mem_replicate] at hn
  rw [maxCodeLength]
  omega

theorem fixedDistances_le : ∀ n ∈ fixedDistances, n ≤ maxCodeLength := by
  intro n hn
  rw [(List.mem_replicate.1 hn).2]
  decide

theorem isBook_fixedLiterals : IsBook false fixedLiterals := by
  left
  simp only [fixedLiterals, List.map_append, List.map_replicate, List.sum_append,
    List.sum_replicate]
  rfl

theorem isBook_fixedDistances : IsBook false fixedDistances := by
  left
  simp only [fixedDistances, List.map_replicate, List.sum_replicate]
  rfl

theorem fixedBooks?_eq : fixedBooks? = some ⟨bookOf fixedLiterals, bookOf fixedDistances⟩ := by
  have hliterals := (ofLengths?_eq_some_iff fixedLiterals_le).2 ⟨isBook_fixedLiterals, rfl⟩
  have hdistances := (ofLengths?_eq_some_iff fixedDistances_le).2 ⟨isBook_fixedDistances, rfl⟩
  rw [fixedBooks?, ← fixedLiterals, ← fixedDistances, hliterals, hdistances]
  rfl

theorem IsGiven.le {literals distances : List Nat} {bits : List Bool}
    (h : IsGiven literals distances bits) : ∀ n ∈ literals ++ distances, n ≤ maxCodeLength := by
  cases h with
  | mk _ _ _ _ _ _ _ _ _ _ hruns _ _ => exact hruns.le nofun

/-- A block behind its kind, as `block` goes on. -/
def blockOf (fuel : Nat) (output : Array UInt8) (kind : Nat) (b : Bits) : Inflated :=
  match kind with
  | 0 => goOn output (storedLength b) fun length b => storedBytes length output b.rest
  | 1 => itemsOfBlock ⟨bookOf fixedLiterals, bookOf fixedDistances⟩ fuel output b
  | 2 => goOn output (givenBooks b) fun books b => itemsOfBlock books fuel output b
  | _ => ⟨output, .error .malformed⟩

theorem block_eq (fuel : Nat) (output : Array UInt8) (b : Bits) :
    block fuel output b = goOn output (b.number 2) (blockOf fuel output) := by
  rw [block, fixedBooks?_eq]
  cases b.number 2 with
  | error halt => rfl
  | ok step =>
    obtain ⟨_ | _ | _ | kind, b⟩ := step
    · simp only [goOn, blockOf]
      cases storedLength b <;> rfl
    · rfl
    · simp only [goOn, blockOf]
      cases givenBooks b <;> rfl
    · rfl

theorem writes_stored {place : Nat} {b : Bits} (hb : b.Proper)
    (hplace : (place + b.toList.length) % 8 = 0) (output : Array UInt8) :
    Writes b (goOn output (storedLength b) fun length b => storedBytes length output b.rest)
      fun bits after => IsBlock place 0 bits output.toList after := by
  have haligned : b.alignToByte.Proper := Nat.zero_lt_succ 7
  have hlength : b.alignToByte.toList.length = 8 * b.rest.length := length_bitsOf b.rest
  rw [storedLength_eq]
  have hwrites := parses_storedLengthAt.writes haligned output
    (g := fun length b => storedBytes length output b.rest)
    (T := fun length _ bits after => ∃ bytes : List UInt8, bytes.length = length ∧
      bits = bitsOf bytes ∧ after = output.toList ++ bytes)
      fun length front b' hb' hfront hlist => by
    obtain ⟨field, field', hfield, hfield', rfl⟩ := hfront
    have hbits := congrArg List.length hlist
    rw [hlength, List.length_append, List.length_append, hfield.length, hfield'.length] at hbits
    have hstarted : b'.started = [] := by
      apply Bits.started_eq_nil hb'
      omega
    obtain ⟨started, rest⟩ := b'
    obtain rfl : started = [] := hstarted
    exact writes_storedBytes length output rest
  refine (hwrites.aligned hb hplace).congr fun bits after => ?_
  constructor
  · rintro ⟨filling, _, hfilling, hplace', ⟨_, _, _, ⟨field, field', hfield, hfield', rfl⟩,
      ⟨bytes, rfl, rfl, rfl⟩, rfl⟩, rfl⟩
    exact .stored hfilling hplace' hfield hfield'
  · intro h
    generalize hbefore : output.toList = before at h
    cases h with
    | @stored filling field field' bytes _ hfilling hplace' hfield hfield' =>
      exact ⟨filling, _, hfilling, hplace', ⟨_, _, _, ⟨field, field', hfield, hfield', rfl⟩,
        ⟨bytes, rfl, rfl, hbefore ▸ rfl⟩, rfl⟩, rfl⟩

theorem writes_given {fuel place : Nat} {b : Bits} (hb : b.Proper)
    (hfuel : b.toList.length < fuel) (output : Array UInt8) :
    Writes b (goOn output (givenBooks b) fun books b => itemsOfBlock books fuel output b)
      fun bits after => IsBlock place 2 bits output.toList after := by
  have hwrites := parses_givenBooks.writes hb output
    (g := fun books b => itemsOfBlock books fuel output b)
    (T := fun books front bits after => ∃ literals distances, IsGiven literals distances front ∧
      books = ⟨bookOf literals, bookOf distances⟩ ∧
      Items literals distances bits output.toList after) fun books front b' hb' hfront hlist => by
    have hless : b'.toList.length < fuel := by
      rw [hlist, List.length_append] at hfuel
      omega
    have hitems : ∀ {literals distances}, IsGiven literals distances front →
        Writes b' (itemsOfBlock ⟨bookOf literals, bookOf distances⟩ fuel output b')
          fun bits after => Items literals distances bits output.toList after := fun h =>
      writes_itemsOfBlock (fun n hn => h.le n (List.mem_append_left _ hn))
        (fun n hn => h.le n (List.mem_append_right _ hn)) hb' hless output
    obtain ⟨literals, distances, hgiven, rfl⟩ := hfront
    intro output' b''
    constructor
    · intro h
      obtain ⟨hb'', bits, hbits, heq⟩ := (hitems hgiven output' b'').1 h
      exact ⟨hb'', bits, ⟨literals, distances, hgiven, rfl, hbits⟩, heq⟩
    · rintro ⟨hb'', bits, ⟨literals', distances', hgiven', hbooks, hbits⟩, heq⟩
      rw [hbooks]
      exact (hitems hgiven' output' b'').2 ⟨hb'', bits, hbits, heq⟩
  refine hwrites.congr fun bits after => ?_
  constructor
  · rintro ⟨_, lengths, items, -, ⟨literals, distances, hgiven, -, hitems⟩, rfl⟩
    exact .given hgiven hitems
  · intro h
    cases h with
    | given hgiven hitems =>
      exact ⟨_, _, _, ⟨_, _, hgiven, rfl⟩, ⟨_, _, hgiven, rfl, hitems⟩, rfl⟩

theorem writes_blockOf {fuel place : Nat} {b : Bits} (hb : b.Proper)
    (hfuel : b.toList.length < fuel) (hplace : (place + b.toList.length) % 8 = 0)
    (output : Array UInt8) (kind : Nat) :
    Writes b (blockOf fuel output kind b) fun bits after =>
      IsBlock place kind bits output.toList after := by
  obtain _ | _ | _ | kind := kind
  · exact writes_stored hb hplace output
  · refine (writes_itemsOfBlock fixedLiterals_le fixedDistances_le hb hfuel output).congr
      fun bits after => ⟨.fixed, fun h => ?_⟩
    cases h with
    | fixed h => exact h
  · exact writes_given hb hfuel output
  · exact (writes_error b output .malformed).congr fun bits after => ⟨False.elim, nofun⟩

/-! ### Blocks in a row -/

/-- What is written behind what has been written. -/
def Inflated.andThen (written : Inflated) (g : Array UInt8 → Bits → Inflated) : Inflated :=
  match written with
  | ⟨output, .ok b⟩ => g output b
  | halted => halted

theorem Writes.andThen {b : Bits} {written : Inflated} {Says : List Bool → List UInt8 → Prop}
    {T : List Bool → List UInt8 → List Bool → List UInt8 → Prop}
    {g : Array UInt8 → Bits → Inflated} (h : Writes b written Says) (hb : b.Proper)
    (hg : ∀ front output b', b'.Proper → Says front output.toList → b.toList = front ++ b'.toList →
      Writes b' (g output b') (T front output.toList)) :
    Writes b (written.andThen g) fun bits after => ∃ front middle rest,
      Says front middle ∧ T front middle rest after ∧ bits = front ++ rest := by
  intro output' b'
  constructor
  · intro hok
    obtain ⟨output, outcome⟩ := written
    cases outcome with
    | error halt => cases (Inflated.mk.inj hok).2
    | ok middle =>
      obtain ⟨hmiddle, front, hfront, heq⟩ := (h output middle).1 rfl
      obtain ⟨hb', rest, hrest, heq'⟩ := (hg front output middle hmiddle hfront heq output' b').1 hok
      refine ⟨hb', front ++ rest, ⟨front, _, rest, hfront, hrest, rfl⟩, ?_⟩
      rw [heq, heq', List.append_assoc]
  · rintro ⟨hb', _, ⟨front, output, rest, hfront, hrest, rfl⟩, heq⟩
    obtain ⟨middle, hmiddle, heq, heq'⟩ := Bits.exists_between hb heq
    rw [(h output.toArray middle).2 ⟨hmiddle, front, hfront, heq⟩]
    exact (hg front output.toArray middle hmiddle hfront heq output' b').2 ⟨hb', rest, hrest, heq'⟩

theorem blocks_succ (bits fuel : Nat) (output : Array UInt8) (b : Bits) :
    blocks bits (fuel + 1) output b = goOn output b.next fun last b =>
      (block bits output b).andThen fun output b =>
        if last then ⟨output, .ok b⟩ else blocks bits fuel output b := by
  rw [blocks]
  cases b.next with
  | error halt => rfl
  | ok step =>
    obtain ⟨last, b⟩ := step
    show (match block bits output b with
      | ⟨output, .ok b⟩ => if last then ⟨output, .ok b⟩ else blocks bits fuel output b
      | halted => halted) = (block bits output b).andThen _
    obtain ⟨output, halt | b⟩ := block bits output b <;> rfl

/-- A block behind the field for its kind. -/
def Kinded (place : Nat) (before : List UInt8) (bits : List Bool) (after : List UInt8) : Prop :=
  ∃ kind field rest, IsField 2 kind field ∧ IsBlock (place + 2) kind rest before after ∧
    bits = field ++ rest

theorem writes_block {fuel place : Nat} {b : Bits} (hb : b.Proper)
    (hfuel : b.toList.length < fuel) (hplace : (place + b.toList.length) % 8 = 0)
    (output : Array UInt8) :
    Writes b (block fuel output b) (Kinded place output.toList) := by
  rw [block_eq]
  exact (parses_number 2).writes hb output fun kind front b' hb' hfront hlist => by
    rw [hlist, List.length_append] at hfuel hplace
    rw [hfront.length] at hplace
    exact writes_blockOf hb' (by omega) (by omega) output kind

/-- What stands behind a block. -/
inductive ThenBlocks (place : Nat) (middle : List UInt8) : Bool → List Bool → List UInt8 → Prop
  | last : ThenBlocks place middle true [] middle
  | more {rest : List Bool} {after : List UInt8} :
      Blocks place rest middle after → ThenBlocks place middle false rest after

theorem blocks_iff {place : Nat} {bits : List Bool} {before after : List UInt8} :
    Blocks place bits before after ↔ ∃ last front back, front = [last] ∧
      (∃ block middle rest, Kinded (place + 1) before block middle ∧
        ThenBlocks (place + 1 + block.length) middle last rest after ∧ back = block ++ rest) ∧
      bits = front ++ back := by
  constructor
  · intro h
    cases h with
    | last hfield hblock =>
      exact ⟨true, _, _, rfl, ⟨_, _, [], ⟨_, _, _, hfield, hblock, rfl⟩, .last,
        (List.append_nil _).symm⟩, rfl⟩
    | @more _ kind field bits rest _ _ _ hfield hblock hrest =>
      refine ⟨false, _, _, rfl, ⟨_, _, rest, ⟨_, _, _, hfield, hblock, rfl⟩, .more ?_, rfl⟩, rfl⟩
      have hplace : place + 1 + (field ++ bits).length = place + 3 + bits.length := by
        rw [List.length_append, hfield.length]
        omega
      rwa [hplace]
  · rintro ⟨last, _, _, rfl, ⟨_, middle, rest, ⟨kind, field, bits, hfield, hblock, rfl⟩, hthen,
      rfl⟩, rfl⟩
    cases hthen with
    | last =>
      rw [List.append_nil]
      show Blocks place (true :: (field ++ bits)) before _
      exact .last hfield hblock
    | more hrest =>
      have hplace : place + 1 + (field ++ bits).length = place + 3 + bits.length := by
        rw [List.length_append, hfield.length]
        omega
      rw [hplace] at hrest
      exact .more hfield hblock hrest

/-- Blocks are decoded from bits that are fewer than the fuel. -/
theorem writes_blocks {bits fuel place : Nat} {b : Bits} (hb : b.Proper)
    (hbits : b.toList.length < bits) (hfuel : b.toList.length < fuel)
    (hplace : (place + b.toList.length) % 8 = 0) (output : Array UInt8) :
    Writes b (blocks bits fuel output b) fun bits after =>
      Blocks place bits output.toList after := by
  induction fuel generalizing b place output with
  | zero => exact absurd hfuel (Nat.not_lt_zero _)
  | succ fuel ih =>
    rw [blocks_succ]
    refine (parses_next.writes hb output
      (T := fun last _ back after => ∃ block middle rest,
        Kinded (place + 1) output.toList block middle ∧
        ThenBlocks (place + 1 + block.length) middle last rest after ∧ back = block ++ rest)
      fun last front b' hb' hfront hlist => ?_).congr fun bits after => blocks_iff.symm
    subst hfront
    have hlength : b.toList.length = 1 + b'.toList.length := by
      rw [hlist, List.length_append, List.length_singleton]
    have hblock : Writes b' (block bits output b') (Kinded (place + 1) output.toList) :=
      writes_block hb' (by omega) (by omega) output
    refine hblock.andThen hb'
      (T := fun block middle => ThenBlocks (place + 1 + block.length) middle last)
      fun block output' b'' hb'' _ hlist' => ?_
    have hlength' : b'.toList.length = block.length + b''.toList.length := by
      rw [hlist', List.length_append]
    cases last with
    | true =>
      refine (writes_output hb'' output').congr fun rest after => ?_
      constructor
      · rintro ⟨rfl, rfl⟩
        exact .last
      · intro h
        cases h with
        | last => exact ⟨rfl, rfl⟩
    | false =>
      have hplace' : (place + 1 + block.length + b''.toList.length) % 8 = 0 := by omega
      refine (ih hb'' (by omega) (by omega) hplace' output').congr
        fun rest after => ⟨.more, fun h => ?_⟩
      cases h with
      | more h => exact h

/-! ### Bodies -/

/-- A body is decoded exactly where some bytes are next that are one. -/
theorem inflate_eq_ok_iff {bytes rest content : List UInt8} :
    (∃ b, inflate bytes = ⟨content.toArray, .ok b⟩ ∧ b.rest = rest) ↔
      ∃ body, IsBody body content ∧ bytes = body ++ rest := by
  have hproper : (⟨[], bytes⟩ : Bits).Proper := Nat.zero_lt_succ 7
  have hlist : (⟨[], bytes⟩ : Bits).toList = bitsOf bytes := rfl
  have hlength := length_bitsOf bytes
  have hwrites : Writes ⟨[], bytes⟩ (inflate bytes) fun bits after => Blocks 0 bits [] after :=
    writes_blocks hproper (by rw [hlist]; omega) (by rw [hlist]; omega) (by rw [hlist]; omega) #[]
  constructor
  · rintro ⟨b, hinflate, rfl⟩
    obtain ⟨hb, bits, hblocks, hbits⟩ := (hwrites _ b).1 hinflate
    rw [hlist, Bits.toList, ← List.append_assoc] at hbits
    -- the bits before the rest make whole bytes
    have hall := congrArg List.length hbits
    rw [List.length_append, length_bitsOf, length_bitsOf] at hall
    have hsplit := List.take_append_drop (bytes.length - b.rest.length) bytes
    rw [← hsplit, bitsOf_append] at hbits
    obtain ⟨hbody, hrest⟩ := List.append_inj hbits (by
      rw [length_bitsOf, List.length_take]
      omega)
    rw [bitsOf_injective hrest] at hsplit
    exact ⟨_, ⟨bits, b.started, hbody, hb, hblocks⟩, hsplit.symm⟩
  · rintro ⟨body, ⟨bits, filling, hbits, hfilling, hblocks⟩, rfl⟩
    refine ⟨⟨filling, rest⟩, (hwrites _ _).2 ⟨hfilling, bits, hblocks, ?_⟩, rfl⟩
    rw [hlist, bitsOf_append, hbits, List.append_assoc]
    rfl

end DeviceConsole.Gzip
