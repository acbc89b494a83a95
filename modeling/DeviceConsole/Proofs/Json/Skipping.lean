import DeviceConsole.Proofs.Json.Scanning

/-!
Every well-formed value can be skipped.

The skipping machine stands before a value or behind one, within some open containers. From before a
well-formed value it comes to stand behind it within the same containers (`Passes`), with fuel left
for the bytes that are left; entries take it to the end of their container (`loop_entries`). So a
value that nobody asked for is passed over, whatever it is and however deep (`skipValue_append`).
-/
namespace DeviceConsole.Json

/-! ### First bytes -/

/-- A byte that a value starts with: it cannot be taken for a blank or for the end of a list. -/
structure Starts (b : UInt8) : Prop where
  solid : Cursor.isSpace b = false
  notBracket : b ≠ 0x5d

theorem starts_digit {b : UInt8} (h : IsDigit b) : Starts b := by
  have hlow := UInt8.le_iff_toNat_le.1 h.1
  have hhigh := UInt8.le_iff_toNat_le.1 h.2
  refine ⟨?_, ?_⟩
  · simp only [Cursor.isSpace, Bool.or_eq_false_iff, beq_eq_false_iff_ne]
    refine ⟨⟨⟨?_, ?_⟩, ?_⟩, ?_⟩ <;> rintro rfl <;> revert hlow <;> decide
  · rintro rfl
    revert hhigh
    decide

theorem IsNumber.starts {bytes : List UInt8} (h : IsNumber bytes) :
    ∃ b rest, bytes = b :: rest ∧ Number.starts b = true := by
  have hdigit {b : UInt8} (hb : IsDigit b) : Number.starts b = true := by
    rw [Number.starts, isDigit_iff.2 hb, Bool.or_true]
  cases h with
  | negative => exact ⟨_, _, rfl, rfl⟩
  | positive hw =>
    cases hw with
    | zero => exact ⟨_, _, rfl, rfl⟩
    | digits hb => exact ⟨_, _, rfl, hdigit hb⟩

theorem starts_of_number {b : UInt8} (h : Number.starts b = true) : Starts b := by
  simp only [Number.starts, Bool.or_eq_true, beq_iff_eq] at h
  rcases h with rfl | h
  · exact ⟨by decide, by decide⟩
  · exact starts_digit (isDigit_iff.1 h)

/-- A byte that a number starts with starts nothing else. -/
theorem ne_of_starts {b d : UInt8} (hb : Number.starts b = true) (hd : Number.starts d = false) :
    b ≠ d := by
  intro h
  rw [h, hd] at hb
  cases hb

theorem IsValue.starts {bytes : List UInt8} (h : IsValue bytes) :
    ∃ b rest, bytes = b :: rest ∧ Starts b := by
  cases h with
  | word h =>
    simp only [words, List.mem_cons, List.not_mem_nil, or_false] at h
    rcases h with rfl | rfl | rfl <;>
      exact ⟨_, _, rfl, by decide, by decide⟩
  | number h =>
    obtain ⟨b, rest, rfl, hb⟩ := h.starts
    exact ⟨b, rest, rfl, starts_of_number hb⟩
  | text h =>
    obtain ⟨_⟩ := h
    exact ⟨_, _, rfl, by decide, by decide⟩
  | list | object => exact ⟨_, _, rfl, by decide, by decide⟩

/-! ### What follows an entry -/

theorem ends_cons {b : UInt8} (h : b ∈ [0x20, 0x09, 0x0a, 0x0d, 0x2c, 0x5d, 0x7d])
    (rest : List UInt8) : Ends (b :: rest) := by
  intro c hc
  obtain rfl := Option.some_inj.1 hc
  clear hc
  revert b h
  apply forall_mem_of_all
  decide

theorem Blanks.ends {blanks rest : List UInt8} (h : Blanks blanks) (hrest : Ends rest) :
    Ends (blanks ++ rest) := by
  cases blanks with
  | nil => exact hrest
  | cons b blanks =>
    have hb := h b List.mem_cons_self
    exact ends_cons (List.mem_append_left [0x2c, 0x5d, 0x7d] hb) _

theorem Entries.ends {close : UInt8} (hclose : close = 0x5d ∨ close = 0x7d)
    {entries : List (List UInt8)} {bytes : List UInt8} (h : Entries close entries bytes)
    (rest : List UInt8) : Ends (bytes ++ rest) := by
  cases h with
  | nil h =>
    rw [List.append_assoc]
    exact h.ends (ends_cons (by rcases hclose with rfl | rfl <;> decide) _)
  | cons h =>
    rw [List.append_assoc]
    exact h.ends (ends_cons (by decide) _)

namespace Skip

/-! ### The machine -/

/-- From before some bytes the machine comes to stand behind them. -/
def Passes (bytes : List UInt8) : Prop :=
  ∀ blanks rest place stack fuel, Blanks blanks → Ends rest →
    (blanks ++ (bytes ++ rest)).length < fuel.length →
    ∃ (fuel' : List UInt8) (place' : Position), rest.length < fuel'.length ∧
      loop fuel .before stack ⟨blanks ++ (bytes ++ rest), .complete, place⟩ =
        loop fuel' .behind stack ⟨rest, .complete, place'⟩

/-- The machine before a value whose first byte is known. -/
theorem loop_before {blanks : List UInt8} (h : Blanks blanks) {b : UInt8}
    (hb : Cursor.isSpace b = false) (rest : List UInt8) (place : Position) (stack : List Frame)
    (u : UInt8) (fuel : List UInt8) :
    ∃ place', loop (u :: fuel) .before stack ⟨blanks ++ b :: rest, .complete, place⟩ =
      (if b = 0x22 then do loop fuel .behind stack (← skipText ⟨rest, .complete, place'.past b⟩)
      else if Number.starts b then do
        loop fuel .behind stack (← number ⟨b :: rest, .complete, place'⟩)
      else if b = 0x5b || b = 0x7b then do
        let (stage, stack, c) ←
          enter (if b = 0x5b then .list else .object) stack ⟨rest, .complete, place'.past b⟩
        loop fuel stage stack c
      else match wordTail? b with
        | some tail => do
          loop fuel .behind stack (← Cursor.word tail ⟨rest, .complete, place'.past b⟩)
        | none => Cursor.fail ⟨rest, .complete, place'.past b⟩ .expectedValue) := by
  obtain ⟨place', hstart⟩ := valueStart_append h hb rest place
  refine ⟨place', ?_⟩
  rw [loop, hstart]
  rfl

theorem exists_fuel {n : Nat} {fuel : List UInt8} (h : n < fuel.length) :
    ∃ u fuel', fuel = u :: fuel' ∧ n ≤ fuel'.length := by
  cases fuel with
  | nil => exact absurd h (Nat.not_lt_zero n)
  | cons u fuel => exact ⟨u, fuel, rfl, Nat.le_of_lt_succ h⟩

theorem passes_text {bytes : List UInt8} (h : IsQuoted bytes) : Passes bytes := by
  obtain @⟨body, h⟩ := h
  intro blanks rest place stack fuel hblanks _ hfuel
  obtain ⟨u, fuel, rfl, hfuel⟩ := exists_fuel hfuel
  obtain ⟨middle, hloop⟩ := loop_before hblanks (b := 0x22) (by decide) (body ++ 0x22 :: rest) place
    stack u fuel
  obtain ⟨place', htext⟩ := skipText_of_body h rest (middle.past 0x22)
  refine ⟨fuel, place', ?_, ?_⟩
  · simp only [List.length_append, List.length_cons] at hfuel
    omega
  · rw [List.cons_append, List.append_assoc, List.singleton_append, hloop, if_pos rfl, htext]
    rfl

theorem passes_number {bytes : List UInt8} (h : IsNumber bytes) : Passes bytes := by
  intro blanks rest place stack fuel hblanks hrest hfuel
  obtain ⟨u, fuel, rfl, hfuel⟩ := exists_fuel hfuel
  obtain ⟨b, more, hbytes, hb⟩ := h.starts
  obtain ⟨middle, hloop⟩ := loop_before hblanks (starts_of_number hb).solid (more ++ rest) place
    stack u fuel
  obtain ⟨place', hnumber⟩ := number_append h hrest middle
  rw [hbytes, List.cons_append] at hnumber hfuel ⊢
  have hquote : b ≠ 0x22 := ne_of_starts hb (by decide)
  refine ⟨fuel, place', ?_, ?_⟩
  · simp only [List.length_append, List.length_cons] at hfuel
    omega
  · rw [hloop, if_neg hquote, if_pos hb, hnumber]
    rfl

theorem passes_word {bytes : List UInt8} (h : bytes ∈ words) : Passes bytes := by
  obtain ⟨b, tail, rfl, hsolid, hquote, hnumber, hopen, htail⟩ :
      ∃ b tail, bytes = b :: tail ∧ Cursor.isSpace b = false ∧ b ≠ 0x22 ∧
        Number.starts b = false ∧ (b = 0x5b || b = 0x7b) = false ∧ wordTail? b = some tail := by
    simp only [words, List.mem_cons, List.not_mem_nil, or_false] at h
    rcases h with rfl | rfl | rfl <;> exact ⟨_, _, rfl, by decide⟩
  intro blanks rest place stack fuel hblanks _ hfuel
  obtain ⟨u, fuel, rfl, hfuel⟩ := exists_fuel hfuel
  obtain ⟨middle, hloop⟩ := loop_before hblanks hsolid (tail ++ rest) place stack u fuel
  obtain ⟨place', hword⟩ := word_append tail rest (middle.past b)
  refine ⟨fuel, place', ?_, ?_⟩
  · simp only [List.length_append, List.length_cons] at hfuel
    omega
  · rw [List.cons_append, hloop, if_neg hquote, if_neg (by simp [hnumber]),
      if_neg (by simp [hopen])]
    simp only [htail, hword]
    rfl

/-! ### Containers -/

/-- An entry of a container: what leads up to its value, and the value. -/
structure Leads (f : Frame) (entry : List UInt8) : Prop where
  starts : ∃ b rest, entry = b :: rest ∧ Cursor.isSpace b = false ∧ b ≠ f.closing
  lead : ∀ blanks rest place, Blanks blanks → ∃ (lead value : List UInt8) (place' : Position),
    Blanks lead ∧ Passes value ∧ (lead ++ value).length ≤ (blanks ++ entry).length ∧
      f.lead ⟨blanks ++ (entry ++ rest), .complete, place⟩ =
        .ok ⟨lead ++ (value ++ rest), .complete, place'⟩

theorem leads_item {item : List UInt8} (h : IsValue item) (hpasses : Passes item) :
    Leads .list item := by
  obtain ⟨b, rest, hitem, hb⟩ := h.starts
  exact ⟨⟨b, rest, hitem, hb.solid, hb.notBracket⟩, fun blanks _ place hblanks =>
    ⟨blanks, item, place, hblanks, hpasses, Nat.le_refl _, rfl⟩⟩

theorem leads_member {m : List UInt8 × List UInt8} {entry : List UInt8} (h : IsMember m entry)
    (hname : IsQuoted m.1) (hpasses : Passes m.2) : Leads .object entry := by
  obtain @⟨name, value, assigned, hassigned⟩ := h
  obtain @⟨body, hbody⟩ := hname
  refine ⟨⟨_, _, rfl, by decide, by decide⟩, fun blanks rest place hblanks => ?_⟩
  obtain ⟨place₁, hnext⟩ := next_skipSpaces hblanks (b := 0x22) (by decide)
    (body ++ 0x22 :: (assigned ++ rest)) .endInObject place
  obtain ⟨place₂, htext⟩ := skipText_of_body hbody (assigned ++ rest) place₁
  obtain ⟨lead, place₃, hlead, hlength, hcolon⟩ := colon_assigns hassigned blanks_nil rest place₂
  refine ⟨lead, value, place₃, hlead, hpasses, ?_, ?_⟩
  · simp only [List.length_append, List.length_cons] at hlength ⊢
    omega
  · have hbytes : blanks ++ (0x22 :: (body ++ [0x22]) ++ assigned ++ rest) =
        blanks ++ 0x22 :: (body ++ 0x22 :: (assigned ++ rest)) := by simp
    rw [hbytes]
    simp only [Frame.lead, hnext, ok_bind, if_true, htext]
    exact hcolon

theorem closing_cases (f : Frame) : f.closing = 0x5d ∨ f.closing = 0x7d := by
  cases f
  · exact .inl rfl
  · exact .inr rfl

theorem solid_closing (f : Frame) : Cursor.isSpace f.closing = false := by
  cases f <;> rfl

/-- From before an entry the machine comes to stand behind it. -/
theorem loop_lead {f : Frame} {entry : List UInt8} (h : Leads f entry) {blanks rest : List UInt8}
    (hblanks : Blanks blanks) (hrest : Ends rest) (place : Position) (stack : List Frame)
    {fuel : List UInt8} (hfuel : (blanks ++ (entry ++ rest)).length < fuel.length) :
    ∃ (fuel' : List UInt8) (place' : Position), rest.length < fuel'.length ∧
      (do loop fuel .before stack (← f.lead ⟨blanks ++ (entry ++ rest), .complete, place⟩)) =
        loop fuel' .behind stack ⟨rest, .complete, place'⟩ := by
  obtain ⟨lead, value, middle, hlead, hpasses, hlength, heq⟩ := h.lead blanks rest place hblanks
  have hless : (lead ++ (value ++ rest)).length < fuel.length := by
    simp only [List.length_append] at hlength hfuel ⊢
    omega
  obtain ⟨fuel', place', hfuel', hloop⟩ := hpasses lead rest middle stack fuel hlead hrest hless
  exact ⟨fuel', place', hfuel', by rw [heq]; exact hloop⟩

/-- From behind an entry the machine comes to stand behind the container. -/
theorem loop_entries {f : Frame} {entries : List (List UInt8)} {bytes : List UInt8}
    (h : Entries f.closing entries bytes) (hentries : ∀ e ∈ entries, Leads f e)
    (rest : List UInt8) (place : Position) (stack : List Frame) {fuel : List UInt8}
    (hfuel : (bytes ++ rest).length < fuel.length) :
    ∃ (fuel' : List UInt8) (place' : Position), rest.length < fuel'.length ∧
      loop fuel .behind (f :: stack) ⟨bytes ++ rest, .complete, place⟩ =
        loop fuel' .behind stack ⟨rest, .complete, place'⟩ := by
  induction h generalizing place fuel with
  | @nil blanks h =>
    obtain ⟨u, fuel, rfl, hfuel⟩ := exists_fuel hfuel
    obtain ⟨place', hnext⟩ := next_skipSpaces h (solid_closing f) rest f.atEnd place
    refine ⟨fuel, place', ?_, ?_⟩
    · simp only [List.length_append, List.length_cons] at hfuel
      omega
    · rw [List.append_assoc, List.singleton_append, loop, hnext]
      show (if f.closing = f.closing then _ else _) = _
      rw [if_pos rfl]
  | @cons blanks lead entry after entries h hlead hafter ih =>
    obtain ⟨u, fuel, rfl, hfuel⟩ := exists_fuel hfuel
    have hbytes : blanks ++ 0x2c :: (lead ++ (entry ++ after)) ++ rest =
        blanks ++ 0x2c :: (lead ++ (entry ++ (after ++ rest))) := by simp
    rw [hbytes] at hfuel ⊢
    obtain ⟨middle, hnext⟩ := next_skipSpaces h (b := 0x2c) (by decide)
      (lead ++ (entry ++ (after ++ rest))) f.atEnd place
    have hless : (lead ++ (entry ++ (after ++ rest))).length < fuel.length := by
      simp only [List.length_append, List.length_cons] at hfuel ⊢
      omega
    obtain ⟨fuel₁, place₁, hfuel₁, hstep⟩ := loop_lead (hentries entry List.mem_cons_self) hlead
      (hafter.ends (closing_cases f) rest) middle (f :: stack) hless
    obtain ⟨fuel₂, place₂, hfuel₂, hloop⟩ := ih (fun e he => hentries e (List.mem_cons_of_mem _ he))
      place₁ hfuel₁
    refine ⟨fuel₂, place₂, hfuel₂, ?_⟩
    have hcomma : (0x2c : UInt8) ≠ f.closing := by cases f <;> decide
    rw [loop, hnext, ← hloop, ← hstep]
    show (if 0x2c = f.closing then _ else if (0x2c : UInt8) = 0x2c then _ else _) = _
    rw [if_neg hcomma, if_pos rfl]

/-- From behind the opening byte the machine comes to stand behind the container. -/
theorem loop_enclosed {f : Frame} {entries : List (List UInt8)} {bytes : List UInt8}
    (h : Enclosed f.closing entries bytes) (hentries : ∀ e ∈ entries, Leads f e)
    (rest : List UInt8) (place : Position) (stack : List Frame) {fuel : List UInt8}
    (hfuel : (bytes ++ rest).length < fuel.length) :
    ∃ (fuel' : List UInt8) (place' : Position), rest.length < fuel'.length ∧
      (do
        let (stage, stack, c) ← enter f stack ⟨bytes ++ rest, .complete, place⟩
        loop fuel stage stack c) = loop fuel' .behind stack ⟨rest, .complete, place'⟩ := by
  cases h with
  | @nil blanks h =>
    obtain ⟨place', hnext⟩ := next_skipSpaces h (solid_closing f) rest f.atEnd place
    refine ⟨fuel, place', ?_, ?_⟩
    · simp only [List.length_append, List.length_cons] at hfuel
      omega
    · have henter : enter f stack ⟨blanks ++ f.closing :: rest, .complete, place⟩ =
          .ok (.behind, stack, ⟨rest, .complete, place'⟩) := by
        rw [enter, hnext]
        exact if_pos rfl
      rw [List.append_assoc, List.singleton_append, henter]
      rfl
  | @cons lead entry after entries hlead hafter =>
    have hentry := hentries entry List.mem_cons_self
    have hbytes : lead ++ (entry ++ after) ++ rest = lead ++ (entry ++ (after ++ rest)) := by simp
    rw [hbytes] at hfuel ⊢
    obtain ⟨fuel₁, place₁, hfuel₁, hstep⟩ := loop_lead hentry hlead
      (hafter.ends (closing_cases f) rest) place (f :: stack) hfuel
    obtain ⟨fuel₂, place₂, hfuel₂, hloop⟩ := loop_entries hafter
      (fun e he => hentries e (List.mem_cons_of_mem _ he)) rest place₁ stack hfuel₁
    refine ⟨fuel₂, place₂, hfuel₂, ?_⟩
    obtain ⟨b, more, rfl, hsolid, hclosing⟩ := hentry.starts
    obtain ⟨middle, hnext⟩ := next_skipSpaces hlead hsolid (more ++ (after ++ rest)) f.atEnd place
    have henter : enter f stack ⟨lead ++ b :: (more ++ (after ++ rest)), .complete, place⟩ = (do
        pure (.before, f :: stack,
          ← f.lead ⟨lead ++ b :: (more ++ (after ++ rest)), .complete, place⟩)) := by
      rw [enter, hnext]
      exact if_neg hclosing
    rw [← hloop, ← hstep, List.cons_append, henter]
    cases f.lead ⟨lead ++ b :: (more ++ (after ++ rest)), .complete, place⟩ <;> rfl

theorem passes_container (f : Frame) {entries : List (List UInt8)} {bytes : List UInt8}
    (h : Enclosed f.closing entries bytes) (hentries : ∀ e ∈ entries, Leads f e) {b : UInt8}
    (hb : b = 0x5b ∧ f = .list ∨ b = 0x7b ∧ f = .object) : Passes (b :: bytes) := by
  intro blanks rest place stack fuel hblanks _ hfuel
  obtain ⟨u, fuel, rfl, hfuel⟩ := exists_fuel hfuel
  have hsolid : Cursor.isSpace b = false := by rcases hb with ⟨rfl, -⟩ | ⟨rfl, -⟩ <;> rfl
  obtain ⟨middle, hloop⟩ := loop_before hblanks hsolid (bytes ++ rest) place stack u fuel
  have hless : (bytes ++ rest).length < fuel.length := by
    simp only [List.length_append, List.length_cons] at hfuel ⊢
    omega
  obtain ⟨fuel', place', hfuel', henter⟩ := loop_enclosed h hentries rest (middle.past b) stack hless
  refine ⟨fuel', place', hfuel', ?_⟩
  rw [List.cons_append, hloop, ← henter]
  rcases hb with ⟨rfl, rfl⟩ | ⟨rfl, rfl⟩ <;> rfl

theorem passes_value {bytes : List UInt8} (h : IsValue bytes) : Passes bytes := by
  induction h with
  | word h => exact passes_word h
  | number h => exact passes_number h
  | text h => exact passes_text h
  | list h hitems ih =>
    exact passes_container .list h (fun e he => leads_item (hitems e he) (ih e he))
      (.inl ⟨rfl, rfl⟩)
  | @object members entries bytes h hentries hnames hvalues ih =>
    refine passes_container .object h (fun e he => ?_) (.inr ⟨rfl, rfl⟩)
    obtain ⟨m, hm, hmember⟩ := exists_of_forall₂ hentries he
    exact leads_member hmember (hnames m hm) (ih m hm)

end Skip

/-- **A well-formed value is skipped**, blanks before it included. -/
theorem skipValue_append {blanks bytes rest : List UInt8} (h : IsValue bytes)
    (hblanks : Blanks blanks) (hrest : Ends rest) (place : Position) :
    ∃ place', skipValue ⟨blanks ++ (bytes ++ rest), .complete, place⟩ =
      .ok ⟨rest, .complete, place'⟩ := by
  obtain ⟨fuel, place', -, hloop⟩ := Skip.passes_value h blanks rest place []
    (0 :: (blanks ++ (bytes ++ rest))) hblanks hrest (Nat.lt_succ_self _)
  refine ⟨place', hloop.trans ?_⟩
  cases fuel <;> rfl

end DeviceConsole.Json
