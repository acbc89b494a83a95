import DeviceConsole.Json.Reader
import DeviceConsole.Proofs.Json.Numerals
import DeviceConsole.Proofs.Json.Skipping

/-!
What the readers give for well-formed bytes.

A reader reads some bytes as a value if it gives that value wherever they stand, with blanks before
them and anything behind them that ends a value (`Reads`). A container is read entry by entry: items
are collected (`reads_listOf`), and members are folded into an accumulator (`Folds`), which for a
record skips what it does not know (`reads_record`).
-/
namespace DeviceConsole.Json
open DeviceConsole.Decimal DeviceConsole.Stream

variable {α σ : Type}

/-- A reader takes the bytes, with any blanks before them, and gives the value. -/
def Reads (r : Reader α) (bytes : List UInt8) (a : α) : Prop :=
  ∀ blanks rest place, Blanks blanks → Ends rest → ∃ place',
    r ⟨blanks ++ (bytes ++ rest), .complete, place⟩ = .ok (a, ⟨rest, .complete, place'⟩)

theorem ends_nil : Ends [] := nofun

/-- What stands where it is read. -/
theorem Reads.at_once {r : Reader α} {bytes : List UInt8} {a : α} (h : Reads r bytes a)
    {rest : List UInt8} (hrest : Ends rest) (place : Position) :
    ∃ place', r ⟨bytes ++ rest, .complete, place⟩ = .ok (a, ⟨rest, .complete, place'⟩) :=
  h [] rest place blanks_nil hrest

/-! ### Scalars -/

theorem reads_string {bytes : List UInt8} {s : String} (h : Quotes bytes s) :
    Reads string bytes s := by
  intro blanks rest place hblanks _
  obtain @⟨body, _, h⟩ := h
  obtain ⟨middle, hstart⟩ := valueStart_append hblanks (b := 0x22) (by decide)
    (body ++ 0x22 :: rest) place
  obtain ⟨place', htext⟩ := text_of_spells h rest (middle.past 0x22)
  refine ⟨place', ?_⟩
  have hbytes : 0x22 :: (body ++ [0x22]) ++ rest = 0x22 :: (body ++ 0x22 :: rest) := by simp
  rw [hbytes, string, hstart]
  exact htext

theorem reads_natural (type : String) {bound n : Nat} (hbound : n ≤ bound)
    (hn : n < UInt64.size) : Reads (natural type bound) (utf8 (digitsOf n)) n := by
  intro blanks rest place hblanks hrest
  obtain ⟨b, more, hbytes, hb⟩ := (IsNumber.positive (whole_digitsOf n) .absent .absent).starts
  rw [List.append_nil, List.append_nil] at hbytes
  obtain ⟨middle, hstart⟩ := valueStart_append hblanks (starts_of_number hb).solid (more ++ rest)
    place
  obtain ⟨place', hread⟩ := Number.reader_digitsOf hn hrest middle
  refine ⟨place', ?_⟩
  rw [hbytes, List.cons_append] at hread ⊢
  rw [natural, hstart]
  show (if Number.starts b = true then _ else _) = _
  rw [if_pos hb]
  rw [hread]
  show (if n ≤ bound then _ else _) = _
  rw [if_pos hbound]
  rfl

/-- What is read can be made into something else. -/
theorem Reads.map {β : Type} {r : Reader α} {bytes : List UInt8} {a : α} (h : Reads r bytes a)
    (f : α → β) :
    Reads (fun c => do
      let (a, after) ← r c
      pure (f a, after)) bytes (f a) := by
  intro blanks rest place hblanks hrest
  obtain ⟨place', hread⟩ := h blanks rest place hblanks hrest
  exact ⟨place', by simp only [hread, ok_bind]; rfl⟩

theorem reads_uint32 (n : UInt32) : Reads uint32 (utf8 (digitsOf n.toNat)) n := by
  have hlt : n.toNat < 2 ^ 32 := n.toNat_lt
  have hbound : n.toNat ≤ UInt32.size - 1 := Nat.le_of_lt_succ hlt
  have hsize : n.toNat < UInt64.size := Nat.lt_trans hlt (by decide)
  have hread := (reads_natural "u32" hbound hsize).map Nat.toUInt32
  rwa [show n.toNat.toUInt32 = n from UInt32.ofNat_toNat] at hread

theorem reads_uint64 (n : UInt64) : Reads uint64 (utf8 (digitsOf n.toNat)) n := by
  have hlt : n.toNat < 2 ^ 64 := n.toNat_lt
  have hbound : n.toNat ≤ UInt64.size - 1 := Nat.le_of_lt_succ hlt
  have hread := (reads_natural "u64" hbound hlt).map Nat.toUInt64
  rwa [show n.toNat.toUInt64 = n from UInt64.ofNat_toNat] at hread

/-- What is there is read as what is present, unless it starts like the null. -/
theorem reads_optional {r : Reader α} {b : UInt8} {bytes : List UInt8} {a : α}
    (h : Reads r (b :: bytes) a) (hb : Starts b) (hnull : b ≠ 0x6e) :
    Reads (optional r) (b :: bytes) (some a) := by
  intro blanks rest place hblanks hrest
  obtain ⟨middle, hskip⟩ := skipSpaces_append hblanks (solid_cons hb.solid (bytes ++ rest)) place
  obtain ⟨place', hread⟩ := h [] rest middle blanks_nil hrest
  refine ⟨place', ?_⟩
  rw [List.cons_append, optional, hskip]
  show (if b = 0x6e then _ else _) = _
  rw [if_neg hnull]
  rw [List.nil_append, List.cons_append] at hread
  rw [hread]
  rfl

theorem reads_choice {options : List (String × α)} {bytes : List UInt8} {s : String} {a : α}
    (h : Quotes bytes s) (hfind : options.find? (fun o => o.1 == s) = some (s, a)) :
    Reads (choice options) bytes a := by
  intro blanks rest place hblanks _
  obtain @⟨body, _, h⟩ := h
  obtain ⟨middle, hstart⟩ := valueStart_append hblanks (b := 0x22) (by decide)
    (body ++ 0x22 :: rest) place
  obtain ⟨place', htext⟩ := text_of_spells h rest (middle.past 0x22)
  refine ⟨place', ?_⟩
  have hbytes : 0x22 :: (body ++ [0x22]) ++ rest = 0x22 :: (body ++ 0x22 :: rest) := by simp
  rw [hbytes, choice, hstart]
  show variant options _ = _
  simp only [variant, htext, ok_bind, hfind]
  rfl

/-! ### Lists -/

/-- An entry of a list that is read as an item. -/
structure ReadsItem (r : Reader α) (entry : List UInt8) (a : α) : Prop where
  starts : ∃ b rest, entry = b :: rest ∧ Starts b
  reads : Reads r entry a

theorem readsItem_of_isValue {r : Reader α} {entry : List UInt8} {a : α} (h : IsValue entry)
    (hreads : Reads r entry a) : ReadsItem r entry a :=
  ⟨h.starts, hreads⟩

theorem closeList_append {blanks : List UInt8} (h : Blanks blanks) (rest : List UInt8)
    (place : Position) :
    ∃ place', closeList ⟨blanks ++ 0x5d :: rest, .complete, place⟩ =
      .ok ⟨rest, .complete, place'⟩ := by
  obtain ⟨place', hnext⟩ := next_skipSpaces h (b := 0x5d) (by decide) rest .endInList place
  exact ⟨place', by rw [closeList, hnext]; rfl⟩

theorem item?_close {blanks : List UInt8} (h : Blanks blanks) (first : Bool) (rest : List UInt8)
    (place : Position) :
    item? first ⟨blanks ++ 0x5d :: rest, .complete, place⟩ = .ok none := by
  obtain ⟨place', hskip⟩ := skipSpaces_append h (solid_cons (b := 0x5d) (by decide) rest) place
  rw [item?, hskip]
  rfl

theorem item?_first {lead entry : List UInt8} (h : Blanks lead)
    (hentry : ∃ b more, entry = b :: more ∧ Starts b) (rest : List UInt8) (place : Position) :
    ∃ place', item? true ⟨lead ++ (entry ++ rest), .complete, place⟩ =
      .ok (some ⟨entry ++ rest, .complete, place'⟩) := by
  obtain ⟨b, more, rfl, hb⟩ := hentry
  obtain ⟨place', hskip⟩ := skipSpaces_append h (solid_cons hb.solid (more ++ rest)) place
  refine ⟨place', ?_⟩
  rw [List.cons_append, item?, hskip]
  exact if_neg hb.notBracket

theorem item?_next {blanks lead entry : List UInt8} (h : Blanks blanks) (hlead : Blanks lead)
    (hentry : ∃ b more, entry = b :: more ∧ Starts b) (rest : List UInt8) (place : Position) :
    ∃ place', item? false ⟨blanks ++ 0x2c :: (lead ++ (entry ++ rest)), .complete, place⟩ =
      .ok (some ⟨entry ++ rest, .complete, place'⟩) := by
  obtain ⟨b, more, rfl, hb⟩ := hentry
  obtain ⟨middle, hskip⟩ := skipSpaces_append h
    (solid_cons (b := 0x2c) (by decide) (lead ++ b :: (more ++ rest))) place
  obtain ⟨place', hskip'⟩ := skipSpaces_append hlead (solid_cons hb.solid (more ++ rest))
    (middle.past 0x2c)
  have hcomma : (0x2c : UInt8) ≠ 0x5d := by decide
  refine ⟨place', ?_⟩
  rw [List.cons_append]
  simp only [item?, hskip, hskip', next_cons, ok_bind, if_neg hcomma, if_neg hb.notBracket]
  rfl

theorem itemsLoop_entries {r : Reader α} {entries : List (List UInt8)} {bytes : List UInt8}
    {as : List α} (h : Entries 0x5d entries bytes) (hitems : List.Forall₂ (ReadsItem r) entries as)
    (before : List α) (rest : List UInt8) (place : Position) {fuel : List UInt8}
    (hfuel : bytes.length < fuel.length) :
    ∃ place', itemsLoop r fuel false before ⟨bytes ++ rest, .complete, place⟩ =
      .ok (as.reverse ++ before, ⟨rest, .complete, place'⟩) := by
  induction h generalizing as before place fuel with
  | @nil blanks h =>
    cases hitems
    obtain ⟨u, fuel, rfl, -⟩ := Skip.exists_fuel hfuel
    obtain ⟨place', hclose⟩ := closeList_append h rest place
    refine ⟨place', ?_⟩
    rw [List.append_assoc, List.singleton_append, itemsLoop, item?_close h]
    show (do pure (before, ← closeList _)) = _
    rw [hclose]
    rfl
  | @cons blanks lead entry after entries h hlead hafter ih =>
    obtain ⟨a, as, hitem, htail, rfl⟩ := List.forall₂_cons_left_iff.1 hitems
    obtain ⟨u, fuel, rfl, hfuel⟩ := Skip.exists_fuel hfuel
    obtain ⟨middle, hnext⟩ := item?_next h hlead hitem.starts (after ++ rest) place
    obtain ⟨place₁, hread⟩ := hitem.reads.at_once (hafter.ends (.inl rfl) rest) middle
    have hless : after.length < fuel.length := by
      simp only [List.length_append, List.length_cons] at hfuel
      omega
    obtain ⟨place', hloop⟩ := ih htail (a :: before) place₁ hless
    refine ⟨place', ?_⟩
    rw [List.reverse_cons, List.append_assoc as.reverse, List.singleton_append, ← hloop]
    simp only [itemsLoop, List.append_assoc, List.cons_append, hnext, hread, ok_bind]

theorem items_enclosed {r : Reader α} {entries : List (List UInt8)} {bytes : List UInt8}
    {as : List α} (h : Enclosed 0x5d entries bytes) (hitems : List.Forall₂ (ReadsItem r) entries as)
    (rest : List UInt8) (place : Position) :
    ∃ place', items r ⟨bytes ++ rest, .complete, place⟩ = .ok (as, ⟨rest, .complete, place'⟩) := by
  cases h with
  | @nil blanks h =>
    cases hitems
    obtain ⟨place', hclose⟩ := closeList_append h rest place
    refine ⟨place', ?_⟩
    rw [List.append_assoc, List.singleton_append]
    simp only [items, itemsLoop, item?_close h, hclose, ok_bind]
    rfl
  | @cons lead entry after entries hlead hafter =>
    obtain ⟨a, as, hitem, htail, rfl⟩ := List.forall₂_cons_left_iff.1 hitems
    obtain ⟨middle, hfirst⟩ := item?_first hlead hitem.starts (after ++ rest) place
    obtain ⟨place₁, hread⟩ := hitem.reads.at_once (hafter.ends (.inl rfl) rest) middle
    have hless : after.length < (lead ++ (entry ++ (after ++ rest))).length := by
      obtain ⟨b, more, rfl, -⟩ := hitem.starts
      simp only [List.length_append, List.length_cons]
      omega
    obtain ⟨place', hloop⟩ := itemsLoop_entries hafter htail [a] rest place₁ hless
    refine ⟨place', ?_⟩
    simp only [items, itemsLoop, List.append_assoc, hfirst, hread, hloop, ok_bind]
    simp [pure, Except.pure]

theorem reads_listOf {r : Reader α} {entries : List (List UInt8)} {bytes : List UInt8}
    {as : List α} (h : Enclosed 0x5d entries bytes)
    (hitems : List.Forall₂ (ReadsItem r) entries as) : Reads (listOf r) (0x5b :: bytes) as := by
  intro blanks rest place hblanks _
  obtain ⟨middle, hstart⟩ := valueStart_append hblanks (b := 0x5b) (by decide) (bytes ++ rest) place
  obtain ⟨place', hread⟩ := items_enclosed h hitems rest (middle.past 0x5b)
  refine ⟨place', ?_⟩
  rw [List.cons_append]
  simp only [listOf, hstart, hread, ok_bind]
  rfl

/-! ### Members -/

/-- Members folded into an accumulator one after the other, each from behind its name. -/
inductive Folds (step : σ → String → Reader σ) : σ → List (List UInt8) → σ → Prop
  | nil {s : σ} : Folds step s [] s
  | cons {s t u : σ} {name assigned : List UInt8} {n : String} {entries : List (List UInt8)}
      (hname : Quotes name n) (h : Reads (step s n) assigned t) (hrest : Folds step t entries u) :
      Folds step s ((name ++ assigned) :: entries) u

theorem name?_close {blanks : List UInt8} (h : Blanks blanks) (first : Bool) (rest : List UInt8)
    (place : Position) :
    name? first ⟨blanks ++ 0x7d :: rest, .complete, place⟩ = .ok none := by
  obtain ⟨place', hnext⟩ := next_skipSpaces h (b := 0x7d) (by decide) rest .endInObject place
  rw [name?, hnext]
  rfl

theorem name?_first {lead name : List UInt8} {n : String} (h : Blanks lead) (hname : Quotes name n)
    (rest : List UInt8) (place : Position) :
    ∃ place', name? true ⟨lead ++ (name ++ rest), .complete, place⟩ =
      .ok (some (n, ⟨rest, .complete, place'⟩)) := by
  obtain @⟨body, _, hbody⟩ := hname
  obtain ⟨middle, hnext⟩ := next_skipSpaces h (b := 0x22) (by decide) (body ++ 0x22 :: rest)
    .endInObject place
  obtain ⟨place', htext⟩ := text_of_spells hbody rest middle
  have hbytes : 0x22 :: (body ++ [0x22]) ++ rest = 0x22 :: (body ++ 0x22 :: rest) := by simp
  refine ⟨place', ?_⟩
  rw [hbytes, name?, hnext]
  show (do pure (some (← text _))) = _
  rw [htext]
  rfl

theorem name?_next {blanks lead name : List UInt8} {n : String} (h : Blanks blanks)
    (hlead : Blanks lead) (hname : Quotes name n) (rest : List UInt8) (place : Position) :
    ∃ place', name? false ⟨blanks ++ 0x2c :: (lead ++ (name ++ rest)), .complete, place⟩ =
      .ok (some (n, ⟨rest, .complete, place'⟩)) := by
  obtain @⟨body, _, hbody⟩ := hname
  have hbytes : 0x22 :: (body ++ [0x22]) ++ rest = 0x22 :: (body ++ 0x22 :: rest) := by simp
  rw [hbytes]
  obtain ⟨middle, hnext⟩ := next_skipSpaces h (b := 0x2c) (by decide)
    (lead ++ 0x22 :: (body ++ 0x22 :: rest)) .endInObject place
  obtain ⟨place₁, hnext'⟩ := next_skipSpaces hlead (b := 0x22) (by decide) (body ++ 0x22 :: rest)
    .endInValue middle
  obtain ⟨place', htext⟩ := text_of_spells hbody rest place₁
  refine ⟨place', ?_⟩
  have hcomma : (0x2c : UInt8) ≠ 0x7d := by decide
  have hquote : (0x22 : UInt8) ≠ 0x7d := by decide
  simp only [name?, hnext, hnext', htext, ok_bind, pure_bind, if_neg hcomma, if_neg hquote, if_true,
    Bool.false_eq_true, if_false]
  rfl

/-- A member behind a comma is folded, and then the rest. -/
theorem membersLoop_next {step : σ → String → Reader σ} {s t : σ} {n : String}
    {blanks lead name assigned after : List UInt8} (hname : Quotes name n)
    (hstep : Reads (step s n) assigned t) (h : Blanks blanks) (hlead : Blanks lead)
    {rest : List UInt8} (hrest : Ends (after ++ rest)) (u : UInt8) (fuel : List UInt8)
    (place : Position) :
    ∃ place', membersLoop step (u :: fuel) false s
        ⟨blanks ++ 0x2c :: (lead ++ (name ++ assigned ++ after)) ++ rest, .complete, place⟩ =
      membersLoop step fuel false t ⟨after ++ rest, .complete, place'⟩ := by
  obtain ⟨middle, hnext⟩ := name?_next h hlead hname (assigned ++ (after ++ rest)) place
  obtain ⟨place', hread⟩ := hstep.at_once hrest middle
  refine ⟨place', ?_⟩
  rw [membersLoop]
  simp only [List.append_assoc, List.cons_append, hnext, hread, ok_bind]

theorem members_first {step : σ → String → Reader σ} {s t : σ} {n : String}
    {lead name assigned after : List UInt8} (hname : Quotes name n)
    (hstep : Reads (step s n) assigned t) (hlead : Blanks lead) {rest : List UInt8}
    (hrest : Ends (after ++ rest)) (place : Position) :
    ∃ fuel place', after.length < fuel.length ∧
      members step s ⟨lead ++ (name ++ assigned ++ after) ++ rest, .complete, place⟩ =
        membersLoop step fuel false t ⟨after ++ rest, .complete, place'⟩ := by
  obtain ⟨middle, hfirst⟩ := name?_first hlead hname (assigned ++ (after ++ rest)) place
  obtain ⟨place', hread⟩ := hstep.at_once hrest middle
  refine ⟨lead ++ (name ++ (assigned ++ (after ++ rest))), place', ?_, ?_⟩
  · obtain ⟨_⟩ := hname
    simp only [List.length_append, List.length_cons]
    omega
  · rw [members, membersLoop]
    simp only [List.append_assoc, hfirst, hread, ok_bind]

theorem membersLoop_entries {step : σ → String → Reader σ} {entries : List (List UInt8)}
    {bytes : List UInt8} {s t : σ} (h : Entries 0x7d entries bytes) (hfolds : Folds step s entries t)
    (rest : List UInt8) (place : Position) {fuel : List UInt8}
    (hfuel : bytes.length < fuel.length) :
    ∃ place', membersLoop step fuel false s ⟨bytes ++ rest, .complete, place⟩ =
      .ok (t, ⟨rest, .complete, place'⟩) := by
  induction h generalizing s place fuel with
  | @nil blanks h =>
    cases hfolds
    obtain ⟨u, fuel, rfl, -⟩ := Skip.exists_fuel hfuel
    obtain ⟨place', hnext⟩ := next_skipSpaces h (b := 0x7d) (by decide) rest .endInObject place
    refine ⟨place', ?_⟩
    rw [List.append_assoc, List.singleton_append]
    simp only [membersLoop, name?_close h, hnext, ok_bind]
    rfl
  | @cons blanks lead entry after entries h hlead hafter ih =>
    cases hfolds with
    | @cons _ middle _ name assigned n _ hname hstep hrest =>
      obtain ⟨u, fuel, rfl, hfuel⟩ := Skip.exists_fuel hfuel
      obtain ⟨place₁, hnext⟩ :=
        membersLoop_next hname hstep h hlead (hafter.ends (.inr rfl) rest) u fuel place
      have hless : after.length < fuel.length := by
        simp only [List.length_append, List.length_cons] at hfuel
        omega
      obtain ⟨place', hloop⟩ := ih hrest place₁ hless
      exact ⟨place', hnext.trans hloop⟩

theorem members_enclosed {step : σ → String → Reader σ} {entries : List (List UInt8)}
    {bytes : List UInt8} {s t : σ} (h : Enclosed 0x7d entries bytes)
    (hfolds : Folds step s entries t) (rest : List UInt8) (place : Position) :
    ∃ place', members step s ⟨bytes ++ rest, .complete, place⟩ =
      .ok (t, ⟨rest, .complete, place'⟩) := by
  cases h with
  | @nil blanks h =>
    cases hfolds
    obtain ⟨place', hnext⟩ := next_skipSpaces h (b := 0x7d) (by decide) rest .endInObject place
    refine ⟨place', ?_⟩
    rw [List.append_assoc, List.singleton_append]
    simp only [members, membersLoop, name?_close h, hnext, ok_bind]
    rfl
  | @cons lead entry after entries hlead hafter =>
    cases hfolds with
    | @cons _ middle _ name assigned n _ hname hstep hrest =>
      obtain ⟨fuel, place₁, hless, hfirst⟩ :=
        members_first hname hstep hlead (hafter.ends (.inr rfl) rest) place
      obtain ⟨place', hloop⟩ := membersLoop_entries hafter hrest rest place₁ hless
      exact ⟨place', hfirst.trans hloop⟩

/-! ### Records -/

theorem Reads.required {r : Reader α} {bytes : List UInt8} {a : α} (h : Reads r bytes a)
    {name : String} {put : α → σ → σ} {s : σ} :
    Reads ((Member.required name r put).read s) bytes (put a s) :=
  h.map fun a => put a s

theorem Reads.defaulted {r : Reader α} {bytes : List UInt8} {a : α} (h : Reads r bytes a)
    {name : String} {put : α → σ → σ} {s : σ} :
    Reads ((Member.defaulted name r put).read s) bytes (put a s) :=
  h.map fun a => put a s

/-- A member that the record knows and has not had yet. -/
theorem reads_known {known : List (Member σ)} {seen : List String} {s t : σ} {m : Member σ}
    {n : String} {value assigned : List UInt8} (hfind : known.find? (fun m => m.name == n) = some m)
    (hseen : n ∉ seen) (hread : Reads (m.read s) value t) (h : Assigns value assigned) :
    Reads (Member.step known (seen, s) n) assigned (n :: seen, t) := by
  intro blanks rest place hblanks hrest
  obtain ⟨lead, middle, hlead, -, hcolon⟩ := colon_assigns h hblanks rest place
  obtain ⟨place', hvalue⟩ := hread lead rest middle hlead hrest
  have hcontains : ¬ seen.contains n = true := by simpa using hseen
  refine ⟨place', ?_⟩
  simp only [Member.step, hfind, if_neg hcontains, hcolon, hvalue, ok_bind]
  rfl

/-- A member that the record does not know. -/
theorem reads_unknown {known : List (Member σ)} {seen : List String} {s : σ} {n : String}
    {value assigned : List UInt8} (hfind : known.find? (fun m => m.name == n) = none)
    (hvalue : IsValue value) (h : Assigns value assigned) :
    Reads (Member.step known (seen, s) n) assigned (seen, s) := by
  intro blanks rest place hblanks hrest
  obtain ⟨lead, middle, hlead, -, hcolon⟩ := colon_assigns h hblanks rest place
  obtain ⟨place', hskip⟩ := skipValue_append hvalue hlead hrest middle
  refine ⟨place', ?_⟩
  simp only [Member.step, hfind, hcolon, hskip, ok_bind]
  rfl

/-- A record is read from an object with its members in any order and others among them. -/
theorem reads_record {known : List (Member σ)} {blank s : σ} {seen : List String}
    {entries : List (List UInt8)} {bytes : List UInt8} (type : String)
    (h : Enclosed 0x7d entries bytes)
    (hfolds : Folds (Member.step known) ([], blank) entries (seen, s))
    (hneeded : ∀ m ∈ known, m.needed = true → m.name ∈ seen) :
    Reads (record type known blank) (0x7b :: bytes) s := by
  intro blanks rest place hblanks _
  obtain ⟨middle, hstart⟩ := valueStart_append hblanks (b := 0x7b) (by decide) (bytes ++ rest) place
  obtain ⟨place', hread⟩ := members_enclosed h hfolds rest (middle.past 0x7b)
  have hfind : known.find? (fun m => m.needed && !seen.contains m.name) = none := by
    rw [List.find?_eq_none]
    intro m hm
    have hin := hneeded m hm
    cases hneed : m.needed <;> simp_all
  refine ⟨place', ?_⟩
  rw [List.cons_append]
  simp only [record, hstart, hread, hfind, ok_bind, if_true]
  rfl

/-! ### Values of any kind -/

theorem reads_value_text {bytes : List UInt8} {s : String} (h : Quotes bytes s) (depth : Nat) :
    Reads (value (depth + 1)) bytes (.text s) := by
  intro blanks rest place hblanks _
  obtain @⟨body, _, hbody⟩ := h
  obtain ⟨middle, hstart⟩ := valueStart_append hblanks (b := 0x22) (by decide)
    (body ++ 0x22 :: rest) place
  obtain ⟨place', htext⟩ := text_of_spells hbody rest (middle.past 0x22)
  have hbytes : 0x22 :: (body ++ [0x22]) ++ rest = 0x22 :: (body ++ 0x22 :: rest) := by simp
  refine ⟨place', ?_⟩
  rw [hbytes]
  simp only [value, hstart, htext, ok_bind, if_true]
  rfl

/-- The word of a truth value. -/
def wordOf (b : Bool) : List UInt8 :=
  if b then [0x74, 0x72, 0x75, 0x65] else [0x66, 0x61, 0x6c, 0x73, 0x65]

theorem reads_value_bool (b : Bool) (depth : Nat) :
    Reads (value (depth + 1)) (wordOf b) (.bool b) := by
  intro blanks rest place hblanks _
  obtain ⟨first, tail, hword, hsolid, htail⟩ : ∃ first tail, wordOf b = first :: tail ∧
      Cursor.isSpace first = false ∧ first ≠ 0x22 ∧ Number.starts first = false ∧
      first ≠ 0x5b ∧ first ≠ 0x7b ∧ wordTail? first = some tail ∧ first ≠ 0x6e ∧
      decide (first = 0x74) = b := by
    cases b <;> exact ⟨_, _, rfl, by decide⟩
  obtain ⟨hquote, hnumber, hbracket, hbrace, htail, hnull, hb⟩ := htail
  obtain ⟨middle, hstart⟩ := valueStart_append hblanks hsolid (tail ++ rest) place
  obtain ⟨place', hread⟩ := word_append tail rest (middle.past first)
  refine ⟨place', ?_⟩
  rw [hword, List.cons_append]
  simp only [value, hstart, hread, ok_bind, if_neg hquote, hnumber, if_neg hbracket,
    if_neg hbrace, htail, if_neg hnull, hb, Bool.false_eq_true, if_false]
  rfl

theorem reads_memberStep {r : Reader Value} {n : String} {v : Value} {value assigned : List UInt8}
    (hread : Reads r value v) (h : Assigns value assigned) (before : List (String × Value)) :
    Reads (memberStep r before n) assigned ((n, v) :: before) := by
  intro blanks rest place hblanks hrest
  obtain ⟨lead, middle, hlead, -, hcolon⟩ := colon_assigns h hblanks rest place
  obtain ⟨place', hvalue⟩ := hread lead rest middle hlead hrest
  exact ⟨place', by simp only [memberStep, hcolon, hvalue, ok_bind]; rfl⟩

theorem reads_value_object {depth : Nat} {entries : List (List UInt8)} {bytes : List UInt8}
    {reversed : List (String × Value)} (h : Enclosed 0x7d entries bytes)
    (hfolds : Folds (memberStep (value (depth + 1))) [] entries reversed) :
    Reads (value (depth + 2)) (0x7b :: bytes) (.object reversed.reverse) := by
  intro blanks rest place hblanks _
  obtain ⟨middle, hstart⟩ := valueStart_append hblanks (b := 0x7b) (by decide) (bytes ++ rest) place
  obtain ⟨place', hread⟩ := members_enclosed h hfolds rest (middle.past 0x7b)
  have hquote : (0x7b : UInt8) ≠ 0x22 := by decide
  have hnumber : Number.starts 0x7b = false := by decide
  have hbracket : (0x7b : UInt8) ≠ 0x5b := by decide
  have hdepth : depth + 1 ≠ 0 := Nat.succ_ne_zero depth
  refine ⟨place', ?_⟩
  rw [List.cons_append]
  simp only [value, hstart, ok_bind, if_neg hquote, hnumber, if_neg hbracket, if_neg hdepth,
    Bool.false_eq_true, if_false, if_true]
  simp only [value] at hread
  rw [hread]
  rfl

/-! ### Documents -/

/-- Blanks may stand around the one value of a document. -/
theorem document_surrounded {r : Reader α} {before bytes after : List UInt8} {a : α}
    (h : Reads r bytes a) (hbefore : Blanks before) (hafter : Blanks after) :
    document r (.whole (before ++ (bytes ++ after))) = .ok a := by
  have hends := hafter.ends ends_nil
  rw [List.append_nil] at hends
  obtain ⟨middle, hread⟩ := h before after .start hbefore hends
  have hnothing : Solid [] := nofun
  obtain ⟨place', hskip⟩ := skipSpaces_append hafter hnothing middle
  rw [List.append_nil] at hskip
  have hstart : Cursor.start (.whole (before ++ (bytes ++ after))) =
      ⟨before ++ (bytes ++ after), .complete, .start⟩ := rfl
  simp only [document, hstart, hread, hskip, ok_bind]
  rfl

theorem document_append {r : Reader α} {bytes after : List UInt8} {a : α} (h : Reads r bytes a)
    (hafter : Blanks after) : document r (.whole (bytes ++ after)) = .ok a :=
  document_surrounded h blanks_nil hafter

end DeviceConsole.Json
