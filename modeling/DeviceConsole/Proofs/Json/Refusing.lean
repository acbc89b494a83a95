import DeviceConsole.Proofs.Json.Decoding

/-!
Lists of a fixed length, and what a reader refuses.

A reader refuses some bytes if it fails on them wherever they stand (`Refuses`), and declines a value
if it refuses it however it is printed (`Declines`). A list of two values is read as a pair, and one
of any other length is declined even if every value in it could be read (`decodes_pair`,
`declines_pair`). What a member's reader declines is declined by the record, whatever comes after it
(`declines_record`).
-/
namespace DeviceConsole.Json
open DeviceConsole.Stream

variable {α σ : Type}

/-- A reader fails on the bytes, with any blanks before them. -/
def Refuses (r : Reader α) (bytes : List UInt8) : Prop :=
  ∀ blanks rest place, Blanks blanks → Ends rest → ∃ failure,
    r ⟨blanks ++ (bytes ++ rest), .complete, place⟩ = .error failure

theorem Refuses.at_once {r : Reader α} {bytes : List UInt8} (h : Refuses r bytes)
    {rest : List UInt8} (hrest : Ends rest) (place : Position) :
    ∃ failure, r ⟨bytes ++ rest, .complete, place⟩ = .error failure :=
  h [] rest place blanks_nil hrest

/-- What is refused stays refused, whatever would have been made of it. -/
theorem Refuses.map {β : Type} {r : Reader α} {bytes : List UInt8} (h : Refuses r bytes)
    (f : α → β) :
    Refuses (fun c => do
      let (a, after) ← r c
      pure (f a, after)) bytes := by
  intro blanks rest place hblanks hrest
  obtain ⟨failure, hread⟩ := h blanks rest place hblanks hrest
  exact ⟨failure, by simp only [hread]; rfl⟩

/-- However the value is printed, it is refused. -/
def Declines (r : Reader α) (v : Value) : Prop :=
  ∀ l level, Refuses r (v.bytes l level)

/-! ### Values in order -/

/-- The values of members read one after the other into a record, one for each member. -/
inductive Takes : List (Member σ) → σ → List (List UInt8) → σ → Prop
  | nil {s : σ} : Takes [] s [] s
  | cons {m : Member σ} {ms : List (Member σ)} {s t u : σ} {entry : List UInt8}
      {entries : List (List UInt8)} (h : ReadsItem (m.read s) entry t)
      (hrest : Takes ms t entries u) : Takes (m :: ms) s (entry :: entries) u

/-- Members that all have to be given, each of which could read any of the entries. -/
def Suit (ms : List (Member σ)) (entries : List (List UInt8)) : Prop :=
  ∀ m ∈ ms, m.needed = true ∧ ∀ s, ∀ entry ∈ entries, ∃ t, ReadsItem (m.read s) entry t

theorem Suit.tail {m : Member σ} {ms : List (Member σ)} {entry : List UInt8}
    {entries : List (List UInt8)} (h : Suit (m :: ms) (entry :: entries)) : Suit ms entries :=
  fun m' hm' => ⟨(h m' (List.mem_cons_of_mem m hm')).1, fun s entry' hentry =>
    (h m' (List.mem_cons_of_mem m hm')).2 s entry' (List.mem_cons_of_mem entry hentry)⟩

variable {ms : List (Member σ)} {entries : List (List UInt8)} {bytes : List UInt8} {s t : σ}

/-- There is no closing bracket where another value follows. -/
theorem closeList_comma {blanks : List UInt8} (h : Blanks blanks) (rest : List UInt8)
    (place : Position) :
    ∃ failure, closeList ⟨blanks ++ 0x2c :: rest, .complete, place⟩ = .error failure := by
  obtain ⟨middle, hnext⟩ := next_skipSpaces h (b := 0x2c) (by decide) rest .endInList place
  have hcomma : (0x2c : UInt8) ≠ 0x5d := by decide
  simp only [closeList, hnext, ok_bind, if_neg hcomma, if_true]
  split
  · exact ⟨_, rfl⟩
  · exact ⟨_, rfl⟩

/-- A member that has to be given finds the end of the list. -/
theorem positional_missing {m : Member σ} (hm : m.needed = true) {blanks : List UInt8}
    (h : Blanks blanks) (expected : String) (count : Nat) (first : Bool) (rest : List UInt8)
    (place : Position) :
    ∃ failure, Member.positional expected (m :: ms) count first s
      ⟨blanks ++ 0x5d :: rest, .complete, place⟩ = .error failure := by
  obtain ⟨place', hclose⟩ := closeList_append h rest place
  simp only [Member.positional, item?_close h, ok_bind, hm, if_true, hclose]
  exact ⟨_, rfl⟩

/-- An entry behind a comma is read by the next member. -/
theorem positional_next {m : Member σ} {blanks lead entry after : List UInt8}
    (hitem : ReadsItem (m.read s) entry t) (h : Blanks blanks) (hlead : Blanks lead)
    {rest : List UInt8} (hrest : Ends (after ++ rest)) (expected : String) (count : Nat)
    (place : Position) :
    ∃ place', Member.positional expected (m :: ms) count false s
        ⟨blanks ++ 0x2c :: (lead ++ (entry ++ after)) ++ rest, .complete, place⟩ =
      Member.positional expected ms (count + 1) false t ⟨after ++ rest, .complete, place'⟩ := by
  obtain ⟨middle, hnext⟩ := item?_next h hlead hitem.starts (after ++ rest) place
  obtain ⟨place', hread⟩ := hitem.reads.at_once hrest middle
  refine ⟨place', ?_⟩
  rw [Member.positional]
  simp only [List.append_assoc, List.cons_append, hnext, hread, ok_bind]

theorem positional_first {m : Member σ} {lead entry after : List UInt8}
    (hitem : ReadsItem (m.read s) entry t) (hlead : Blanks lead) {rest : List UInt8}
    (hrest : Ends (after ++ rest)) (expected : String) (count : Nat) (place : Position) :
    ∃ place', Member.positional expected (m :: ms) count true s
        ⟨lead ++ (entry ++ after) ++ rest, .complete, place⟩ =
      Member.positional expected ms (count + 1) false t ⟨after ++ rest, .complete, place'⟩ := by
  obtain ⟨middle, hfirst⟩ := item?_first hlead hitem.starts (after ++ rest) place
  obtain ⟨place', hread⟩ := hitem.reads.at_once hrest middle
  refine ⟨place', ?_⟩
  rw [Member.positional]
  simp only [List.append_assoc, hfirst, hread, ok_bind]

theorem positional_entries (h : Entries 0x5d entries bytes) (htakes : Takes ms s entries t)
    (expected : String) (count : Nat) (rest : List UInt8) (place : Position) :
    ∃ place', Member.positional expected ms count false s ⟨bytes ++ rest, .complete, place⟩ =
      .ok (t, ⟨rest, .complete, place'⟩) := by
  induction h generalizing ms s count place with
  | @nil blanks h =>
    cases htakes
    obtain ⟨place', hclose⟩ := closeList_append h rest place
    refine ⟨place', ?_⟩
    rw [List.append_assoc, List.singleton_append, Member.positional, hclose]
    rfl
  | @cons blanks lead entry after entries h hlead hafter ih =>
    cases htakes with
    | @cons m ms _ middle _ _ _ hitem htail =>
      obtain ⟨place₁, hnext⟩ :=
        positional_next hitem h hlead (hafter.ends (.inl rfl) rest) expected count place
      obtain ⟨place', hloop⟩ := ih htail (count + 1) place₁
      exact ⟨place', hnext.trans hloop⟩

theorem positional_refuses (h : Entries 0x5d entries bytes) (hsuit : Suit ms entries)
    (hlength : entries.length ≠ ms.length) (expected : String) (count : Nat) (rest : List UInt8)
    (place : Position) :
    ∃ failure, Member.positional expected ms count false s ⟨bytes ++ rest, .complete, place⟩ =
      .error failure := by
  induction h generalizing ms s count place with
  | @nil blanks h =>
    cases ms with
    | nil => exact absurd rfl hlength
    | cons m ms =>
      rw [List.append_assoc, List.singleton_append]
      exact positional_missing (hsuit m List.mem_cons_self).1 h expected count false rest place
  | @cons blanks lead entry after entries h hlead hafter ih =>
    cases ms with
    | nil =>
      obtain ⟨failure, hclose⟩ := closeList_comma h (lead ++ (entry ++ (after ++ rest))) place
      refine ⟨failure, ?_⟩
      rw [Member.positional]
      simp only [List.append_assoc, List.cons_append, hclose]
      rfl
    | cons m ms =>
      obtain ⟨t, hitem⟩ := (hsuit m List.mem_cons_self).2 s entry List.mem_cons_self
      obtain ⟨place₁, hnext⟩ :=
        positional_next hitem h hlead (hafter.ends (.inl rfl) rest) expected count place
      have hrest : entries.length ≠ ms.length := fun heq => hlength (by simp [heq])
      obtain ⟨failure, hloop⟩ := ih (s := t) hsuit.tail hrest (count + 1) place₁
      exact ⟨failure, hnext.trans hloop⟩

theorem positional_enclosed {m : Member σ} (h : Enclosed 0x5d entries bytes)
    (htakes : Takes (m :: ms) s entries t) (expected : String) (count : Nat) (rest : List UInt8)
    (place : Position) :
    ∃ place', Member.positional expected (m :: ms) count true s
      ⟨bytes ++ rest, .complete, place⟩ = .ok (t, ⟨rest, .complete, place'⟩) := by
  cases htakes with
  | @cons _ _ _ middle _ _ _ hitem htail =>
    cases h with
    | @cons lead entry after entries hlead hafter =>
      obtain ⟨place₁, hfirst⟩ :=
        positional_first hitem hlead (hafter.ends (.inl rfl) rest) expected count place
      obtain ⟨place', hloop⟩ := positional_entries hafter htail expected (count + 1) rest place₁
      exact ⟨place', hfirst.trans hloop⟩

theorem positional_enclosed_refuses {m : Member σ} (h : Enclosed 0x5d entries bytes)
    (hsuit : Suit (m :: ms) entries) (hlength : entries.length ≠ ms.length + 1)
    (expected : String) (count : Nat) (rest : List UInt8) (place : Position) :
    ∃ failure, Member.positional expected (m :: ms) count true s
      ⟨bytes ++ rest, .complete, place⟩ = .error failure := by
  obtain ⟨hneeded, hreads⟩ := hsuit m List.mem_cons_self
  cases h with
  | @nil blanks h =>
    rw [List.append_assoc, List.singleton_append]
    exact positional_missing hneeded h expected count true rest place
  | @cons lead entry after entries hlead hafter =>
    obtain ⟨t, hitem⟩ := hreads s entry List.mem_cons_self
    obtain ⟨place₁, hfirst⟩ :=
      positional_first hitem hlead (hafter.ends (.inl rfl) rest) expected count place
    have hrest : entries.length ≠ ms.length := fun heq => hlength (by simp [heq])
    obtain ⟨failure, hloop⟩ :=
      positional_refuses (s := t) hafter hsuit.tail hrest expected (count + 1) rest place₁
    exact ⟨failure, hfirst.trans hloop⟩

/-! ### Pairs -/

theorem ReadsItem.required {r : Reader α} {entry : List UInt8} {a : α} (h : ReadsItem r entry a)
    {name : String} {put : α → σ → σ} {s : σ} :
    ReadsItem ((Member.required name r put).read s) entry (put a s) :=
  ⟨h.starts, h.reads.required⟩

theorem reads_pair {r : Reader α} {blank a b : α} {first second : List UInt8}
    (h : Enclosed 0x5d [first, second] bytes) (hfirst : ReadsItem r first a)
    (hsecond : ReadsItem r second b) : Reads (pair r blank) (0x5b :: bytes) (a, b) := by
  intro blanks rest place hblanks _
  obtain ⟨middle, hstart⟩ := valueStart_append hblanks (b := 0x5b) (by decide) (bytes ++ rest) place
  have htakes : Takes
      [.required "" r fun a (p : α × α) => (a, p.2), .required "" r fun a p => (p.1, a)]
      (blank, blank) [first, second] (a, b) :=
    .cons hfirst.required (.cons hsecond.required .nil)
  obtain ⟨place', hread⟩ :=
    positional_enclosed h htakes "an array of length 2" 0 rest (middle.past 0x5b)
  refine ⟨place', ?_⟩
  rw [List.cons_append]
  simp only [pair, hstart, hread, ok_bind, if_true]
  rfl

theorem refuses_pair {r : Reader α} {blank : α} (h : Enclosed 0x5d entries bytes)
    (hreads : ∀ entry ∈ entries, ∃ a, ReadsItem r entry a) (hlength : entries.length ≠ 2) :
    Refuses (pair r blank) (0x5b :: bytes) := by
  intro blanks rest place hblanks _
  obtain ⟨middle, hstart⟩ := valueStart_append hblanks (b := 0x5b) (by decide) (bytes ++ rest) place
  have hsuit : Suit
      [.required "" r fun a (p : α × α) => (a, p.2), .required "" r fun a p => (p.1, a)] entries := by
    intro m hm
    refine ⟨?_, fun s entry hentry => ?_⟩
    · rcases List.mem_pair.1 hm with rfl | rfl <;> rfl
    · obtain ⟨a, ha⟩ := hreads entry hentry
      rcases List.mem_pair.1 hm with rfl | rfl <;> exact ⟨_, ha.required⟩
  obtain ⟨failure, hread⟩ := positional_enclosed_refuses (s := (blank, blank)) h hsuit hlength
    "an array of length 2" 0 rest (middle.past 0x5b)
  rw [List.cons_append]
  simp only [pair, hstart, hread, ok_bind, if_true]
  exact ⟨_, rfl⟩

theorem decodes_pair {r : Reader α} {blank a b : α} {v w : Value} (hv : Decodes r v a)
    (hw : Decodes r w b) : Decodes (pair r blank) (.list [v, w]) (a, b) := by
  intro l level
  obtain ⟨bytes, hbytes, henclosed⟩ := enclosed_list l level [v, w]
  rw [hbytes]
  exact reads_pair henclosed (readsItem_of_isValue (isValue_bytes l v _) (hv l _))
    (readsItem_of_isValue (isValue_bytes l w _) (hw l _))

/-- A list of any length but two is declined, even if each of its values could be read. -/
theorem declines_pair {r : Reader α} {blank : α} {vs : List Value}
    (h : ∀ v ∈ vs, ∃ a, Decodes r v a) (hlength : vs.length ≠ 2) :
    Declines (pair r blank) (.list vs) := by
  intro l level
  obtain ⟨bytes, hbytes, henclosed⟩ := enclosed_list l level vs
  rw [hbytes]
  refine refuses_pair henclosed (fun entry hentry => ?_) (by rwa [List.length_map])
  obtain ⟨v, hv, rfl⟩ := List.mem_map.1 hentry
  obtain ⟨a, ha⟩ := h v hv
  exact ⟨a, readsItem_of_isValue (isValue_bytes l v _) (ha l _)⟩

/-! ### Members -/

/-- Members of which one is refused, after those before it have been folded. -/
inductive Stops (step : σ → String → Reader σ) : σ → List (List UInt8) → Prop
  | here {s : σ} {name assigned : List UInt8} {n : String} {entries : List (List UInt8)}
      (hname : Quotes name n) (h : Refuses (step s n) assigned) :
      Stops step s ((name ++ assigned) :: entries)
  | later {s t : σ} {name assigned : List UInt8} {n : String} {entries : List (List UInt8)}
      (hname : Quotes name n) (h : Reads (step s n) assigned t) (hrest : Stops step t entries) :
      Stops step s ((name ++ assigned) :: entries)

theorem Folds.stops {step : σ → String → Reader σ} {before after : List (List UInt8)}
    (h : Folds step s before t) (hafter : Stops step t after) : Stops step s (before ++ after) := by
  induction h with
  | nil => exact hafter
  | cons hname h _ ih => exact .later hname h (ih hafter)

theorem membersLoop_stops {step : σ → String → Reader σ} (h : Entries 0x7d entries bytes)
    (hstops : Stops step s entries) (rest : List UInt8) (place : Position) {fuel : List UInt8}
    (hfuel : bytes.length < fuel.length) :
    ∃ failure, membersLoop step fuel false s ⟨bytes ++ rest, .complete, place⟩ = .error failure := by
  induction h generalizing s place fuel with
  | nil => cases hstops
  | @cons blanks lead entry after entries h hlead hafter ih =>
    obtain ⟨u, fuel, rfl, hfuel⟩ := Skip.exists_fuel hfuel
    have hends := hafter.ends (.inr rfl) rest
    cases hstops with
    | @here _ name assigned n _ hname hrefuses =>
      obtain ⟨place₁, hnext⟩ := name?_next h hlead hname (assigned ++ (after ++ rest)) place
      obtain ⟨failure, hread⟩ := hrefuses.at_once hends place₁
      refine ⟨failure, ?_⟩
      rw [membersLoop]
      simp only [List.append_assoc, List.cons_append, hnext, hread, ok_bind]
      rfl
    | @later _ middle name assigned n _ hname hreads hrest =>
      obtain ⟨place₁, hnext⟩ := membersLoop_next hname hreads h hlead hends u fuel place
      have hless : after.length < fuel.length := by
        simp only [List.length_append, List.length_cons] at hfuel
        omega
      obtain ⟨failure, hloop⟩ := ih hrest place₁ hless
      exact ⟨failure, hnext.trans hloop⟩

theorem members_stops {step : σ → String → Reader σ} (h : Enclosed 0x7d entries bytes)
    (hstops : Stops step s entries) (rest : List UInt8) (place : Position) :
    ∃ failure, members step s ⟨bytes ++ rest, .complete, place⟩ = .error failure := by
  cases h with
  | nil => cases hstops
  | @cons lead entry after entries hlead hafter =>
    have hends := hafter.ends (.inr rfl) rest
    cases hstops with
    | @here _ name assigned n _ hname hrefuses =>
      obtain ⟨place₁, hfirst⟩ := name?_first hlead hname (assigned ++ (after ++ rest)) place
      obtain ⟨failure, hread⟩ := hrefuses.at_once hends place₁
      refine ⟨failure, ?_⟩
      rw [members, membersLoop]
      simp only [List.append_assoc, hfirst, hread, ok_bind]
      rfl
    | @later _ middle name assigned n _ hname hreads hrest =>
      obtain ⟨fuel, place₁, hless, hfirst⟩ := members_first hname hreads hlead hends place
      obtain ⟨failure, hloop⟩ := membersLoop_stops hafter hrest rest place₁ hless
      exact ⟨failure, hfirst.trans hloop⟩

/-! ### Records -/

theorem refuses_record {known : List (Member σ)} {blank : σ} (type : String)
    (h : Enclosed 0x7d entries bytes) (hstops : Stops (Member.step known) ([], blank) entries) :
    Refuses (record type known blank) (0x7b :: bytes) := by
  intro blanks rest place hblanks _
  obtain ⟨middle, hstart⟩ := valueStart_append hblanks (b := 0x7b) (by decide) (bytes ++ rest) place
  obtain ⟨failure, hread⟩ := members_stops h hstops rest (middle.past 0x7b)
  rw [List.cons_append]
  simp only [record, hstart, hread, ok_bind, if_true]
  exact ⟨_, rfl⟩

/-- A member that the record has not had yet, with a value that its reader refuses. -/
theorem refuses_known {known : List (Member σ)} {seen : List String} {m : Member σ} {n : String}
    {value assigned : List UInt8} (hfind : known.find? (fun m => m.name == n) = some m)
    (hseen : n ∉ seen) (hrefuses : Refuses (m.read s) value) (h : Assigns value assigned) :
    Refuses (Member.step known (seen, s) n) assigned := by
  intro blanks rest place hblanks hrest
  obtain ⟨lead, middle, hlead, -, hcolon⟩ := colon_assigns h hblanks rest place
  obtain ⟨failure, hvalue⟩ := hrefuses lead rest middle hlead hrest
  have hcontains : ¬ seen.contains n = true := by simpa using hseen
  simp only [Member.step, hfind, if_neg hcontains, hcolon, hvalue, ok_bind]
  exact ⟨failure, rfl⟩

/-- A value that its member's reader declines makes the record decline the object, whatever members
come before it and after it. -/
theorem declines_record {known : List (Member σ)} {blank : σ} {seen : List String} {m : Member σ}
    {name : String} {v : Value} {after : List (String × Value)} (type : String)
    (before : List (String × Value)) (hfills : Fills known ([], blank) before (seen, s))
    (hfind : known.find? (fun m => m.name == name) = some m) (hseen : name ∉ seen)
    (h : Declines (m.read s) v) :
    Declines (record type known blank) (.object (before ++ (name, v) :: after)) := by
  intro l level
  obtain ⟨bytes, hbytes, henclosed⟩ := enclosed_object l level (before ++ (name, v) :: after)
  rw [hbytes]
  refine refuses_record type henclosed ?_
  rw [List.map_append, List.map_cons]
  refine (hfills.folds l (level + 1)).stops (.here (quotes_quote name) ?_)
  exact refuses_known hfind hseen (h l (level + 1)) (assigns_colon l _)

theorem Declines.required {r : Reader α} {v : Value} (h : Declines r v) {name : String}
    {put : α → σ → σ} {s : σ} : Declines ((Member.required name r put).read s) v :=
  fun l level => (h l level).map fun a => put a s

/-! ### Documents -/

/-- What is refused is no document, with blanks around it or not. -/
theorem document_refused {r : Reader α} {before bytes after : List UInt8} (h : Refuses r bytes)
    (hbefore : Blanks before) (hafter : Blanks after) :
    ∃ failure, document r (.whole (before ++ (bytes ++ after))) = .error failure := by
  have hends := hafter.ends ends_nil
  rw [List.append_nil] at hends
  obtain ⟨failure, hread⟩ := h before after .start hbefore hends
  have hstart : Cursor.start (.whole (before ++ (bytes ++ after))) =
      ⟨before ++ (bytes ++ after), .complete, .start⟩ := rfl
  simp only [document, hstart, hread]
  exact ⟨failure, rfl⟩

/-- A document on one line. -/
theorem document_declined {r : Reader α} {v : Value} (h : Declines r v) :
    ∃ failure, document r (.whole (bytesOf v.compact)) = .error failure := by
  have hbytes : bytesOf v.compact = v.bytes .compact 0 ++ [] := by
    rw [List.append_nil, Value.compact, bytesOf_ofList]
    rfl
  rw [hbytes]
  exact document_refused (h .compact 0) blanks_nil blanks_nil

end DeviceConsole.Json
