import DeviceConsole.CommandLine.Parser
import DeviceConsole.Proofs.Success
import Mathlib.Data.List.Basic
import Mathlib.Tactic.MkIffOfInductiveProp

/-!
The command line of a report as groups of words.

A group is what is typed in one go: an option with its value, or the flag for more messages. The
parser settles the value of an option only when it meets the next group, and yet it does no more
than take the groups one after the other (`read_words`); what it has taken in the end is told by
the values that each option was given, whatever stood between them (`foldlM_take`). So a command
line is read exactly as it describes some options (`read_eq_ok_iff`).
-/
namespace DeviceConsole.CommandLine

/-! ### Groups -/

/-- What is typed in one go. -/
inductive Group where
  | option (option : ReportOption) (value : String)
  /-- The flag, as one letter or as a word. -/
  | verbose (short : Bool)
deriving DecidableEq, Repr

namespace Group

def words : Group → List String
  | .option i value => ["--" ++ i.name, value]
  | .verbose short => [if short then "-v" else "--verbose"]

/-- The value that a group gives to an option. -/
def valueOf? (i : ReportOption) : Group → Option String
  | .option j value => if j = i then some value else none
  | .verbose _ => none

def isVerbose : Group → Bool
  | .option .. => false
  | .verbose _ => true

/-- The value of a group does not look like an option itself. -/
def IsPlain : Group → Prop
  | .option _ value => Word.ofString value = .plain value
  | .verbose _ => True

end Group

/-- The values that an option is given, in order. -/
def values (i : ReportOption) (gs : List Group) : List String := gs.filterMap (Group.valueOf? i)

/-- The words of a report's command line. -/
def reportWords (gs : List Group) : List String := "report" :: gs.flatMap Group.words

theorem values_option (i j : ReportOption) (value : String) (gs : List Group) :
    values i (.option j value :: gs) = if j = i then value :: values i gs else values i gs := by
  unfold values
  rw [List.filterMap_cons, Group.valueOf?]
  by_cases h : j = i <;> simp [h]

theorem values_verbose (i : ReportOption) (short : Bool) (gs : List Group) :
    values i (.verbose short :: gs) = values i gs := rfl

/-! ### Words -/

theorem Word.eq_of_plain {s t : String} (h : Word.ofString s = .plain t) : s = t := by
  unfold Word.ofString at h
  split at h
  · cases h
  · split at h <;> cases h
  · cases h
  · exact Word.plain.inj h

/-- A dash alone is a plain word, so there is a letter behind the dash of flags. -/
theorem Word.ne_nil_of_short {s : String} {cs : List Char} (h : Word.ofString s = .short cs) :
    cs ≠ [] := by
  unfold Word.ofString at h
  split at h
  · cases h
  · split at h <;> cases h
  · obtain rfl := Word.short.inj h
    exact List.cons_ne_nil _ _
  · cases h

theorem ofString_option (i : ReportOption) :
    Word.ofString ("--" ++ i.name) = .long i.name none := by
  cases i <;> decide

theorem ofString_verbose (short : Bool) :
    Word.ofString (if short then "-v" else "--verbose") =
      if short then .short ['v'] else .long "verbose" none := by
  cases short <;> decide

/-! ### The parser on groups -/

abbrev ReportProgress := Progress ReportOption ReportDraft

/-- The progress with a group taken, where no option is waiting. -/
def Group.take (g : Group) (p : ReportProgress) : Except UsageError ReportProgress :=
  match g with
  | .option i value => do
    let draft ← ReportDraft.take i value p.draft
    pure { p with draft := draft, waiting := none }
  | .verbose _ => if p.verbose then .error .repeatedOption else pure { p with verbose := true }

theorem settle_of_not_waiting {p : ReportProgress} (h : p.waiting = none) :
    reportGrammar.settle p = .ok p := by
  unfold Grammar.settle
  rw [h]

theorem settle_of_waiting {p : ReportProgress} {i : ReportOption} (h : p.waiting = some (i, none)) :
    reportGrammar.settle p = .error .missingValue := by
  unfold Grammar.settle
  rw [h]

/-- A settled option is a group taken. -/
theorem settle_value (i : ReportOption) (value : String) (p : ReportProgress) :
    reportGrammar.settle { p with waiting := some (i, some value) } =
      (Group.option i value).take p := rfl

theorem not_waiting_of_settle {p q : ReportProgress} (h : reportGrammar.settle p = .ok q) :
    q.waiting = none := by
  unfold Grammar.settle at h
  split at h
  · next hp =>
    obtain rfl := Except.ok.inj h
    exact hp
  · cases h
  · obtain ⟨draft, -, h⟩ := bind_eq_ok_iff.1 h
    rw [← Except.ok.inj h]

theorem Group.not_waiting_of_take {g : Group} {p q : ReportProgress} (hp : p.waiting = none)
    (h : g.take p = .ok q) : q.waiting = none := by
  cases g with
  | option i value =>
    obtain ⟨draft, -, h⟩ := bind_eq_ok_iff.1 h
    rw [← Except.ok.inj h]
  | verbose short =>
    rw [Group.take] at h
    split at h
    · cases h
    · rw [← Except.ok.inj h]
      exact hp

theorem read_cons {w : Word} {s : String} (hs : Word.ofString s = w) (hw : w ≠ .mark)
    (ss : List String) (p : ReportProgress) :
    reportGrammar.read (s :: ss) p = reportGrammar.step w p >>= reportGrammar.read ss := by
  rw [Grammar.read, hs]
  split
  · exact absurd rfl hw
  · rfl

theorem step_option (i : ReportOption) (p : ReportProgress) :
    reportGrammar.step (.long i.name none) p =
      reportGrammar.settle p >>= fun p => .ok { p with waiting := some (i, none) } := by
  cases i <;> rfl

theorem step_value {p : ReportProgress} {i : ReportOption} (h : p.waiting = some (i, none))
    (value : String) :
    reportGrammar.step (.plain value) p = .ok { p with waiting := some (i, some value) } := by
  unfold Grammar.step
  rw [h]

theorem setVerbose_eq (short : Bool) (p : ReportProgress) :
    reportGrammar.setVerbose p = reportGrammar.settle p >>= (Group.verbose short).take := rfl

theorem step_verbose (short : Bool) (p : ReportProgress) :
    reportGrammar.step (if short then .short ['v'] else .long "verbose" none) p =
      reportGrammar.setVerbose p := by
  cases short with
  | false => rfl
  | true =>
    show reportGrammar.setVerbose p >>= Except.ok = _
    cases reportGrammar.setVerbose p <;> rfl

/-- Nothing goes on from an option that waits for its value. -/
theorem gives_settle_of_waiting {β : Type} {p : ReportProgress} {i : ReportOption}
    (h : p.waiting = some (i, none)) (f : ReportProgress → Except UsageError β) :
    Gives (reportGrammar.settle p >>= f) fun _ => False := by
  rw [settle_of_waiting h]
  exact gives_error _ _

theorem gives_setVerbose_of_waiting {p : ReportProgress} {i : ReportOption}
    (h : p.waiting = some (i, none)) : Gives (reportGrammar.setVerbose p) fun _ => False :=
  gives_settle_of_waiting h _

theorem gives_flags_of_waiting {p : ReportProgress} {i : ReportOption}
    (h : p.waiting = some (i, none)) {cs : List Char} (hcs : cs ≠ []) :
    Gives (reportGrammar.flags cs p) fun _ => False := by
  cases cs with
  | nil => exact absurd rfl hcs
  | cons c cs =>
    rw [Grammar.flags]
    apply gives_ite
    · exact (gives_setVerbose_of_waiting h).bind fun _ hfalse => hfalse.elim
    · exact gives_ite (gives_settle_of_waiting h _) (gives_error _ _)

theorem gives_long_of_waiting {p : ReportProgress} {i : ReportOption}
    (h : p.waiting = some (i, none)) (name : String) (given : Option String) :
    Gives (reportGrammar.long name given p) fun _ => False := by
  rw [Grammar.long]
  apply gives_ite
  · exact gives_ite (gives_error _ _) (gives_setVerbose_of_waiting h)
  · apply gives_ite
    · exact gives_ite (gives_error _ _) (gives_settle_of_waiting h _)
    · cases reportGrammar.option? name with
      | none => exact gives_error _ _
      | some j => exact gives_settle_of_waiting h _

/-- So a value that looks like an option is never read. -/
theorem not_read_of_waiting {p q : ReportProgress} {i : ReportOption} {value : String}
    (h : p.waiting = some (i, none)) (hplain : Word.ofString value ≠ .plain value)
    (rest : List String) : reportGrammar.read (value :: rest) p ≠ .ok q := by
  intro hread
  by_cases hmark : Word.ofString value = .mark
  · -- Behind the mark there is no word, or one that a report does not take.
    rw [Grammar.read, hmark] at hread
    cases rest with
    | nil => cases (settle_of_waiting h).symm.trans hread
    | cons s rest => cases hread
  · rw [read_cons rfl hmark] at hread
    obtain ⟨r, hstep, -⟩ := bind_eq_ok_iff.1 hread
    cases hw : Word.ofString value with
    | mark => exact hmark hw
    | plain s => exact hplain (Word.eq_of_plain hw ▸ hw)
    | short cs =>
      rw [hw] at hstep
      exact gives_flags_of_waiting h (Word.ne_nil_of_short hw) r hstep
    | long name given =>
      rw [hw] at hstep
      exact gives_long_of_waiting h name given r hstep

theorem read_value {p q : ReportProgress} {i : ReportOption} (h : p.waiting = some (i, none))
    (value : String) (rest : List String) :
    reportGrammar.read (value :: rest) p = .ok q ↔
      Word.ofString value = .plain value ∧
        reportGrammar.read rest { p with waiting := some (i, some value) } = .ok q := by
  by_cases hplain : Word.ofString value = .plain value
  · rw [read_cons hplain nofun, step_value h, ok_bind, and_iff_right hplain]
  · exact iff_of_false (not_read_of_waiting h hplain rest) fun h => hplain h.1

/-- **Words are read as the groups that they make up**, one after the other. -/
theorem read_words {gs : List Group} {p q : ReportProgress} :
    reportGrammar.read (gs.flatMap Group.words) p = .ok q ↔
      (∀ g ∈ gs, g.IsPlain) ∧ ∃ r, reportGrammar.settle p = .ok r ∧
        gs.foldlM (fun p g => g.take p) r = .ok q := by
  induction gs generalizing p with
  | nil => simp [Grammar.read, pure, Except.pure]
  | cons g gs ih =>
    rw [List.flatMap_cons, List.forall_mem_cons]
    simp only [List.foldlM_cons, bind_eq_ok_iff]
    cases g with
    | option i value =>
      show reportGrammar.read (("--" ++ i.name) :: value :: gs.flatMap Group.words) p = _ ↔ _
      simp only [read_cons (ofString_option i) nofun, step_option, bind_eq_ok_iff, Except.ok.injEq]
      constructor
      · rintro ⟨_, ⟨r, hsettle, rfl⟩, hread⟩
        obtain ⟨hplain, hread⟩ := (read_value rfl value _).1 hread
        obtain ⟨hrest, u, htake, hfold⟩ := ih.1 hread
        rw [settle_value] at htake
        exact ⟨⟨hplain, hrest⟩, r, hsettle, u, htake, hfold⟩
      · rintro ⟨⟨hplain, hrest⟩, r, hsettle, u, htake, hfold⟩
        rw [← settle_value] at htake
        exact ⟨_, ⟨r, hsettle, rfl⟩,
          (read_value rfl value _).2 ⟨hplain, ih.2 ⟨hrest, u, htake, hfold⟩⟩⟩
    | verbose short =>
      show reportGrammar.read ((if short then "-v" else "--verbose") :: gs.flatMap Group.words) p =
        _ ↔ _
      have hmark : (if short then Word.short ['v'] else .long "verbose" none) ≠ .mark := by
        cases short <;> exact nofun
      simp only [read_cons (ofString_verbose short) hmark, step_verbose, setVerbose_eq short,
        bind_eq_ok_iff]
      constructor
      · rintro ⟨u, ⟨r, hsettle, htake⟩, hread⟩
        obtain ⟨hrest, v, hsettle', hfold⟩ := ih.1 hread
        have hidle := Group.not_waiting_of_take (not_waiting_of_settle hsettle) htake
        rw [settle_of_not_waiting hidle] at hsettle'
        obtain rfl := Except.ok.inj hsettle'
        exact ⟨⟨trivial, hrest⟩, r, hsettle, u, htake, hfold⟩
      · rintro ⟨⟨-, hrest⟩, r, hsettle, u, htake, hfold⟩
        have hidle := Group.not_waiting_of_take (not_waiting_of_settle hsettle) htake
        exact ⟨u, ⟨r, hsettle, htake⟩, ih.2 ⟨hrest, u, settle_of_not_waiting hidle, hfold⟩⟩

/-! ### What groups give -/

variable {α : Type}

/-- Values given to an option that takes one, after what it has been given before. -/
def Fills (parse : String → Except UsageError α) (vs : List String) (old new : Option α) : Prop :=
  vs.foldlM (fun old value => once old (parse value)) old = .ok new

theorem fills_nil {parse : String → Except UsageError α} {old new : Option α} :
    Fills parse [] old new ↔ new = old := by
  unfold Fills
  rw [List.foldlM_nil]
  exact ⟨fun h => (Except.ok.inj h).symm, fun h => congrArg _ h.symm⟩

theorem fills_cons {parse : String → Except UsageError α} {value : String} {vs : List String}
    {old new : Option α} :
    Fills parse (value :: vs) old new ↔
      ∃ a, once old (parse value) = .ok a ∧ Fills parse vs a new := by
  unfold Fills
  rw [List.foldlM_cons, bind_eq_ok_iff]

/-- What the draft of a report becomes with some groups. -/
@[mk_iff]
structure Collects (gs : List Group) (d e : ReportDraft) : Prop where
  data : Fills pathValue (values .data gs) d.data e.data
  out : Fills pathValue (values .out gs) d.out e.out
  events : Fills pathValue (values .events gs) d.events e.events
  filters : e.filters = (values .filter gs).reverse ++ d.filters
  status : Fills .ok (values .status gs) d.status e.status
  ownership : Fills .ok (values .ownership gs) d.ownership e.ownership
  chart : Fills .ok (values .chart gs) d.chart e.chart
  settings : Fills pathValue (values .settings gs) d.settings e.settings
  statusRule : Fills (fun v => parsedValue (Filter.StatusRule.ofName? v)) (values .statusRule gs)
    d.statusRule e.statusRule
  offset : Fills (fun v => parsedValue (count? v)) (values .offset gs) d.offset e.offset
  limit : Fills (fun v => parsedValue (count? v)) (values .limit gs) d.limit e.limit

theorem collects_nil {d e : ReportDraft} : Collects [] d e ↔ e = d := by
  rw [collects_iff]
  simp only [values, List.filterMap_nil, fills_nil, List.reverse_nil, List.nil_append]
  constructor
  · intro h
    cases e
    simp at h
    obtain ⟨rfl, rfl, rfl, rfl, rfl, rfl, rfl, rfl, rfl, rfl, rfl⟩ := h
    rfl
  · rintro rfl
    simp

theorem collects_option {i : ReportOption} {value : String} {gs : List Group} {d e : ReportDraft} :
    Collects (.option i value :: gs) d e ↔
      ∃ d', d.take i value = .ok d' ∧ Collects gs d' e := by
  -- Only the values of the option that is given differ, and only its field is another one.
  cases i <;>
    simp only [collects_iff, values_option, ReportDraft.take, bind_eq_ok_iff, fills_cons, pure,
      Except.pure, Except.ok.injEq, if_true, reduceCtorEq, if_false] <;>
    grind

theorem collects_verbose {short : Bool} {gs : List Group} {d e : ReportDraft} :
    Collects (.verbose short :: gs) d e ↔ Collects gs d e := by
  simp only [collects_iff, values_verbose]

/-- **What groups come to is told by the values that each option is given** and by how often the
flag is. -/
theorem foldlM_take {gs : List Group} {p q : ReportProgress} (hp : p.waiting = none) :
    gs.foldlM (fun p g => g.take p) p = .ok q ↔
      Collects gs p.draft q.draft ∧
        p.verbose.toNat + gs.countP Group.isVerbose = q.verbose.toNat ∧ q.waiting = none := by
  induction gs generalizing p with
  | nil =>
    obtain ⟨draft, verbose, waiting⟩ := p
    obtain ⟨draft', verbose', waiting'⟩ := q
    obtain rfl : waiting = none := hp
    rw [collects_nil, List.countP_nil, Nat.add_zero]
    cases verbose <;> cases verbose' <;> simp [pure, Except.pure, eq_comm]
  | cons g gs ih =>
    rw [List.foldlM_cons, bind_eq_ok_iff]
    cases g with
    | option i value =>
      rw [collects_option, List.countP_cons_of_neg (by exact nofun)]
      constructor
      · rintro ⟨u, htake, hfold⟩
        obtain ⟨d, hd, hu⟩ := bind_eq_ok_iff.1 htake
        obtain rfl := Except.ok.inj hu
        obtain ⟨hcollects, hrest⟩ := (ih rfl).1 hfold
        exact ⟨⟨d, hd, hcollects⟩, hrest⟩
      · rintro ⟨⟨d, hd, hcollects⟩, hrest⟩
        exact ⟨{ p with draft := d, waiting := none }, bind_eq_ok_iff.2 ⟨d, hd, rfl⟩,
          (ih rfl).2 ⟨hcollects, hrest⟩⟩
    | verbose short =>
      rw [collects_verbose, List.countP_cons_of_pos rfl, Group.take]
      cases hverbose : p.verbose with
      | true =>
        -- The flag was given before, and there is no room for another in one bit.
        have hbit := Bool.toNat_le q.verbose
        constructor
        · rintro ⟨u, htake, -⟩
          cases htake
        · rintro ⟨-, hcount, -⟩
          rw [Bool.toNat_true] at hcount
          omega
      | false =>
        have hnext := ih (p := { p with verbose := true }) hp
        rw [Bool.toNat_true, Nat.add_comm 1] at hnext
        rw [if_neg Bool.false_ne_true, Bool.toNat_false, Nat.zero_add]
        constructor
        · rintro ⟨u, htake, hfold⟩
          obtain rfl := Except.ok.inj htake
          exact hnext.1 hfold
        · intro h
          exact ⟨_, rfl, hnext.2 h⟩

/-- A value that is there already leaves no room for another. -/
theorem fills_some {parse : String → Except UsageError α} {vs : List String} {a : α}
    {new : Option α} : Fills parse vs (some a) new ↔ vs = [] ∧ new = some a := by
  cases vs with
  | nil => simp [fills_nil]
  | cons value vs => simp [fills_cons, once]

/-- An option is given one value at most. -/
theorem fills_none {parse : String → Except UsageError α} {vs : List String} {new : Option α} :
    Fills parse vs none new ↔ vs.map parse = new.toList.map .ok := by
  cases vs with
  | nil => cases new <;> simp [fills_nil]
  | cons value vs =>
    simp only [fills_cons, once, map_eq_ok_iff, Option.isSome_none, Bool.false_eq_true, if_false]
    cases new <;> simp [fills_some]

/-! ### What a command line describes -/

/-- An option is given once at most, and its value is read as `a`. -/
def IsGiven (gs : List Group) (i : ReportOption) (parse : String → Except UsageError α)
    (a : Option α) : Prop :=
  (values i gs).map parse = a.toList.map .ok

/-- The options that a report's groups describe. All but the filters are given once at most, and the
two paths that a report needs are given. -/
structure Describes (gs : List Group) (verbose : Bool) (o : ReportOptions) : Prop where
  plain : ∀ g ∈ gs, g.IsPlain
  verbose : gs.countP Group.isVerbose = verbose.toNat
  data : IsGiven gs .data pathValue (some o.data)
  out : IsGiven gs .out pathValue (some o.out)
  events : IsGiven gs .events pathValue o.events
  filters : values .filter gs = o.filters
  status : IsGiven gs .status .ok o.status
  ownership : IsGiven gs .ownership .ok o.ownership
  chart : IsGiven gs .chart .ok o.chart
  settings : IsGiven gs .settings pathValue o.settings
  statusRule : IsGiven gs .statusRule (fun v => parsedValue (Filter.StatusRule.ofName? v))
    o.statusRule
  offset : ∃ offset, IsGiven gs .offset (fun v => parsedValue (count? v)) offset ∧
    o.offset = offset.getD 0
  limit : IsGiven gs .limit (fun v => parsedValue (count? v)) o.limit

theorem needed_eq_ok_iff {given : Option α} {a : α} : needed given = .ok a ↔ given = some a := by
  cases given <;> simp [needed]

/-- The draft that is finished as the options. -/
def ReportOptions.draft (o : ReportOptions) (offset : Option UInt32) : ReportDraft where
  data := some o.data
  out := some o.out
  events := o.events
  filters := o.filters.reverse
  status := o.status
  ownership := o.ownership
  chart := o.chart
  settings := o.settings
  statusRule := o.statusRule
  offset := offset
  limit := o.limit

theorem finish_eq_ok_iff {d : ReportDraft} {o : ReportOptions} :
    d.finish = .ok o ↔ ∃ offset, d = o.draft offset ∧ o.offset = offset.getD 0 := by
  unfold ReportDraft.finish
  simp only [bind_eq_ok_iff, needed_eq_ok_iff]
  constructor
  · rintro ⟨data, hdata, out, hout, h⟩
    obtain rfl := Except.ok.inj h
    refine ⟨d.offset, ?_, rfl⟩
    rw [ReportOptions.draft, List.reverse_reverse, ← hdata, ← hout]
  · rintro ⟨offset, rfl, hoffset⟩
    refine ⟨o.data, rfl, o.out, rfl, ?_⟩
    simp only [ReportOptions.draft, List.reverse_reverse, ← hoffset]
    rfl

theorem read_reportWords (gs : List Group) :
    read (reportWords gs) =
      reportGrammar.read (gs.flatMap Group.words) { draft := {} } >>= fun p =>
        p.draft.finish >>= fun o => .ok ⟨p.verbose, .report o⟩ := rfl

/-- **A command line of groups is read exactly as what it describes.** -/
theorem read_eq_ok_iff {gs : List Group} {invocation : Invocation} :
    read (reportWords gs) = .ok invocation ↔
      ∃ o, invocation.command = .report o ∧ Describes gs invocation.verbose o := by
  have hfold {p : ReportProgress} : reportGrammar.read (gs.flatMap Group.words) { draft := {} } =
      .ok p ↔ (∀ g ∈ gs, g.IsPlain) ∧ Collects gs {} p.draft ∧
        gs.countP Group.isVerbose = p.verbose.toNat ∧ p.waiting = none := by
    rw [read_words, settle_of_not_waiting rfl]
    simp only [Except.ok.injEq, exists_eq_left', foldlM_take, Bool.toNat_false, Nat.zero_add]
  rw [read_reportWords]
  simp only [bind_eq_ok_iff, hfold, finish_eq_ok_iff, collects_iff, fills_none]
  constructor
  · rintro ⟨p, ⟨hplain, hcollects, hverbose, -⟩, o, ⟨offset, hdraft, hoffset⟩, h⟩
    obtain rfl := Except.ok.inj h
    rw [hdraft] at hcollects
    obtain ⟨hdata, hout, hevents, hfilters, hstatus, hownership, hchart, hsettings, hrule, hpage,
      hlimit⟩ := hcollects
    have hvalues : values .filter gs = o.filters := by
      simpa [ReportOptions.draft] using hfilters.symm
    exact ⟨o, rfl, hplain, hverbose, hdata, hout, hevents, hvalues, hstatus, hownership, hchart,
      hsettings, hrule, ⟨offset, hpage, hoffset⟩, hlimit⟩
  · rintro ⟨o, hcommand, h⟩
    obtain ⟨offset, hpage, hoffset⟩ := h.offset
    obtain ⟨verbose, command⟩ := invocation
    obtain rfl : command = .report o := hcommand
    have hfilters : o.filters.reverse = (values .filter gs).reverse ++ [] := by
      rw [h.filters, List.append_nil]
    exact ⟨⟨o.draft offset, verbose, none⟩, ⟨h.plain, ⟨h.data, h.out, h.events, hfilters, h.status,
      h.ownership, h.chart, h.settings, h.statusRule, hpage, h.limit⟩, h.verbose, rfl⟩, o,
      ⟨offset, rfl, hoffset⟩, rfl⟩

end DeviceConsole.CommandLine
