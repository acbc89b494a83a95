import DeviceConsole.CommandLine.Options
import DeviceConsole.CommandLine.Words

/-!
Reading a command line.

Words are read from left to right into a draft. An option that takes a value waits for it
(`waiting`); its value is judged only when the next option, flag or plain word settles it, or the
end does. So an unknown word is reported before a bad value just in front of it, but not before
one further back. What must be given is asked for at the very end.
-/
namespace DeviceConsole.CommandLine

/-- The options of a subcommand, how their values go into a draft, and whether it takes plain
words. -/
structure Grammar (ι δ : Type) where
  option? : String → Option ι
  take : ι → String → δ → Except UsageError δ
  plain : Option (String → δ → δ)

/-- What has been read. An option waits with its value, or for its value. -/
structure Progress (ι δ : Type) where
  draft : δ
  verbose : Bool := false
  waiting : Option (ι × Option String) := none

namespace Grammar

variable {ι δ : Type}

/-- The progress without a waiting option. -/
def settle (g : Grammar ι δ) (p : Progress ι δ) : Except UsageError (Progress ι δ) :=
  match p.waiting with
  | none => .ok p
  | some (_, none) => .error .missingValue
  | some (i, some value) => do
    let draft ← g.take i value p.draft
    pure { p with draft := draft, waiting := none }

/-- The flag that may be given once. -/
def setVerbose (g : Grammar ι δ) (p : Progress ι δ) : Except UsageError (Progress ι δ) := do
  let p ← g.settle p
  if p.verbose then .error .repeatedOption else pure { p with verbose := true }

/-- One-letter flags in order. -/
def flags (g : Grammar ι δ) : List Char → Progress ι δ → Except UsageError (Progress ι δ)
  | [], p => .ok p
  | c :: cs, p => do
    if c = 'v' then flags g cs (← g.setVerbose p)
    else if c = 'h' then
      let _ ← g.settle p
      .error .helpAsked
    else .error .unknownArgument

/-- A plain word that is no option's value. -/
def word (g : Grammar ι δ) (s : String) (p : Progress ι δ) : Except UsageError (Progress ι δ) :=
  match g.plain with
  | none => .error .unknownArgument
  | some add => do
    let p ← g.settle p
    pure { p with draft := add s p.draft }

/-- An option with a long name. -/
def long (g : Grammar ι δ) (name : String) (value : Option String) (p : Progress ι δ) :
    Except UsageError (Progress ι δ) :=
  if name = "verbose" then
    if value.isSome then .error .unexpectedValue else g.setVerbose p
  else if name = "help" then
    if value.isSome then .error .unexpectedValue
    else do
      let _ ← g.settle p
      .error .helpAsked
  else match g.option? name with
    | none => .error .unknownArgument
    | some i => do
      let p ← g.settle p
      match value with
      | some value =>
        let draft ← g.take i value p.draft
        pure { p with draft := draft }
      | none => pure { p with waiting := some (i, none) }

/-- One word before the mark that ends the options. -/
def step (g : Grammar ι δ) (w : Word) (p : Progress ι δ) : Except UsageError (Progress ι δ) :=
  match w with
  | .long name value => g.long name value p
  | .short cs => g.flags cs p
  | .mark => .ok p
  | .plain s =>
    match p.waiting with
    | some (i, none) => .ok { p with waiting := some (i, some s) }
    | _ => g.word s p

/-- All words in order. After the mark every word is a plain one. -/
def read (g : Grammar ι δ) : List String → Progress ι δ → Except UsageError (Progress ι δ)
  | [], p => g.settle p
  | s :: ss, p => do
    match Word.ofString s with
    | .mark => g.settle (← ss.foldlM (fun p s => g.word s p) p)
    | w => read g ss (← g.step w p)

end Grammar

/-- A value given once. -/
def once (old : Option α) (value : Except UsageError α) : Except UsageError (Option α) :=
  if old.isSome then .error .repeatedOption else value.map some

/-- A path may not be empty. -/
def pathValue (s : String) : Except UsageError String :=
  if s.isEmpty then .error .missingValue else .ok s

def parsedValue (a : Option α) : Except UsageError α :=
  match a with
  | some a => .ok a
  | none => .error .rejectedValue

def needed (a : Option α) : Except UsageError α :=
  match a with
  | some a => .ok a
  | none => .error .missingArgument

/-! ### The report subcommand -/

inductive ReportOption where
  | data
  | out
  | events
  | filter
  | status
  | ownership
  | chart
  | settings
  | statusRule
  | offset
  | limit
deriving DecidableEq, Repr

namespace ReportOption

def all : List ReportOption :=
  [.data, .out, .events, .filter, .status, .ownership, .chart, .settings, .statusRule, .offset,
    .limit]

def name : ReportOption → String
  | .data => "data"
  | .out => "out"
  | .events => "events"
  | .filter => "filter"
  | .status => "status"
  | .ownership => "ownership"
  | .chart => "chart"
  | .settings => "config"
  | .statusRule => "status-rule"
  | .offset => "offset"
  | .limit => "limit"

end ReportOption

/-- The options of a report as far as they have been given; filters with the last first. -/
structure ReportDraft where
  data : Option String := none
  out : Option String := none
  events : Option String := none
  filters : List String := []
  status : Option String := none
  ownership : Option String := none
  chart : Option String := none
  settings : Option String := none
  statusRule : Option Filter.StatusRule := none
  offset : Option UInt32 := none
  limit : Option UInt32 := none
deriving DecidableEq, Repr

namespace ReportDraft

def take (option : ReportOption) (value : String) (d : ReportDraft) :
    Except UsageError ReportDraft := do
  match option with
  | .data => pure { d with data := ← once d.data (pathValue value) }
  | .out => pure { d with out := ← once d.out (pathValue value) }
  | .events => pure { d with events := ← once d.events (pathValue value) }
  | .filter => pure { d with filters := value :: d.filters }
  | .status => pure { d with status := ← once d.status (.ok value) }
  | .ownership => pure { d with ownership := ← once d.ownership (.ok value) }
  | .chart => pure { d with chart := ← once d.chart (.ok value) }
  | .settings => pure { d with settings := ← once d.settings (pathValue value) }
  | .statusRule =>
    pure { d with
      statusRule := ← once d.statusRule (parsedValue (Filter.StatusRule.ofName? value)) }
  | .offset => pure { d with offset := ← once d.offset (parsedValue (count? value)) }
  | .limit => pure { d with limit := ← once d.limit (parsedValue (count? value)) }

/-- The options, if those that are needed have been given. -/
def finish (d : ReportDraft) : Except UsageError ReportOptions := do
  let data ← needed d.data
  let out ← needed d.out
  pure {
    data := data
    out := out
    events := d.events
    filters := d.filters.reverse
    status := d.status
    ownership := d.ownership
    chart := d.chart
    settings := d.settings
    statusRule := d.statusRule
    offset := d.offset.getD 0
    limit := d.limit }

end ReportDraft

def reportGrammar : Grammar ReportOption ReportDraft where
  option? name := ReportOption.all.find? fun o => o.name == name
  take := ReportDraft.take
  plain := none

/-! ### The uninstall subcommand -/

inductive UninstallOption where
  | uuid
  | scope
  | deviceType
  | settings
deriving DecidableEq, Repr

namespace UninstallOption

def all : List UninstallOption := [.uuid, .scope, .deviceType, .settings]

def name : UninstallOption → String
  | .uuid => "uuid"
  | .scope => "scope"
  | .deviceType => "device-type"
  | .settings => "config"

end UninstallOption

/-- The options of an uninstall request as far as they have been given; targets with the last
first. -/
structure UninstallDraft where
  uuid : Option String := none
  scope : Option Uninstall.Scope := none
  deviceType : Option String := none
  settings : Option String := none
  targets : List String := []
deriving DecidableEq, Repr

namespace UninstallDraft

def take (option : UninstallOption) (value : String) (d : UninstallDraft) :
    Except UsageError UninstallDraft := do
  match option with
  | .uuid => pure { d with uuid := ← once d.uuid (.ok value) }
  | .scope => pure { d with scope := ← once d.scope (parsedValue (Uninstall.Scope.ofName? value)) }
  | .deviceType => pure { d with deviceType := ← once d.deviceType (.ok value) }
  | .settings => pure { d with settings := ← once d.settings (pathValue value) }

/-- The options, if those that are needed have been given. -/
def finish (d : UninstallDraft) : Except UsageError UninstallOptions := do
  let uuid ← needed d.uuid
  if d.targets.isEmpty then .error .missingArgument
  else
    pure {
      uuid := uuid
      scope := d.scope.getD .device
      deviceType := d.deviceType.getD "android"
      settings := d.settings
      targets := d.targets.reverse }

end UninstallDraft

def uninstallGrammar : Grammar UninstallOption UninstallDraft where
  option? name := UninstallOption.all.find? fun o => o.name == name
  take := UninstallDraft.take
  plain := some fun s d => { d with targets := s :: d.targets }

/-! ### The whole command line -/

inductive Subcommand where
  | report
  | uninstall
  | help
deriving DecidableEq, Repr

def subcommand? (s : String) : Option Subcommand :=
  if s = "report" then some .report
  else if s = "uninstall" then some .uninstall
  else if s = "help" then some .help
  else none

/-- What the words after `help` lead to: help for one subcommand, or for all. -/
def helpAnswer : List String → UsageError
  | [] => .helpAsked
  | s :: ss => if (subcommand? s).isSome && ss.isEmpty then .helpAsked else .unknownSubcommand

/-- The words of a subcommand; `verbose` if the flag was given before it. -/
def readSubcommand (verbose : Bool) (words : List String) :
    Subcommand → Except UsageError Invocation
  | .report => do
    let p ← reportGrammar.read words { draft := {} }
    pure ⟨verbose || p.verbose, .report (← p.draft.finish)⟩
  | .uninstall => do
    let p ← uninstallGrammar.read words { draft := {} }
    pure ⟨verbose || p.verbose, .uninstall (← p.draft.finish)⟩
  | .help => .error (helpAnswer words)

/-- One-letter flags before the subcommand; whether the flag for more messages is among them. -/
def leadingFlags : List Char → (verbose : Bool) → Except UsageError Bool
  | [], verbose => .ok verbose
  | c :: cs, verbose =>
    if c = 'v' then if verbose then .error .repeatedOption else leadingFlags cs true
    else if c = 'h' then .error .helpAsked
    else if c = 'V' then .error .versionAsked
    else .error .unknownArgument

/-- An option before the subcommand. -/
def leadingLong (name : String) (value : Option String) (verbose : Bool) :
    Except UsageError Bool :=
  if name = "verbose" || name = "help" || name = "version" then
    if value.isSome then .error .unexpectedValue
    else if name = "help" then .error .helpAsked
    else if name = "version" then .error .versionAsked
    else if verbose then .error .repeatedOption
    else .ok true
  else .error .unknownArgument

/-- What a command line without a subcommand lacks. -/
def nothingFound (verbose : Bool) : UsageError :=
  if verbose then .missingSubcommand else .nothingGiven

/-- The words of a command line from the start, or from behind flags. -/
def readFrom (verbose : Bool) : List String → Except UsageError Invocation
  | [] => .error (nothingFound verbose)
  | s :: ss =>
    match subcommand? s with
    | some sub => readSubcommand verbose ss sub
    | none =>
      match Word.ofString s with
      | .mark =>
        match ss with
        | [] => .error (nothingFound verbose)
        | t :: _ =>
          .error (if (subcommand? t).isSome then .unknownArgument else .unknownSubcommand)
      | .long name value => do readFrom (← leadingLong name value verbose) ss
      | .short cs => do readFrom (← leadingFlags cs verbose) ss
      | .plain _ => .error .unknownSubcommand

/-- The command that the words of a command line give. -/
def read (words : List String) : Except UsageError Invocation :=
  readFrom false words

end DeviceConsole.CommandLine
