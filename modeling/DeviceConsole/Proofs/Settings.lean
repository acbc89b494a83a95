import DeviceConsole.Proofs.Json.Naturals
import DeviceConsole.Proofs.Json.Objects
import DeviceConsole.Proofs.Run.Stages

/-!
Settings files that name some of the settings.

A settings file is an object; some of its members name settings (`Lists`), and any others may stand
among them. Each setting is a key with a value of the key's own kind (`Key.Value`), so that what
reading one member does is told once for all keys (`exists_member`). The settings of a run are then
known key by key (`Overrides`): the rule of the command line comes first, what the file names comes
next, and the rest is what it is without a file (`partialFile_overrides`).
-/
namespace DeviceConsole
open Json DeviceConsole.Decimal DeviceConsole.Stream

namespace Settings

/-! ### Keys -/

/-- What a settings file may name. -/
inductive Key where
  | apiContext
  | storeContext
  | pageSize
  | statusRule
deriving DecidableEq, Repr

namespace Key

def name : Key → String
  | .apiContext => "api_context"
  | .storeContext => "store_context"
  | .pageSize => "page_size"
  | .statusRule => "status_rule"

/-- The kind of value that a setting has. -/
def Value : Key → Type
  | .apiContext => String
  | .storeContext => String
  | .pageSize => UInt32
  | .statusRule => Filter.StatusRule

def get : (k : Key) → Settings → k.Value
  | .apiContext, s => s.apiContext
  | .storeContext, s => s.storeContext
  | .pageSize, s => s.pageSize
  | .statusRule, s => s.statusRule

def put : (k : Key) → k.Value → Settings → Settings
  | .apiContext, v, s => { s with apiContext := v }
  | .storeContext, v, s => { s with storeContext := v }
  | .pageSize, n, s => { s with pageSize := n }
  | .statusRule, rule, s => { s with statusRule := rule }

/-- The bytes that give a setting its value: a quoted text, the digits of a number, or the quoted
name of a rule. -/
def IsWritten : (k : Key) → k.Value → List UInt8 → Prop
  | .apiContext, v, bytes => Quotes bytes v
  | .storeContext, v, bytes => Quotes bytes v
  | .pageSize, n, bytes => bytes = utf8 (digitsOf n.toNat)
  | .statusRule, rule, bytes => Quotes bytes (Filter.StatusRule.name rule)

theorem name_injective {j k : Key} (h : j.name = k.name) : j = k := by
  cases j <;> cases k <;> first | rfl | exact absurd h (by decide)

@[simp] theorem get_put_self (k : Key) (v : k.Value) (s : Settings) : k.get (k.put v s) = v := by
  cases k <;> rfl

theorem get_put_of_ne {j k : Key} (h : j ≠ k) (v : k.Value) (s : Settings) :
    j.get (k.put v s) = j.get s := by
  cases j <;> cases k <;> first | rfl | exact absurd rfl h

end Key

/-- A setting that a file names, with its value. -/
structure Named where
  key : Key
  value : key.Value

/-! ### Files -/

/-- The members that the reader of settings knows. -/
def members : List (Member Settings) :=
  [.defaulted "api_context" Json.string fun v s => { s with apiContext := v },
   .defaulted "store_context" Json.string fun v s => { s with storeContext := v },
   .defaulted "page_size" Json.uint32 fun v s => { s with pageSize := v },
   .defaulted "status_rule" Filter.StatusRule.reader fun v s => { s with statusRule := v }]

theorem reader_eq : reader = record "ReportConfig" members {} := rfl

/-- The member of a key, and what it makes of the bytes that give the key a value. -/
theorem exists_member (k : Key) : ∃ m, members.find? (fun m => m.name == k.name) = some m ∧
    ∀ v bytes s, k.IsWritten v bytes → Reads (m.read s) bytes (k.put v s) := by
  cases k with
  | apiContext => exact ⟨_, rfl, fun v bytes s h => (reads_string h).defaulted⟩
  | storeContext => exact ⟨_, rfl, fun v bytes s h => (reads_string h).defaulted⟩
  | pageSize =>
    refine ⟨_, rfl, fun n bytes s h => ?_⟩
    obtain rfl : bytes = utf8 (digitsOf (UInt32.toNat n)) := h
    exact (reads_uint32 n).defaulted
  | statusRule =>
    refine ⟨_, rfl, fun rule bytes s h => ?_⟩
    have hread : Reads Filter.StatusRule.reader bytes rule := by
      cases rule <;> exact reads_choice h rfl
    exact hread.defaulted

/-- A name that is no key's is unknown to the reader. -/
theorem find?_members_eq_none {name : String} (h : ∀ k : Key, k.name ≠ name) :
    members.find? (fun m => m.name == name) = none := by
  rw [List.find?_eq_none]
  intro m hm hname
  simp only [members, List.mem_cons, List.not_mem_nil, or_false] at hm
  rcases hm with rfl | rfl | rfl | rfl
  · exact h .apiContext (beq_iff_eq.1 hname)
  · exact h .storeContext (beq_iff_eq.1 hname)
  · exact h .pageSize (beq_iff_eq.1 hname)
  · exact h .statusRule (beq_iff_eq.1 hname)

/-- Every well-formed value is settled by every member, whether the key can have it or not. -/
theorem settles_member {m : Member Settings} (hm : m ∈ members) (s : Settings)
    {value : List UInt8} (h : IsValue value) : Settles (m.read s) value := by
  simp only [members, List.mem_cons, List.not_mem_nil, or_false] at hm
  rcases hm with rfl | rfl | rfl | rfl
  · exact (settles_string h).defaulted
  · exact (settles_string h).defaulted
  · exact (settles_uint32 h).defaulted
  · exact (settles_choice h _).defaulted

/-- What a file names among the members of its object, in the order in which it stands there. -/
inductive Lists : List (String × List UInt8) → List Named → Prop
  | nil : Lists [] []
  | named {x : Named} {value : List UInt8} {members : List (String × List UInt8)}
      {named : List Named} (h : x.key.IsWritten x.value value) (hrest : Lists members named) :
      Lists ((x.key.name, value) :: members) (x :: named)
  | other {name : String} {value : List UInt8} {members : List (String × List UInt8)}
      {named : List Named} (h : ∀ k : Key, k.name ≠ name) (hrest : Lists members named) :
      Lists ((name, value) :: members) named

/-- The settings with those that are named put in one after the other. -/
def putAll (named : List Named) (s : Settings) : Settings :=
  named.foldl (fun s x => x.key.put x.value s) s

/-- An object that names no setting twice is read member by member. -/
theorem Lists.folds {members : List (String × List UInt8)} {named : List Named}
    (h : Lists members named) {entries : List (List UInt8)}
    (hentries : List.Forall₂ Enters members entries) (hkeys : (named.map Named.key).Nodup)
    {seen : List String} (hseen : ∀ x ∈ named, x.key.name ∉ seen) (s : Settings) :
    ∃ seen', Folds (Member.step Settings.members) (seen, s) entries (seen', putAll named s) := by
  induction h generalizing entries seen s with
  | nil =>
    cases hentries
    exact ⟨seen, .nil⟩
  | @named x value members named hwritten _ ih =>
    obtain ⟨entry, entries, hentry, hrest, rfl⟩ := List.forall₂_cons_left_iff.1 hentries
    cases hentry with
    | @mk name _ assigned _ hname hassigns =>
      obtain ⟨m, hfind, hreads⟩ := exists_member x.key
      rw [List.map_cons, List.nodup_cons] at hkeys
      obtain ⟨hhere, hkeys⟩ := hkeys
      obtain ⟨hfirst, hseen⟩ := List.forall_mem_cons.1 hseen
      have hnext : ∀ y ∈ named, y.key.name ∉ x.key.name :: seen := by
        intro y hy hin
        rcases List.mem_cons.1 hin with heq | hin
        · exact hhere (Key.name_injective heq ▸ List.mem_map_of_mem hy)
        · exact hseen y hy hin
      obtain ⟨seen', hfolds⟩ := ih hrest hkeys hnext (x.key.put x.value s)
      exact ⟨seen', .cons hname
        (reads_known hfind hfirst (hreads x.value value s hwritten) hassigns) hfolds⟩
  | @other name value members named hother _ ih =>
    obtain ⟨entry, entries, hentry, hrest, rfl⟩ := List.forall₂_cons_left_iff.1 hentries
    cases hentry with
    | @mk name _ assigned _ hname hassigns hvalue =>
      obtain ⟨seen', hfolds⟩ := ih hrest hkeys hseen s
      exact ⟨seen', .cons hname
        (reads_unknown (find?_members_eq_none hother) hvalue hassigns) hfolds⟩

theorem get_putAll_of_not_mem {named : List Named} {k : Key} (h : k ∉ named.map Named.key)
    (s : Settings) : k.get (putAll named s) = k.get s := by
  induction named generalizing s with
  | nil => rfl
  | cons x named ih =>
    rw [List.map_cons, List.mem_cons, not_or] at h
    obtain ⟨hne, hrest⟩ := h
    exact (ih hrest _).trans (Key.get_put_of_ne hne x.value s)

theorem get_putAll_of_mem {named : List Named} (hkeys : (named.map Named.key).Nodup) {x : Named}
    (hx : x ∈ named) (s : Settings) : x.key.get (putAll named s) = x.value := by
  induction named generalizing s with
  | nil => cases hx
  | cons y named ih =>
    rw [List.map_cons, List.nodup_cons] at hkeys
    obtain ⟨hhere, hkeys⟩ := hkeys
    rcases List.mem_cons.1 hx with rfl | hx
    · exact (get_putAll_of_not_mem hhere _).trans (Key.get_put_self x.key x.value s)
    · exact ih hkeys hx _

/-- The settings that a file and a command line call for: the rule of the command line comes first,
what the file names comes next, and everything else is as without a file. -/
structure Overrides (named : List Named) (rule : Option Filter.StatusRule) (t : Settings) :
    Prop where
  rule_eq : ∀ r, rule = some r → t.statusRule = r
  value_eq : ∀ x ∈ named, rule = none ∨ x.key ≠ .statusRule → x.key.get t = x.value
  default_eq : ∀ k : Key, k ∉ named.map Named.key → rule = none ∨ k ≠ .statusRule →
    k.get t = k.get {}

/-- A rule of the command line changes no setting but its own. -/
theorem get_withRule {rule : Option Filter.StatusRule} {k : Key}
    (h : rule = none ∨ k ≠ .statusRule) (s : Settings) : k.get (s.withRule rule) = k.get s := by
  cases rule with
  | none => rfl
  | some r => exact Key.get_put_of_ne (h.resolve_left nofun) r s

theorem overrides_putAll {named : List Named} (hkeys : (named.map Named.key).Nodup)
    (rule : Option Filter.StatusRule) : Overrides named rule ((putAll named {}).withRule rule) where
  rule_eq := by
    intro r hr
    rw [hr]
    rfl
  value_eq := by
    intro x hx hrule
    rw [get_withRule hrule]
    exact get_putAll_of_mem hkeys hx {}
  default_eq := by
    intro k hk hrule
    rw [get_withRule hrule]
    exact get_putAll_of_not_mem hk {}

end Settings

/-! ### Runs -/

namespace Run
open CommandLine Settings

variable {path : String} {opened : Except Fault Stream} {bytes : List UInt8}
  {members : List (String × List UInt8)}

/-- A file that names no setting twice gives what it names, and the defaults for the rest. -/
theorem resolveSettings_of_lists (hcontent : Files.content path opened = .ok (.whole bytes))
    (hobject : IsObject members bytes) {named : List Named} (h : Lists members named)
    (hkeys : (named.map Named.key).Nodup) (rule : Option Filter.StatusRule) :
    Files.resolveSettings (some (path, opened)) rule = .ok ((putAll named {}).withRule rule) := by
  have hfolds : ∀ entries, List.Forall₂ Enters members entries →
      ∃ seen, Folds (Member.step Settings.members) ([], {}) entries (seen, putAll named {}) :=
    fun entries hentries => h.folds hentries hkeys (fun _ _ => List.not_mem_nil) {}
  have hneeded : ∀ m ∈ Settings.members, m.needed = false := by
    simp [Settings.members, Member.defaulted]
  have hread := document_of_folds "ReportConfig" hobject hfolds hneeded
  simp only [Files.resolveSettings, Files.settings, Files.document, hcontent, ok_bind, reader_eq,
    hread]
  rfl

/-- A file that names a setting twice is refused, whatever its values are. -/
theorem resolveSettings_of_repeated (hcontent : Files.content path opened = .ok (.whole bytes))
    (hobject : IsObject members bytes) {k : Key}
    (h : List.Duplicate k.name (members.map Prod.fst)) (rule : Option Filter.StatusRule) :
    ∃ failure, Files.resolveSettings (some (path, opened)) rule = .error (.json failure) := by
  obtain ⟨m, hfind, -⟩ := exists_member k
  have hname : (Settings.members.find? fun m => m.name == k.name).isSome := by rw [hfind]; rfl
  obtain ⟨failure, hread⟩ := document_of_repeated "ReportConfig" ({} : Settings)
    (fun m hm s value hvalue => settles_member hm s hvalue) hobject hname h
  refine ⟨failure, ?_⟩
  simp only [Files.resolveSettings, Files.settings, Files.document, hcontent, ok_bind, reader_eq,
    hread]
  rfl

/-- The settings of a run, if it comes to have any, drop statuses. -/
def DropsStatuses (file : Option Opened) (rule : Option Filter.StatusRule) : Prop :=
  ∃ t, Files.resolveSettings file rule = .ok t ∧ t.statusRule = .dropTruthy

theorem mem_warnings_iff (s : Settings) :
    .statusesDropped ∈ s.warnings ↔ s.statusRule = .dropTruthy := by
  unfold Settings.warnings
  split
  · next h => simp [h]
  · next h => simp [h]

theorem prepare_warns_iff (o : ReportOptions) (src : Sources) :
    .statusesDropped ∈ (prepare o src).1 ↔ DropsStatuses src.settings o.statusRule := by
  unfold prepare DropsStatuses
  cases Files.resolveSettings src.settings o.statusRule with
  | error e => simp
  | ok settings =>
    have hsettings := mem_warnings_iff settings
    cases Files.enrollment src.data.1 src.data.2 with
    | error e => simpa using hsettings
    | ok data =>
      have hdata : .statusesDropped ∉ data.warnings := by simp [Enrollment.warnings]
      simpa [hdata] using hsettings

theorem prepareUninstall_warns_iff (o : UninstallOptions) (file : Option Opened) :
    .statusesDropped ∈ (prepareUninstall o file).1 ↔ DropsStatuses file none := by
  unfold prepareUninstall DropsStatuses
  cases Files.resolveSettings file none with
  | error e => simp
  | ok settings => simpa using mem_warnings_iff settings

section Steady
variable {σ : Type} {disk : Disk (StateM σ)}

theorem report_warnings (h : disk.IsSteady) (o : ReportOptions) (s : σ) :
    ((report disk o).run s).1.warnings = (prepare o (found disk o s)).1 := by
  rw [report_run_of_steady h]
  generalize prepare o (found disk o s) = prepared
  rcases prepared with ⟨warnings, e | ⟨r, q⟩⟩
  · rfl
  · dsimp only
    rcases (writeReport disk q o.out r).run s with ⟨e | u, t⟩ <;> rfl

theorem uninstall_warnings (h : disk.IsSteady) (o : UninstallOptions) (s : σ) :
    ((uninstall disk o).run s).1.warnings =
      (prepareUninstall o (o.settings.map (Run.opened disk s))).1 := by
  rw [uninstall_run_of_steady h]
  generalize prepareUninstall o _ = prepared
  rcases prepared with ⟨warnings, e | ⟨request, settings⟩⟩ <;> rfl

end Steady

/-- **A settings file overrides exactly what it names.** Whatever else its object holds and in
whatever order, the settings are those that it names, the defaults for the rest, and the rule of the
command line if there is one. A setting that stands there twice makes the file no settings file,
even if other values in it are of the wrong kind. And a run, of either command and on any disk,
points out that statuses are dropped exactly if its settings drop them, wherever the rule is from. -/
theorem partialFile_overrides (hcontent : Files.content path opened = .ok (.whole bytes))
    (hobject : IsObject members bytes) (rule : Option Filter.StatusRule) :
    (∀ named, Lists members named → (named.map Named.key).Nodup → ∃ t,
      Files.resolveSettings (some (path, opened)) rule = .ok t ∧ Overrides named rule t) ∧
    (∀ k : Key, List.Duplicate k.name (members.map Prod.fst) → ∃ failure,
      Files.resolveSettings (some (path, opened)) rule = .error (.json failure)) ∧
    (∀ {σ : Type} {disk : Disk (StateM σ)}, disk.IsSteady → ∀ s : σ,
      (∀ o : ReportOptions, .statusesDropped ∈ ((report disk o).run s).1.warnings ↔
        DropsStatuses (o.settings.map (Run.opened disk s)) o.statusRule) ∧
      (∀ o : UninstallOptions, .statusesDropped ∈ ((uninstall disk o).run s).1.warnings ↔
        DropsStatuses (o.settings.map (Run.opened disk s)) none)) := by
  refine ⟨fun named h hkeys => ?_, fun k h => ?_, fun h s => ⟨fun o => ?_, fun o => ?_⟩⟩
  · exact ⟨_, resolveSettings_of_lists hcontent hobject h hkeys rule, overrides_putAll hkeys rule⟩
  · exact resolveSettings_of_repeated hcontent hobject h rule
  · rw [report_warnings h]
    exact prepare_warns_iff o (found _ o s)
  · rw [uninstall_warnings h]
    exact prepareUninstall_warns_iff o _

/-- A settings file with the rule before the page size and a member of another name between them. -/
def reorderedFile : List (String × Value) :=
  [("status_rule", .text "retain"), ("page", .object [("page_size", .list [.null])]),
   ("page_size", .natural 25)]

/-- A settings file that gives the page size twice, the second time as a text. -/
def repeatedFile : List (String × Value) :=
  [("page_size", .natural 25), ("page_size", .text "25")]

theorem partialFile_overrides_reordered :
    (∃ t, Files.resolveSettings
        (some ("console.json", .ok (.whole (bytesOf (Value.object reorderedFile).compact))))
        (some .dropTruthy) = .ok t ∧
      t.pageSize = 25 ∧ t.statusRule = .dropTruthy ∧
      t.apiContext = "/entgra-ui/api/device-mgt/v1.0") ∧
    (∃ failure, Files.resolveSettings
        (some ("console.json", .ok (.whole (bytesOf (Value.object repeatedFile).compact)))) none =
      .error (.json failure)) ∧
    .statusesDropped ∈ ((report Storage.disk
      { data := "data.json", out := "out", statusRule := some .dropTruthy }).run {}).1.warnings := by
  have hcontent (bytes : List UInt8) :
      Files.content "console.json" (.ok (.whole bytes)) = .ok (.whole bytes) := by
    have hplain : Path.extension? "console.json" ≠ some "gz" := by decide +kernel
    rw [Files.content, if_neg hplain]
  have hlists : Lists (reorderedFile.map fun m => (m.1, m.2.bytes .compact 1))
      [⟨.statusRule, Filter.StatusRule.retain⟩, ⟨.pageSize, (25 : UInt32)⟩] := by
    have hrule : Key.IsWritten .statusRule Filter.StatusRule.retain
        (Value.bytes .compact 1 (.text "retain")) := quotes_quote "retain"
    have hsize : Key.IsWritten .pageSize (25 : UInt32)
        (Value.bytes .compact 1 (.natural 25)) := rfl
    have hother : ∀ k : Key, k.name ≠ "page" := by
      intro k
      cases k <;> decide
    exact .named (x := ⟨.statusRule, _⟩) hrule
      (.other hother (.named (x := ⟨.pageSize, _⟩) hsize .nil))
  obtain ⟨hreads, -, hwarns⟩ :=
    partialFile_overrides (hcontent _) (isObject_compact reorderedFile) (some .dropTruthy)
  obtain ⟨-, hrepeated, -⟩ :=
    partialFile_overrides (hcontent _) (isObject_compact repeatedFile) none
  obtain ⟨t, ht, hoverrides⟩ := hreads _ hlists (by decide)
  refine ⟨⟨t, ht, ?_, ?_, ?_⟩, hrepeated .pageSize (by decide), ?_⟩
  · exact hoverrides.value_eq ⟨.pageSize, (25 : UInt32)⟩ (by simp) (.inr (by decide))
  · exact hoverrides.rule_eq _ rfl
  · exact hoverrides.default_eq .apiContext (by simp) (.inr (by decide))
  · exact ((hwarns Storage.disk_isSteady {}).1 _).2 ⟨_, rfl, rfl⟩

end Run

end DeviceConsole
