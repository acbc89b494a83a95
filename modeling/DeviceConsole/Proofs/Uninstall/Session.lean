import DeviceConsole.Uninstall.Session
import Mathlib.Data.List.Induction

/-!
What an uninstall dialog shows after a session.

Nothing that was done before the dialog was last closed can be seen of it, so a session is cut there
(`exists_sinceClose`) and the rest of it says everything: whether the dialog is visible, whether a
request is running, and which tab is active (`Shows`). One action adds itself to what is shown, or
closes the dialog and leaves nothing to show (`shows_act`, `shows_close`); from these two a whole
session follows (`after_shows`).
-/
namespace DeviceConsole.Uninstall

/-! ### The actions since the dialog was last closed -/

namespace Action

theorem sinceClose_concat_close (as : List Action) : sinceClose (as ++ [.close]) = [] := by
  simp [sinceClose]

theorem sinceClose_concat {a : Action} (ha : a ≠ .close) (as : List Action) :
    sinceClose (as ++ [a]) = sinceClose as ++ [a] := by
  simp [sinceClose, ha]

/-- A session ends in the actions since the dialog was last closed: none of them closes it, and
what stands before them, if anything, ends by closing it. -/
theorem exists_sinceClose (as : List Action) :
    ∃ before, as = before ++ sinceClose as ∧ .close ∉ sinceClose as ∧
      (before = [] ∨ before.getLast? = some .close) := by
  induction as using List.reverseRecOn with
  | nil => exact ⟨[], rfl, List.not_mem_nil, .inl rfl⟩
  | append_singleton as a ih =>
    obtain ⟨before, has, hclose, hbefore⟩ := ih
    by_cases ha : a = .close
    · subst ha
      rw [sinceClose_concat_close]
      exact ⟨as ++ [.close], by simp, List.not_mem_nil, .inr (by simp)⟩
    · rw [sinceClose_concat ha]
      refine ⟨before, ?_, ?_, hbefore⟩
      · rw [← List.append_assoc, ← has]
      · simp [hclose, Ne.symm ha]

end Action

/-! ### Tabs by name -/

namespace Scope

/-- Whether a scope's tab is the one that a key selects. -/
def IsNamed (scope : Scope) (key : String) : Prop :=
  scope.key = key ∨ scope.subscription = key

theorem isNamed_unique {scope other : Scope} {key : String} (h : scope.IsNamed key) :
    other.IsNamed key ↔ other = scope := by
  constructor
  · intro hother
    have hscope := ofName?_eq_some_iff.2 h
    rw [ofName?_eq_some_iff.2 hother] at hscope
    exact Option.some_inj.1 hscope
  · rintro rfl
    exact h

end Scope

namespace Dialog
open DeviceConsole.Uninstall.Action

/-- Selecting a tab either finds the one scope of that name and shows its tab, or finds none and
leaves the dialog as it was. -/
theorem selectTab_cases (key : String) (d : Dialog) :
    (∃ scope : Scope, (∀ other : Scope, other.IsNamed key ↔ other = scope) ∧
      d.selectTab key = .ok { d with active := scope } ∧
      d.act (.selectTab key) = { d with active := scope } ∧ scope? (.selectTab key) = some scope) ∨
    ((∀ scope : Scope, ¬ scope.IsNamed key) ∧ d.selectTab key = .error (.unknownScope key) ∧
      d.act (.selectTab key) = d ∧ scope? (.selectTab key) = none) := by
  cases hscope : Scope.ofName? key with
  | none =>
    refine .inr ⟨fun scope h => ?_, by simp [selectTab, hscope], by simp [act, selectTab, hscope],
      hscope⟩
    rw [Scope.ofName?_eq_some_iff.2 h] at hscope
    cases hscope
  | some scope =>
    exact .inl ⟨scope, fun other => Scope.isNamed_unique (Scope.ofName?_eq_some_iff.1 hscope),
      by simp [selectTab, hscope], by simp [act, selectTab, hscope], hscope⟩

/-! ### What a dialog shows -/

/-- The dialog as it was made. -/
def fresh (uuid deviceType : String) : Dialog := { uuid := uuid, deviceType := deviceType }

/-- What a dialog shows when these are the actions since it was last closed. -/
structure Shows (uuid deviceType : String) (recent : List Action) (d : Dialog) : Prop where
  uuid : d.uuid = uuid
  deviceType : d.deviceType = deviceType
  visible : d.visible = true ↔ .reveal ∈ recent
  loading : d.loading = ((recent.filterMap loading?).getLast?).getD false
  active : d.active = ((recent.filterMap scope?).getLast?).getD .device

variable {uuid deviceType : String} {recent : List Action} {d : Dialog}

theorem shows_fresh (uuid deviceType : String) : Shows uuid deviceType [] (fresh uuid deviceType) :=
  ⟨rfl, rfl, by simp [fresh], rfl, rfl⟩

/-- A dialog that has nothing to show is as it was made. -/
theorem Shows.eq_fresh (h : Shows uuid deviceType [] d) : d = fresh uuid deviceType := by
  obtain ⟨u, t, visible, loading, active⟩ := d
  obtain ⟨rfl, rfl, hvisible, rfl, rfl⟩ := h
  have hhidden : visible = false := by simpa using hvisible
  rw [hhidden]
  rfl

theorem shows_close (h : Shows uuid deviceType recent d) : Shows uuid deviceType [] d.close :=
  ⟨h.uuid, h.deviceType, by simp [close], rfl, rfl⟩

/-- One more action is one more that counts, unless it closes the dialog. -/
theorem shows_act (h : Shows uuid deviceType recent d) {a : Action} (ha : a ≠ .close) :
    Shows uuid deviceType (recent ++ [a]) (d.act a) := by
  cases a with
  | close => exact absurd rfl ha
  | reveal =>
    exact ⟨h.uuid, h.deviceType, by simp [act, reveal],
      by simp [act, reveal, loading?, h.loading], by simp [act, reveal, scope?, h.active]⟩
  | setLoading loading =>
    exact ⟨h.uuid, h.deviceType, by simp [act, setLoading, h.visible],
      by simp [act, setLoading, loading?], by simp [act, setLoading, scope?, h.active]⟩
  | request targets =>
    exact ⟨h.uuid, h.deviceType, by simp [act, h.visible], by simp [act, loading?, h.loading],
      by simp [act, scope?, h.active]⟩
  | selectTab key =>
    rcases selectTab_cases key d with ⟨scope, -, -, hact, hscope⟩ | ⟨-, -, hact, hscope⟩
    · rw [hact]
      exact ⟨h.uuid, h.deviceType, by simp [h.visible], by simp [loading?, h.loading],
        by simp [hscope]⟩
    · rw [hact]
      exact ⟨h.uuid, h.deviceType, by simp [h.visible], by simp [loading?, h.loading],
        by simp [hscope, h.active]⟩

theorem after_concat (as : List Action) (a : Action) (d : Dialog) :
    d.after (as ++ [a]) = (d.after as).act a := by
  rw [after_append, after_cons, after_nil]

theorem shows_after (uuid deviceType : String) (as : List Action) :
    Shows uuid deviceType (sinceClose as) ((fresh uuid deviceType).after as) := by
  induction as using List.reverseRecOn with
  | nil => exact shows_fresh uuid deviceType
  | append_singleton as a ih =>
    rw [after_concat]
    by_cases ha : a = .close
    · subst ha
      rw [sinceClose_concat_close]
      exact shows_close ih
    · rw [sinceClose_concat ha]
      exact shows_act ih ha

/-- Closing a dialog makes it the one it was when it was made. -/
theorem after_concat_close (uuid deviceType : String) (as : List Action) :
    (fresh uuid deviceType).after (as ++ [.close]) = fresh uuid deviceType := by
  have h := shows_after uuid deviceType (as ++ [.close])
  rw [sinceClose_concat_close] at h
  exact h.eq_fresh

end Dialog

end DeviceConsole.Uninstall
