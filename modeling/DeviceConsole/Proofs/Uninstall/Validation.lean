import DeviceConsole.Proofs.Text.Quoting
import DeviceConsole.Proofs.Text.Trimming
import DeviceConsole.Uninstall.Request

/-!
What a request is checked for, and what it is refused for.

Several things can be wrong with a request at once, and its targets are gone through twice: once for
those that another scope should have, and once for the blank ones. What may be made is said by
`Acceptable`, and which of the defects of a request comes first by `FirstDefect`. A request that is
not acceptable has a first defect and is refused for it (`build_exact`). The message says which it is
and names the target: no two defects have the same one (`message_injective`).
-/
namespace DeviceConsole
namespace Uninstall

/-- The targets that a request of the scope may have. -/
def Scope.Takes : Scope → Target → Prop
  | .device, t => ∃ d, t = .device d
  | .user, t | .role, t | .group, t => ∃ s, t = .name s

theorem Target.fits_iff {t : Target} {scope : Scope} : t.fits scope = true ↔ scope.Takes t := by
  cases t <;> cases scope <;> simp [fits, Scope.Takes]

namespace Request

/-- A request that may be made. -/
structure Acceptable (uuid : String) (scope : Scope) (targets : List Target) : Prop where
  named : Text.trim uuid ≠ ""
  nonempty : targets ≠ []
  taken : ∀ t ∈ targets, scope.Takes t
  labels : ∀ t ∈ targets, Text.trim t.label ≠ ""

/-- The first thing that is wrong with a request. Of the targets, the first one that another scope
should have comes before all that are blank. -/
inductive FirstDefect (uuid : String) (scope : Scope) (targets : List Target) :
    RequestDefect → Prop
  | blankUuid (h : Text.trim uuid = "") : FirstDefect uuid scope targets .blankUuid
  | noTargets (huuid : Text.trim uuid ≠ "") (h : targets = []) :
      FirstDefect uuid scope targets (.noTargets scope)
  | misplaced {before after : List Target} {bad : Target} (huuid : Text.trim uuid ≠ "")
      (h : targets = before ++ bad :: after) (hbefore : ∀ t ∈ before, scope.Takes t)
      (hbad : ¬ scope.Takes bad) : FirstDefect uuid scope targets (.misplaced bad scope)
  | blankTarget {t : Target} (huuid : Text.trim uuid ≠ "") (htaken : ∀ t ∈ targets, scope.Takes t)
      (ht : t ∈ targets) (hblank : Text.trim t.label = "") :
      FirstDefect uuid scope targets (.blankTarget scope)

variable {uuid : String} {scope : Scope} {targets : List Target}

/-! ### The checks in order -/

theorem find?_eq_none_iff :
    (targets.find? fun t => !t.fits scope) = none ↔ ∀ t ∈ targets, scope.Takes t := by
  simp [Target.fits_iff]

theorem any_blank_iff :
    (targets.any fun t => Text.isAllBlank t.label) = true ↔
      ∃ t ∈ targets, Text.trim t.label = "" := by
  simp [Text.trim_eq_empty_iff]

/-- What is left to check once the application is not blank and there are targets. -/
theorem build_of_some (huuid : Text.trim uuid ≠ "") (htargets : targets ≠ []) :
    build uuid scope targets =
      match targets.find? fun t => !t.fits scope with
      | some bad => .error (.request (.misplaced bad scope))
      | none =>
        if targets.any fun t => Text.isAllBlank t.label then
          .error (.request (.blankTarget scope))
        else .ok ⟨uuid, scope, targets⟩ := by
  have hblank : ¬ Text.isAllBlank uuid = true := by rwa [← Text.trim_eq_empty_iff]
  have hempty : ¬ targets.isEmpty = true := by rwa [List.isEmpty_iff]
  rw [build, if_neg hblank]
  exact if_neg hempty

theorem build_of_acceptable (h : Acceptable uuid scope targets) :
    build uuid scope targets = .ok ⟨uuid, scope, targets⟩ := by
  have hlabels : ¬ (targets.any fun t => Text.isAllBlank t.label) = true := by
    rw [any_blank_iff]
    intro ⟨t, ht, hblank⟩
    exact h.labels t ht hblank
  rw [build_of_some h.named h.nonempty, find?_eq_none_iff.2 h.taken]
  exact if_neg hlabels

theorem build_of_firstDefect {d : RequestDefect} (h : FirstDefect uuid scope targets d) :
    build uuid scope targets = .error (.request d) := by
  cases h with
  | blankUuid h => rw [build, if_pos (Text.trim_eq_empty_iff.1 h)]
  | noTargets huuid h =>
    have hblank : ¬ Text.isAllBlank uuid = true := by rwa [← Text.trim_eq_empty_iff]
    rw [build, if_neg hblank, if_pos (List.isEmpty_iff.2 h)]
  | @misplaced before after bad huuid h hbefore hbad =>
    have hfind : (targets.find? fun t => !t.fits scope) = some bad := by
      rw [List.find?_eq_some_iff_append]
      refine ⟨?_, before, after, h, fun t ht => ?_⟩
      · rwa [Bool.not_eq_true', ← Bool.not_eq_true, Target.fits_iff]
      · rw [Target.fits_iff.2 (hbefore t ht)]
        rfl
    rw [build_of_some huuid (by simp [h]), hfind]
  | blankTarget huuid htaken ht hblank =>
    rw [build_of_some huuid (List.ne_nil_of_mem ht), find?_eq_none_iff.2 htaken]
    exact if_pos (any_blank_iff.2 ⟨_, ht, hblank⟩)

/-- Nothing is wrong with a request, or one thing is in the first place. -/
theorem acceptable_or_firstDefect (uuid : String) (scope : Scope) (targets : List Target) :
    Acceptable uuid scope targets ∨ ∃ d, FirstDefect uuid scope targets d := by
  by_cases huuid : Text.trim uuid = ""
  · exact .inr ⟨_, .blankUuid huuid⟩
  by_cases htargets : targets = []
  · exact .inr ⟨_, .noTargets huuid htargets⟩
  cases hfind : targets.find? fun t => !t.fits scope with
  | some bad =>
    obtain ⟨hbad, before, after, hsplit, hbefore⟩ := List.find?_eq_some_iff_append.1 hfind
    refine .inr ⟨_, .misplaced huuid hsplit (fun t ht => ?_) ?_⟩
    · rw [← Target.fits_iff]
      simpa using hbefore t ht
    · rw [← Target.fits_iff]
      simpa using hbad
  | none =>
    have htaken := find?_eq_none_iff.1 hfind
    by_cases hblank : ∃ t ∈ targets, Text.trim t.label = ""
    · obtain ⟨t, ht, hlabel⟩ := hblank
      exact .inr ⟨_, .blankTarget huuid htaken ht hlabel⟩
    · exact .inl ⟨huuid, htargets, htaken, fun t ht hlabel => hblank ⟨t, ht, hlabel⟩⟩

theorem build_eq_ok_iff {r : Request} :
    build uuid scope targets = .ok r ↔
      Acceptable uuid scope targets ∧ r = ⟨uuid, scope, targets⟩ := by
  refine ⟨fun h => ?_, fun ⟨h, hr⟩ => hr ▸ build_of_acceptable h⟩
  rcases acceptable_or_firstDefect uuid scope targets with haccept | ⟨d, hd⟩
  · rw [build_of_acceptable haccept] at h
    exact ⟨haccept, (Except.ok.inj h).symm⟩
  · rw [build_of_firstDefect hd] at h
    cases h

theorem build_eq_error_iff {e : Error} :
    build uuid scope targets = .error e ↔
      ∃ d, FirstDefect uuid scope targets d ∧ e = .request d := by
  refine ⟨fun h => ?_, fun ⟨d, hd, he⟩ => he ▸ build_of_firstDefect hd⟩
  rcases acceptable_or_firstDefect uuid scope targets with haccept | ⟨d, hd⟩
  · rw [build_of_acceptable haccept] at h
    cases h
  · rw [build_of_firstDefect hd] at h
    exact ⟨d, hd, (Except.error.inj h).symm⟩

end Request

/-! ### Messages -/

theorem Scope.key_injective {scope scope' : Scope} (h : scope.key = scope'.key) :
    scope = scope' := by
  have hscope : ofName? scope.key = some scope := ofName?_eq_some_iff.2 (.inl rfl)
  rw [h, ofName?_eq_some_iff.2 (.inl rfl)] at hscope
  exact (Option.some_inj.1 hscope).symm

theorem Target.describe_device (d : Device) :
    (Target.device d).describe =
      "Device(DeviceIdentifier \x7b id: " ++ Text.quoted d.id ++ ", device_type: " ++
        Text.quoted d.type ++ " \x7d)" := rfl

theorem Target.describe_name (s : String) :
    (Target.name s).describe = "Name(" ++ Text.quoted s ++ ")" := rfl

/-- A target that is described with something behind it is told from every other one. -/
theorem Target.describe_append_inj {t t' : Target} {x y : List Char}
    (h : t.describe.toList ++ x = t'.describe.toList ++ y) : t = t' ∧ x = y := by
  cases t with
  | device d =>
    cases t' with
    | device d' =>
      simp only [describe_device, String.toList_append, List.append_assoc] at h
      obtain ⟨hid, hrest⟩ := Text.quoted_append_inj (List.append_cancel_left h)
      obtain ⟨htype, hrest⟩ := Text.quoted_append_inj (List.append_cancel_left hrest)
      have hd : d = d' := congrArg₂ Device.mk hid htype
      exact ⟨congrArg Target.device hd, List.append_cancel_left hrest⟩
    | name s' => exact absurd (congrArg List.head? h) (by simp [describe_device, describe_name])
  | name s =>
    cases t' with
    | device d' => exact absurd (congrArg List.head? h) (by simp [describe_device, describe_name])
    | name s' =>
      simp only [describe_name, String.toList_append, List.append_assoc] at h
      obtain ⟨hname, hrest⟩ := Text.quoted_append_inj (List.append_cancel_left h)
      exact ⟨congrArg Target.name hname, List.append_cancel_left hrest⟩

end Uninstall

namespace RequestDefect

theorem message_noTargets (scope : Uninstall.Scope) :
    (noTargets scope).message = "no " ++ scope.key ++ " selected" := rfl

theorem message_misplaced (t : Uninstall.Target) (scope : Uninstall.Scope) :
    (misplaced t scope).message =
      "target " ++ t.describe ++ " does not belong to the " ++ scope.key ++ " tab" := rfl

theorem message_blankTarget (scope : Uninstall.Scope) :
    (blankTarget scope).message = "empty " ++ scope.key ++ " in target list" := rfl

/-- The character that the message of a defect starts with. -/
def initial : RequestDefect → Char
  | .blankUuid => 'a'
  | .noTargets _ => 'n'
  | .misplaced _ _ => 't'
  | .blankTarget _ => 'e'

theorem head?_message (d : RequestDefect) : d.message.toList.head? = some d.initial := by
  cases d with
  | blankUuid => rfl
  | noTargets scope => simp [message_noTargets, initial]
  | misplaced t scope => simp [message_misplaced, initial]
  | blankTarget scope => simp [message_blankTarget, initial]

/-- **A defect is told by its message**, and the target that it is about with it. -/
theorem message_injective {d d' : RequestDefect} (h : d.message = d'.message) : d = d' := by
  have hchars := congrArg String.toList h
  have hinitial := congrArg List.head? hchars
  rw [head?_message, head?_message, Option.some_inj] at hinitial
  cases d <;> cases d'
  case blankUuid.blankUuid => rfl
  case noTargets.noTargets scope scope' =>
    simp only [message_noTargets, String.toList_append] at hchars
    have hkey := List.append_cancel_left (List.append_cancel_right hchars)
    rw [Uninstall.Scope.key_injective (String.toList_inj.1 hkey)]
  case misplaced.misplaced t scope t' scope' =>
    simp only [message_misplaced, String.toList_append, List.append_assoc] at hchars
    obtain ⟨rfl, hrest⟩ := Uninstall.Target.describe_append_inj (List.append_cancel_left hchars)
    have hkey := List.append_cancel_right (List.append_cancel_left hrest)
    rw [Uninstall.Scope.key_injective (String.toList_inj.1 hkey)]
  case blankTarget.blankTarget scope scope' =>
    simp only [message_blankTarget, String.toList_append] at hchars
    have hkey := List.append_cancel_left (List.append_cancel_right hchars)
    rw [Uninstall.Scope.key_injective (String.toList_inj.1 hkey)]
  all_goals simp [initial] at hinitial

end RequestDefect

theorem Error.message_request (d : RequestDefect) :
    (Error.request d).message = "invalid uninstall request: " ++ d.message := rfl

namespace Uninstall.Request

/-- **A request is made exactly if nothing is wrong with it, and refused for what is wrong first.**
It may be made if the application is not blank, there are targets, all of them are of the kind that
the scope has, and none of them is blank; it is then what it was asked to be. Otherwise it is refused
for its first defect: a blank application, then a missing target, then the first target of the wrong
kind, be there blank ones before it or not, then a blank target. No two defects have the same
message. -/
theorem build_exact (uuid : String) (scope : Scope) (targets : List Target) :
    (∀ r, build uuid scope targets = .ok r ↔
      Acceptable uuid scope targets ∧ r = ⟨uuid, scope, targets⟩) ∧
    (∀ e, build uuid scope targets = .error e ↔
      ∃ d, FirstDefect uuid scope targets d ∧ e = .request d) ∧
    ∀ d d' : RequestDefect, (Error.request d).message = (Error.request d').message ↔ d = d' := by
  refine ⟨fun r => build_eq_ok_iff, fun e => build_eq_error_iff, fun d d' => ⟨fun h => ?_, ?_⟩⟩
  · rw [Error.message_request, Error.message_request] at h
    exact RequestDefect.message_injective (String.append_right_inj _ |>.1 h)
  · intro h
    rw [h]

end Uninstall.Request

end DeviceConsole
