import DeviceConsole.Uninstall.Dialog

/-!
What happens to an uninstall dialog over time.

A session is a list of actions in order. Selecting a tab that does not exist and asking for the
request leave the dialog as it was, so every session leads somewhere (`after`). Closing the dialog
makes it forget, so what it shows depends only on the actions since it was last closed
(`sinceClose`).
-/
namespace DeviceConsole.Uninstall

inductive Action where
  | reveal
  | close
  | setLoading (loading : Bool)
  | selectTab (key : String)
  | request (targets : List String)
deriving DecidableEq, Repr

namespace Action

/-- The actions behind the last one that closes the dialog, all of them if none does. -/
def sinceClose (actions : List Action) : List Action :=
  (actions.reverse.takeWhile (· ≠ .close)).reverse

/-- What an action sets the mark of a running request to. -/
def loading? : Action → Option Bool
  | .setLoading loading => some loading
  | _ => none

/-- The scope whose tab an action selects. -/
def scope? : Action → Option Scope
  | .selectTab key => Scope.ofName? key
  | _ => none

end Action

namespace Dialog

/-- The dialog after an action. -/
def act : Action → Dialog → Dialog
  | .reveal, d => d.reveal
  | .close, d => d.close
  | .setLoading loading, d => d.setLoading loading
  | .selectTab key, d =>
    match d.selectTab key with
    | .ok selected => selected
    | .error _ => d
  | .request _, d => d

/-- The dialog after a session. -/
def after (actions : List Action) (d : Dialog) : Dialog :=
  actions.foldl (fun d a => d.act a) d

theorem after_nil (d : Dialog) : d.after [] = d := rfl

theorem after_cons (a : Action) (as : List Action) (d : Dialog) :
    d.after (a :: as) = (d.act a).after as := rfl

theorem after_append (as bs : List Action) (d : Dialog) :
    d.after (as ++ bs) = (d.after as).after bs := by
  simp [after]

end Dialog

end DeviceConsole.Uninstall
