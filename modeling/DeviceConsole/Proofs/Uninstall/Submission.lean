import DeviceConsole.Proofs.Run.Stages
import DeviceConsole.Proofs.Uninstall.Session
import DeviceConsole.Proofs.Uninstall.Validation

/-!
What comes of submitting the active tab of a dialog.

The tab decides what the texts that were entered stand for, so each of them becomes a target of the
kind that the request's scope has, whatever was done to the dialog before. Of the defects of a request
one can then not occur, and the others are said of the texts themselves (`Submittable`). The command
line goes the same way: it opens a dialog, selects the tab of its scope and submits it.
-/
namespace DeviceConsole
namespace Uninstall

/-- What a text that was entered in the tab of a scope stands for. -/
def Scope.target (scope : Scope) (deviceType s : String) : Target :=
  if scope = .device then .device ⟨s, deviceType⟩ else .name s

theorem Scope.takes_target (scope : Scope) (deviceType s : String) :
    scope.Takes (scope.target deviceType s) := by
  cases scope with
  | device => exact ⟨_, rfl⟩
  | user | role | group => exact ⟨_, rfl⟩

theorem Scope.label_target (scope : Scope) (deviceType s : String) :
    (scope.target deviceType s).label = s := by
  cases scope <;> rfl

/-- An application and texts of which a request can be made in any tab. -/
structure Submittable (uuid : String) (texts : List String) : Prop where
  named : Text.trim uuid ≠ ""
  nonempty : texts ≠ []
  labels : ∀ s ∈ texts, Text.trim s ≠ ""

namespace Dialog
open Request

theorem target_eq (d : Dialog) (s : String) : d.target s = d.active.target d.deviceType s := by
  unfold target
  cases d.active <;> rfl

/-- The request for some texts. -/
theorem request_eq (texts : List String) (d : Dialog) :
    d.request texts = build d.uuid d.active (texts.map (d.active.target d.deviceType)) := by
  rw [request, funext d.target_eq]

theorem acceptable_iff {uuid deviceType : String} {scope : Scope} {texts : List String} :
    Acceptable uuid scope (texts.map (scope.target deviceType)) ↔ Submittable uuid texts := by
  refine ⟨fun h => ⟨h.named, fun hnil => h.nonempty (hnil ▸ rfl), fun s hs => ?_⟩,
    fun h => ⟨h.named, fun hnil => h.nonempty (List.map_eq_nil_iff.1 hnil), fun t ht => ?_,
      fun t ht => ?_⟩⟩
  · have hlabel := h.labels _ (List.mem_map_of_mem hs)
    rwa [Scope.label_target] at hlabel
  · obtain ⟨s, -, rfl⟩ := List.mem_map.1 ht
    exact scope.takes_target deviceType s
  · obtain ⟨s, hs, rfl⟩ := List.mem_map.1 ht
    rw [Scope.label_target]
    exact h.labels s hs

theorem request_eq_ok_iff {texts : List String} {d : Dialog} {r : Request} :
    d.request texts = .ok r ↔ Submittable d.uuid texts ∧
      r = ⟨d.uuid, d.active, texts.map (d.active.target d.deviceType)⟩ := by
  rw [request_eq, build_eq_ok_iff, acceptable_iff]

/-- Every text stands for a target that the scope may have. -/
theorem request_ne_misplaced (texts : List String) (d : Dialog) (t : Target) (scope : Scope) :
    d.request texts ≠ .error (.request (.misplaced t scope)) := by
  rw [request_eq]
  intro h
  obtain ⟨defect, hdefect, heq⟩ := build_eq_error_iff.1 h
  injection heq with heq
  rw [← heq] at hdefect
  cases hdefect with
  | misplaced _ hsplit _ hbad =>
    have hmem : t ∈ texts.map (d.active.target d.deviceType) := by simp [hsplit]
    obtain ⟨s, -, rfl⟩ := List.mem_map.1 hmem
    exact hbad (d.active.takes_target d.deviceType s)

end Dialog

end Uninstall

namespace Run
open CommandLine Uninstall

/-- The dialog that a command line opens and submits. -/
def openedDialog (o : UninstallOptions) : Dialog :=
  (Dialog.fresh o.uuid o.deviceType).after [.reveal, .selectTab o.scope.key]

/-- The request that a command line asks for. -/
def askedRequest (o : UninstallOptions) : Request :=
  ⟨o.uuid, o.scope, o.targets.map (o.scope.target o.deviceType)⟩

theorem selectTab_key (scope : Scope) (d : Dialog) :
    d.selectTab scope.key = .ok { d with active := scope } := by
  rw [Dialog.selectTab, Scope.ofName?_eq_some_iff.2 (.inl rfl)]

theorem openedDialog_eq (o : UninstallOptions) :
    openedDialog o =
      { uuid := o.uuid, deviceType := o.deviceType, visible := true, active := o.scope } := by
  rw [openedDialog, Dialog.after_cons, Dialog.after_cons, Dialog.after_nil]
  simp only [Dialog.act, selectTab_key]
  rfl

/-- What is sent for a command line. -/
theorem askedRequest_payload (o : UninstallOptions) :
    (askedRequest o).payload =
      (Json.Value.list (o.targets.map fun s =>
        if o.scope = .device then .object [("id", .text s), ("type", .text o.deviceType)]
        else .text s)).compact := by
  have htarget (s : String) : (o.scope.target o.deviceType s).json =
      if o.scope = .device then .object [("id", .text s), ("type", .text o.deviceType)]
      else .text s := by
    cases o.scope <;> rfl
  simp only [Request.payload, Request.payloadValue, askedRequest, List.map_map, Function.comp_def,
    htarget]

theorem openedDialog_request_iff {o : UninstallOptions} {r : Request} :
    (openedDialog o).request o.targets = .ok r ↔
      Submittable o.uuid o.targets ∧ r = askedRequest o := by
  rw [Dialog.request_eq_ok_iff, openedDialog_eq]
  rfl

theorem prepareUninstall_eq {o : UninstallOptions} {file : Option Opened} {settings : Settings}
    (h : Files.resolveSettings file none = .ok settings) :
    prepareUninstall o file =
      (settings.warnings, (openedDialog o).request o.targets >>= fun r => .ok (r, settings)) := by
  unfold prepareUninstall
  rw [h, openedDialog_eq]
  dsimp only
  rw [selectTab_key]
  rfl

section Steady
variable {σ : Type} {disk : Disk (StateM σ)} {o : UninstallOptions} {s : σ} {settings : Settings}

theorem uninstall_of_submittable (hdisk : disk.IsSteady)
    (hload : Files.resolveSettings (o.settings.map (opened disk s)) none = .ok settings)
    (h : Submittable o.uuid o.targets) :
    ((uninstall disk o).run s).1 =
      { result := .ok (), printed := (askedRequest o).printed settings,
        warnings := settings.warnings } := by
  rw [uninstall_run_of_steady hdisk, prepareUninstall_eq hload,
    openedDialog_request_iff.2 ⟨h, rfl⟩]
  rfl

theorem submittable_of_uninstall (hdisk : disk.IsSteady)
    (hload : Files.resolveSettings (o.settings.map (opened disk s)) none = .ok settings)
    (h : ((uninstall disk o).run s).1.result = .ok ()) : Submittable o.uuid o.targets := by
  rw [uninstall_run_of_steady hdisk, prepareUninstall_eq hload] at h
  cases hrequest : (openedDialog o).request o.targets with
  | error e =>
    rw [hrequest] at h
    cases h
  | ok r => exact (openedDialog_request_iff.1 hrequest).1

/-- **The active tab submits exactly what can be submitted.** After any session, and for any texts: a
request is made if the application is not blank, there are texts and none of them is blank, whatever
the tab; it is for the application and the scope of the tab, and has one target for each text in
their order, a device of the dialog's type in the tab of devices and a name in every other. That a
target belongs to another scope is never found. A command line whose settings can be loaded succeeds
under the same conditions, and then prints where the request for its scope is sent and what is sent. -/
theorem submits_active (hdisk : disk.IsSteady) :
    (∀ (uuid deviceType : String) (as : List Action) (texts : List String),
      let d := (Dialog.fresh uuid deviceType).after as
      (∀ r, d.request texts = .ok r ↔ Submittable uuid texts ∧
        r = ⟨uuid, d.active, texts.map fun s =>
          if d.active = .device then .device ⟨s, deviceType⟩ else .name s⟩) ∧
      ∀ t scope, d.request texts ≠ .error (.request (.misplaced t scope))) ∧
    ∀ (o : UninstallOptions) (s : σ) (settings : Settings),
      Files.resolveSettings (o.settings.map (opened disk s)) none = .ok settings →
      (((uninstall disk o).run s).1.result = .ok () ↔ Submittable o.uuid o.targets) ∧
      (Submittable o.uuid o.targets →
        ((uninstall disk o).run s).1.printed =
          "POST " ++ (askedRequest o).endpoint settings ++ "\n" ++
            (Json.Value.list (o.targets.map fun s =>
              if o.scope = .device then .object [("id", .text s), ("type", .text o.deviceType)]
              else .text s)).compact ++ "\n") := by
  refine ⟨fun uuid deviceType as texts => ⟨fun r => ?_, fun t scope => ?_⟩,
    fun o s settings hload => ⟨⟨submittable_of_uninstall hdisk hload, fun h => ?_⟩, fun h => ?_⟩⟩
  · have hshows := Dialog.shows_after uuid deviceType as
    rw [Dialog.request_eq_ok_iff, hshows.uuid, hshows.deviceType]
    rfl
  · exact Dialog.request_ne_misplaced texts _ t scope
  · rw [uninstall_of_submittable hdisk hload h]
  · rw [uninstall_of_submittable hdisk hload h]
    show (askedRequest o).printed settings = _
    rw [Request.printed, ← askedRequest_payload]

end Steady

/-- A storage with a settings file that names one setting. -/
def ownStore : Storage where
  home := ["work"]
  entries := [(["work"], .folder),
    (["work", "c.json"], .file (Stream.bytesOf "\x7b\"store_context\": \"/store/\"\x7d"))]

/-- One device is given twice, and one looks like a name in quotes. -/
def repeatedDevice : UninstallOptions where
  uuid := "app 1"
  deviceType := "ios"
  settings := some "c.json"
  targets := ["d 1", "\"d\"", "d 1"]

theorem submits_active_repeatedDevice :
    Storage.disk.IsSteady ∧
      Files.resolveSettings (repeatedDevice.settings.map (opened Storage.disk ownStore)) none =
        .ok { storeContext := "/store/" } ∧
      Submittable repeatedDevice.uuid repeatedDevice.targets ∧
      ((uninstall Storage.disk repeatedDevice).run ownStore).1.result = .ok () ∧
      ((uninstall Storage.disk repeatedDevice).run ownStore).1.printed =
        "POST /store/subscription/app 1/devices/uninstall\n" ++
          "[\x7b\"id\":\"d 1\",\"type\":\"ios\"\x7d," ++
          "\x7b\"id\":\"\\\"d\\\"\",\"type\":\"ios\"\x7d," ++
          "\x7b\"id\":\"d 1\",\"type\":\"ios\"\x7d]\n" := by
  have hload : Files.resolveSettings
      (repeatedDevice.settings.map (opened Storage.disk ownStore)) none =
        .ok { storeContext := "/store/" } := by rfl
  have hsubmittable : Submittable repeatedDevice.uuid repeatedDevice.targets :=
    ⟨by decide, by decide, forall_mem_of_all (by decide)⟩
  obtain ⟨hresult, hprinted⟩ :=
    (submits_active Storage.disk_isSteady).2 repeatedDevice ownStore _ hload
  refine ⟨Storage.disk_isSteady, hload, hsubmittable, hresult.2 hsubmittable, ?_⟩
  rw [hprinted hsubmittable]
  decide

end Run

end DeviceConsole
