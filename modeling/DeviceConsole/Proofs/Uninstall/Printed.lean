import DeviceConsole.Proofs.Json.Compact
import DeviceConsole.Proofs.Uninstall.Decoding
import DeviceConsole.Proofs.Uninstall.Validation

/-!
The printed request says which request it is.

An application goes into the endpoint as it is given, so it may bring slashes and line ends of its
own, and the printed text can only be taken apart from its end: the payload is one line, so it stands
behind the last line end but one, and the name of the scope holds no slash, so it stands behind the
last slash but one. The payload is read back to the targets (`payload_injective`), and what is left
is the application (`printed_injective`).
-/
namespace DeviceConsole.Uninstall
open Json DeviceConsole.Stream

theorem Scope.subscription_injective {scope scope' : Scope}
    (h : scope.subscription = scope'.subscription) : scope = scope' := by
  cases scope <;> cases scope' <;> first | rfl | exact absurd h (by decide)

theorem Scope.slash_not_mem_subscription (scope : Scope) : '/' ∉ scope.subscription.toList := by
  cases scope <;> decide

/-- The kind of value that a request of the scope has in its payload. -/
def Scope.Carries : Scope → Value → Prop
  | .device, v => ∃ members, v = .object members
  | .user, v | .role, v | .group, v => ∃ s, v = .text s

theorem Target.carries_json {t : Target} {scope : Scope} (h : t.fits scope = true) :
    scope.Carries t.json := by
  cases t with
  | device d =>
    obtain rfl : scope = .device := of_decide_eq_true h
    exact ⟨_, rfl⟩
  | name s =>
    cases scope with
    | device => exact absurd h (by simp [fits])
    | user | role | group => exact ⟨s, rfl⟩

namespace Request

/-! ### The payload -/

theorem payload_readsBack (r : Request) :
    document (listOf (Target.reader (maxDepth - 1))) (.whole (bytesOf r.payload)) =
      .ok r.targets :=
  document_compact (Target.decodes_list r.targets 125)

theorem payload_injective {r r' : Request} (h : r.payload = r'.payload) :
    r.targets = r'.targets := by
  have hread := payload_readsBack r
  rw [h, payload_readsBack r'] at hread
  exact (Except.ok.inj hread).symm

/-- The payload is a list, whose items are the values of the targets. -/
theorem payload_items (r : Request) :
    document (listOf (value (maxDepth - 1))) (.whole (bytesOf r.payload)) =
      .ok (r.targets.map Target.json) := by
  refine document_compact (decodes_listOf ?_)
  rw [List.forall₂_map_left_iff, List.forall₂_map_right_iff, List.forall₂_same]
  exact fun t _ => t.decodes_value 125

theorem feed_not_mem_payload (r : Request) : '\n' ∉ r.payload.toList :=
  fun h => absurd (printing_compact r.payloadValue '\n' h) (by decide)

/-! ### The whole text -/

/-- What the request is printed as, from its end: the payload, the scope and the application. -/
theorem printed_toList (s : Settings) (r : Request) :
    (r.printed s).toList =
      ("POST " ++ Filter.Query.base s.storeContext ++ "/subscription/").toList ++
        (r.uuid.toList ++ '/' :: r.scope.subscription.toList) ++ "/uninstall".toList ++
          '\n' :: r.payload.toList ++ ['\n'] := by
  simp [printed, endpoint]

theorem printed_injective {s : Settings} {r r' : Request} (h : r.printed s = r'.printed s) :
    r = r' := by
  have hchars := congrArg String.toList h
  rw [printed_toList, printed_toList] at hchars
  obtain ⟨hendpoint, hpayload⟩ := append_cons_inj_of_not_mem (feed_not_mem_payload r)
    (feed_not_mem_payload r') (List.append_cancel_right hchars)
  obtain ⟨huuid, hscope⟩ := append_cons_inj_of_not_mem r.scope.slash_not_mem_subscription
    r'.scope.slash_not_mem_subscription
    (List.append_cancel_left (List.append_cancel_right hendpoint))
  obtain ⟨uuid, scope, targets⟩ := r
  obtain ⟨uuid', scope', targets'⟩ := r'
  obtain rfl : uuid = uuid' := String.toList_inj.1 huuid
  obtain rfl : scope = scope' := Scope.subscription_injective (String.toList_inj.1 hscope)
  obtain rfl : targets = targets' := payload_injective (String.toList_inj.1 hpayload)
  rfl

/-! ### Requests that are made -/

theorem build_eq_ok {uuid : String} {scope : Scope} {targets : List Target} {r : Request}
    (h : build uuid scope targets = .ok r) :
    r = ⟨uuid, scope, targets⟩ ∧ ∀ t ∈ targets, t.fits scope = true := by
  obtain ⟨haccept, hr⟩ := build_eq_ok_iff.1 h
  exact ⟨hr, fun t ht => Target.fits_iff.2 (haccept.taken t ht)⟩

/-- **The printed request determines the request.** Two requests that are made and printed alike are
for the same application, the same scope and the same targets in the same order, whatever the
application is called. The payload is one line that holds a well-formed list, and every item of it is
of the one kind that the scope carries. -/
theorem printed_determines (s : Settings) {uuid uuid' : String} {scope scope' : Scope}
    {targets targets' : List Target} {r r' : Request} (h : build uuid scope targets = .ok r)
    (h' : build uuid' scope' targets' = .ok r') :
    (r.printed s = r'.printed s ↔ uuid = uuid' ∧ scope = scope' ∧ targets = targets') ∧
    (r.printed s = "POST " ++ r.endpoint s ++ "\n" ++ r.payload ++ "\n" ∧
      '\n' ∉ r.payload.toList) ∧
    (IsValue (bytesOf r.payload) ∧
      ∃ items, document (listOf (value (maxDepth - 1))) (.whole (bytesOf r.payload)) = .ok items ∧
        items.length = targets.length ∧ ∀ item ∈ items, scope.Carries item) := by
  obtain ⟨rfl, hfits⟩ := build_eq_ok h
  obtain ⟨rfl, -⟩ := build_eq_ok h'
  refine ⟨⟨fun heq => ?_, ?_⟩, ⟨rfl, feed_not_mem_payload _⟩, isValue_compact _, _,
    payload_items _, List.length_map .., ?_⟩
  · obtain ⟨⟩ := printed_injective heq
    exact ⟨rfl, rfl, rfl⟩
  · rintro ⟨rfl, rfl, rfl⟩
    rfl
  · intro item hitem
    obtain ⟨t, ht, rfl⟩ := List.mem_map.1 hitem
    exact Target.carries_json (hfits t ht)

/-- An application whose name looks like the end of an endpoint and a payload, and a scope whose
targets look like devices. -/
theorem printed_determines_slashed :
    build "a/user/uninstall\n[]\n" .role [.name "\x7b\"id\":\"x\"\x7d", .name "y"] =
        .ok ⟨"a/user/uninstall\n[]\n", .role, [.name "\x7b\"id\":\"x\"\x7d", .name "y"]⟩ ∧
      build "a" .user [.name "y"] = .ok ⟨"a", .user, [.name "y"]⟩ ∧
      printed {} ⟨"a/user/uninstall\n[]\n", .role, [.name "\x7b\"id\":\"x\"\x7d", .name "y"]⟩ ≠
        printed {} ⟨"a", .user, [.name "y"]⟩ := by
  have h : build "a/user/uninstall\n[]\n" .role [.name "\x7b\"id\":\"x\"\x7d", .name "y"] =
      .ok ⟨"a/user/uninstall\n[]\n", .role, [.name "\x7b\"id\":\"x\"\x7d", .name "y"]⟩ := rfl
  have h' : build "a" .user [.name "y"] = .ok ⟨"a", .user, [.name "y"]⟩ := rfl
  refine ⟨h, h', fun heq => ?_⟩
  obtain ⟨huuid, -⟩ := (printed_determines {} h h').1.1 heq
  exact absurd huuid (by decide)

end Request

end DeviceConsole.Uninstall
