import DeviceConsole.Proofs.Uninstall.Printed

/-!
Where a request is sent, and what its application can make of that.

An endpoint is cut at its slashes into five pieces of which one is for the application. But the
application goes into it as it is given, and all that is asked of it is that it is not blank. So the
endpoint has as many more pieces as the application has slashes, and the marks that end a path or a
line stand in it just where they stand in the application: the application keeps to its piece exactly
if it has none of either (`endpoint_inOneSegment_iff`).
-/
namespace DeviceConsole.Uninstall
open DeviceConsole.Filter (Query.base)

/-- The characters that a path cannot hold as they are: the marks of a query and of a fragment, white
space and the control characters. -/
def isReserved (c : Char) : Bool :=
  c == '?' || c == '#' || Text.isBlank c || c.toNat < 0x20 || (0x7f ≤ c.toNat && c.toNat ≤ 0x9f)

namespace Request

/-- The endpoint behind the context. -/
def route (r : Request) : List Char :=
  '/' :: ("subscription".toList ++ '/' ::
    (r.uuid.toList ++ '/' :: (r.scope.subscription.toList ++ '/' :: "uninstall".toList)))

/-- Behind the context the endpoint has five pieces, one of them for the application, and nothing in
it ends the path or the line. -/
def InOneSegment (s : Settings) (r : Request) : Prop :=
  ∃ route piece : List Char,
    (r.endpoint s).toList = (Query.base s.storeContext).toList ++ route ∧
    Text.split '/' route =
      [[], "subscription".toList, piece, r.scope.subscription.toList, "uninstall".toList] ∧
    ∀ c ∈ route, isReserved c = false

variable (s : Settings) (r : Request)

theorem endpoint_toList :
    (r.endpoint s).toList = (Query.base s.storeContext).toList ++ r.route := by
  simp [endpoint, route]

/-- The pieces of the endpoint, those of the application among them. -/
theorem split_route :
    Text.split '/' r.route = [] :: "subscription".toList ::
      (Text.split '/' r.uuid.toList ++ [r.scope.subscription.toList, "uninstall".toList]) := by
  have hsubscription : '/' ∉ "subscription".toList := by decide
  have huninstall : '/' ∉ "uninstall".toList := by decide
  rw [route, ← List.nil_append ('/' :: _), Text.split_append _ List.not_mem_nil,
    Text.split_append _ hsubscription, Text.split_append_cons,
    Text.split_append _ r.scope.slash_not_mem_subscription, Text.split_of_not_mem huninstall]

theorem length_split_route : (Text.split '/' r.route).length = 5 + r.uuid.toList.count '/' := by
  rw [split_route, List.length_cons, List.length_cons, List.length_append, Text.length_split]
  simp only [List.length_cons, List.length_nil]
  omega

variable {s r}

/-- Nothing but the application brings a reserved character. -/
theorem isReserved_of_mem_route {c : Char} (h : c ∈ r.route) :
    c ∈ r.uuid.toList ∨ isReserved c = false := by
  have hslash : isReserved '/' = false := by decide
  have hfixed : ∀ d ∈ "subscription".toList ++ "uninstall".toList, isReserved d = false :=
    forall_mem_of_all (by decide)
  have hscope : ∀ d ∈ r.scope.subscription.toList, isReserved d = false := by
    cases r.scope <;> exact forall_mem_of_all (by decide)
  simp only [route, List.mem_cons, List.mem_append] at h
  rcases h with rfl | h | rfl | h | rfl | h | rfl | h
  · exact .inr hslash
  · exact .inr (hfixed c (List.mem_append_left _ h))
  · exact .inr hslash
  · exact .inl h
  · exact .inr hslash
  · exact .inr (hscope c h)
  · exact .inr hslash
  · exact .inr (hfixed c (List.mem_append_right _ h))

theorem mem_route_of_mem_uuid {c : Char} (h : c ∈ r.uuid.toList) : c ∈ r.route := by
  simp [route, h]

theorem mem_route_iff_of_isReserved {c : Char} (hc : isReserved c = true) :
    c ∈ r.route ↔ c ∈ r.uuid.toList := by
  refine ⟨fun h => ?_, mem_route_of_mem_uuid⟩
  rcases isReserved_of_mem_route h with h | h
  · exact h
  · exact absurd (hc.symm.trans h) (by decide)

theorem inOneSegment_iff :
    InOneSegment s r ↔ ∀ c ∈ r.uuid.toList, c ≠ '/' ∧ isReserved c = false := by
  constructor
  · rintro ⟨route, piece, hendpoint, hpieces, hreserved⟩ c hc
    obtain rfl : r.route = route := by
      rw [endpoint_toList] at hendpoint
      exact List.append_cancel_left hendpoint
    refine ⟨?_, hreserved c (mem_route_of_mem_uuid hc)⟩
    rintro rfl
    have hlength := r.length_split_route
    rw [hpieces] at hlength
    have hcount : 0 < r.uuid.toList.count '/' := List.count_pos_iff.2 hc
    simp only [List.length_cons, List.length_nil] at hlength
    omega
  · intro h
    have hslash : '/' ∉ r.uuid.toList := fun hc => (h '/' hc).1 rfl
    refine ⟨r.route, r.uuid.toList, endpoint_toList s r, ?_, fun c hc => ?_⟩
    · rw [split_route, Text.split_of_not_mem hslash]
      rfl
    · rcases isReserved_of_mem_route hc with hc | hc
      · exact (h c hc).2
      · exact hc

/-- The printed request has two lines, and as many more as the context and the application bring. -/
theorem count_feed_printed :
    (r.printed s).toList.count '\n' =
      (Query.base s.storeContext).toList.count '\n' + r.uuid.toList.count '\n' + 2 := by
  have hpayload : r.payload.toList.count '\n' = 0 := List.count_eq_zero.2 (feed_not_mem_payload r)
  have hscope : r.scope.subscription.toList.count '\n' = 0 := by
    cases r.scope <;> decide
  rw [printed_toList]
  simp [hpayload, hscope]
  omega

/-- **The application keeps to one piece of the endpoint exactly if it lets it.** A request that is
made is sent to the context without the slashes at its end, the name of the subscriptions, the pieces
of the application, the kind of subscription and the name of the action. There are five pieces and as
many more as the application has slashes, and a mark of a query or a fragment, white space or a
control character stands behind the context exactly if the application has it. So all is well for an
application without any of these, and for no other; and each line end of the application is one more
line of what is printed. -/
theorem endpoint_inOneSegment_iff (s : Settings) {uuid : String} {scope : Scope}
    {targets : List Target} {r : Request} (h : build uuid scope targets = .ok r) :
    ((r.endpoint s).toList = (Query.base s.storeContext).toList ++ r.route ∧
      Text.split '/' r.route = [] :: "subscription".toList ::
        (Text.split '/' uuid.toList ++ [scope.subscription.toList, "uninstall".toList]) ∧
      (Text.split '/' r.route).length = 5 + uuid.toList.count '/') ∧
    (∀ c, isReserved c = true → (c ∈ r.route ↔ c ∈ uuid.toList)) ∧
    (InOneSegment s r ↔ ∀ c ∈ uuid.toList, c ≠ '/' ∧ isReserved c = false) ∧
    (r.printed s).toList.count '\n' =
      (Query.base s.storeContext).toList.count '\n' + uuid.toList.count '\n' + 2 := by
  obtain ⟨rfl, -⟩ := build_eq_ok h
  exact ⟨⟨endpoint_toList s _, split_route _, length_split_route _⟩,
    fun c hc => mem_route_iff_of_isReserved hc, inOneSegment_iff, count_feed_printed⟩

/-- An application of the usual kind, at a context with a slash at its end. -/
theorem endpoint_inOneSegment_iff_usual :
    build "9f3c1a2e-5b7d-4e0a-8c61-2d4f6a8b0c13" .role [.name "a/b"] =
        .ok ⟨"9f3c1a2e-5b7d-4e0a-8c61-2d4f6a8b0c13", .role, [.name "a/b"]⟩ ∧
      InOneSegment { storeContext := "/store/" }
        ⟨"9f3c1a2e-5b7d-4e0a-8c61-2d4f6a8b0c13", .role, [.name "a/b"]⟩ := by
  have h : build "9f3c1a2e-5b7d-4e0a-8c61-2d4f6a8b0c13" .role [.name "a/b"] =
      .ok ⟨"9f3c1a2e-5b7d-4e0a-8c61-2d4f6a8b0c13", .role, [.name "a/b"]⟩ := rfl
  exact ⟨h, (endpoint_inOneSegment_iff _ h).2.2.1.2 (forall_mem_of_all (by decide))⟩

/-- An application with slashes, a question mark, a number sign and a line end is accepted, and its
endpoint has seven pieces of which three are its own. -/
theorem not_inOneSegment :
    build "a/../b?c#d e\nPOST f" .user [.name "x"] = .ok ⟨"a/../b?c#d e\nPOST f", .user, [.name "x"]⟩ ∧
      ¬ InOneSegment {} ⟨"a/../b?c#d e\nPOST f", .user, [.name "x"]⟩ := by
  refine ⟨rfl, fun h => ?_⟩
  exact absurd (inOneSegment_iff.1 h '/' (by decide)).1 (by decide)

end Request

end DeviceConsole.Uninstall
