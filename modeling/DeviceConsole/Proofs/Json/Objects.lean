import DeviceConsole.Proofs.Json.Settling
import Mathlib.Data.List.Duplicate

/-!
Records read from objects, whatever the objects hold.

An object is taken as the names of its members, in the order in which they stand, with the bytes of
their values (`IsObject`). A record whose readers settle every value cannot pass over a member that
it knows, so it comes to know of every such member that it has been there. The second one of a name
is then refused, if nothing before it was (`stops_of_repeated`).
-/
namespace DeviceConsole.Json
open DeviceConsole.Stream

variable {α σ : Type} {known : List (Member σ)} {members : List (String × List UInt8)}
  {entries : List (List UInt8)} {seen : List String} {s : σ}

/-! ### Objects -/

/-- A member with its name and a well-formed value. -/
inductive Enters : String × List UInt8 → List UInt8 → Prop
  | mk {name value assigned : List UInt8} {n : String} (hname : Quotes name n)
      (h : Assigns value assigned) (hvalue : IsValue value) : Enters (n, value) (name ++ assigned)

/-- An object with these members, and blanks around it. -/
inductive IsObject (members : List (String × List UInt8)) : List UInt8 → Prop
  | mk {entries : List (List UInt8)} {before bytes after : List UInt8} (hbefore : Blanks before)
      (h : Enclosed 0x7d entries bytes) (hentries : List.Forall₂ Enters members entries)
      (hafter : Blanks after) : IsObject members (before ++ (0x7b :: bytes ++ after))

/-- An object on one line is the object of its members. -/
theorem isObject_compact (members : List (String × Value)) :
    IsObject (members.map fun m => (m.1, m.2.bytes .compact 1))
      (bytesOf (Value.object members).compact) := by
  obtain ⟨bytes, hbytes, henclosed⟩ := enclosed_object .compact 0 members
  have hentries : List.Forall₂ Enters (members.map fun m => (m.1, m.2.bytes .compact 1))
      (members.map (memberBytes .compact 1)) := by
    rw [List.forall₂_map_left_iff, List.forall₂_map_right_iff, List.forall₂_same]
    intro m _
    exact .mk (quotes_quote m.1) (assigns_colon .compact _) (isValue_bytes .compact m.2 1)
  have hobject := IsObject.mk blanks_nil henclosed hentries blanks_nil
  rw [List.nil_append, List.append_nil, ← hbytes] at hobject
  rw [Value.compact, bytesOf_ofList]
  exact hobject

/-! ### Members -/

theorem Settles.defaulted {r : Reader α} {value : List UInt8} (h : Settles r value) {name : String}
    {put : α → σ → σ} : Settles ((Member.defaulted name r put).read s) value :=
  h.map fun a => put a s

/-- A member that the record knows and has had before. -/
theorem refuses_repeated {m : Member σ} {n : String}
    (hfind : known.find? (fun m => m.name == n) = some m) (hseen : n ∈ seen)
    (assigned : List UInt8) : Refuses (Member.step known (seen, s) n) assigned := by
  intro blanks rest place _ _
  have hcontains : seen.contains n = true := by simpa using hseen
  simp only [Member.step, hfind, if_pos hcontains]
  exact ⟨_, rfl⟩

/-- **A member given twice stops a record**, whatever values stand in the object. If a value before
the second one is of the wrong kind, the record has stopped there. -/
theorem stops_of_repeated
    (hknown : ∀ m ∈ known, ∀ s value, IsValue value → Settles (m.read s) value)
    (hentries : List.Forall₂ Enters members entries) {name : String}
    (hname : (known.find? fun m => m.name == name).isSome)
    (h : (name ∈ seen ∧ name ∈ members.map Prod.fst) ∨
      List.Duplicate name (members.map Prod.fst)) :
    Stops (Member.step known) (seen, s) entries := by
  induction hentries generalizing seen s with
  | nil => simp at h
  | @cons m entry members entries hentry _ ih =>
    obtain @⟨name', value, assigned, n, hquotes, hassigns, hvalue⟩ := hentry
    rw [List.map_cons, List.mem_cons, List.duplicate_cons_iff] at h
    cases hfind : known.find? fun m => m.name == n with
    | none =>
      have hne : name ≠ n := by
        rintro rfl
        rw [hfind] at hname
        cases hname
      have htail : (name ∈ seen ∧ name ∈ members.map Prod.fst) ∨
          List.Duplicate name (members.map Prod.fst) := by
        rcases h with ⟨hseen, heq | hin⟩ | ⟨heq, -⟩ | htwice
        · exact absurd heq hne
        · exact .inl ⟨hseen, hin⟩
        · exact absurd heq.symm hne
        · exact .inr htwice
      exact .later hquotes (reads_unknown hfind hvalue hassigns) (ih htail)
    | some m =>
      by_cases hseen : n ∈ seen
      · exact .here hquotes (refuses_repeated hfind hseen assigned)
      · rcases hknown m (List.mem_of_find?_eq_some hfind) s value hvalue with ⟨t, hread⟩ | hrefuses
        · have htail : (name ∈ n :: seen ∧ name ∈ members.map Prod.fst) ∨
              List.Duplicate name (members.map Prod.fst) := by
            rcases h with ⟨hin, rfl | htail⟩ | ⟨rfl, htail⟩ | htwice
            · exact absurd hin hseen
            · exact .inl ⟨List.mem_cons_of_mem n hin, htail⟩
            · exact .inl ⟨List.mem_cons_self, htail⟩
            · exact .inr htwice
          exact .later hquotes (reads_known hfind hseen hread hassigns) (ih htail)
        · exact .here hquotes (refuses_known hfind hseen hrefuses hassigns)

/-! ### Documents -/

variable {bytes : List UInt8}

/-- An object in which no member stops the record. -/
theorem document_of_folds (type : String) {blank : σ} (h : IsObject members bytes)
    (hfolds : ∀ entries, List.Forall₂ Enters members entries →
      ∃ seen, Folds (Member.step known) ([], blank) entries (seen, s))
    (hneeded : ∀ m ∈ known, m.needed = false) :
    document (record type known blank) (.whole bytes) = .ok s := by
  obtain ⟨hbefore, henclosed, hentries, hafter⟩ := h
  obtain ⟨seen, hfolds⟩ := hfolds _ hentries
  have hread := reads_record type henclosed hfolds fun m hm hneed => by
    rw [hneeded m hm] at hneed
    cases hneed
  exact document_surrounded hread hbefore hafter

/-- An object that gives a member twice is no document of the record. -/
theorem document_of_repeated (type : String) (blank : σ)
    (hknown : ∀ m ∈ known, ∀ s value, IsValue value → Settles (m.read s) value)
    (h : IsObject members bytes) {name : String}
    (hname : (known.find? fun m => m.name == name).isSome)
    (htwice : List.Duplicate name (members.map Prod.fst)) :
    ∃ failure, document (record type known blank) (.whole bytes) = .error failure := by
  obtain ⟨hbefore, henclosed, hentries, hafter⟩ := h
  exact document_refused
    (refuses_record type henclosed (stops_of_repeated hknown hentries hname (.inr htwice)))
    hbefore hafter

end DeviceConsole.Json
