import DeviceConsole.Proofs.Json.Printing

/-!
Printed values read back.

A value decodes as something if it is read as that however it was laid out (`Decodes`). This is said
and proved of values and not of their bytes: what a record makes of the members of an object is
followed member by member (`Fills`), and a document is read from its printed value
(`document_compact`, `document_indented`).
-/
namespace DeviceConsole.Json
open DeviceConsole.Stream

variable {α σ : Type}

/-- However the value is printed, it is read as `a`. -/
def Decodes (r : Reader α) (v : Value) (a : α) : Prop :=
  ∀ l level, Reads r (v.bytes l level) a

/-! ### Scalars -/

theorem decodes_string (s : String) : Decodes string (.text s) s :=
  fun _ _ => reads_string (quotes_quote s)

theorem decodes_uint32 (n : UInt32) : Decodes uint32 (.natural n.toNat) n :=
  fun _ _ => reads_uint32 n

theorem decodes_uint64 (n : UInt64) : Decodes uint64 (.natural n.toNat) n :=
  fun _ _ => reads_uint64 n

theorem decodes_optional_string (s : String) : Decodes (optional string) (.text s) (some s) := by
  intro l level
  have hread := decodes_string s l level
  have hquote := quotes_quote s
  rw [bytes_text] at hread ⊢
  generalize utf8 (quote s) = bytes at hread hquote ⊢
  obtain ⟨_⟩ := hquote
  exact reads_optional hread ⟨by decide, by decide⟩ (by decide)

theorem decodes_choice {options : List (String × α)} {s : String} {a : α}
    (h : options.find? (fun o => o.1 == s) = some (s, a)) : Decodes (choice options) (.text s) a :=
  fun _ _ => reads_choice (quotes_quote s) h

/-! ### Lists -/

theorem decodes_listOf {r : Reader α} {items : List Value} {as : List α}
    (h : List.Forall₂ (Decodes r) items as) : Decodes (listOf r) (.list items) as := by
  intro l level
  obtain ⟨bytes, hbytes, henclosed⟩ := enclosed_list l level items
  rw [hbytes]
  refine reads_listOf henclosed ?_
  rw [List.forall₂_map_left_iff]
  exact h.imp fun v a hread =>
    readsItem_of_isValue (isValue_bytes l v (level + 1)) (hread l (level + 1))

/-! ### Records -/

/-- What a record makes of the members of an object, one after the other. It skips those that it
does not know. -/
inductive Fills (known : List (Member σ)) :
    List String × σ → List (String × Value) → List String × σ → Prop
  | nil {s : List String × σ} : Fills known s [] s
  | known {seen : List String} {s t : σ} {m : Member σ} {name : String} {v : Value}
      {members : List (String × Value)} {u : List String × σ}
      (hfind : known.find? (fun m => m.name == name) = some m) (hseen : name ∉ seen)
      (h : Decodes (m.read s) v t) (hrest : Fills known (name :: seen, t) members u) :
      Fills known (seen, s) ((name, v) :: members) u
  | unknown {seen : List String} {s : σ} {name : String} {v : Value}
      {members : List (String × Value)} {u : List String × σ}
      (hfind : known.find? (fun m => m.name == name) = none)
      (hrest : Fills known (seen, s) members u) : Fills known (seen, s) ((name, v) :: members) u

theorem Decodes.required {r : Reader α} {v : Value} {a : α} (h : Decodes r v a) {name : String}
    {put : α → σ → σ} {s : σ} : Decodes ((Member.required name r put).read s) v (put a s) :=
  fun l level => (h l level).required

theorem Decodes.defaulted {r : Reader α} {v : Value} {a : α} (h : Decodes r v a) {name : String}
    {put : α → σ → σ} {s : σ} : Decodes ((Member.defaulted name r put).read s) v (put a s) :=
  fun l level => (h l level).defaulted

/-- A member that is left out where there is no text, if the record has none before it either. -/
theorem Fills.optional {known : List (Member σ)} {seen : List String} {s : σ} {name : String}
    {put : Option String → σ → σ} {members : List (String × Value)} {u : List String × σ}
    (text? : Option String)
    (hfind : known.find? (fun m => m.name == name) =
      some (.defaulted name (Json.optional string) put))
    (hseen : name ∉ seen) (hnone : put none s = s)
    (hrest : Fills known ((text?.map fun _ => name).toList ++ seen, put text? s) members u) :
    Fills known (seen, s) ((text?.map fun v => (name, .text v)).toList ++ members) u := by
  cases text? with
  | none =>
    rw [hnone] at hrest
    exact hrest
  | some v => exact .known hfind hseen (decodes_optional_string v).defaulted hrest

theorem Fills.folds {known : List (Member σ)} {s t : List String × σ}
    {members : List (String × Value)} (h : Fills known s members t) (l : Layout) (level : Nat) :
    Folds (Member.step known) s (members.map (memberBytes l level)) t := by
  induction h with
  | nil => exact .nil
  | known hfind hseen h _ ih =>
    exact .cons (quotes_quote _) (reads_known hfind hseen (h l level) (assigns_colon l _)) ih
  | unknown hfind _ ih =>
    exact .cons (quotes_quote _)
      (reads_unknown hfind (isValue_bytes l _ level) (assigns_colon l _)) ih

theorem decodes_record {known : List (Member σ)} {blank s : σ} {seen : List String}
    {members : List (String × Value)} (type : String)
    (h : Fills known ([], blank) members (seen, s))
    (hneeded : ∀ m ∈ known, m.needed = true → m.name ∈ seen) :
    Decodes (record type known blank) (.object members) s := by
  intro l level
  obtain ⟨bytes, hbytes, henclosed⟩ := enclosed_object l level members
  rw [hbytes]
  exact reads_record type henclosed (h.folds l (level + 1)) hneeded

/-- Members of other names are passed over. -/
theorem Fills.unknowns {known : List (Member σ)} {s : List String × σ}
    {members : List (String × Value)}
    (h : ∀ m ∈ members, known.find? (fun k => k.name == m.1) = none) : Fills known s members s := by
  induction members with
  | nil => exact .nil
  | cons m members ih =>
    obtain ⟨hm, hmembers⟩ := List.forall_mem_cons.1 h
    exact .unknown hm (ih hmembers)

/-! ### One member -/

/-- The one member of an object that has this name, whatever other members there are. -/
def member (name : String) (r : Reader α) : Reader (Option α) :=
  record "Member" [.required name r fun a _ => some a] none

theorem valuesOf_cons (name : String) (m : String × Value) (members : List (String × Value)) :
    valuesOf name (m :: members) =
      if m.1 = name then m.2 :: valuesOf name members else valuesOf name members := by
  by_cases h : m.1 = name <;> simp [valuesOf, h]

theorem fills_member {name : String} {r : Reader α} {members : List (String × Value)} {v : Value}
    {a : α} (h : Decodes r v a) (hmember : valuesOf name members = [v]) :
    Fills [.required name r fun a _ => some a] ([], none) members ([name], some a) := by
  have hunknown {m : String × Value} (hm : m.1 ≠ name) :
      [Member.required name r fun a _ => some a].find? (fun k => k.name == m.1) = none := by
    simpa [Member.required] using hm.symm
  induction members with
  | nil => cases hmember
  | cons m members ih =>
    rw [valuesOf_cons] at hmember
    split at hmember
    · next hname =>
      obtain ⟨hv, hnone⟩ := List.cons.inj hmember
      obtain ⟨_, w⟩ := m
      subst hv hname
      refine .known (List.find?_cons_of_pos (beq_self_eq_true _)) List.not_mem_nil h.required
        (.unknowns fun m hm => hunknown fun hname => ?_)
      have hmem : m.2 ∈ valuesOf _ members :=
        List.mem_map_of_mem (List.mem_filter.2 ⟨hm, beq_iff_eq.2 hname⟩)
      rw [hnone] at hmem
      exact List.not_mem_nil hmem
    · next hname => exact .unknown (hunknown hname) (ih hmember)

theorem decodes_member {name : String} {r : Reader α} {members : List (String × Value)} {v : Value}
    {a : α} (h : Decodes r v a) (hmember : valuesOf name members = [v]) :
    Decodes (member name r) (.object members) (some a) :=
  decodes_record "Member" (fills_member h hmember) (by simp [Member.required])

/-! ### Values of any kind -/

theorem decodes_value_text (s : String) (depth : Nat) :
    Decodes (value (depth + 1)) (.text s) (.text s) :=
  fun _ _ => reads_value_text (quotes_quote s) depth

theorem decodes_value_bool (b : Bool) (depth : Nat) :
    Decodes (value (depth + 1)) (.bool b) (.bool b) := by
  intro l level
  rw [bytes_bool]
  exact reads_value_bool b depth

theorem decodes_value_object {depth : Nat} {members : List (String × Value)}
    (h : ∀ m ∈ members, Decodes (value (depth + 1)) m.2 m.2) :
    Decodes (value (depth + 2)) (.object members) (.object members) := by
  intro l level
  obtain ⟨bytes, hbytes, henclosed⟩ := enclosed_object l level members
  have hfolds (before : List (String × Value)) :
      Folds (memberStep (value (depth + 1))) before (members.map (memberBytes l (level + 1)))
        (members.reverse ++ before) := by
    clear henclosed hbytes
    induction members generalizing before with
    | nil => exact .nil
    | cons m members ih =>
      rw [List.reverse_cons, List.append_assoc, List.singleton_append]
      refine .cons (quotes_quote m.1) (reads_memberStep (h m List.mem_cons_self l (level + 1))
        (assigns_colon l _) before) ?_
      exact ih (fun m' hm' => h m' (List.mem_cons_of_mem m hm')) (m :: before)
  have hread := reads_value_object henclosed (hfolds [])
  rw [List.append_nil, List.reverse_reverse] at hread
  rw [hbytes]
  exact hread

/-! ### Documents -/

theorem isValue_indented (v : Value) : IsValue (bytesOf v.indented) := by
  rw [Value.indented, bytesOf_ofList]
  exact isValue_bytes .indented v 0

theorem getLast?_indented_object (members : List (String × Value)) :
    (Value.object members).indented.toList.getLast? = some '\x7d' := by
  cases members with
  | nil => rfl
  | cons m members =>
    rw [Value.indented, String.toList_ofList, Value.chars, ← List.cons_append]
    exact List.getLast?_concat

theorem isValue_compact (v : Value) : IsValue (bytesOf v.compact) := by
  rw [Value.compact, bytesOf_ofList]
  exact isValue_bytes .compact v 0

/-- A document on one line. -/
theorem document_compact {r : Reader α} {v : Value} {a : α} (h : Decodes r v a) :
    document r (.whole (bytesOf v.compact)) = .ok a := by
  have hbytes : bytesOf v.compact = v.bytes .compact 0 ++ [] := by
    rw [List.append_nil, Value.compact, bytesOf_ofList]
    rfl
  rw [hbytes]
  exact document_append (h .compact 0) blanks_nil

/-- An indented document with a line end behind it. -/
theorem document_indented {r : Reader α} {v : Value} {a : α} (h : Decodes r v a) :
    document r (.whole (bytesOf (v.indented ++ "\n"))) = .ok a := by
  have hfeed : Blanks [0x0a] := by simp [Blanks]
  have hbytes : bytesOf (v.indented ++ "\n") = v.bytes .indented 0 ++ [0x0a] := by
    rw [bytesOf_append, Value.indented, bytesOf_ofList]
    rfl
  rw [hbytes]
  exact document_append (h .indented 0) hfeed

end DeviceConsole.Json
