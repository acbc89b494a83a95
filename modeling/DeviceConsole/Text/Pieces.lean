/-!
Texts cut at a separator.

A text can be cut in two at the first separator (`cut?`) or into all the pieces between separators
(`split`). Pieces that hold no separator, joined by separators, are cut apart again
(`split_intercalate`), so nothing else is lost or moved.
-/
namespace DeviceConsole.Text

/-- The part before the first `sep` and the part after it, if there is a `sep`. -/
def cut? (sep : Char) : List Char → Option (List Char × List Char)
  | [] => none
  | c :: cs =>
    if c = sep then some ([], cs)
    else (cut? sep cs).map fun (before, after) => (c :: before, after)

/-- The pieces between separators, of which there is one more than there are separators. -/
def split (sep : Char) : List Char → List (List Char)
  | [] => [[]]
  | c :: cs =>
    if c = sep then [] :: split sep cs
    else match split sep cs with
      | [] => [[c]]
      | piece :: pieces => (c :: piece) :: pieces

/-! ### Laws -/

theorem cut?_append {sep : Char} {a : List Char} (b : List Char) (h : sep ∉ a) :
    cut? sep (a ++ sep :: b) = some (a, b) := by
  induction a with
  | nil => simp [cut?]
  | cons c a ih =>
    obtain ⟨hc, ha⟩ : ¬ c = sep ∧ sep ∉ a := by simpa [eq_comm] using h
    simp [cut?, hc, ih ha]

theorem cut?_of_not_mem {sep : Char} {cs : List Char} (h : sep ∉ cs) : cut? sep cs = none := by
  induction cs with
  | nil => rfl
  | cons c cs ih =>
    obtain ⟨hc, hcs⟩ : ¬ c = sep ∧ sep ∉ cs := by simpa [eq_comm] using h
    simp [cut?, hc, ih hcs]

/-- A cut is at the first separator. -/
theorem cut?_eq_some_iff {sep : Char} {cs a b : List Char} :
    cut? sep cs = some (a, b) ↔ cs = a ++ sep :: b ∧ sep ∉ a := by
  refine ⟨fun h => ?_, fun ⟨hcs, ha⟩ => hcs ▸ cut?_append b ha⟩
  induction cs generalizing a b with
  | nil => simp [cut?] at h
  | cons c cs ih =>
    by_cases hc : c = sep
    · obtain ⟨rfl, rfl⟩ : a = [] ∧ b = cs := by simpa [cut?, hc, eq_comm] using h
      simp [hc]
    · cases hcut : cut? sep cs with
      | none => simp [cut?, hc, hcut] at h
      | some p =>
        obtain ⟨before, after⟩ := p
        obtain ⟨rfl, rfl⟩ : c :: before = a ∧ after = b := by simpa [cut?, hc, hcut] using h
        obtain ⟨hcs, hb⟩ := ih hcut
        exact ⟨by simp [hcs], by simpa [eq_comm (a := sep), hc] using hb⟩

theorem split_of_not_mem {sep : Char} {cs : List Char} (h : sep ∉ cs) : split sep cs = [cs] := by
  induction cs with
  | nil => rfl
  | cons c cs ih =>
    obtain ⟨hc, hcs⟩ : ¬ c = sep ∧ sep ∉ cs := by simpa [eq_comm] using h
    simp [split, hc, ih hcs]

theorem split_ne_nil (sep : Char) (cs : List Char) : split sep cs ≠ [] := by
  cases cs with
  | nil => simp [split]
  | cons c cs =>
    by_cases hc : c = sep
    · simp [split, hc]
    · cases hs : split sep cs <;> simp [split, hc, hs]

/-- There is one piece more than there are separators. -/
theorem length_split (sep : Char) (cs : List Char) :
    (split sep cs).length = cs.count sep + 1 := by
  induction cs with
  | nil => rfl
  | cons c cs ih =>
    by_cases hc : c = sep
    · simp [split, hc, ih]
    · cases hs : split sep cs with
      | nil => exact absurd hs (split_ne_nil sep cs)
      | cons piece pieces =>
        rw [hs] at ih
        simpa [split, hc, hs] using ih

/-- A cut at any separator leaves the pieces before it and those after it. -/
theorem split_append_cons (sep : Char) (a b : List Char) :
    split sep (a ++ sep :: b) = split sep a ++ split sep b := by
  induction a with
  | nil => simp [split]
  | cons c a ih =>
    by_cases hc : c = sep
    · simp [split, hc, ih]
    · cases hs : split sep a with
      | nil => exact absurd hs (split_ne_nil sep a)
      | cons piece pieces => simp [split, hc, ih, hs]

theorem split_append {sep : Char} {a : List Char} (b : List Char) (h : sep ∉ a) :
    split sep (a ++ sep :: b) = a :: split sep b := by
  rw [split_append_cons, split_of_not_mem h, List.singleton_append]

/-- Pieces without a separator, joined by separators, are cut apart again. -/
theorem split_intercalate {sep : Char} {pieces : List (List Char)}
    (h : ∀ piece ∈ pieces, sep ∉ piece) (hne : pieces ≠ []) :
    split sep ([sep].intercalate pieces) = pieces := by
  induction pieces with
  | nil => exact absurd rfl hne
  | cons piece pieces ih =>
    have hp := h piece (List.mem_cons_self ..)
    cases pieces with
    | nil => simpa using split_of_not_mem hp
    | cons next pieces =>
      have hrest := ih (fun p hm => h p (List.mem_cons_of_mem _ hm)) (by simp)
      simp only [List.intercalate_cons_cons, List.append_assoc, List.singleton_append]
      rw [split_append _ hp, hrest]

end DeviceConsole.Text
