import Mathlib.Data.List.Forall2

/-!
Lists whose entries are looked at one by one, and lists that are joined.
-/
namespace DeviceConsole

variable {α β : Type}

/-- An entry on the right has one on the left that it is related to. -/
theorem exists_of_forall₂ {R : α → β → Prop} {as : List α} {bs : List β} (h : List.Forall₂ R as bs)
    {b : β} (hb : b ∈ bs) : ∃ a ∈ as, R a b := by
  induction h with
  | nil => cases hb
  | @cons a b' as bs hR _ ih =>
    rcases List.mem_cons.1 hb with rfl | hb
    · exact ⟨a, List.mem_cons_self, hR⟩
    · obtain ⟨a', ha', hR'⟩ := ih hb
      exact ⟨a', List.mem_cons_of_mem _ ha', hR'⟩

/-- What holds of every entry of a short list, told by looking at them. The instance that decides a
quantifier over the whole type of the entries would look at all bytes or all characters. -/
theorem forall_mem_of_all {p : α → Prop} [DecidablePred p] {as : List α}
    (h : (as.all fun a => decide (p a)) = true) : ∀ a ∈ as, p a :=
  fun a ha => of_decide_eq_true (List.all_eq_true.1 h a ha)

/-- Two lists that are equal and have the same last `x` in them agree before it and behind it. -/
theorem append_cons_inj_of_not_mem {as bs as' bs' : List α} {x : α} (h : x ∉ bs) (h' : x ∉ bs')
    (heq : as ++ x :: bs = as' ++ x :: bs') : as = as' ∧ bs = bs' := by
  induction as generalizing as' with
  | nil =>
    cases as' with
    | nil => exact ⟨rfl, (List.cons.inj heq).2⟩
    | cons a as' =>
      obtain ⟨-, rfl⟩ := List.cons.inj heq
      exact absurd (List.mem_append_right as' List.mem_cons_self) h
  | cons a as ih =>
    cases as' with
    | nil =>
      obtain ⟨-, rfl⟩ := List.cons.inj heq
      exact absurd (List.mem_append_right as List.mem_cons_self) h'
    | cons a' as' =>
      obtain ⟨rfl, htail⟩ := List.cons.inj heq
      obtain ⟨rfl, rfl⟩ := ih htail
      exact ⟨rfl, rfl⟩

/-- Two lists joined by one that starts with `c` and has no other `c` in it. What is joined is the
same, or a list on the left goes on through the joint of the other. -/
theorem append_cons_append_eq_iff {c : α} {joint a a' b b' : List α} (h : c ∉ joint) :
    a ++ c :: (joint ++ b) = a' ++ c :: (joint ++ b') ↔
      (a = a' ∧ b = b') ∨
      (∃ more, a' = a ++ c :: (joint ++ more) ∧ b = more ++ c :: (joint ++ b')) ∨
      ∃ more, a = a' ++ c :: (joint ++ more) ∧ b' = more ++ c :: (joint ++ b) := by
  have hbeyond {x b b' : List α} (heq : c :: (joint ++ b) = x ++ c :: (joint ++ b')) :
      (x = [] ∧ b = b') ∨
        ∃ more, x = c :: (joint ++ more) ∧ b = more ++ c :: (joint ++ b') := by
    cases x with
    | nil => exact .inl ⟨rfl, List.append_cancel_left (List.cons.inj heq).2⟩
    | cons d x =>
      obtain ⟨rfl, htail⟩ := List.cons.inj heq
      rcases List.append_eq_append_iff.1 htail with ⟨more, rfl, rfl⟩ | ⟨beyond, hjoint, hrest⟩
      · exact .inr ⟨more, rfl, rfl⟩
      · -- What the joint has beyond `x` would start with `c`.
        cases beyond with
        | nil => exact .inr ⟨[], by simpa using hjoint.symm, hrest.symm⟩
        | cons e beyond =>
          obtain ⟨rfl, -⟩ := List.cons.inj hrest
          exact absurd (hjoint ▸ List.mem_append_right x List.mem_cons_self) h
  constructor
  · intro heq
    rcases List.append_eq_append_iff.1 heq with ⟨x, rfl, hx⟩ | ⟨x, rfl, hx⟩
    · rcases hbeyond hx with ⟨rfl, hb⟩ | ⟨more, rfl, hb⟩
      · exact .inl ⟨(List.append_nil a).symm, hb⟩
      · exact .inr (.inl ⟨more, rfl, hb⟩)
    · rcases hbeyond hx with ⟨rfl, hb⟩ | ⟨more, rfl, hb⟩
      · exact .inl ⟨List.append_nil a', hb.symm⟩
      · exact .inr (.inr ⟨more, rfl, hb⟩)
  · rintro (⟨rfl, rfl⟩ | ⟨more, rfl, rfl⟩ | ⟨more, rfl, rfl⟩)
    · rfl
    · simp
    · simp

end DeviceConsole
