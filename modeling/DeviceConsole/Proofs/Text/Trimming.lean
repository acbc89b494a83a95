import DeviceConsole.Text.Blank
import Mathlib.Data.List.TakeWhile

/-!
What trimming gives.

A text without some characters at its end, or at both, is the one that is left when as many of them
as possible have been taken away: what is taken satisfies the property, and what stands at the end of
the rest does not. That is said of two texts without a word on how to trim (`IsTrimEnd`, `IsTrim`),
and the functions give the one text of which it holds (`dropEnd_eq_iff`, `strip_eq_iff`).
-/
namespace DeviceConsole.Text

variable {p : Char → Bool} {cs ds t : List Char}

/-- Of `cs`, all that satisfies `p` at the end is gone in `t`, and nothing else. -/
structure IsTrimEnd (p : Char → Bool) (cs t : List Char) : Prop where
  dropped : ∃ ds, cs = t ++ ds ∧ ∀ d ∈ ds, p d = true
  last : ∀ c, t.getLast? = some c → p c = false

/-- Of `cs`, all that satisfies `p` at either end is gone in `t`, and nothing else. -/
structure IsTrim (p : Char → Bool) (cs t : List Char) : Prop where
  dropped : ∃ as bs, cs = as ++ t ++ bs ∧ (∀ a ∈ as, p a = true) ∧ ∀ b ∈ bs, p b = true
  first : ∀ c, t.head? = some c → p c = false
  last : ∀ c, t.getLast? = some c → p c = false

/-! ### Trimming the end -/

theorem isTrimEnd_dropEnd (p : Char → Bool) (cs : List Char) : IsTrimEnd p cs (dropEnd p cs) :=
  ⟨exists_dropEnd_append p cs, fun _ => getLast?_dropEnd⟩

/-- Nothing is dropped from a text that is trimmed already. -/
theorem dropEnd_eq_self (h : ∀ c, t.getLast? = some c → p c = false) : dropEnd p t = t := by
  obtain ⟨ds, hds, hall⟩ := exists_dropEnd_append p t
  cases hlast : ds.getLast? with
  | none =>
    rw [List.getLast?_eq_none_iff.1 hlast, List.append_nil] at hds
    exact hds.symm
  | some d =>
    have ht : t.getLast? = some d := by rw [hds, List.getLast?_append, hlast]; rfl
    have hp := hall d (List.mem_of_getLast? hlast)
    rw [h d ht] at hp
    cases hp

theorem dropEnd_eq_iff : dropEnd p cs = t ↔ IsTrimEnd p cs t := by
  constructor
  · rintro rfl
    exact isTrimEnd_dropEnd p cs
  · rintro ⟨⟨ds, rfl, hds⟩, hlast⟩
    rw [dropEnd_append_of_all t hds, dropEnd_eq_self hlast]

theorem dropEnd_eq_nil_iff : dropEnd p cs = [] ↔ ∀ c ∈ cs, p c = true := by
  simp [dropEnd, List.dropWhile_eq_nil_iff]

/-- A character that stays keeps what stands before it. -/
theorem dropEnd_append_cons {c : Char} (hc : p c = false) (cs ds : List Char) :
    dropEnd p (cs ++ c :: ds) = cs ++ c :: dropEnd p ds := by
  obtain ⟨dropped, hds, hall⟩ := exists_dropEnd_append p ds
  refine dropEnd_eq_iff.2 ⟨⟨dropped, ?_, hall⟩, fun d hd => ?_⟩
  · rw [List.append_assoc, List.cons_append, ← hds]
  · rw [List.getLast?_append, List.getLast?_cons] at hd
    cases hlast : (dropEnd p ds).getLast? with
    | none =>
      rw [hlast] at hd
      obtain rfl : c = d := by simpa using hd
      exact hc
    | some e =>
      rw [hlast] at hd
      obtain rfl : e = d := by simpa using hd
      exact getLast?_dropEnd hlast

theorem dropEnd_append_of_last {c : Char} (hlast : t.getLast? = some c) (hc : p c = false)
    (ds : List Char) : dropEnd p (t ++ ds) = t ++ dropEnd p ds := by
  obtain ⟨init, rfl⟩ := List.getLast?_eq_some_iff.1 hlast
  rw [List.append_assoc, List.append_assoc]
  exact dropEnd_append_cons hc init ds

theorem mem_of_mem_dropEnd {c : Char} (h : c ∈ dropEnd p cs) : c ∈ cs := by
  obtain ⟨ds, hds, -⟩ := exists_dropEnd_append p cs
  rw [hds]
  exact List.mem_append_left ds h

/-! ### Trimming both ends -/

theorem head?_of_dropEnd {c : Char} (h : (dropEnd p cs).head? = some c) : cs.head? = some c := by
  obtain ⟨ds, hds, -⟩ := exists_dropEnd_append p cs
  rw [hds, List.head?_append, h]
  rfl

theorem isTrim_strip (p : Char → Bool) (cs : List Char) : IsTrim p cs (strip p cs) := by
  obtain ⟨bs, hbs, hall⟩ := exists_dropEnd_append p (cs.dropWhile p)
  refine ⟨⟨cs.takeWhile p, bs, ?_, fun a ha => ?_, hall⟩, fun c hc => ?_, fun _ => getLast?_dropEnd⟩
  · rw [strip, List.append_assoc, ← hbs, List.takeWhile_append_dropWhile]
  · exact List.all_eq_true.1 List.all_takeWhile a ha
  · have hhead := List.head?_dropWhile_not p cs
    rw [head?_of_dropEnd hc] at hhead
    simpa using hhead

theorem strip_eq_self (hfirst : ∀ c, t.head? = some c → p c = false)
    (hlast : ∀ c, t.getLast? = some c → p c = false) : strip p t = t := by
  have hdrop : t.dropWhile p = t := by
    cases t with
    | nil => rfl
    | cons c t => simp [hfirst c rfl]
  rw [strip, hdrop, dropEnd_eq_self hlast]

theorem strip_append_of_all (as t bs : List Char) (ha : ∀ a ∈ as, p a = true)
    (hb : ∀ b ∈ bs, p b = true) : strip p (as ++ t ++ bs) = strip p t := by
  rw [strip, List.append_assoc, List.dropWhile_append_of_pos ha]
  cases hall : t.all p with
  | true =>
    have ht := List.all_eq_true.1 hall
    have hnil : (t ++ bs).dropWhile p = [] :=
      List.dropWhile_eq_nil_iff.2 fun c hc => (List.mem_append.1 hc).elim (ht c) (hb c)
    rw [hnil, strip, List.dropWhile_eq_nil_iff.2 ht]
  | false =>
    have hne : t.dropWhile p ≠ [] := by
      intro hnil
      rw [List.all_eq_true.2 (List.dropWhile_eq_nil_iff.1 hnil)] at hall
      cases hall
    rw [List.dropWhile_append, if_neg (by simpa using hne), strip, dropEnd_append_of_all _ hb]

theorem strip_eq_iff : strip p cs = t ↔ IsTrim p cs t := by
  constructor
  · rintro rfl
    exact isTrim_strip p cs
  · rintro ⟨⟨as, bs, rfl, ha, hb⟩, hfirst, hlast⟩
    rw [strip_append_of_all as t bs ha hb, strip_eq_self hfirst hlast]

theorem strip_eq_nil_iff : strip p cs = [] ↔ ∀ c ∈ cs, p c = true := by
  rw [strip, dropEnd_eq_nil_iff]
  constructor
  · intro h c hc
    rw [← List.takeWhile_append_dropWhile (p := p) (l := cs)] at hc
    rcases List.mem_append.1 hc with hc | hc
    · exact List.all_eq_true.1 List.all_takeWhile c hc
    · exact h c hc
  · intro h c hc
    exact h c ((List.dropWhile_sublist p).subset hc)

/-- Nothing is left of a text of white space only. -/
theorem trim_eq_empty_iff {s : String} : trim s = "" ↔ isAllBlank s = true := by
  rw [trim, ← String.toList_inj, String.toList_ofList, String.toList_empty, strip_eq_nil_iff,
    isAllBlank, List.all_eq_true]

/-- What is trimmed stays as it is when it is trimmed again. -/
theorem IsTrim.idem (h : IsTrim p cs t) : IsTrim p t t :=
  ⟨⟨[], [], (List.append_nil t).symm, nofun, nofun⟩, h.first, h.last⟩

/-- A text that white space has been trimmed from, if any of it is left. -/
theorem IsTrim.ofList (h : IsTrim isBlank cs t) (hne : t ≠ []) :
    String.ofList t ≠ "" ∧ trim (String.ofList t) = String.ofList t := by
  refine ⟨fun hnil => hne ?_, ?_⟩
  · rw [← String.toList_ofList (l := t), hnil, String.toList_empty]
  · rw [trim, String.toList_ofList, strip_eq_iff.2 h.idem]

/-- A text that trimming does not change. -/
theorem isTrim_of_trim_eq {s : String} (h : trim s = s) : IsTrim isBlank s.toList s.toList := by
  rw [← strip_eq_iff]
  have hchars := congrArg String.toList h
  rwa [trim, String.toList_ofList] at hchars

end DeviceConsole.Text
