import DeviceConsole.Event
import Mathlib.Data.List.Basic

/-!
The lines of an events file.

A line is what stands up to and with the next line feed; behind the last one there is one more line
unless nothing is left (`Cut`). All bytes can be cut so, in one way only (`existsUnique_cut`), and
that is how a stream that ends where its bytes end is read (`linesOf_whole`).
-/
namespace DeviceConsole.Event

/-- Bytes cut behind each line feed. -/
inductive Cut : List UInt8 → List (List UInt8) → Prop
  | nothing : Cut [] []
  /-- The last line has no line feed. -/
  | last {line : List UInt8} (hne : line ≠ []) (hfeed : 0x0a ∉ line) : Cut line [line]
  | fed {line rest : List UInt8} {lines : List (List UInt8)} (hfeed : 0x0a ∉ line)
      (hrest : Cut rest lines) : Cut (line ++ 0x0a :: rest) ((line ++ [0x0a]) :: lines)

theorem exists_cut (bytes : List UInt8) : ∃ lines, Cut bytes lines := by
  induction bytes with
  | nil => exact ⟨[], .nothing⟩
  | cons b bytes ih =>
    obtain ⟨lines, hlines⟩ := ih
    by_cases hb : b = 0x0a
    · subst hb
      have hcut : Cut ([] ++ 0x0a :: bytes) (([] ++ [0x0a]) :: lines) :=
        .fed List.not_mem_nil hlines
      exact ⟨_, hcut⟩
    · have hcons {line : List UInt8} (h : 0x0a ∉ line) : 0x0a ∉ b :: line :=
        List.not_mem_cons_of_ne_of_not_mem (Ne.symm hb) h
      cases hlines with
      | nothing => exact ⟨[[b]], .last (List.cons_ne_nil b []) (hcons List.not_mem_nil)⟩
      | last _ hfeed => exact ⟨[b :: bytes], .last (List.cons_ne_nil b bytes) (hcons hfeed)⟩
      | @fed line rest lines hfeed hrest =>
        have hcut : Cut (b :: line ++ 0x0a :: rest) ((b :: line ++ [0x0a]) :: lines) :=
          .fed (hcons hfeed) hrest
        exact ⟨_, hcut⟩

/-! ### Reading them -/

/-- Bytes without a line feed only add to the line that has been begun. -/
theorem cutFrom_append (lines : List (List UInt8)) (begun line rest : List UInt8)
    (h : 0x0a ∉ line) :
    cutFrom lines begun (line ++ rest) = cutFrom lines (line.reverse ++ begun) rest := by
  induction line generalizing begun with
  | nil => rfl
  | cons b line ih =>
    obtain ⟨hb, hline⟩ : ¬ b = 0x0a ∧ 0x0a ∉ line := by simpa [eq_comm] using h
    rw [List.cons_append, cutFrom, if_neg hb, ih (b :: begun) hline, List.reverse_cons,
      List.append_assoc, List.singleton_append]

theorem cutFrom_of_cut {bytes : List UInt8} {lines : List (List UInt8)} (h : Cut bytes lines)
    (before : List (List UInt8)) :
    ∃ fed last, cutFrom before [] bytes = (before.reverse ++ fed, last) ∧
      lines = fed ++ (if last = [] then [] else [last]) := by
  induction h generalizing before with
  | nothing => exact ⟨[], [], by simp [cutFrom], by simp⟩
  | @last line hne hfeed =>
    have hcut := cutFrom_append before [] line [] hfeed
    rw [List.append_nil, List.append_nil] at hcut
    exact ⟨[], line, by simp [hcut, cutFrom], by simp [hne]⟩
  | @fed line rest lines hfeed hrest ih =>
    obtain ⟨fed, last, hcut, rfl⟩ := ih ((line ++ [0x0a]) :: before)
    refine ⟨(line ++ [0x0a]) :: fed, last, ?_, rfl⟩
    rw [cutFrom_append before [] line _ hfeed, List.append_nil, cutFrom, if_pos rfl,
      List.reverse_cons, List.reverse_reverse, hcut, List.reverse_cons, List.append_assoc,
      List.singleton_append]

/-- The lines of a whole stream are those that its bytes are cut into. -/
theorem linesOf_whole {bytes : List UInt8} {lines : List (List UInt8)} (h : Cut bytes lines) :
    linesOf (.whole bytes) = lines.map .ok := by
  obtain ⟨fed, last, hcut, rfl⟩ := cutFrom_of_cut h []
  have hlines : cutLines bytes = (fed, last) := hcut
  rw [linesOf, Stream.whole, hlines]
  cases last <;> simp

theorem existsUnique_cut (bytes : List UInt8) : ∃! lines, Cut bytes lines := by
  obtain ⟨lines, h⟩ := exists_cut bytes
  refine ⟨lines, h, fun lines' h' => ?_⟩
  have hmap := (linesOf_whole h').symm.trans (linesOf_whole h)
  exact List.map_injective_iff.2 (fun _ _ => Except.ok.inj) hmap

/-! ### Faults -/

theorem ok_of_ofLinesFrom {n : Nat} {events out : List Event}
    {lines : List (Except Fault (List UInt8))} (h : ofLinesFrom n events lines = .ok out)
    (fault : Fault) : .error fault ∉ lines := by
  induction lines generalizing n events with
  | nil => exact List.not_mem_nil
  | cons line lines ih =>
    rw [ofLinesFrom] at h
    cases hline : ofLineBytes n line with
    | error e =>
      rw [hline] at h
      cases h
    | ok event =>
      rw [hline] at h
      have hlines : .error fault ∉ lines := by
        cases event with
        | none => exact ih h
        | some event => exact ih h
      refine List.not_mem_cons_of_ne_of_not_mem ?_ hlines
      rintro rfl
      cases hline

/-- A stream whose lines are all read is complete. -/
theorem complete_of_ofStream {s : Stream} {events : List Event} (h : ofStream s = .ok events) :
    s.ending = .complete := by
  obtain ⟨bytes, ending⟩ := s
  cases ending with
  | complete => rfl
  | broken fault => exact absurd (by simp [linesOf]) (ok_of_ofLinesFrom h fault)

end DeviceConsole.Event
