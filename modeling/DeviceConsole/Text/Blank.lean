/-!
White space, as the Unicode property `White_Space` has it, and the trimming that rests on it.

Filter values and fields of event lines count without the white space around them, and what is white
space only counts as blank. The property is a closed set of twenty-five code points; the
zero-width space and the byte-order mark are not among them, so they survive trimming.
-/
namespace DeviceConsole.Text

/-- Whether the code point has the property `White_Space`. -/
def isBlank (c : Char) : Bool :=
  let n := c.toNat
  (9 ≤ n && n ≤ 13) || n == 0x20 || n == 0x85 || n == 0xa0 || n == 0x1680 ||
    (0x2000 ≤ n && n ≤ 0x200a) || n == 0x2028 || n == 0x2029 || n == 0x202f || n == 0x205f ||
    n == 0x3000

/-- The characters without the ones at the end that satisfy `p`. -/
def dropEnd (p : Char → Bool) (cs : List Char) : List Char :=
  (cs.reverse.dropWhile p).reverse

/-- The characters without the ones at either end that satisfy `p`. -/
def strip (p : Char → Bool) (cs : List Char) : List Char :=
  dropEnd p (cs.dropWhile p)

/-- A text without the white space at its ends. -/
def trim (s : String) : String :=
  String.ofList (strip isBlank s.toList)

/-- A text without the characters at its end that satisfy `p`. -/
def trimEnd (p : Char → Bool) (s : String) : String :=
  String.ofList (dropEnd p s.toList)

/-- A text of white space only, the empty text included. -/
def isAllBlank (s : String) : Bool :=
  s.toList.all isBlank

/-! ### Laws -/

theorem dropEnd_append_of_all {p : Char → Bool} (cs : List Char) {ds : List Char}
    (h : ∀ d ∈ ds, p d = true) : dropEnd p (cs ++ ds) = dropEnd p cs := by
  simp only [dropEnd, List.reverse_append]
  rw [List.dropWhile_append_of_pos fun d hd => h d (List.mem_reverse.1 hd)]

/-- What is dropped at the end satisfies `p`. -/
theorem exists_dropEnd_append (p : Char → Bool) (cs : List Char) :
    ∃ ds, cs = dropEnd p cs ++ ds ∧ ∀ d ∈ ds, p d = true := by
  refine ⟨(cs.reverse.takeWhile p).reverse, ?_, fun d hd => ?_⟩
  · rw [dropEnd, ← List.reverse_append, List.takeWhile_append_dropWhile, List.reverse_reverse]
  · exact List.all_eq_true.1 List.all_takeWhile d (List.mem_reverse.1 hd)

/-- What is left does not end in a character that satisfies `p`. -/
theorem getLast?_dropEnd {p : Char → Bool} {cs : List Char} {c : Char}
    (h : (dropEnd p cs).getLast? = some c) : p c = false := by
  rw [dropEnd, List.getLast?_reverse] at h
  have hc := List.head?_dropWhile_not p cs.reverse
  rw [h] at hc
  simpa using hc

end DeviceConsole.Text
