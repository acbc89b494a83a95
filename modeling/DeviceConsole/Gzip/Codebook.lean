import DeviceConsole.Gzip.Bits

/-!
Canonical prefix codes, given by the length of each symbol's code.

Codes of one length are consecutive in the order of their symbols, and shorter codes come first.
So a code is known from how many codes there are of each length (`counts`), and decoding walks
down the lengths: among the codes of the present length, the first is `first`, and `skipped`
symbols have shorter codes.
-/
namespace DeviceConsole.Gzip

/-- The longest code, in bits. -/
def maxCodeLength : Nat := 15

/-- How many codes have one bit, two bits and so on, and the symbols in the order of their
codes. -/
structure Codebook where
  counts : List Nat
  symbols : Array Nat
deriving DecidableEq, Repr

namespace Codebook

/-- The book of the given lengths, where a zero marks a symbol without a code. The codes must leave
no gap, except that a book of at most one code may if `allowGap`. -/
def ofLengths? (allowGap : Bool) (lengths : List Nat) : Option Codebook :=
  let lengthsOfCodes := (List.range maxCodeLength).map (· + 1)
  let counts := lengthsOfCodes.map fun n => lengths.count n
  let numbered := lengths.zipIdx
  let symbols := lengthsOfCodes.flatMap fun n =>
    (numbered.filter fun s => s.1 == n).map (·.2)
  let leaves := (lengthsOfCodes.zip counts).foldl
    (fun sum (n, count) => sum + count <<< (maxCodeLength - n)) 0
  if leaves = 1 <<< maxCodeLength || (allowGap && symbols.length ≤ 1) then
    some ⟨counts, symbols.toArray⟩
  else none

/-- The symbol of the code at the front, from the counts of the lengths still to come. `code` and
`first` count codes of the present length. -/
def walk (symbols : Array Nat) : (counts : List Nat) → (code first skipped : Nat) → Bits →
    Except Halt (Nat × Bits)
  | [], _, _, _, _ => .error .malformed
  | count :: counts, code, first, skipped, b => do
    let (x, b) ← b.next
    let code := 2 * code + x.toNat
    let first := 2 * first
    if code < first + count then
      match symbols[skipped + (code - first)]? with
      | some symbol => pure (symbol, b)
      | none => .error .malformed
    else walk symbols counts code (first + count) (skipped + count) b

/-- The symbol of the code at the front, and the bits after it. -/
def symbol (book : Codebook) (b : Bits) : Except Halt (Nat × Bits) :=
  walk book.symbols book.counts 0 0 0 b

end Codebook

end DeviceConsole.Gzip
