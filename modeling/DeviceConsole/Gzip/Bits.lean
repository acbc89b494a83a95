/-!
Bits of a compressed body.

A body is read bit by bit from the low end of each byte. Numbers have their low bit first; the
bits of a code come as they are needed. Whatever is asked for beyond the last byte finds the body
cut short.
-/
namespace DeviceConsole.Gzip

/-- Why a compressed body cannot be read on. -/
inductive Halt where
  | cutShort
  | malformed
deriving DecidableEq, Repr

/-- The bits of the byte that has been started, low bit first, and the bytes after it. -/
structure Bits where
  started : List Bool
  rest : List UInt8
deriving DecidableEq, Repr

namespace Bits

/-- The bits of a byte, low bit first. -/
def ofByte (b : UInt8) : List Bool :=
  (List.range 8).map b.toNat.testBit

def next (b : Bits) : Except Halt (Bool × Bits) :=
  match b.started, b.rest with
  | x :: started, _ => .ok (x, { b with started := started })
  | [], u :: rest =>
    match ofByte u with
    | x :: started => .ok (x, ⟨started, rest⟩)
    | [] => .error .cutShort
  | [], [] => .error .cutShort

/-- A number of `n` bits. -/
def number : (n : Nat) → Bits → Except Halt (Nat × Bits)
  | 0, b => .ok (0, b)
  | n + 1, b => do
    let (x, b) ← b.next
    let (high, b) ← number n b
    pure (x.toNat + 2 * high, b)

/-- The same bits without those left of the byte that has been started. -/
def alignToByte (b : Bits) : Bits := { b with started := [] }

end Bits

end DeviceConsole.Gzip
