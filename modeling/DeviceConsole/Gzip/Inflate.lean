import DeviceConsole.Gzip.Codebook

/-!
The compressed body of a file: blocks of literal bytes and of copies from earlier output.

Decoding always says what was written, also when the body is cut short or malformed, because a
reader further on may be content with less. A copy that reaches back before the first byte finds
zeros there.
-/
namespace DeviceConsole.Gzip

/-- What has been written, and the bits after the body or why there are none. -/
structure Inflated where
  output : Array UInt8
  outcome : Except Halt Bits

/-! ### Lengths and distances -/

/-- For length symbols from 257: the shortest length and the number of extra bits. -/
def lengthTable : List (Nat × Nat) := [
  (3, 0), (4, 0), (5, 0), (6, 0), (7, 0), (8, 0), (9, 0), (10, 0), (11, 1), (13, 1), (15, 1),
  (17, 1), (19, 2), (23, 2), (27, 2), (31, 2), (35, 3), (43, 3), (51, 3), (59, 3), (67, 4),
  (83, 4), (99, 4), (115, 4), (131, 5), (163, 5), (195, 5), (227, 5), (258, 0)]

/-- For distance symbols: the shortest distance and the number of extra bits. -/
def distanceTable : List (Nat × Nat) := [
  (1, 0), (2, 0), (3, 0), (4, 0), (5, 1), (7, 1), (9, 2), (13, 2), (17, 3), (25, 3), (33, 4),
  (49, 4), (65, 5), (97, 5), (129, 6), (193, 6), (257, 7), (385, 7), (513, 8), (769, 8),
  (1025, 9), (1537, 9), (2049, 10), (3073, 10), (4097, 11), (6145, 11), (8193, 12), (12289, 12),
  (16385, 13), (24577, 13)]

/-- A number from a table entry and its extra bits. -/
def extended (table : List (Nat × Nat)) (symbol : Nat) (b : Bits) : Except Halt (Nat × Bits) :=
  match table[symbol]? with
  | none => .error .malformed
  | some (base, extra) => do
    let (more, b) ← b.number extra
    pure (base + more, b)

/-- The output with `length` more bytes, each equal to the one `distance` before it. -/
def copyBack (distance : Nat) : (length : Nat) → Array UInt8 → Array UInt8
  | 0, output => output
  | length + 1, output =>
    let b := if distance ≤ output.size then output.getD (output.size - distance) 0 else 0
    copyBack distance length (output.push b)

/-! ### Blocks -/

/-- The two books of a block. -/
structure Books where
  literals : Codebook
  distances : Codebook

/-- One literal or copy, or the end of the block. -/
inductive Item where
  | literal (b : UInt8)
  | copy (length distance : Nat)
  | done

/-- The symbol that ends a block. -/
def endOfBlock : Nat := 256

/-- The item at the front. -/
def item (books : Books) (b : Bits) : Except Halt (Item × Bits) := do
  let (symbol, b) ← books.literals.symbol b
  if symbol < endOfBlock then pure (.literal symbol.toUInt8, b)
  else if symbol = endOfBlock then pure (.done, b)
  else
    let (length, b) ← extended lengthTable (symbol - 257) b
    let (symbol, b) ← books.distances.symbol b
    let (distance, b) ← extended distanceTable symbol b
    pure (.copy length distance, b)

/-- The items of a block behind its books. Each takes at least one bit, of which there are at most
`fuel`. -/
def itemsOfBlock (books : Books) : (fuel : Nat) → Array UInt8 → Bits → Inflated
  | 0, output, _ => ⟨output, .error .cutShort⟩
  | fuel + 1, output, b =>
    match item books b with
    | .error halt => ⟨output, .error halt⟩
    | .ok (.literal x, b) => itemsOfBlock books fuel (output.push x) b
    | .ok (.copy length distance, b) =>
      itemsOfBlock books fuel (copyBack distance length output) b
    | .ok (.done, b) => ⟨output, .ok b⟩

/-- The bytes of a stored block behind its length. -/
def storedBytes : (length : Nat) → Array UInt8 → List UInt8 → Inflated
  | 0, output, rest => ⟨output, .ok ⟨[], rest⟩⟩
  | _ + 1, output, [] => ⟨output, .error .cutShort⟩
  | length + 1, output, x :: rest => storedBytes length (output.push x) rest

/-- The length of a stored block, which is given twice, the second time inverted. -/
def storedLength (b : Bits) : Except Halt (Nat × Bits) := do
  let (length, b) ← b.alignToByte.number 16
  let (inverted, b) ← b.number 16
  if length + inverted = 0xffff then pure (length, b) else .error .malformed

/-- The books that need not be given. -/
def fixedBooks? : Option Books := do
  let literals ← Codebook.ofLengths? false
    (List.replicate 144 8 ++ List.replicate 112 9 ++ List.replicate 24 7 ++ List.replicate 8 8)
  let distances ← Codebook.ofLengths? false (List.replicate 32 5)
  pure ⟨literals, distances⟩

/-- The order in which the lengths of the length codes are given. -/
def lengthCodeOrder : List Nat :=
  [16, 17, 18, 0, 8, 7, 9, 6, 10, 5, 11, 4, 12, 3, 13, 2, 14, 1, 15]

/-- `count` numbers of three bits. -/
def threeBitNumbers : (count : Nat) → Bits → Except Halt (List Nat × Bits)
  | 0, b => .ok ([], b)
  | count + 1, b => do
    let (n, b) ← b.number 3
    let (ns, b) ← threeBitNumbers count b
    pure (n :: ns, b)

/-- `count` code lengths, the last first, behind those in `lengths`. A length may be given as a
repetition, which must not go beyond the count. -/
def codeLengths (book : Codebook) (count : Nat) : (fuel : Nat) → (lengths : List Nat) → Bits →
    Except Halt (List Nat × Bits)
  | 0, _, _ => .error .cutShort
  | fuel + 1, lengths, b => do
    if lengths.length = count then pure (lengths, b)
    else if lengths.length > count then .error .malformed
    else
      let (symbol, b) ← book.symbol b
      if symbol < 16 then codeLengths book count fuel (symbol :: lengths) b
      else if symbol = 16 then
        match lengths with
        | [] => .error .malformed
        | last :: _ =>
          let (more, b) ← b.number 2
          codeLengths book count fuel (List.replicate (3 + more) last ++ lengths) b
      else if symbol = 17 then
        let (more, b) ← b.number 3
        codeLengths book count fuel (List.replicate (3 + more) 0 ++ lengths) b
      else
        let (more, b) ← b.number 7
        codeLengths book count fuel (List.replicate (11 + more) 0 ++ lengths) b

def orMalformed (a : Option α) : Except Halt α :=
  match a with
  | some a => .ok a
  | none => .error .malformed

/-- The books given at the front of a block. -/
def givenBooks (b : Bits) : Except Halt (Books × Bits) := do
  let (literalCount, b) ← b.number 5
  let (distanceCount, b) ← b.number 5
  let (lengthCount, b) ← b.number 4
  let literalCount := literalCount + 257
  let distanceCount := distanceCount + 1
  if literalCount > 286 || distanceCount > 30 then .error .malformed
  let (given, b) ← threeBitNumbers (lengthCount + 4) b
  let named := lengthCodeOrder.zip given
  let lengths := (List.range 19).map fun symbol =>
    ((named.find? fun n => n.1 == symbol).map (·.2)).getD 0
  let book ← orMalformed (Codebook.ofLengths? false lengths)
  let count := literalCount + distanceCount
  let (reversed, b) ← codeLengths book count (count + 1) [] b
  let lengths := reversed.reverse
  let literals ← orMalformed (Codebook.ofLengths? true (lengths.take literalCount))
  let distances ← orMalformed (Codebook.ofLengths? true (lengths.drop literalCount))
  pure (⟨literals, distances⟩, b)

/-- A block behind the bit that says whether it is the last. -/
def block (fuel : Nat) (output : Array UInt8) (b : Bits) : Inflated :=
  match b.number 2 with
  | .error halt => ⟨output, .error halt⟩
  | .ok (0, b) =>
    match storedLength b with
    | .error halt => ⟨output, .error halt⟩
    | .ok (length, b) => storedBytes length output b.rest
  | .ok (1, b) =>
    match fixedBooks? with
    | none => ⟨output, .error .malformed⟩
    | some books => itemsOfBlock books fuel output b
  | .ok (2, b) =>
    match givenBooks b with
    | .error halt => ⟨output, .error halt⟩
    | .ok (books, b) => itemsOfBlock books fuel output b
  | .ok _ => ⟨output, .error .malformed⟩

/-- Blocks up to the last one. Each takes at least three bits, of which there are at most `fuel`
in all; `bits` bounds the items of one block. -/
def blocks (bits : Nat) : (fuel : Nat) → Array UInt8 → Bits → Inflated
  | 0, output, _ => ⟨output, .error .cutShort⟩
  | fuel + 1, output, b =>
    match b.next with
    | .error halt => ⟨output, .error halt⟩
    | .ok (last, b) =>
      match block bits output b with
      | ⟨output, .ok b⟩ => if last then ⟨output, .ok b⟩ else blocks bits fuel output b
      | halted => halted

/-- A compressed body. -/
def inflate (body : List UInt8) : Inflated :=
  let bits := 8 * body.length + 1
  blocks bits bits #[] ⟨[], body⟩

end DeviceConsole.Gzip
