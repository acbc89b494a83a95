import DeviceConsole.Gzip.Member
import Mathlib.Algebra.GroupWithZero.Nat

/-!
What a compressed file is, told without decoding one.

`IsMember bytes content` says that the bytes are one whole member that holds the content: a header, a
compressed body and the trailer that belongs to the content. Each relation below it pairs what is
said with all the bits that say it, so that nothing here reads, looks ahead or stops early, and no
function of the decoder is used but the checksum.

Three things are left open that other readers may refuse: a copy may reach back before the first
byte, where it finds zeros; the bits that fill a byte before the length of a stored block may be any;
and so may be those behind the last block. Texts of a header are bounded (`maxFieldLength`).
-/
namespace DeviceConsole.Gzip

/-! ### Bits and numbers -/

/-- Bytes as bits, the lowest bit of each byte first. -/
def bitsOf (bytes : List UInt8) : List Bool := bytes.flatMap Bits.ofByte

/-- The number that bits say, the lowest first. -/
def lowFirst : List Bool → Nat
  | [] => 0
  | x :: bits => x.toNat + 2 * lowFirst bits

/-- The number that bits say, the highest first. -/
def highFirst (bits : List Bool) : Nat := bits.foldl (fun n x => 2 * n + x.toNat) 0

/-- A number in a field of `width` bits. -/
structure IsField (width n : Nat) (bits : List Bool) : Prop where
  length : bits.length = width
  value : lowFirst bits = n

/-- Numbers in fields of one width. -/
inductive Fields (width : Nat) : List Nat → List Bool → Prop
  | nil : Fields width [] []
  | cons {n : Nat} {ns : List Nat} {field rest : List Bool} :
      IsField width n field → Fields width ns rest → Fields width (n :: ns) (field ++ rest)

/-! ### Codes

The lengths of all codes determine the codes, where a zero marks a symbol that has none: codes of
one length are consecutive in the order of their symbols, and begin where the shorter ones end. -/

/-- How many codes have `n` bits. -/
def codesOf (lengths : List Nat) (n : Nat) : Nat := if n = 0 then 0 else lengths.count n

/-- The first code of `n` bits. -/
def firstCode (lengths : List Nat) : Nat → Nat
  | 0 => 0
  | n + 1 => 2 * (firstCode lengths n + codesOf lengths n)

/-- The code of a symbol. -/
structure IsCode (lengths : List Nat) (symbol : Nat) (bits : List Bool) : Prop where
  nonempty : bits ≠ []
  length : lengths[symbol]? = some bits.length
  value : highFirst bits =
    firstCode lengths bits.length + (lengths.take symbol).count bits.length

/-- How many texts of the greatest length start with a code of `n` bits. -/
def room (n : Nat) : Nat := if n = 0 then 0 else 2 ^ (maxCodeLength - n)

/-- Lengths whose codes leave no gap. With `allowGap` there may be one code alone, or none. -/
def IsBook (allowGap : Bool) (lengths : List Nat) : Prop :=
  (lengths.map room).sum = 2 ^ maxCodeLength ∨ allowGap ∧ lengths.countP (0 < ·) ≤ 1

/-! ### Items -/

/-- The least length of a copy for each symbol behind the end of the block, and how many bits behind
the code say how much longer it is. Four symbols each share a number of bits. -/
def lengthRange? (symbol : Nat) : Option (Nat × Nat) :=
  if symbol < 8 then some (3 + symbol, 0)
  else if symbol < 28 then
    some (3 + (4 + symbol % 4) * 2 ^ (symbol / 4 - 1), symbol / 4 - 1)
  else if symbol = 28 then some (258, 0)
  else none

/-- The least distance for each symbol, and how many bits behind the code say how much longer it is.
Two symbols each share a number of bits. -/
def distanceRange? (symbol : Nat) : Option (Nat × Nat) :=
  if symbol < 2 then some (1 + symbol, 0)
  else if symbol < 30 then
    some (1 + (2 + symbol % 2) * 2 ^ (symbol / 2 - 1), symbol / 2 - 1)
  else none

/-- A number given by a symbol, counted from `start`, and by how much it exceeds the least number of
that symbol. -/
inductive IsRanged (range? : Nat → Option (Nat × Nat)) (lengths : List Nat) (start : Nat) :
    Nat → List Bool → Prop
  | mk {symbol least extra more : Nat} {code field : List Bool} :
      IsCode lengths (start + symbol) code → range? symbol = some (least, extra) →
      IsField extra more field → IsRanged range? lengths start (least + more) (code ++ field)

/-- Some more bytes, each equal to the one `distance` before it. Zeros stand before the first. -/
structure Copied (length distance : Nat) (before after : List UInt8) : Prop where
  kept : before <+: after
  grown : after.length = before.length + length
  copies : ∀ i, before.length ≤ i → i < after.length →
    after[i]? = some (if distance ≤ i then after.getD (i - distance) 0 else 0)

/-- The items of a block, up to the one that ends it, and what they append to the output. Literals,
lengths and the end of the block share one code, distances have another. -/
inductive Items (literals distances : List Nat) : List Bool → List UInt8 → List UInt8 → Prop
  | literal {b : UInt8} {code rest : List Bool} {before after : List UInt8} :
      IsCode literals b.toNat code → Items literals distances rest (before ++ [b]) after →
      Items literals distances (code ++ rest) before after
  | copy {length distance : Nat} {front back rest : List Bool} {before middle after : List UInt8} :
      IsRanged lengthRange? literals (endOfBlock + 1) length front →
      IsRanged distanceRange? distances 0 distance back → Copied length distance before middle →
      Items literals distances rest middle after →
      Items literals distances (front ++ back ++ rest) before after
  | done {code : List Bool} {output : List UInt8} :
      IsCode literals endOfBlock code → Items literals distances code output output

/-! ### Given lengths -/

/-- What a symbol says about the next code lengths behind those in `before`, and the bits behind its
code. -/
inductive IsRun (before : List Nat) : Nat → List Nat → List Bool → Prop
  | length {n : Nat} : n < 16 → IsRun before n [n] []
  | again {last more : Nat} {field : List Bool} : before.getLast? = some last →
      IsField 2 more field → IsRun before 16 (List.replicate (3 + more) last) field
  | zeros {more : Nat} {field : List Bool} :
      IsField 3 more field → IsRun before 17 (List.replicate (3 + more) 0) field
  | manyZeros {more : Nat} {field : List Bool} :
      IsField 7 more field → IsRun before 18 (List.replicate (11 + more) 0) field

/-- Code lengths written in runs, in a code of the given lengths. -/
inductive Runs (lengths : List Nat) : List Bool → List Nat → List Nat → Prop
  | nil {before : List Nat} : Runs lengths [] before before
  | cons {symbol : Nat} {more before after : List Nat} {code field rest : List Bool} :
      IsCode lengths symbol code → IsRun before symbol more field →
      Runs lengths rest (before ++ more) after →
      Runs lengths (code ++ field ++ rest) before after

/-- The lengths of the nineteen codes for runs, which are given in an order of their own and may be
left out from the end. -/
def ordered (given : List Nat) : List Nat :=
  (List.range lengthCodeOrder.length).map fun symbol =>
    given.getD (lengthCodeOrder.idxOf symbol) 0

/-- The lengths that a block gives for its codes. -/
inductive IsGiven : (literals distances : List Nat) → List Bool → Prop
  | mk {literals distances given : List Nat} {more more' more'' : Nat}
      {field field' field'' fields runs : List Bool} :
      IsField 5 more field → literals.length = 257 + more → literals.length ≤ 286 →
      IsField 5 more' field' → distances.length = 1 + more' → distances.length ≤ 30 →
      IsField 4 more'' field'' → given.length = 4 + more'' → Fields 3 given fields →
      IsBook false (ordered given) → Runs (ordered given) runs [] (literals ++ distances) →
      IsBook true literals → IsBook true distances →
      IsGiven literals distances (field ++ field' ++ field'' ++ fields ++ runs)

/-! ### Blocks -/

/-- The lengths of the codes of a block that gives none. -/
def fixedLiterals : List Nat :=
  List.replicate 144 8 ++ List.replicate 112 9 ++ List.replicate 24 7 ++ List.replicate 8 8

def fixedDistances : List Nat := List.replicate 32 5

/-- A block of one of three kinds, which starts behind `place` bits of the body, and what it appends
to the output. The length of a stored block starts with a byte of the body, and is given twice, the
second time inverted. -/
inductive IsBlock (place : Nat) : (kind : Nat) → List Bool → List UInt8 → List UInt8 → Prop
  | stored {filling field field' : List Bool} {bytes before : List UInt8} :
      filling.length < 8 → (place + filling.length) % 8 = 0 → IsField 16 bytes.length field →
      IsField 16 (0xffff - bytes.length) field' →
      IsBlock place 0 (filling ++ (field ++ field' ++ bitsOf bytes)) before (before ++ bytes)
  | fixed {items : List Bool} {before after : List UInt8} :
      Items fixedLiterals fixedDistances items before after →
      IsBlock place 1 items before after
  | given {literals distances : List Nat} {lengths items : List Bool} {before after : List UInt8} :
      IsGiven literals distances lengths → Items literals distances items before after →
      IsBlock place 2 (lengths ++ items) before after

/-- Blocks behind `place` bits up to the last one, and what they append to the output. A block stands
behind a bit that says whether it is the last, and its kind. -/
inductive Blocks : (place : Nat) → List Bool → List UInt8 → List UInt8 → Prop
  | last {place kind : Nat} {field bits : List Bool} {before after : List UInt8} :
      IsField 2 kind field → IsBlock (place + 3) kind bits before after →
      Blocks place (true :: (field ++ bits)) before after
  | more {place kind : Nat} {field bits rest : List Bool} {before middle after : List UInt8} :
      IsField 2 kind field → IsBlock (place + 3) kind bits before middle →
      Blocks (place + 3 + bits.length) rest middle after →
      Blocks place (false :: (field ++ bits ++ rest)) before after

/-- A compressed body, whose last byte may have bits to spare. -/
def IsBody (body content : List UInt8) : Prop :=
  ∃ bits filling, bitsOf body = bits ++ filling ∧ filling.length < 8 ∧ Blocks 0 bits [] content

/-! ### Members -/

/-- A number in `count` bytes, the lowest first, as far as it fits. -/
def lowBytes : (count n : Nat) → List UInt8
  | 0, _ => []
  | count + 1, n => n.toUInt8 :: lowBytes count (n / 256)

/-- A part of a header that is there if its flag is set. -/
def IsOptional (flags flag : UInt8) (IsPart : List UInt8 → Prop) (bytes : List UInt8) : Prop :=
  if flags &&& flag = 0 then bytes = [] else IsPart bytes

/-- Any bytes behind their number. -/
inductive IsExtra : List UInt8 → Prop
  | mk {bytes : List UInt8} : bytes.length < 65536 → IsExtra (lowBytes 2 bytes.length ++ bytes)

/-- A text that ends with a null. -/
inductive IsText : List UInt8 → Prop
  | mk {text : List UInt8} : 0 ∉ text → text.length ≤ maxFieldLength → IsText (text ++ [0])

/-- The parts of a header before its check. -/
inductive IsFront (flags : UInt8) : List UInt8 → Prop
  | mk {times extra name comment : List UInt8} : flags &&& reservedFlags = 0 → times.length = 6 →
      IsOptional flags hasExtra IsExtra extra → IsOptional flags hasName IsText name →
      IsOptional flags hasComment IsText comment →
      IsFront flags ([0x1f, 0x8b, 8, flags] ++ times ++ extra ++ name ++ comment)

/-- A header. -/
inductive IsHeader : List UInt8 → Prop
  | mk {flags : UInt8} {front check : List UInt8} : IsFront flags front →
      IsOptional flags hasHeaderCheck (· = lowBytes 2 (checksum front).toNat) check →
      IsHeader (front ++ check)

/-- The trailer of a content: its checksum and its length. -/
def trailer (content : List UInt8) : List UInt8 :=
  lowBytes 4 (checksum content).toNat ++ lowBytes 4 content.length

/-- A member that holds a content. -/
inductive IsMember : (bytes content : List UInt8) → Prop
  | mk {header body content : List UInt8} : IsHeader header → IsBody body content →
      IsMember (header ++ body ++ trailer content) content

/-- A file whose first member holds a content. Anything may stand behind that member. -/
def IsFile (bytes content : List UInt8) : Prop :=
  ∃ member rest, IsMember member content ∧ bytes = member ++ rest

end DeviceConsole.Gzip
