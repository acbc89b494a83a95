import DeviceConsole.Json.Skip

/-!
Readers for typed JSON documents.

A document is read in one pass, straight into the type that is wanted, so of two defects the one
that comes first is reported. A record (`record`) may be given as an object or as the list of its
members' values in order; members that it does not know are skipped, a member given twice is
refused. A choice between names (`choice`) may be given as a text or as an object with that one
name. `value` reads a value of any kind, nested no deeper than it is told.
-/
namespace DeviceConsole.Json

/-- Refuse the value at `c`, whose first byte is `b`, because `expected` should stand there. What
stands there is read as far as its description needs. -/
def mismatch (expected : String) (c : Cursor) (b : UInt8) (after : Cursor) :
    Except Failure α := do
  if b = 0x22 then
    let (s, after) ← text after
    after.fail (.wrongKind (.text s) expected)
  else if Number.starts b then
    let (n, after) ← Number.reader c
    after.ahead.fail (.wrongKind n.found expected)
  else if b = 0x5b then after.fail (.wrongKind .list expected)
  else if b = 0x7b then after.fail (.wrongKind .object expected)
  else match wordTail? b with
    | some tail =>
      let found := if b = 0x6e then .null else .bool (b = 0x74)
      let after ← after.word tail
      after.fail (.wrongKind found expected)
    | none => after.fail .expectedValue

/-! ### Scalars -/

/-- A text. -/
def string : Reader String := fun c => do
  let (c, b, after) ← valueStart c
  if b = 0x22 then text after else mismatch "a string" c b after

/-- A whole number up to `bound`. -/
def natural (type : String) (bound : Nat) : Reader Nat := fun c => do
  let (c, b, after) ← valueStart c
  if Number.starts b then
    let (n, after) ← Number.reader c
    match n with
    | .integer (.ofNat n) =>
      if n ≤ bound then pure (n, after)
      else after.ahead.fail (.outOfRange (.integer n) type)
    | .integer i => after.ahead.fail (.outOfRange (.integer i) type)
    | .real x => after.ahead.fail (.wrongKind (.real x) type)
  else mismatch type c b after

def uint32 : Reader UInt32 := fun c => do
  let (n, after) ← natural "u32" (UInt32.size - 1) c
  pure (n.toUInt32, after)

def uint64 : Reader UInt64 := fun c => do
  let (n, after) ← natural "u64" (UInt64.size - 1) c
  pure (n.toUInt64, after)

/-- The null, or what `r` reads. -/
def optional (r : Reader α) : Reader (Option α) := fun c => do
  let c := c.skipSpaces
  match ← c.next? with
  | some (b, after) =>
    if b = 0x6e then pure (none, ← after.word [0x75, 0x6c, 0x6c])
    else
      let (a, after) ← r c
      pure (some a, after)
  | none => c.fail .endInValue

/-- The null where nothing else will do. -/
def unit (c : Cursor) : Except Failure Cursor := do
  let (c, b, after) ← valueStart c
  if b = 0x6e then after.word [0x75, 0x6c, 0x6c] else mismatch "unit" c b after

/-- One of some names, from behind its opening quote. -/
def variant (options : List (String × α)) : Reader α := fun c => do
  let (name, after) ← text c
  match options.find? fun o => o.1 == name with
  | some (_, a) => pure (a, after)
  | none => after.fail (.unknownVariant name (options.map (·.1)))

/-- One of some names, given as a text or as an object with that name and the null. -/
def choice (options : List (String × α)) : Reader α := fun c => do
  let (_, b, after) ← valueStart c
  if b = 0x22 then variant options after
  else if b = 0x7b then
    let (_, b, after) ← valueStart after
    if b = 0x22 then
      let (a, after) ← variant options after
      let after ← unit (← colon after)
      let (b, after) ← after.skipSpaces.next .endInObject
      if b = 0x7d then pure (a, after) else after.fail .expectedValue
    else after.fail (if b = 0x7d then .expectedValue else .nameNotText)
  else after.fail .expectedValue

/-! ### Containers -/

/-- A fault inside a container is placed where all bytes of the document have been looked at. -/
def within (c : Cursor) : Except Failure α → Except Failure α
  | .ok a => .ok a
  | .error f => .error <| match f.cause with
    | .unreadable _ => f.locate c.finalPlace
    | _ => f

/-- The start of the next item of a list, none before the closing bracket. -/
def item? (first : Bool) (c : Cursor) : Except Failure (Option Cursor) := do
  let c := c.skipSpaces
  let (b, after) ← c.next .endInList
  if b = 0x5d then pure none
  else if first then pure (some c)
  else if b = 0x2c then
    let c := after.skipSpaces
    let (b, beyond) ← c.next .endInValue
    if b = 0x5d then beyond.fail .trailingComma else pure (some c)
  else after.fail .expectedCommaOrBracket

/-- The cursor after the closing bracket, before which nothing may stand. -/
def closeList (c : Cursor) : Except Failure Cursor := do
  let (b, after) ← c.skipSpaces.next .endInList
  if b = 0x5d then pure after
  else if b = 0x2c then
    let c := after.skipSpaces
    if c.rest.head? = some 0x5d then c.ahead.fail .trailingComma
    else c.ahead.fail .trailingCharacters
  else after.fail .trailingCharacters

/-- The items of a list, the last first, behind the ones in `items`. Each round takes at least one
byte, so `fuel` is the bytes that are left and one more. -/
def itemsLoop (r : Reader α) : (fuel : List UInt8) → (first : Bool) → (items : List α) →
    Reader (List α)
  | [], _, _, c => c.fail .endInList
  | _ :: fuel, first, items, c => do
    match ← item? first c with
    | none => pure (items, ← closeList c)
    | some c =>
      let (a, c) ← r c
      itemsLoop r fuel false (a :: items) c

/-- The items of a list from behind its opening bracket. -/
def items (r : Reader α) : Reader (List α) := fun c => do
  let (reversed, after) ← itemsLoop r (0 :: c.rest) true [] c
  pure (reversed.reverse, after)

/-- A list of any length. -/
def listOf (r : Reader α) : Reader (List α) := fun c => do
  let (c, b, after) ← valueStart c
  if b = 0x5b then within c (items r after) else mismatch "a sequence" c b after

/-- The name of the next member of an object, none before the closing brace. -/
def name? (first : Bool) (c : Cursor) : Except Failure (Option (String × Cursor)) := do
  let (b, after) ← c.skipSpaces.next .endInObject
  if b = 0x7d then pure none
  else do
    let (b, after) ←
      if first then pure (b, after)
      else if b = 0x2c then do
        let (b, after) ← after.skipSpaces.next .endInValue
        if b = 0x7d then after.fail .trailingComma else pure (b, after)
      else after.fail .expectedCommaOrBrace
    if b = 0x22 then pure (some (← text after)) else after.fail .nameNotText

/-- The members of an object, each folded into `acc` from behind its name. Each round takes at
least one byte, so `fuel` is the bytes that are left and one more. -/
def membersLoop (step : σ → String → Reader σ) : (fuel : List UInt8) → (first : Bool) →
    (acc : σ) → Reader σ
  | [], _, _, c => c.fail .endInObject
  | _ :: fuel, first, acc, c => do
    match ← name? first c with
    | none =>
      let (_, after) ← c.skipSpaces.next .endInObject
      pure (acc, after)
    | some (name, after) =>
      let (acc, c) ← step acc name after
      membersLoop step fuel false acc c

/-- The members of an object from behind its opening brace. -/
def members (step : σ → String → Reader σ) (acc : σ) : Reader σ := fun c =>
  membersLoop step (0 :: c.rest) true acc c

/-! ### Records -/

/-- A member of a record: how its value is read into the record under construction, and whether it
has to be given. -/
structure Member (σ : Type) where
  name : String
  needed : Bool
  read : σ → Reader σ

namespace Member

/-- A member that has to be given. -/
def required (name : String) (r : Reader α) (put : α → σ → σ) : Member σ where
  name := name
  needed := true
  read := fun s c => do
    let (a, c) ← r c
    pure (put a s, c)

/-- A member that keeps its default when it is not given. -/
def defaulted (name : String) (r : Reader α) (put : α → σ → σ) : Member σ :=
  { required name r put with needed := false }

/-- What a member's name leads to: its value is read, unless the record does not know the name or
has had it before. -/
def step (known : List (Member σ)) : List String × σ → String → Reader (List String × σ) :=
  fun (seen, s) name c => do
    match known.find? fun m => m.name == name with
    | none => pure ((seen, s), ← skipValue (← colon c))
    | some m =>
      if seen.contains name then c.skipSpaces.ahead.fail (.repeatedMember name)
      else
        let (s, c) ← m.read s (← colon c)
        pure ((name :: seen, s), c)

/-- The values of members in order, up to the closing bracket; `count` of them have been read. -/
def positional (expected : String) : List (Member σ) → (count : Nat) → (first : Bool) → σ →
    Reader σ
  | [], _, _, s, c => do pure (s, ← closeList c)
  | m :: ms, count, first, s, c => do
    match ← item? first c with
    | some c =>
      let (s, c) ← m.read s c
      positional expected ms (count + 1) false s c
    | none =>
      if m.needed then
        let after ← closeList c
        after.fail (.wrongLength count expected)
      else positional expected ms (count + 1) first s c

end Member

/-- A record with some members, begun as `blank`. -/
def record (type : String) (known : List (Member σ)) (blank : σ) : Reader σ := fun c => do
  let (c, b, after) ← valueStart c
  if b = 0x7b then within c do
    let ((seen, s), after) ← members (Member.step known) ([], blank) after
    match known.find? fun m => m.needed && !seen.contains m.name with
    | some m => after.fail (.missingMember m.name)
    | none => pure (s, after)
  else if b = 0x5b then
    let expected := "struct " ++ type ++ " with " ++ toString known.length ++
      (if known.length = 1 then " element" else " elements")
    within c (Member.positional expected known 0 true blank after)
  else mismatch ("struct " ++ type) c b after

/-- A list of exactly two items. -/
def pair (r : Reader α) (blank : α) : Reader (α × α) := fun c => do
  let (c, b, after) ← valueStart c
  let known : List (Member (α × α)) :=
    [.required "" r fun a p => (a, p.2), .required "" r fun a p => (p.1, a)]
  let expected := "an array of length 2"
  if b = 0x5b then within c (Member.positional expected known 0 true (blank, blank) after)
  else mismatch expected c b after

/-! ### Values of any kind -/

/-- A member of an object of values, added behind the ones before it. -/
def memberStep (r : Reader Value) : List (String × Value) → String → Reader (List (String × Value)) :=
  fun before name c => do
    let (v, c) ← r (← colon c)
    pure ((name, v) :: before, c)

/-- A value of any kind, in which containers are nested less than `depth` deep. -/
def value : (depth : Nat) → Reader Value
  | 0, c => c.fail .nestedTooDeep
  | depth + 1, c => do
    let (c, b, after) ← valueStart c
    if b = 0x22 then
      let (s, after) ← text after
      pure (.text s, after)
    else if Number.starts b then
      let (n, after) ← Number.reader c
      pure (n.value, after)
    else if b = 0x5b then
      if depth = 0 then after.fail .nestedTooDeep
      else within c do
        let (vs, after) ← items (value depth) after
        pure (.list vs, after)
    else if b = 0x7b then
      if depth = 0 then after.fail .nestedTooDeep
      else within c do
        let (ms, after) ← members (memberStep (value depth)) [] after
        pure (.object ms.reverse, after)
    else match wordTail? b with
      | some tail =>
        let after ← after.word tail
        pure (if b = 0x6e then .null else .bool (b = 0x74), after)
      | none => after.fail .expectedValue

/-- How deep containers may be nested in a document. -/
def maxDepth : Nat := 128

/-! ### Documents -/

/-- A document that holds one value and blanks around it. -/
def document (r : Reader α) (s : Stream) : Except Failure α := do
  let (a, c) ← r (.start s)
  match ← c.skipSpaces.next? with
  | some (_, after) => after.fail .trailingCharacters
  | none => pure a

end DeviceConsole.Json
