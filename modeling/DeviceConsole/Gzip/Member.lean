import DeviceConsole.Gzip.Checksum
import DeviceConsole.Gzip.Inflate
import DeviceConsole.Stream

/-!
A compressed file: a header, a compressed body, and a trailer with a checksum and the length.

`expand` turns the bytes of such a file into the stream of its content. The content that could be
decoded is delivered, and the fault stands where it ends, so a reader meets an error in the content
before a fault behind it. Only the first member counts; what follows its trailer is ignored.
-/
namespace DeviceConsole.Gzip

/-! ### The header -/

/-- The longest text in a header. -/
def maxFieldLength : Nat := 65535

/-- The bytes after a header field of `n` bytes. -/
def skipBytes (n : Nat) (bytes : List UInt8) : Except Fault (List UInt8) :=
  if (bytes.take n).length < n then .error .unexpectedEnd else .ok (bytes.drop n)

/-- The bytes after a text that ends with a null. -/
def skipField (bytes : List UInt8) : Except Fault (List UInt8) :=
  let field := bytes.takeWhile (· != 0)
  if field.length > maxFieldLength then .error .headerFieldTooLong
  else skipBytes 1 (bytes.drop field.length)

/-- A number of two bytes, low byte first, and the bytes after it. -/
def number16 : List UInt8 → Except Fault (Nat × List UInt8)
  | low :: high :: rest => .ok (low.toNat + 256 * high.toNat, rest)
  | _ => .error .unexpectedEnd

/-- Bits of a header's flags. -/
def hasHeaderCheck : UInt8 := 2
def hasExtra : UInt8 := 4
def hasName : UInt8 := 8
def hasComment : UInt8 := 16
def reservedFlags : UInt8 := 0xe0

/-- The bytes after the optional parts of a header, which its flags announce. -/
def skipOptional (flags : UInt8) (whole bytes : List UInt8) : Except Fault (List UInt8) := do
  let bytes ← if flags &&& hasExtra = 0 then pure bytes else do
    let (length, bytes) ← number16 bytes
    skipBytes length bytes
  let bytes ← if flags &&& hasName = 0 then pure bytes else skipField bytes
  let bytes ← if flags &&& hasComment = 0 then pure bytes else skipField bytes
  if flags &&& hasHeaderCheck = 0 then pure bytes else do
    let header := whole.take (whole.length - bytes.length)
    let (check, bytes) ← number16 bytes
    if check = (checksum header).toNat % 65536 then pure bytes else .error .checksumMismatch

/-- The bytes after the header. -/
def skipHeader (bytes : List UInt8) : Except Fault (List UInt8) :=
  match bytes with
  | first :: second :: method :: flags :: _ :: _ :: _ :: _ :: _ :: _ :: rest =>
    if first = 0x1f && second = 0x8b && method = 8 && flags &&& reservedFlags = 0 then
      skipOptional flags bytes rest
    else .error .badHeader
  | _ => .error .unexpectedEnd

/-! ### The trailer -/

/-- A number of four bytes, low byte first. -/
def number32 (bytes : List UInt8) : Nat :=
  bytes.foldr (fun b high => b.toNat + 256 * high) 0

/-- Whether the bytes after the body confirm the content. -/
def checkTrailer (content bytes : List UInt8) : Except Fault Unit :=
  let trailer := bytes.take 8
  if trailer.length < 8 then .error .unexpectedEnd
  else if number32 (trailer.take 4) = (checksum content).toNat &&
      number32 (trailer.drop 4) = content.length % UInt32.size then .ok ()
  else .error .checksumMismatch

/-! ### The content -/

/-- How many bytes are delivered at a time when the body turns out malformed: what was decoded
since the last full window is lost. -/
def window : Nat := 32768

/-- The stream of a member's content, from the bytes after its header. -/
def expandBody (bytes : List UInt8) : Stream :=
  let ⟨output, outcome⟩ := inflate bytes
  let content := output.toList
  match outcome with
  | .error .cutShort => ⟨content, .broken .incompleteBody⟩
  | .error .malformed => ⟨content.take (output.size / window * window), .broken .corruptBody⟩
  | .ok b =>
    match checkTrailer content b.rest with
    | .ok () => .whole content
    | .error fault => ⟨content, .broken fault⟩

/-- The stream of the content of a compressed file. A file that cannot be read at all gives its
own fault. -/
def expand (file : Stream) : Stream :=
  match file.ending with
  | .broken fault => .failing fault
  | .complete =>
    match skipHeader file.bytes with
    | .ok body => expandBody body
    | .error fault => .failing fault

end DeviceConsole.Gzip
