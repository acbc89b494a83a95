/-!
Byte streams and what can interrupt them.

Reading a file gives a `Stream`: the bytes that can be read and how they end. A stream that is
`broken` has delivered all its bytes before its fault is met, so a reader that fails earlier never
learns of the fault, and a reader that asks for one byte more always does.
-/
namespace DeviceConsole

/-- What can go wrong below the readers and writers of this library. -/
inductive Fault where
  | notFound
  | isDirectory
  | notDirectory
  | alreadyExists
  | nameTooLong
  | nameHoldsNull
  | tooManyLinks
  /-- The first bytes are no header of a compressed file. -/
  | badHeader
  /-- A text field of the header has no end within its limit. -/
  | headerFieldTooLong
  /-- The header or the trailer stops early. -/
  | unexpectedEnd
  /-- The compressed body stops early. -/
  | incompleteBody
  | corruptBody
  /-- A checksum or the length differs from what was read. -/
  | checksumMismatch
  /-- A line of text is not UTF-8. -/
  | notUtf8
  /-- Whatever else the system reports. -/
  | other (report : String)
deriving DecidableEq, Repr

def Fault.message : Fault → String
  | .notFound => "No such file or directory (os error 2)"
  | .isDirectory => "Is a directory (os error 21)"
  | .notDirectory => "Not a directory (os error 20)"
  | .alreadyExists => "File exists (os error 17)"
  | .nameTooLong => "File name too long (os error 36)"
  | .tooManyLinks => "Too many levels of symbolic links (os error 40)"
  | .nameHoldsNull => "file name contained an unexpected NUL byte"
  | .badHeader => "invalid gzip header"
  | .headerFieldTooLong => "gzip header field too long"
  | .unexpectedEnd => "unexpected end of file"
  | .incompleteBody => "incomplete deflate stream"
  | .corruptBody => "corrupt deflate stream"
  | .checksumMismatch => "corrupt gzip stream does not have a matching checksum"
  | .notUtf8 => "stream did not contain valid UTF-8"
  | .other report => report

/-- How the bytes of a stream end. -/
inductive Ending where
  | complete
  | broken (fault : Fault)
deriving DecidableEq, Repr

/-- The bytes that can be read and how they end. -/
structure Stream where
  bytes : List UInt8
  ending : Ending
deriving DecidableEq, Repr

namespace Stream

/-- A stream that ends where its bytes end. -/
def whole (bytes : List UInt8) : Stream := ⟨bytes, .complete⟩

/-- A stream whose first read fails. -/
def failing (fault : Fault) : Stream := ⟨[], .broken fault⟩

/-- The UTF-8 bytes of a text. -/
def bytesOf (s : String) : List UInt8 := s.toUTF8.data.toList

/-- The text with the given UTF-8 bytes, if they are UTF-8. -/
def text? (bytes : List UInt8) : Option String := String.fromUTF8? ⟨bytes.toArray⟩

/-- Where the whole characters from `start` on end. Each takes a byte at least, so `fuel` is the
bytes that are left. -/
def textLengthFrom (bytes : ByteArray) : (fuel : List UInt8) → (start : Nat) → Nat
  | [], start => start
  | _ :: fuel, start =>
    match bytes.utf8DecodeChar? start with
    | some c => textLengthFrom bytes fuel (start + c.utf8Size)
    | none => start

/-- How many bytes at the front make whole characters: where bytes that are no text stop being
one. -/
def textLength (bytes : List UInt8) : Nat := textLengthFrom ⟨bytes.toArray⟩ bytes 0

/-- Bytes of a text read back as the text. -/
theorem text?_bytesOf (s : String) : text? (bytesOf s) = some s := by
  have h : (⟨s.toByteArray.data.toList.toArray⟩ : ByteArray) = s.toByteArray := by simp
  simp only [text?, bytesOf, String.toUTF8, h, String.fromUTF8?, s.isValidUTF8, dif_pos]
  rfl

/-- Reading a text is exact: bytes that read as a text are that text's bytes. -/
theorem bytesOf_of_text? {bytes : List UInt8} {s : String} (h : text? bytes = some s) :
    bytesOf s = bytes := by
  unfold text? String.fromUTF8? at h
  split at h
  · cases h; simp [bytesOf, String.toUTF8, String.fromUTF8]
  · cases h

end Stream

end DeviceConsole
