/-
# Bytes to text

A source file arrives as bytes in a declared encoding:

| encoding | reading |
| --- | --- |
| `utf8` | one leading mark `EF BB BF` is skipped, the rest must be well-formed UTF-8 |
| `latin1` | every byte is the code point of the same value; ASCII is read as UTF-8 |

A malformed UTF-8 buffer is reported at the offset where its longest well-formed
beginning ends; the offset counts from the start of the buffer, the skipped mark
included.
-/

namespace Packrat

/-- The declared character encoding of a source buffer. -/
inductive Encoding where
  | utf8
  | latin1
  deriving DecidableEq, Repr, Inhabited

/-- A buffer that its declared encoding does not admit, with the offset of the
first byte that belongs to no character. -/
structure EncodingError where
  encoding : Encoding
  offset : Nat
  deriving DecidableEq, Repr

namespace Encoding

/-- The name of an encoding in messages. -/
def name : Encoding → String
  | utf8 => "Utf8"
  | latin1 => "Latin1"

/-- The byte order mark of UTF-8. -/
def mark : List UInt8 := [0xEF, 0xBB, 0xBF]

/-- Number of bytes of a leading byte order mark, 0 when there is none. -/
def markSize (bytes : ByteArray) : Nat :=
  if (bytes.extract 0 3).toList = mark then 3 else 0

/-- Characters of a UTF-8 buffer from byte `i` on, or the offset of the first
byte that starts no well-formed character. -/
def utf8From (bytes : ByteArray) (i : Nat) (read : List Char) : Except Nat (List Char) :=
  if i < bytes.size then
    match bytes.utf8DecodeChar? i with
    | some c => utf8From bytes (i + c.utf8Size) (c :: read)
    | none => .error i
  else .ok read.reverse
termination_by bytes.size - i
decreasing_by
  have := Char.utf8Size_pos c
  omega

/-- Every byte of a buffer is ASCII. -/
def isAscii (bytes : ByteArray) : Bool := bytes.toList.all (· < 128)

/-- The character of a byte in Latin-1. -/
def latin1Char (byte : UInt8) : Char := Char.ofNat byte.toNat

/-- Decode a buffer, skipping a leading UTF-8 byte order mark.  A Latin-1 buffer that
is ASCII is well-formed UTF-8 as it is. -/
def decode (e : Encoding) (bytes : ByteArray) : Except EncodingError (List Char) :=
  match e with
  | utf8 => (utf8From bytes (markSize bytes) []).mapError (⟨.utf8, ·⟩)
  | latin1 =>
    if isAscii bytes then (utf8From bytes 0 []).mapError (⟨.latin1, ·⟩)
    else .ok (bytes.toList.map latin1Char)

end Encoding

/-- One line naming the encoding and the offending byte. -/
def EncodingError.message (e : EncodingError) : String :=
  s!"invalid {e.encoding.name} input at byte {e.offset}"

end Packrat
