/-!
# UTF-8

Encoding characters as bytes, and decoding bytes with an exact report of the first fault: where the
valid beginning ends, and how many bytes of the faulty sequence could still have begun a character.
A text that ends inside a sequence that was valid so far is told apart from a wrong byte.
-/

namespace SchemaPlan.Text

/-- The UTF-8 bytes of some characters. -/
def encode (s : List Char) : List UInt8 := s.flatMap String.utf8EncodeChar

/-- The UTF-8 bytes of a text. -/
def bytesOf (s : String) : List UInt8 := encode s.toList

/-- What is wrong with a sequence of bytes that is not UTF-8. -/
inductive Utf8Fault where
  /-- The first so many bytes begin no character. -/
  | invalid (count : Nat)
  /-- The bytes end inside a character. -/
  | incomplete
deriving DecidableEq, Repr

/-- The first fault of a sequence of bytes, after a valid beginning of `validUpTo` bytes. -/
structure Utf8Error where
  validUpTo : Nat
  fault : Utf8Fault
deriving DecidableEq, Repr

/-- The description of a fault. -/
def Utf8Error.message (e : Utf8Error) : String :=
  match e.fault with
  | .invalid count => s!"invalid utf-8 sequence of {count} bytes from index {e.validUpTo}"
  | .incomplete => s!"incomplete utf-8 byte sequence from index {e.validUpTo}"

/-- A character whose bytes are not all read: the bits so far, the number of bytes read and still
owed, and the range of the next byte. -/
structure PartialChar where
  bits : Nat
  read : Nat
  owed : Nat
  low : UInt8
  high : UInt8

/-- What the first byte of a character says about the rest; `none` for a byte that begins none. The
range of the second byte keeps out overlong forms, surrogates and values beyond U+10FFFF. -/
def PartialChar.begin? (b : UInt8) : Option PartialChar :=
  if 0xC2 ≤ b && b ≤ 0xDF then some ⟨b.toNat - 0xC0, 1, 1, 0x80, 0xBF⟩
  else if b = 0xE0 then some ⟨0, 1, 2, 0xA0, 0xBF⟩
  else if b = 0xED then some ⟨0xD, 1, 2, 0x80, 0x9F⟩
  else if 0xE1 ≤ b && b ≤ 0xEF then some ⟨b.toNat - 0xE0, 1, 2, 0x80, 0xBF⟩
  else if b = 0xF0 then some ⟨0, 1, 3, 0x90, 0xBF⟩
  else if 0xF1 ≤ b && b ≤ 0xF3 then some ⟨b.toNat - 0xF0, 1, 3, 0x80, 0xBF⟩
  else if b = 0xF4 then some ⟨4, 1, 3, 0x80, 0x8F⟩
  else none

/-- Decode the bytes after `pos`, where `done` holds the characters before them in reverse and
`started` the character under way, which began at `pos`. -/
def decodeFrom (pos : Nat) (done : List Char) (started : Option PartialChar) :
    List UInt8 → Except Utf8Error (List Char)
  | [] =>
    match started with
    | none => .ok done.reverse
    | some _ => .error ⟨pos, .incomplete⟩
  | b :: bs =>
    match started with
    | none =>
      if b < 0x80 then decodeFrom (pos + 1) (Char.ofNat b.toNat :: done) none bs
      else
        match PartialChar.begin? b with
        | none => .error ⟨pos, .invalid 1⟩
        | some p => decodeFrom pos done (some p) bs
    | some p =>
      if p.low ≤ b && b ≤ p.high then
        let bits := p.bits * 64 + (b.toNat - 0x80)
        if p.owed = 1 then decodeFrom (pos + p.read + 1) (Char.ofNat bits :: done) none bs
        else decodeFrom pos done (some ⟨bits, p.read + 1, p.owed - 1, 0x80, 0xBF⟩) bs
      else .error ⟨pos, .invalid p.read⟩

/-- The characters that some bytes encode, or the first fault. -/
def decode (bytes : List UInt8) : Except Utf8Error (List Char) := decodeFrom 0 [] none bytes

/-- The text that some bytes encode, or the first fault. -/
def decodeText (bytes : List UInt8) : Except Utf8Error String := (decode bytes).map String.ofList

end SchemaPlan.Text
