import SchemaPlan.Checksum.Crc32
import SchemaPlan.PlanError
import SchemaPlan.Text.Blank
import SchemaPlan.Text.Lines
import SchemaPlan.Text.Utf8

/-!
# Checksums of content

A checksum is a CRC-32 read as a signed 32-bit integer. The policy decides what goes into it: the
bytes as they are, or the lines of the text without their terminators, so that line ends of another
style and a terminator at the very end change nothing, or those lines trimmed on both sides.
-/

namespace SchemaPlan

/-- What goes into a checksum. -/
inductive ChecksumPolicy where
  /-- The bytes as they are. -/
  | rawBytes
  /-- The lines, without their terminators. -/
  | lines
  /-- The lines, without their terminators and without blanks at either end. -/
  | trimmedLines
deriving DecidableEq, Repr

/-- The checksum of some bytes. -/
def checksumOfBytes (content : List UInt8) : Int32 := (Crc32.ofBytes content).toInt32

/-- The checksum of some lines, fed one after the other. -/
def checksumLines (lines : List (List Char)) : Int32 :=
  (Crc32.finish ((lines.map Text.encode).foldl Crc32.feed Crc32.initial)).toInt32

namespace ChecksumPolicy

/-- The policy in force where nothing else is configured. -/
def standard : ChecksumPolicy := .lines

/-- The name of a policy in a configuration. -/
def name : ChecksumPolicy → String
  | rawBytes => "raw_bytes"
  | lines => "lines"
  | trimmedLines => "trimmed_lines"

/-- The policy of a name. -/
def ofName? : String → Option ChecksumPolicy
  | "raw_bytes" => some rawBytes
  | "lines" => some lines
  | "trimmed_lines" => some trimmedLines
  | _ => none

theorem ofName?_name (policy : ChecksumPolicy) : ofName? policy.name = some policy := by
  cases policy <;> rfl

/-- The checksum of a text. -/
def textChecksum (policy : ChecksumPolicy) (text : String) : Int32 :=
  match policy with
  | rawBytes => checksumOfBytes (Text.bytesOf text)
  | lines => checksumLines (Text.lines text.toList)
  | trimmedLines => checksumLines ((Text.lines text.toList).map Text.trimList)

/-- The checksum of some bytes. The policies on lines need a text; `location` names the bytes in the
error where they are none. -/
def bytesChecksum (policy : ChecksumPolicy) (content : List UInt8) (location : String) :
    Except PlanError Int32 :=
  match policy with
  | rawBytes => .ok (checksumOfBytes content)
  | lines | trimmedLines =>
    match Text.decodeText content with
    | .ok text => .ok (policy.textChecksum text)
    | .error e =>
      .error (.content location
        s!"unable to calculate checksum, content is not valid UTF-8: {e.message}")

end ChecksumPolicy

end SchemaPlan
