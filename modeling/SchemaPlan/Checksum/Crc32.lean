/-!
# CRC-32

The cyclic redundancy check with the reflected polynomial `0xEDB88320`, all bits set at the start
and inverted at the end. The register takes one byte at a time, so a check over pieces that are
fed one after the other is the check over their concatenation.
-/

namespace SchemaPlan.Crc32

/-- Shift the register by one bit. -/
def shift (register : UInt32) : UInt32 :=
  if register &&& 1 = 1 then (register >>> 1) ^^^ 0xEDB88320 else register >>> 1

/-- Feed one byte to the register. -/
def feedByte (register : UInt32) (b : UInt8) : UInt32 :=
  shift (shift (shift (shift (shift (shift (shift (shift (register ^^^ b.toUInt32))))))))

/-- Feed bytes to the register. -/
def feed (register : UInt32) (bytes : List UInt8) : UInt32 := bytes.foldl feedByte register

/-- The register before the first byte. -/
def initial : UInt32 := 0xFFFFFFFF

/-- The check value that a register stands for. -/
def finish (register : UInt32) : UInt32 := register ^^^ 0xFFFFFFFF

/-- The check value of some bytes. -/
def ofBytes (bytes : List UInt8) : UInt32 := finish (feed initial bytes)

theorem feed_append (register : UInt32) (a b : List UInt8) :
    feed register (a ++ b) = feed (feed register a) b := List.foldl_append

/-- Feeding pieces one after the other is feeding their concatenation. -/
theorem foldl_feed (register : UInt32) (pieces : List (List UInt8)) :
    pieces.foldl feed register = feed register pieces.flatten := by
  induction pieces generalizing register with
  | nil => rfl
  | cons piece pieces ih => rw [List.foldl_cons, ih, List.flatten_cons, feed_append]

/-- The check value of the digits `1` to `9`. -/
example : ofBytes [0x31, 0x32, 0x33, 0x34, 0x35, 0x36, 0x37, 0x38, 0x39] = 0xCBF43926 := by
  decide +kernel

end SchemaPlan.Crc32
