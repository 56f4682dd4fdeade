import PageBlocks.Text.Hex
import PageBlocks.Text.Utf8

/-!
# Checksums

The cyclic redundancy check of a byte string: the register starts with all bits set, takes the
bytes in order with the least significant bit first, divides by the reflected polynomial
`0xEDB88320`, and is complemented at the end. It is stored as eight lowercase hexadecimal digits.
-/

set_option autoImplicit false

namespace PageBlocks.Digest.Crc32

open PageBlocks.Text

/-- One division step: shift out the lowest bit, and subtract the polynomial if it was set. -/
def stepBit (register : UInt32) : UInt32 :=
  if register &&& 1 = 1 then (register >>> 1) ^^^ 0xEDB88320 else register >>> 1

/-- Eight division steps after a byte is added to the register. -/
def stepByte (register : UInt32) (b : UInt8) : UInt32 :=
  let r := register ^^^ b.toUInt32
  stepBit (stepBit (stepBit (stepBit (stepBit (stepBit (stepBit (stepBit r)))))))

/-- The register after a byte string. -/
def register (start : UInt32) (bytes : Bytes) : UInt32 := bytes.foldl stepByte start

/-- The checksum of a byte string. -/
def sum (bytes : Bytes) : UInt32 := register 0xFFFFFFFF bytes ^^^ 0xFFFFFFFF

/-- The checksum as it is stored: eight digits. -/
def text (bytes : Bytes) : List Char := Hex.ofNat 8 (sum bytes).toNat

theorem length_text (bytes : Bytes) : (text bytes).length = 8 := Hex.length_ofNat _ _

end PageBlocks.Digest.Crc32
