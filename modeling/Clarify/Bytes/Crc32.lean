import Clarify.Bytes

/-!
# CRC-32

The cyclic redundancy check of archive entries: polynomial `0xEDB88320`, bits taken lowest
first, all ones at the start and inverted at the end.
-/

namespace Clarify.Crc32

/-- One bit of the division by the polynomial. -/
def bitStep (crc : UInt32) : UInt32 :=
  if crc &&& 1 = 1 then (crc >>> 1) ^^^ 0xEDB88320 else crc >>> 1

/-- Eight bits of the division. -/
def byteStep (crc : UInt32) : UInt32 :=
  bitStep (bitStep (bitStep (bitStep (bitStep (bitStep (bitStep (bitStep crc)))))))

/-- What eight steps make of each low byte. -/
def table : Array UInt32 := (Array.range 256).map fun i => byteStep (UInt32.ofNat i)

/-- The register after one more byte. -/
def step (crc : UInt32) (b : UInt8) : UInt32 :=
  table.getD ((crc ^^^ b.toUInt32) &&& 0xff).toNat 0 ^^^ (crc >>> 8)

/-- The check value of a byte string. -/
def checksum (bytes : Bytes) : UInt32 :=
  ~~~ (bytes.foldl step 0xFFFFFFFF)

end Clarify.Crc32
