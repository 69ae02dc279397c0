/-!
# The cyclic redundancy check of gzip

The 32-bit check with the reflected polynomial `0xEDB88320`, started and finished by a complement.
-/

namespace BulkPack.Gzip

/-- Shifts one bit through the check. -/
def crcBit (c : UInt32) : UInt32 :=
  if c &&& 1 = 1 then (c >>> 1) ^^^ 0xEDB88320 else c >>> 1

def crcByte (c : UInt32) (b : UInt8) : UInt32 :=
  crcBit (crcBit (crcBit (crcBit (crcBit (crcBit (crcBit (crcBit (c ^^^ b.toUInt32))))))))

def crc32 (bs : List UInt8) : UInt32 :=
  (bs.foldl crcByte 0xFFFFFFFF) ^^^ 0xFFFFFFFF

end BulkPack.Gzip
