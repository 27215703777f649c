import ReadThrough.Bytes

/-!
# The CRC-32 of a byte string

The cyclic redundancy check of gzip members: the reflected polynomial `0xEDB88320`, a register
that starts with all bits set and is inverted at the end.
-/

namespace ReadThrough.Crc32

/-- One bit leaves the register; if it is set the polynomial is added. -/
def shiftOut (register : UInt32) : UInt32 :=
  if register &&& 1 = 1 then (register >>> 1) ^^^ 0xEDB88320 else register >>> 1

/-- Takes one octet into the register. -/
def feed (register : UInt32) (octet : UInt8) : UInt32 :=
  let mixed := register ^^^ octet.toUInt32
  shiftOut (shiftOut (shiftOut (shiftOut (shiftOut (shiftOut (shiftOut (shiftOut mixed)))))))

/-- The register after `data`, from a given start. -/
def register (start : UInt32) (data : Bytes) : UInt32 :=
  data.foldl feed start

/-- The checksum of `data`. -/
def checksum (data : Bytes) : UInt32 :=
  register 0xFFFFFFFF data ^^^ 0xFFFFFFFF

/-- The check value that the standard gives for the digits one to nine. -/
example : checksum [0x31, 0x32, 0x33, 0x34, 0x35, 0x36, 0x37, 0x38, 0x39] = 0xCBF43926 := by
  decide +kernel

end ReadThrough.Crc32
