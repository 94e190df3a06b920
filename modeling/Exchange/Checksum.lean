import Exchange.Types

/-! The table-driven CRC-32 of `checksum.hpp`. -/
namespace Exchange

/-- One entry of the table: eight reflected division steps. -/
def tableEntry (i : UInt32) : UInt32 :=
  (List.range 8).foldl (fun c _ => if c &&& 1 ≠ 0 then (0xEDB88320 : UInt32) ^^^ (c >>> 1) else c >>> 1) i

def crcTable : Vector UInt32 256 := Vector.ofFn fun i => tableEntry (UInt32.ofNat i.val)

/-- One byte of input. -/
def crcStep (crc : UInt32) (b : UInt8) : UInt32 :=
  crcTable[((crc ^^^ b.toUInt32) &&& 0xFF).toUInt8.toFin] ^^^ (crc >>> 8)

def crc32 (data : Bytes) (seed : UInt32 := 0) : UInt32 := ~~~(data.foldl crcStep (~~~seed))

end Exchange
