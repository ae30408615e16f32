import WorkLease.Bytes

/-!
# Compact sizes

A count below 253 is one byte. A larger one is a marker byte and two, four or eight bytes of
the number, least significant first; the shortest form that holds the number is used.
-/

namespace WorkLease.CompactSize

/-- The bytes of a count below 2 ^ 64. -/
def encode (n : Nat) : Bytes :=
  if n < 0xfd then [UInt8.ofNat n]
  else if n < 0x10000 then 0xfd :: Bytes.ofNatLE 2 n
  else if n < 0x100000000 then 0xfe :: Bytes.ofNatLE 4 n
  else 0xff :: Bytes.ofNatLE 8 n

def width (n : Nat) : Nat :=
  if n < 0xfd then 1
  else if n < 0x10000 then 3
  else if n < 0x100000000 then 5
  else 9

end WorkLease.CompactSize
