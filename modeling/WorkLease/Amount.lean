/-!
# Amounts

Amounts of base units are 64-bit numbers, and sums of them are checked: a sum that does not
fit in 64 bits is no amount.
-/

namespace WorkLease.Amount

/-- The sum of two amounts, if it fits in 64 bits. -/
def add? (a b : UInt64) : Option UInt64 :=
  if a.toNat + b.toNat < UInt64.size then some (a + b) else none

/-- The sum of a list of amounts, if every running total fits in 64 bits. -/
def sum? (amounts : List UInt64) : Option UInt64 :=
  amounts.foldlM add? 0

end WorkLease.Amount
