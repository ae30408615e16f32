/-!
# Byte strings

A byte string is a list of bytes. Numbers of a fixed width are written with their least
significant byte first: `ofNatLE` writes, `toNatLE` reads, and the two are inverse on numbers
that fit the width.
-/

namespace WorkLease

abbrev Bytes := List UInt8

namespace Bytes

/-- The `width` lowest base-256 digits of a number, least significant first. -/
def ofNatLE : Nat → Nat → Bytes
  | 0, _ => []
  | width + 1, n => UInt8.ofNat n :: ofNatLE width (n / 256)

/-- The number whose base-256 digits, least significant first, are the given bytes. -/
def toNatLE : Bytes → Nat
  | [] => 0
  | b :: rest => b.toNat + 256 * toNatLE rest

@[simp] theorem length_ofNatLE (width n : Nat) : (ofNatLE width n).length = width := by
  induction width generalizing n with
  | zero => rfl
  | succ width ih => simp [ofNatLE, ih]

/-- Writing a number that was read gives the bytes it was read from. -/
theorem ofNatLE_toNatLE (bytes : Bytes) : ofNatLE bytes.length (toNatLE bytes) = bytes := by
  induction bytes with
  | nil => rfl
  | cons b rest ih =>
      have hb : b.toNat < 256 := b.toNat_lt
      have hhigh : (b.toNat + 256 * toNatLE rest) / 256 = toNatLE rest := by omega
      have hhead : UInt8.ofNat (b.toNat + 256 * toNatLE rest) = b := by
        apply UInt8.toNat_inj.1
        simp
      simp [ofNatLE, toNatLE, hhead, hhigh, ih]

end Bytes

end WorkLease
