import WorkLease.Hash.Digest

/-!
# Targets

A block is solved when its hash, read as a number, is at most a 256-bit target. A header
carries the target as 32 bits: eight of exponent `e`, one of sign and twenty-three of mantissa
`m`, for `m * 256 ^ (e - 3)` rounded down. No target is negative, zero or above 256 bits, and
`ofBits` refuses the bits that would be; `toBits` rounds a target down to what bits can hold.
-/

namespace WorkLease.Target

def exponent (bits : UInt32) : Nat :=
  bits.toNat / 0x1000000

def mantissa (bits : UInt32) : Nat :=
  bits.toNat % 0x800000

def signed (bits : UInt32) : Bool :=
  bits.toNat.testBit 23

/-- The target that compact bits stand for. -/
def ofBits (bits : UInt32) : Except ArgumentFault Nat :=
  let e := exponent bits
  let m := mantissa bits
  if m ≠ 0 ∧ signed bits then .error (.negativeTarget bits)
  else if m ≠ 0 ∧ (34 < e ∨ (0xff < m ∧ 33 < e) ∨ (0xffff < m ∧ 32 < e)) then
    .error (.overflowingTarget bits)
  else
    let target := if e ≤ 3 then m >>> (8 * (3 - e)) else m <<< (8 * (e - 3))
    if target = 0 then .error (.zeroTarget bits) else .ok target

/-- The number of base-256 digits of a number. -/
def byteLength (n : Nat) : Nat :=
  if n = 0 then 0 else n.log2 / 8 + 1

/-- The compact bits of the greatest value that bits can hold and that is at most the target. -/
def toBits (target : Nat) : UInt32 :=
  let size := byteLength target
  let word := if size ≤ 3 then target <<< (8 * (3 - size)) else target >>> (8 * (size - 3))
  -- A set sign bit moves one byte of the mantissa into the exponent.
  if word.testBit 23 then UInt32.ofNat (word / 256 + (size + 1) * 0x1000000)
  else UInt32.ofNat (word + size * 0x1000000)

/-- How a hash compares with the target of its header. -/
inductive WorkCheck where
  | met
  | highHash
  /-- The bits stand for no target, or for one easier than the limit. -/
  | badBits
  deriving DecidableEq

/-- Compares a hash with the target of `bits`, which must not be easier than `powLimit`. -/
def check (hash : Digest) (bits : UInt32) (powLimit : Nat) : WorkCheck :=
  match ofBits bits with
  | .ok target =>
      if powLimit < target then .badBits
      else if hash.toNat ≤ target then .met
      else .highHash
  | .error _ => .badBits

/-- The bits, and how many times harder than the limit they are. -/
def describe (bits : UInt32) (powLimit : Nat) : String :=
  let shown := Hex.ofNat 8 bits.toNat
  match ofBits bits with
  | .ok target => s!"{shown} (x{powLimit / target} vs limit)"
  | .error _ => s!"{shown} (invalid)"

end WorkLease.Target
