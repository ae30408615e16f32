import Mathlib.Algebra.Order.Ring.Nat
import WorkLease.Hash.Digest

/-!
# Fixed-width numbers in bytes

Bounds on the numbers that byte strings stand for, and what is left of a number that is
written in too few bytes.
-/

namespace WorkLease

namespace Bytes

theorem toNatLE_lt (bytes : Bytes) : toNatLE bytes < 256 ^ bytes.length := by
  induction bytes with
  | nil => simp [toNatLE]
  | cons b rest ih =>
      have hb : b.toNat < 256 := b.toNat_lt
      simp only [toNatLE, List.length_cons, Nat.pow_succ]
      omega

@[simp] theorem toNatLE_singleton (b : UInt8) : toNatLE [b] = b.toNat :=
  Nat.add_zero b.toNat

theorem toNatLE_append (low high : Bytes) :
    toNatLE (low ++ high) = toNatLE low + 256 ^ low.length * toNatLE high := by
  induction low with
  | nil => simp [toNatLE]
  | cons b rest ih =>
      rw [List.cons_append, toNatLE, toNatLE, ih, List.length_cons, Nat.pow_succ]
      rw [Nat.mul_add, ← Nat.mul_assoc, Nat.mul_comm 256 (256 ^ rest.length), Nat.add_assoc]

/-- Reading back a written number gives its lowest `width` digits. -/
theorem toNatLE_ofNatLE (width n : Nat) : toNatLE (ofNatLE width n) = n % 256 ^ width := by
  induction width generalizing n with
  | zero => simp [ofNatLE, toNatLE, Nat.mod_one]
  | succ width ih =>
      have hhead : (UInt8.ofNat n).toNat = n % 256 := by simp
      rw [ofNatLE, toNatLE, ih, hhead, Nat.pow_succ, Nat.mul_comm (256 ^ width), Nat.mod_mul]

end Bytes

theorem Digest.toNat_lt (digest : Digest) : digest.toNat < 2 ^ 256 := by
  have h := Bytes.toNatLE_lt digest.bytes
  rw [digest.size_eq] at h
  exact h

end WorkLease
