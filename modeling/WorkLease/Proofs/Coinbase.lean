import Mathlib.Tactic.Common
import WorkLease.Coinbase
import WorkLease.Proofs.Size

/-!
# What a built coinbase keeps to

A coinbase that the node builds has the shape of one, commits to its height and pays its value in
one output. The commitment takes ten bytes at most, so all of it but the payout script is
small (`size_create_le`); of the payout script nothing is known.
-/

namespace WorkLease.Coinbase

/-! ## The commitment to the height -/

theorem length_digits_le {k n : Nat} (h : n < 256 ^ k) : (digits n).length ≤ k := by
  induction k generalizing n with
  | zero =>
    obtain rfl : n = 0 := by simpa using h
    rw [digits, if_pos rfl]
    exact Nat.le_refl 0
  | succ k ih =>
    rw [digits]
    split_ifs with hzero
    · exact Nat.zero_le _
    · have hrest : n / 256 < 256 ^ k := by
        apply Nat.div_lt_of_lt_mul
        rwa [Nat.pow_succ, Nat.mul_comm] at h
      rw [List.length_cons]
      exact Nat.succ_le_succ (ih hrest)

/-- A height has eight digits at most, and one byte more if the last would read as a sign. -/
theorem length_heightNumber_le (height : UInt64) : (heightNumber height).length ≤ 9 := by
  have hdigits : (digits height.toNat).length ≤ 8 := length_digits_le height.toNat_lt
  unfold heightNumber
  dsimp only
  split_ifs
  · rw [List.length_append]
    exact Nat.succ_le_succ hdigits
  · omega

theorem length_heightScript_le (height : UInt64) : (heightScript height).length ≤ 10 :=
  Nat.succ_le_succ (length_heightNumber_le height)

/-! ## The coinbase -/

section Create

variable (height value : UInt64) (payout : Bytes)

/-- The script of a built coinbase. -/
def createdScript : Bytes :=
  if (heightScript height).length < 2 then heightScript height ++ [0] else heightScript height

theorem heightScript_prefix_created : heightScript height <+: createdScript height := by
  unfold createdScript
  split_ifs
  · exact List.prefix_append _ _
  · exact List.prefix_rfl

theorem length_createdScript_le : (createdScript height).length ≤ 10 := by
  have hscript := length_heightScript_le height
  unfold createdScript
  split_ifs
  · rw [List.length_append, List.length_singleton]
    omega
  · exact hscript

theorem create_eq : create height value payout =
    ⟨1, [⟨OutPoint.null, createdScript height, 0xffffffff⟩], [⟨value, payout⟩], 0⟩ := rfl

theorem isCoinbase_create : (create height value payout).isCoinbase = true := by
  rw [create_eq, Transaction.isCoinbase]
  rfl

theorem size_create : (create height value payout).size =
    58 + scriptSize (createdScript height) + scriptSize payout := by
  have hone : CompactSize.width 1 = 1 := rfl
  rw [create_eq, Transaction.size_eq]
  simp only [List.length_singleton, List.map_singleton, List.sum_singleton, TxInput.size,
    TxOutput.size, hone]
  omega

/-- All but the payout script takes 69 bytes at most. -/
theorem size_create_le : (create height value payout).size ≤ 69 + scriptSize payout := by
  have hscript := length_createdScript_le height
  have hwidth : CompactSize.width (createdScript height).length = 1 := if_pos (by omega)
  rw [size_create, scriptSize, hwidth]
  omega

end Create

end WorkLease.Coinbase
