import Mathlib.Algebra.Order.BigOperators.Group.List
import Mathlib.Algebra.Order.Ring.Nat
import Mathlib.Tactic.Common
import WorkLease.Amount

/-!
# Amounts are exact sums

A checked sum, where there is one, is the sum over the natural numbers (`sum?_eq_some_iff`), and
there is none exactly when that sum does not fit in 64 bits (`sum?_eq_none_iff`).
-/

namespace WorkLease.Amount

theorem add?_eq_some_iff {a b total : UInt64} :
    add? a b = some total ↔ total.toNat = a.toNat + b.toNat := by
  have hlt : total.toNat < UInt64.size := total.toNat_lt
  unfold add?
  split_ifs with h
  · rw [Option.some.injEq, ← UInt64.toNat_inj, UInt64.toNat_add, Nat.mod_eq_of_lt h, eq_comm]
  · simp only [false_iff]
    intro ht
    exact h (ht ▸ hlt)

theorem add?_eq_none_iff {a b : UInt64} : add? a b = none ↔ 2 ^ 64 ≤ a.toNat + b.toNat := by
  unfold add?
  split_ifs with h
  · simpa using h
  · simpa using h

theorem foldlM_add?_eq_some_iff {amounts : List UInt64} {start total : UInt64} :
    amounts.foldlM add? start = some total ↔
      total.toNat = start.toNat + (amounts.map UInt64.toNat).sum := by
  induction amounts generalizing start with
  | nil => simp [← UInt64.toNat_inj, eq_comm]
  | cons amount amounts ih =>
    simp only [List.foldlM_cons, Option.bind_eq_bind, Option.bind_eq_some_iff, add?_eq_some_iff,
      ih, List.map_cons, List.sum_cons]
    constructor
    · rintro ⟨next, hnext, htotal⟩
      omega
    · intro htotal
      have hlt : total.toNat < UInt64.size := total.toNat_lt
      -- The running total is at most the final one, so it fits as well.
      have hfits : start.toNat + amount.toNat < UInt64.size := by omega
      refine ⟨UInt64.ofNat (start.toNat + amount.toNat), ?_, ?_⟩
      · exact UInt64.toNat_ofNat_of_lt' hfits
      · rw [UInt64.toNat_ofNat_of_lt' hfits]
        omega

theorem sum?_eq_some_iff {amounts : List UInt64} {total : UInt64} :
    sum? amounts = some total ↔ total.toNat = (amounts.map UInt64.toNat).sum := by
  rw [sum?, foldlM_add?_eq_some_iff]
  simp

theorem sum?_eq_none_iff {amounts : List UInt64} :
    sum? amounts = none ↔ 2 ^ 64 ≤ (amounts.map UInt64.toNat).sum := by
  constructor
  · intro hnone
    by_contra hfits
    -- A sum that fits is the checked sum.
    have hsum : sum? amounts = some (UInt64.ofNat (amounts.map UInt64.toNat).sum) :=
      sum?_eq_some_iff.2 (UInt64.toNat_ofNat_of_lt' (Nat.not_le.1 hfits))
    rw [hnone] at hsum
    cases hsum
  · intro hlarge
    cases hsum : sum? amounts with
    | none => rfl
    | some total =>
      have htotal := sum?_eq_some_iff.1 hsum
      have hlt := total.toNat_lt
      omega

end WorkLease.Amount
