import Mathlib.Algebra.Order.BigOperators.Group.Finset
import Mathlib.Data.UInt
import Mathlib.Tactic.Common
import WorkLease.Coinbase

/-!
# A bounded supply

One interval later a schedule is at half of what it was, and the schedule from there on is the one
that starts with half. The first says how the subsidy falls (`paid_add_interval`). The second gives
the bound on all subsidies together, by induction over the intervals (`sum_paid_le`): the first
interval pays at most `interval * first`, and all later ones at most as much again.

The subsidy stops after 64 halvings, where a shift by 64 bits and more would begin. Fifty coins come
to nothing before that, so the stop is no case of its own (`toNat_subsidy`).

**Theorem (`supply_bounded`).** The subsidy never rises, halves every interval, and all blocks
together mint less than a hundred coins for every block of an interval.
-/

namespace WorkLease.Coinbase

/-- What is paid at a height from `first` on, with a halving every `interval` blocks. -/
def paid (first interval height : Nat) : Nat :=
  first >>> (height / interval)

theorem toNat_subsidy (height interval : UInt64) : (subsidy height interval).toNat =
    paid (initialCoins * coin) (max interval.toNat 1) height.toNat := by
  have hfirst : initialCoins * coin < 2 ^ 64 := by decide
  unfold subsidy paid
  dsimp only
  split_ifs with hstopped
  · have hpow : 2 ^ 64 ≤ 2 ^ (height.toNat / max interval.toNat 1) :=
      Nat.pow_le_pow_right (by decide) hstopped
    rw [Nat.shiftRight_eq_zero _ _ (Nat.lt_of_lt_of_le hfirst hpow)]
    rfl
  · exact UInt64.toNat_ofNat_of_lt' (Nat.lt_of_le_of_lt (Nat.shiftRight_le _ _) hfirst)

section Paid

variable {first interval : Nat}

theorem paid_le_first (height : Nat) : paid first interval height ≤ first :=
  Nat.shiftRight_le _ _

theorem paid_antitone : Antitone (paid first interval) := by
  intro a b h
  rw [paid, paid, Nat.shiftRight_eq_div_pow, Nat.shiftRight_eq_div_pow]
  apply Nat.div_le_div_left
  · exact Nat.pow_le_pow_right (by decide) (Nat.div_le_div_right h)
  · exact Nat.two_pow_pos _

/-- One interval later half is paid. -/
theorem paid_add_interval (hinterval : 0 < interval) (height : Nat) :
    paid first interval (height + interval) = paid first interval height / 2 := by
  rw [paid, Nat.add_div_right _ hinterval, Nat.shiftRight_succ, paid]

/-- From the second interval on the schedule is the one that starts with half. -/
theorem paid_half (hinterval : 0 < interval) (height : Nat) :
    paid first interval (interval + height) = paid (first / 2) interval height := by
  rw [paid, Nat.add_comm, Nat.add_div_right _ hinterval, Nat.shiftRight_succ_inside, paid]

theorem sum_paid_le_mul (n : Nat) :
    ∑ height ∈ Finset.range n, paid first interval height ≤ n * first := by
  have hsum := Finset.sum_le_card_nsmul (Finset.range n) (paid first interval) first
    fun height _ => paid_le_first height
  rwa [Finset.card_range, Nat.nsmul_eq_mul] at hsum

/-- **All heights together** are paid less than two full intervals. -/
theorem sum_paid_le (hinterval : 0 < interval) (n : Nat) :
    ∑ height ∈ Finset.range n, paid first interval height ≤ interval * (2 * first - 1) := by
  induction n using Nat.strong_induction_on generalizing first with
  | _ n ih =>
    by_cases hshort : n ≤ interval
    · calc ∑ height ∈ Finset.range n, paid first interval height ≤ n * first := sum_paid_le_mul n
        _ ≤ interval * first := Nat.mul_le_mul_right first hshort
        _ ≤ interval * (2 * first - 1) := Nat.mul_le_mul_left interval (by omega)
    · obtain ⟨later, rfl⟩ := Nat.exists_eq_add_of_le (Nat.le_of_not_le hshort)
      rw [Finset.sum_range_add]
      simp only [paid_half hinterval]
      calc _ ≤ interval * first + interval * (2 * (first / 2) - 1) :=
            Nat.add_le_add (sum_paid_le_mul interval) (ih later (by omega))
        _ = interval * (first + (2 * (first / 2) - 1)) := (Nat.mul_add _ _ _).symm
        _ ≤ interval * (2 * first - 1) := Nat.mul_le_mul_left interval (by omega)

end Paid

/-- **The subsidies are a bounded supply.** -/
theorem supply_bounded (interval : UInt64) :
    (∀ a b : UInt64, a ≤ b → subsidy b interval ≤ subsidy a interval) ∧
    (∀ height : UInt64, height.toNat + max interval.toNat 1 < 2 ^ 64 →
      subsidy (height + max interval 1) interval = subsidy height interval / 2) ∧
    ∀ n ≤ 2 ^ 64, ∑ height ∈ Finset.range n, (subsidy (UInt64.ofNat height) interval).toNat <
      max interval.toNat 1 * (100 * coin) := by
  have hinterval : 0 < max interval.toNat 1 := Nat.lt_of_lt_of_le Nat.one_pos (Nat.le_max_right _ _)
  refine ⟨fun a b hab => ?_, fun height hheight => ?_, fun n hn => ?_⟩
  · rw [UInt64.le_iff_toNat_le, toNat_subsidy, toNat_subsidy]
    exact paid_antitone (UInt64.le_iff_toNat_le.1 hab)
  · have hlater : (height + max interval 1).toNat = height.toNat + max interval.toNat 1 := by
      rw [UInt64.toNat_add, UInt64.toNat_max]
      exact Nat.mod_eq_of_lt hheight
    apply UInt64.toNat_inj.1
    rw [UInt64.toNat_div, toNat_subsidy, toNat_subsidy, hlater, paid_add_interval hinterval]
    rfl
  · have hheights : ∀ height ∈ Finset.range n, (subsidy (UInt64.ofNat height) interval).toNat =
        paid (initialCoins * coin) (max interval.toNat 1) height := by
      intro height hheight
      have hlt : height < UInt64.size := Nat.lt_of_lt_of_le (Finset.mem_range.1 hheight) hn
      rw [toNat_subsidy, UInt64.toNat_ofNat_of_lt' hlt]
    rw [Finset.sum_congr rfl hheights]
    calc _ ≤ max interval.toNat 1 * (2 * (initialCoins * coin) - 1) := sum_paid_le hinterval n
      _ < max interval.toNat 1 * (100 * coin) := Nat.mul_lt_mul_of_pos_left (by decide) hinterval

/-- The last subsidy is one unit, and the stop after 64 halvings is passed between two that are
nothing. -/
theorem supply_bounded_short :
    subsidy 33 0 ≤ subsidy 32 0 ∧ subsidy 32 0 = 1 ∧
      subsidy (32 + max 0 1) 0 = subsidy 32 0 / 2 ∧ subsidy (63 + max 0 1) 0 = subsidy 63 0 / 2 ∧
      ∑ height ∈ Finset.range 100, (subsidy (UInt64.ofNat height) 0).toNat < 100 * coin := by
  obtain ⟨hfalls, hhalves, hsum⟩ := supply_bounded 0
  exact ⟨hfalls 32 33 (by decide), by decide, hhalves 32 (by decide), hhalves 63 (by decide),
    hsum 100 (by decide)⟩

end WorkLease.Coinbase
