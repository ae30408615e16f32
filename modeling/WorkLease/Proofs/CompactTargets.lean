import Mathlib.Algebra.Order.Ring.Nat
import Mathlib.Order.Bounds.Basic
import Mathlib.Tactic.Common
import WorkLease.Target

/-!
# What compact bits can hold

Bits with mantissa `m` and exponent `e` stand for `m * 256 ^ (e - 3)`, rounded down where the
exponent is below three (`scaled`). Not every target is of this form, and one that is not loses
its low digits when it is written as bits.

* `ofBits_eq_ok_iff`: what bits are read as. The three bounds on the exponent refuse what has more
  than 256 bits and nothing else.
* `toBits_spec`: a target is written by its leading digits, with the least exponent for which they
  fit the mantissa. The digit that is moved out of the sign bit is a case of this.
* `ofBits_toBits`: so the greatest target that bits can hold comes back.

**Theorem (`compact_rounds_down`).** Bits are read exactly, and a target is rounded down to what
bits can hold; nothing is lost where bits hold it already, and the order of targets is kept.

Everything is a multiplication by one power of 256 and a division by another. In this form the
shifts to the left and to the right are one case, and no proof counts the digits of a target.
-/

namespace WorkLease.Target

/-! ## Moving digits -/

section Moving

variable {n a b : Nat}

theorem mul_pow_div_pow_of_ge (h : b ≤ a) : n * 256 ^ a / 256 ^ b = n * 256 ^ (a - b) := by
  have hsplit : 256 ^ a = 256 ^ (a - b) * 256 ^ b := by
    rw [← Nat.pow_add, Nat.sub_add_cancel h]
  rw [hsplit, ← Nat.mul_assoc, Nat.mul_div_cancel _ (Nat.pow_pos (by decide))]

theorem mul_pow_div_pow_of_le (h : a ≤ b) : n * 256 ^ a / 256 ^ b = n / 256 ^ (b - a) := by
  have hsplit : 256 ^ b = 256 ^ (b - a) * 256 ^ a := by
    rw [← Nat.pow_add, Nat.sub_add_cancel h]
  rw [hsplit, Nat.mul_div_mul_right _ _ (Nat.pow_pos (by decide))]

theorem two_pow_mul_eight (k : Nat) : 2 ^ (8 * k) = 256 ^ k := by
  rw [Nat.pow_mul]

theorem shiftLeft_digits (h : b ≤ a) : n <<< (8 * (a - b)) = n * 256 ^ a / 256 ^ b := by
  rw [Nat.shiftLeft_eq, two_pow_mul_eight, mul_pow_div_pow_of_ge h]

theorem shiftRight_digits (h : a ≤ b) : n >>> (8 * (b - a)) = n * 256 ^ a / 256 ^ b := by
  rw [Nat.shiftRight_eq_div_pow, two_pow_mul_eight, mul_pow_div_pow_of_le h]

end Moving

/-! ## Reading -/

/-- The value of a mantissa and an exponent: `m * 256 ^ (e - 3)` over the integers, rounded down. -/
def scaled (m e : Nat) : Nat :=
  m * 256 ^ e / 256 ^ 3

@[simp] theorem scaled_zero (e : Nat) : scaled 0 e = 0 := by
  rw [scaled, Nat.zero_mul, Nat.zero_div]

theorem scaled_of_ge {m e : Nat} (h : 3 ≤ e) : scaled m e = m * 256 ^ (e - 3) :=
  mul_pow_div_pow_of_ge h

theorem scaled_mono {m e larger : Nat} (h : e ≤ larger) : scaled m e ≤ scaled m larger :=
  Nat.div_le_div_right (Nat.mul_le_mul_left m (Nat.pow_le_pow_right (by decide) h))

theorem shifted_eq_scaled (m e : Nat) :
    (if e ≤ 3 then m >>> (8 * (3 - e)) else m <<< (8 * (e - 3))) = scaled m e := by
  by_cases h : e ≤ 3
  · rw [if_pos h, shiftRight_digits h, scaled]
  · rw [if_neg h, shiftLeft_digits (by omega), scaled]

theorem mantissa_lt (bits : UInt32) : mantissa bits < 2 ^ 23 :=
  Nat.mod_lt _ (by decide)

theorem exponent_lt (bits : UInt32) : exponent bits < 256 :=
  Nat.div_lt_of_lt_mul bits.toNat_lt

/-- **The bounds on the exponent are those of 256 bits.** -/
theorem overflows_iff {m e : Nat} (hm : m < 2 ^ 23) :
    m ≠ 0 ∧ (34 < e ∨ (0xff < m ∧ 33 < e) ∨ (0xffff < m ∧ 32 < e)) ↔ 2 ^ 256 ≤ scaled m e := by
  -- Up to 32 no mantissa is too large and from 35 on every one is; in between its size decides.
  by_cases hsmall : e ≤ 32
  · have hle : scaled m e ≤ scaled m 32 := scaled_mono hsmall
    rw [scaled_of_ge (by decide : 3 ≤ 32)] at hle
    omega
  · by_cases hlarge : 35 ≤ e
    · have hle : scaled m 35 ≤ scaled m e := scaled_mono hlarge
      rw [scaled_of_ge (by decide : 3 ≤ 35)] at hle
      have hzero : m = 0 → scaled m e = 0 := by
        rintro rfl
        exact scaled_zero e
      omega
    · obtain rfl | rfl : e = 33 ∨ e = 34 := by omega
      · rw [scaled_of_ge (by decide)]
        omega
      · rw [scaled_of_ge (by decide)]
        omega

/-- **What bits are read as.** -/
theorem ofBits_eq_ok_iff {bits : UInt32} {target : Nat} : ofBits bits = .ok target ↔
    signed bits = false ∧ target = scaled (mantissa bits) (exponent bits) ∧
      0 < target ∧ target < 2 ^ 256 := by
  have hover := overflows_iff (e := exponent bits) (mantissa_lt bits)
  unfold ofBits
  dsimp only
  rw [shifted_eq_scaled]
  split_ifs with hnegative hlarge hzero
  · simp [hnegative.2]
  · refine iff_of_false nofun ?_
    rintro ⟨-, rfl, -, hlt⟩
    exact Nat.not_le.2 hlt (hover.1 hlarge)
  · refine iff_of_false nofun ?_
    rintro ⟨-, rfl, hpos, -⟩
    exact Nat.ne_of_gt hpos hzero
  · have hlt : scaled (mantissa bits) (exponent bits) < 2 ^ 256 :=
      Nat.not_le.1 fun hle => hlarge (hover.2 hle)
    have hclear : signed bits = false := by
      -- A sign is passed over only beside a mantissa of zero, which stands for no target.
      by_contra hset
      have hm : mantissa bits = 0 := by
        by_contra hm
        exact hnegative ⟨hm, by simpa using hset⟩
      rw [hm] at hzero
      exact hzero (scaled_zero _)
    constructor
    · intro h
      obtain rfl := Except.ok.inj h
      exact ⟨hclear, rfl, Nat.pos_of_ne_zero hzero, hlt⟩
    · rintro ⟨-, rfl, -, -⟩
      rfl

/-- Work that is met is a target within the limit and a hash within the target. -/
theorem check_eq_met_iff {hash : Digest} {bits : UInt32} {powLimit : Nat} :
    check hash bits powLimit = .met ↔
      ∃ target, ofBits bits = .ok target ∧ target ≤ powLimit ∧ hash.toNat ≤ target := by
  unfold check
  cases ofBits bits with
  | error fault => simp
  | ok target =>
    simp only [Except.ok.injEq, exists_eq_left']
    by_cases hlimit : powLimit < target
    · simp [hlimit, Nat.not_le.2 hlimit]
    · by_cases hhash : hash.toNat ≤ target
      · simp [hlimit, hhash, Nat.le_of_not_lt hlimit]
      · simp [hlimit, hhash]

/-! ## Writing -/

/-- The digits of a target that are left at an exponent. -/
def lead (target e : Nat) : Nat :=
  target * 256 ^ 3 / 256 ^ e

theorem lead_succ (target e : Nat) : lead target (e + 1) = lead target e / 256 := by
  rw [lead, lead, Nat.pow_succ 256 e, Nat.div_div_eq_div_mul]

theorem shifted_eq_lead (target size : Nat) :
    (if size ≤ 3 then target <<< (8 * (3 - size)) else target >>> (8 * (size - 3))) =
      lead target size := by
  by_cases h : size ≤ 3
  · rw [if_pos h, shiftLeft_digits h, lead]
  · rw [if_neg h, shiftRight_digits (by omega), lead]

theorem lt_pow_byteLength (n : Nat) : n < 256 ^ byteLength n := by
  unfold byteLength
  rw [← two_pow_mul_eight]
  split_ifs with hzero
  · omega
  · apply (Nat.log2_lt hzero).1
    omega

theorem pow_le_of_lt_byteLength {n e : Nat} (h : e < byteLength n) : 256 ^ e ≤ n := by
  unfold byteLength at h
  rw [← two_pow_mul_eight]
  split_ifs at h with hzero
  · omega
  · apply (Nat.le_log2 hzero).1
    omega

/-- The leading digits are three at the length of the target, and more at any exponent below. -/
theorem lead_byteLength_lt (target : Nat) : lead target (byteLength target) < 2 ^ 24 := by
  have hlt := lt_pow_byteLength target
  rw [lead]
  apply Nat.div_lt_of_lt_mul
  omega

theorem le_lead_of_lt_byteLength {target e : Nat} (h : e < byteLength target) :
    2 ^ 24 ≤ lead target e := by
  have hle := pow_le_of_lt_byteLength h
  rw [lead, Nat.le_div_iff_mul_le (Nat.pow_pos (by decide))]
  omega

/-- Bits that are put together have the parts that they were put together from. -/
theorem parts_of_ofNat {m e : Nat} (hm : m < 2 ^ 23) (he : e < 256) :
    mantissa (UInt32.ofNat (m + e * 0x1000000)) = m ∧
      exponent (UInt32.ofNat (m + e * 0x1000000)) = e ∧
      signed (UInt32.ofNat (m + e * 0x1000000)) = false := by
  have hnat : (UInt32.ofNat (m + e * 0x1000000)).toNat = m + e * 0x1000000 :=
    UInt32.toNat_ofNat_of_lt' (by show _ < 2 ^ 32; omega)
  unfold mantissa exponent signed
  rw [hnat, Nat.testBit_eq_decide_div_mod_eq]
  refine ⟨by omega, by omega, ?_⟩
  simp only [decide_eq_false_iff_not]
  omega

/-- **The bits of a target** hold its leading digits, with the least exponent for which they fit. -/
theorem toBits_spec {target : Nat} (hlt : target < 2 ^ 256) :
    ∃ e < 256, toBits target = UInt32.ofNat (lead target e + e * 0x1000000) ∧
      lead target e < 2 ^ 23 ∧ ∀ less < e, 2 ^ 23 ≤ lead target less := by
  have hsize : byteLength target ≤ 32 := by
    by_contra hmore
    have hle := pow_le_of_lt_byteLength (Nat.not_le.1 hmore)
    omega
  have hword := lead_byteLength_lt target
  have hmore (less : Nat) (hless : less < byteLength target) : 2 ^ 23 ≤ lead target less := by
    have hle := le_lead_of_lt_byteLength hless
    omega
  unfold toBits
  dsimp only
  rw [shifted_eq_lead, Nat.testBit_eq_decide_div_mod_eq]
  split_ifs with hset
  · rw [decide_eq_true_eq] at hset
    refine ⟨byteLength target + 1, by omega, ?_, ?_, ?_⟩
    · rw [lead_succ]
    · rw [lead_succ]
      omega
    · intro less hless
      rcases Nat.lt_succ_iff_lt_or_eq.1 hless with hbelow | rfl
      · exact hmore less hbelow
      · omega
  · rw [decide_eq_true_eq] at hset
    exact ⟨byteLength target, by omega, rfl, by omega, hmore⟩

/-! ## Rounding -/

/-- A target that bits can hold: it has 256 bits, it is not zero, and it is the value of a mantissa
and an exponent. -/
structure Representable (target : Nat) : Prop where
  pos : 0 < target
  lt : target < 2 ^ 256
  parts : ∃ m < 2 ^ 23, ∃ e < 256, target = scaled m e

theorem representable_of_ofBits {bits : UInt32} {target : Nat} (h : ofBits bits = .ok target) :
    Representable target := by
  obtain ⟨-, hvalue, hpos, hlt⟩ := ofBits_eq_ok_iff.1 h
  exact ⟨hpos, hlt, _, mantissa_lt bits, _, exponent_lt bits, hvalue⟩

theorem representable_one : Representable 1 :=
  ⟨by decide, by decide, 1, by decide, 3, by decide, by decide⟩

theorem scaled_lead_le (target e : Nat) : scaled (lead target e) e ≤ target := by
  unfold scaled lead
  apply Nat.div_le_of_le_mul
  rw [Nat.mul_comm (256 ^ 3)]
  exact Nat.div_mul_le_self _ _

/-- Below an exponent of three only digits are lost, so no value needs one. -/
theorem exists_scaled_eq {m : Nat} (hm : m < 2 ^ 23) (e : Nat) :
    ∃ m' < 2 ^ 23, ∃ e', 3 ≤ e' ∧ scaled m e = scaled m' e' := by
  by_cases h : 3 ≤ e
  · exact ⟨m, hm, e, h, rfl⟩
  · refine ⟨scaled m e, ?_, 3, Nat.le_refl 3, ?_⟩
    · have hle : scaled m e ≤ scaled m 3 := scaled_mono (by omega)
      rw [scaled_of_ge (Nat.le_refl 3)] at hle
      omega
    · rw [scaled_of_ge (Nat.le_refl 3), Nat.sub_self, Nat.pow_zero, Nat.mul_one]

/-- **No value up to the target is above what its leading digits give**, at the least exponent for
which they fit. -/
theorem scaled_le_scaled_lead {target m e e' : Nat}
    (hleast : ∀ less < e, 2 ^ 23 ≤ lead target less) (hm : m < 2 ^ 23) (he' : 3 ≤ e')
    (hle : scaled m e' ≤ target) : scaled m e' ≤ scaled (lead target e) e := by
  apply Nat.div_le_div_right
  rcases Nat.lt_or_ge e' e with hshort | hlong
  · -- A smaller exponent has room for no leading digits, so the value is below all of them.
    obtain ⟨k, rfl⟩ : ∃ k, e = k + 1 := ⟨e - 1, by omega⟩
    have hbig := hleast k (Nat.lt_succ_self k)
    have hpow : 256 ^ e' ≤ 256 ^ k := Nat.pow_le_pow_right (by decide) (by omega)
    calc m * 256 ^ e' ≤ m * 256 ^ k := Nat.mul_le_mul_left m hpow
      _ ≤ lead target k / 256 * 256 * 256 ^ k := Nat.mul_le_mul_right _ (by omega)
      _ = lead target (k + 1) * 256 ^ (k + 1) := by
        rw [lead_succ, Nat.pow_succ, Nat.mul_comm (256 ^ k), Nat.mul_assoc]
  · -- Otherwise the value is a multiple of the last digit that is kept.
    obtain ⟨k, rfl⟩ := Nat.exists_eq_add_of_le hlong
    have hfit : m * 256 ^ k * 256 ^ e ≤ target * 256 ^ 3 := by
      calc m * 256 ^ k * 256 ^ e = m * 256 ^ (e + k - 3) * 256 ^ 3 := by
            rw [Nat.mul_assoc, Nat.mul_assoc, ← Nat.pow_add, ← Nat.pow_add, Nat.sub_add_cancel he',
              Nat.add_comm]
        _ = scaled m (e + k) * 256 ^ 3 := by rw [scaled_of_ge he']
        _ ≤ target * 256 ^ 3 := Nat.mul_le_mul_right _ hle
    have hlead : m * 256 ^ k ≤ lead target e := by
      rw [lead, Nat.le_div_iff_mul_le (Nat.pow_pos (by decide))]
      exact hfit
    calc m * 256 ^ (e + k) = m * 256 ^ k * 256 ^ e := by
          rw [Nat.add_comm, Nat.pow_add, Nat.mul_assoc]
      _ ≤ lead target e * 256 ^ e := Nat.mul_le_mul_right _ hlead

/-- **What comes back** from the bits of a target is the greatest that bits can hold up to it. -/
theorem ofBits_toBits {target : Nat} (hpos : 0 < target) (hlt : target < 2 ^ 256) :
    ∃ value, ofBits (toBits target) = .ok value ∧
      IsGreatest {held | Representable held ∧ held ≤ target} value := by
  obtain ⟨e, he, hbits, hfits, hleast⟩ := toBits_spec hlt
  obtain ⟨hmantissa, hexponent, hsigned⟩ := parts_of_ofNat hfits he
  have hle := scaled_lead_le target e
  have hgreatest : ∀ held, Representable held → held ≤ target →
      held ≤ scaled (lead target e) e := by
    rintro held ⟨-, -, m, hm, any, -, rfl⟩ hheld
    obtain ⟨m', hm', e', he', heq⟩ := exists_scaled_eq hm any
    rw [heq] at hheld ⊢
    exact scaled_le_scaled_lead hleast hm' he' hheld
  have hvalue : ofBits (toBits target) = .ok (scaled (lead target e) e) := by
    rw [hbits, ofBits_eq_ok_iff, hmantissa, hexponent]
    exact ⟨hsigned, rfl, hgreatest 1 representable_one hpos, Nat.lt_of_le_of_lt hle hlt⟩
  exact ⟨_, hvalue, ⟨representable_of_ofBits hvalue, hle⟩, fun held h => hgreatest held h.1 h.2⟩

/-- **Compact bits are read exactly and round targets down.** -/
theorem compact_rounds_down :
    (∀ bits value, ofBits bits = .ok value ↔ signed bits = false ∧
      value = scaled (mantissa bits) (exponent bits) ∧ 0 < value ∧ value < 2 ^ 256) ∧
    (∀ target, 0 < target → target < 2 ^ 256 → ∃ value, ofBits (toBits target) = .ok value ∧
      IsGreatest {held | Representable held ∧ held ≤ target} value) ∧
    (∀ bits target, ofBits bits = .ok target → ofBits (toBits target) = .ok target) ∧
    ∀ lower upper low high, 0 < lower → lower ≤ upper → upper < 2 ^ 256 →
      ofBits (toBits lower) = .ok low → ofBits (toBits upper) = .ok high → low ≤ high := by
  refine ⟨fun bits value => ofBits_eq_ok_iff, fun target => ofBits_toBits, ?_, ?_⟩
  · intro bits target h
    have hheld := representable_of_ofBits h
    obtain ⟨value, hvalue, hgreatest⟩ := ofBits_toBits hheld.pos hheld.lt
    rw [hvalue, hgreatest.unique ⟨⟨hheld, Nat.le_refl target⟩, fun held h => h.2⟩]
  · intro lower upper low high hpos hle hlt hlow hhigh
    obtain ⟨value, hvalue, hlower⟩ := ofBits_toBits hpos (Nat.lt_of_le_of_lt hle hlt)
    obtain ⟨value', hvalue', hupper⟩ := ofBits_toBits (Nat.lt_of_lt_of_le hpos hle) hlt
    obtain rfl := Except.ok.inj (hlow.symm.trans hvalue)
    obtain rfl := Except.ok.inj (hhigh.symm.trans hvalue')
    exact hupper.2 ⟨hlower.1.1, Nat.le_trans hlower.1.2 hle⟩

/-- The greatest target of 256 bits loses all but its first two bytes. -/
example : toBits (2 ^ 256 - 1) = 0x2100ffff ∧
    ofBits 0x2100ffff = .ok (0xffff * 256 ^ 30) := by
  decide +kernel

end WorkLease.Target
