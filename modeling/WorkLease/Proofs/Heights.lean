import Mathlib.Tactic.Common
import WorkLease.Bytes.Lemmas
import WorkLease.Proofs.Coinbase
import WorkLease.Proofs.Rules

/-!
# One height for every coinbase

The height stands at the start of the coinbase script as a push of a script number. A script number
has as few bytes as it can have, and the top bit of its last byte is clear, because a set one would
read as a sign.

* `signSet_iff`: the top bit tells in which half of its length a number lies.
* `readHeight_eq_some_iff`: a script is read as the one height that it starts with, up to the
  heights whose number takes nine bytes.
* `heightScript_unique`: no script starts with two heights, because the first byte tells how many
  bytes the number has.

**Theorem (`commits_to_one_height`).** A script is read as the height that it commits to and as no
other, and a coinbase that the node builds commits to its own height and to no other.
-/

namespace WorkLease.Coinbase

/-! ## Script numbers -/

theorem toNatLE_digits (n : Nat) : Bytes.toNatLE (digits n) = n := by
  fun_induction digits n with
  | case1 => rfl
  | case2 n hzero ih =>
    rw [Bytes.toNatLE, ih]
    simp only [UInt8.toNat_ofNat']
    omega

@[simp] theorem signSet_append_singleton (init : Bytes) (last : UInt8) :
    signSet (init ++ [last]) = decide (128 ≤ last.toNat) := by
  rw [signSet, List.getLast?_append, List.getLast?_singleton]
  exact decide_eq_decide.2 UInt8.le_iff_toNat_le

/-- **The top bit is set** in the upper half of the numbers of one length. -/
theorem signSet_iff {number : Bytes} (hne : number ≠ []) :
    signSet number = true ↔ 128 * 256 ^ (number.length - 1) ≤ Bytes.toNatLE number := by
  obtain ⟨init, last, rfl⟩ := (List.eq_nil_or_concat' number).resolve_left hne
  have hinit := Bytes.toNatLE_lt init
  rw [signSet_append_singleton, Bytes.toNatLE_append, Bytes.toNatLE_singleton, List.length_append,
    List.length_singleton, Nat.add_sub_cancel, decide_eq_true_iff]
  constructor
  · intro hset
    have hmul := Nat.mul_le_mul_left (256 ^ init.length) hset
    omega
  · intro hle
    by_contra hclear
    have hmul := Nat.mul_le_mul_left (256 ^ init.length) (by omega : last.toNat ≤ 127)
    omega

theorem toNatLE_lt_of_clear {number : Bytes} (hclear : signSet number = false)
    (hlength : number.length ≤ 8) : Bytes.toNatLE number < 2 ^ 63 := by
  by_cases hne : number = []
  · subst hne
    decide
  · have hpow : 256 ^ (number.length - 1) ≤ 256 ^ 7 :=
      Nat.pow_le_pow_right (by decide) (by omega)
    have hlt := (signSet_iff hne).not.1 (by simp [hclear])
    omega

/-- Only the heights in the upper half of the 64-bit numbers need a ninth byte. -/
theorem length_heightNumber_le_eight {height : UInt64} (hlt : height.toNat < 2 ^ 63) :
    (heightNumber height).length ≤ 8 := by
  have hdigits : (digits height.toNat).length ≤ 8 := length_digits_le height.toNat_lt
  unfold heightNumber
  dsimp only
  split_ifs with hset
  · have hne : digits height.toNat ≠ [] := by
      rintro hnil
      rw [hnil] at hset
      cases hset
    have hhalf := (signSet_iff hne).1 hset
    rw [toNatLE_digits] at hhalf
    have hpow : 256 ^ ((digits height.toNat).length - 1) < 256 ^ 7 := by omega
    have hshort := (Nat.pow_lt_pow_iff_right (by decide)).1 hpow
    rw [List.length_append, List.length_singleton]
    omega
  · exact hdigits

section Number

variable (height : UInt64)

theorem signSet_heightNumber : signSet (heightNumber height) = false := by
  unfold heightNumber
  dsimp only
  split_ifs with hset
  · simp
  · simpa using hset

theorem toNatLE_heightNumber : Bytes.toNatLE (heightNumber height) = height.toNat := by
  unfold heightNumber
  dsimp only
  split_ifs
  · rw [Bytes.toNatLE_append, toNatLE_digits]
    rfl
  · exact toNatLE_digits height.toNat

theorem heightNumber_injective {a b : UInt64} (h : heightNumber a = heightNumber b) : a = b := by
  apply UInt64.toNat_inj.1
  rw [← toNatLE_heightNumber, ← toNatLE_heightNumber, h]

theorem heightScript_eq : heightScript height =
    UInt8.ofNat (heightNumber height).length :: heightNumber height := rfl

/-- The first byte of a commitment is the length of the number after it. -/
theorem toNat_length_heightNumber :
    (UInt8.ofNat (heightNumber height).length).toNat = (heightNumber height).length := by
  have hlength := length_heightNumber_le height
  apply UInt8.toNat_ofNat_of_lt'
  show _ < 256
  omega

end Number

/-! ## Reading -/

/-- **A script is read as the height that it starts with**, if that is below `2 ^ 63`. -/
theorem readHeight_eq_some_iff {script : Bytes} {height : UInt64} :
    readHeight script = some height ↔ heightScript height <+: script ∧ height.toNat < 2 ^ 63 := by
  constructor
  · intro h
    cases script with
    | nil => cases h
    | cons length rest =>
      unfold readHeight at h
      dsimp only at h
      split_ifs at h with hrefused hshortest
      obtain rfl := Option.some.inj h
      simp only [not_or, Nat.not_lt, Bool.not_eq_true] at hrefused
      obtain ⟨hsize, -, hclear⟩ := hrefused
      constructor
      · rw [hshortest]
        exact List.cons_prefix_cons.2 ⟨rfl, List.take_prefix _ _⟩
      · have hlt := toNatLE_lt_of_clear hclear (Nat.le_trans (List.length_take_le _ _) hsize)
        rw [UInt64.toNat_ofNat']
        exact Nat.lt_of_le_of_lt (Nat.mod_le _ _) hlt
  · rintro ⟨⟨tail, rfl⟩, hlt⟩
    have hlength := length_heightNumber_le_eight hlt
    rw [heightScript_eq, List.cons_append]
    unfold readHeight
    dsimp only
    rw [toNat_length_heightNumber, List.take_left' rfl, toNatLE_heightNumber,
      UInt64.ofNat_toNat, if_neg, if_pos (heightScript_eq height)]
    rw [signSet_heightNumber]
    simp [hlength]

/-- **No script commits to two heights.** -/
theorem heightScript_unique {script : Bytes} {a b : UInt64} (ha : heightScript a <+: script)
    (hb : heightScript b <+: script) : a = b := by
  obtain ⟨tail, rfl⟩ := ha
  obtain ⟨hfirst, hrest⟩ := List.cons_prefix_cons.1 hb
  have hlength : (heightNumber b).length = (heightNumber a).length := by
    rw [← toNat_length_heightNumber, hfirst, toNat_length_heightNumber]
  have hnumber : heightNumber b <+: heightNumber a :=
    List.prefix_of_prefix_length_le hrest (List.prefix_append _ tail) (Nat.le_of_eq hlength)
  exact heightNumber_injective (hnumber.eq_of_length hlength).symm

/-! ## Built coinbases -/

section Create

variable (height value : UInt64) (payout : Bytes)

theorem two_le_length_createdScript : 2 ≤ (createdScript height).length := by
  unfold createdScript
  split_ifs with hshort
  · rw [List.length_append, List.length_singleton, heightScript, List.length_cons]
    omega
  · omega

theorem commitsTo_create_iff {other : UInt64} :
    commitsTo (create height value payout) other = true ↔ other = height := by
  have hown := heightScript_prefix_created height
  rw [BlockRules.commitsTo_iff, create_eq]
  simp only [List.head?_cons, Option.mem_some_iff, exists_eq_left']
  constructor
  · intro h
    exact heightScript_unique h hown
  · rintro rfl
    exact hown

theorem outputValue?_create : (create height value payout).outputValue? = some value := by
  rw [BlockRules.outputValue?_eq_some_iff, create_eq]
  simp

end Create

/-- What a script says about heights. -/
structure Commitment (script : Bytes) : Prop where
  read_iff : ∀ height : UInt64, height.toNat < 2 ^ 63 →
    (readHeight script = some height ↔ heightScript height <+: script)
  commits_iff : ∀ tx : Transaction, tx.inputs.head?.map TxInput.script = some script →
    ∀ height, commitsTo tx height = true ↔ heightScript height <+: script
  read_lt : ∀ height, readHeight script = some height → height.toNat < 2 ^ 63
  unique : ∀ a b, heightScript a <+: script → heightScript b <+: script → a = b

/-- **A coinbase commits to one height.** -/
theorem commits_to_one_height : (∀ script, Commitment script) ∧ ∀ height value payout,
    (create height value payout).isCoinbase = true ∧
      (∀ other, commitsTo (create height value payout) other = true ↔ other = height) ∧
      (create height value payout).outputValue? = some value ∧
      ∀ input ∈ (create height value payout).inputs, 2 ≤ input.script.length := by
  refine ⟨fun script => ?_, fun height value payout => ?_⟩
  · refine {
      read_iff := fun height hlt => ?_
      commits_iff := fun tx hfirst height => ?_
      read_lt := fun height h => (readHeight_eq_some_iff.1 h).2
      unique := fun a b => heightScript_unique }
    · rw [readHeight_eq_some_iff, and_iff_left hlt]
    · obtain ⟨input, hinput, rfl⟩ := Option.map_eq_some_iff.1 hfirst
      rw [BlockRules.commitsTo_iff, hinput]
      simp only [Option.mem_some_iff, exists_eq_left']
  · refine ⟨isCoinbase_create height value payout,
      fun other => commitsTo_create_iff height value payout,
      outputValue?_create height value payout, ?_⟩
    rw [create_eq]
    simp only [List.mem_singleton, forall_eq]
    exact two_le_length_createdScript height

end WorkLease.Coinbase
