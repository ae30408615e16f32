import Mathlib.Algebra.Order.Ring.Nat
import Mathlib.Tactic.Common
import WorkLease.Bytes.Hex
import WorkLease.Text.Blank

/-!
# Hexadecimal text reads back

The text of a byte string is read back to the same bytes (`decode_encode`), and no blank
character stands in it, so that trimming it changes nothing (`trim_encode`). The digits of a number
are read back to it, as far as their width goes (`toNat?_digitsOfNat`).
-/

namespace WorkLease

/-! ## Trimming -/

theorem Text.trimChars_eq_self {chars : List Char} (h : ∀ c ∈ chars, isBlank c = false) :
    trimChars chars = chars := by
  have hself : ∀ {cs : List Char}, (∀ c ∈ cs, isBlank c = false) → cs.dropWhile isBlank = cs := by
    intro cs hcs
    cases cs with
    | nil => rfl
    | cons c cs => rw [List.dropWhile_cons_of_neg (by simp [hcs c])]
  rw [trimChars, hself h, hself (by simpa using h), List.reverse_reverse]

namespace Hex

/-! ## Digits -/

/-- A digit is one byte of text, is read as its value, and is not blank. -/
theorem digitChar_spec {value : Nat} (h : value < 16) :
    String.utf8EncodeChar (Nat.digitChar value) = [UInt8.ofNat (Nat.digitChar value).toNat] ∧
      digitValue? (Text.charOfByte (UInt8.ofNat (Nat.digitChar value).toNat)) = some value ∧
      Text.isBlank (Nat.digitChar value) = false := by
  have hall : ∀ v : Fin 16,
      String.utf8EncodeChar (Nat.digitChar v) = [UInt8.ofNat (Nat.digitChar v).toNat] ∧
        digitValue? (Text.charOfByte (UInt8.ofNat (Nat.digitChar v).toNat)) = some v.val ∧
        Text.isBlank (Nat.digitChar v) = false := by decide
  exact hall ⟨value, h⟩

theorem high_lt (byte : UInt8) : byte.toNat / 16 < 16 := by
  have := byte.toNat_lt
  omega

theorem low_lt (byte : UInt8) : byte.toNat % 16 < 16 := Nat.mod_lt _ (by decide)

theorem isBlank_of_mem_encode {bytes : Bytes} :
    ∀ c ∈ bytes.flatMap pair, Text.isBlank c = false := by
  intro c hc
  obtain ⟨byte, -, hpair⟩ := List.mem_flatMap.1 hc
  simp only [pair, List.mem_cons, List.not_mem_nil, or_false] at hpair
  rcases hpair with rfl | rfl
  · exact (digitChar_spec (high_lt byte)).2.2
  · exact (digitChar_spec (low_lt byte)).2.2

@[simp] theorem trim_encode (bytes : Bytes) : Text.trim (encode bytes) = encode bytes := by
  rw [Text.trim, encode, String.toList_ofList, Text.trimChars_eq_self isBlank_of_mem_encode]

/-! ## Reading back -/

/-- The two bytes of text that a byte is written as. -/
theorem utf8Chars_pair (byte : UInt8) :
    Text.utf8Chars (pair byte) =
      [UInt8.ofNat (Nat.digitChar (byte.toNat / 16)).toNat,
        UInt8.ofNat (Nat.digitChar (byte.toNat % 16)).toNat] := by
  simp [Text.utf8Chars, pair, (digitChar_spec (high_lt byte)).1, (digitChar_spec (low_lt byte)).1]

theorem utf8_encode (bytes : Bytes) :
    Text.utf8 (encode bytes) = bytes.flatMap fun byte => Text.utf8Chars (pair byte) := by
  rw [Text.utf8, encode, String.toList_ofList, Text.utf8Chars, List.flatMap_assoc]
  rfl

theorem digitAt_digitChar {value : Nat} (h : value < 16) (index : Nat) :
    digitAt (UInt8.ofNat (Nat.digitChar value).toNat) index = .ok value := by
  rw [digitAt, (digitChar_spec h).2.1]

theorem decodePairs_flatMap (bytes : Bytes) (index : Nat) :
    decodePairs index (bytes.flatMap fun byte => Text.utf8Chars (pair byte)) = .ok bytes := by
  induction bytes generalizing index with
  | nil => rfl
  | cons byte bytes ih =>
    have hbyte : UInt8.ofNat (16 * (byte.toNat / 16) + byte.toNat % 16) = byte := by
      rw [Nat.div_add_mod, UInt8.ofNat_toNat]
    simp only [List.flatMap_cons, utf8Chars_pair, List.cons_append, List.nil_append, decodePairs,
      digitAt_digitChar (high_lt byte), digitAt_digitChar (low_lt byte), bind, Except.bind] at ih ⊢
    rw [ih, hbyte]
    rfl

/-- Text written for a byte string reads back as it. -/
@[simp] theorem decode_encode (bytes : Bytes) : decode (encode bytes) = .ok bytes := by
  have heven : (bytes.flatMap fun byte => Text.utf8Chars (pair byte)).length % 2 = 0 := by
    induction bytes with
    | nil => rfl
    | cons byte bytes ih =>
      rw [List.flatMap_cons, utf8Chars_pair, List.length_append, Nat.add_mod, ih]
      simp
  rw [decode, utf8_encode]
  simp only [heven]
  exact decodePairs_flatMap bytes 0

/-! ## Numbers -/

theorem digitValue?_digitChar {value : Nat} (h : value < 16) :
    digitValue? (Nat.digitChar value) = some value := by
  have hall : ∀ v : Fin 16, digitValue? (Nat.digitChar v) = some v.val := by decide
  exact hall ⟨value, h⟩

@[simp] theorem length_digitsOfNat (width n : Nat) : (digitsOfNat width n).length = width := by
  induction width generalizing n with
  | zero => rfl
  | succ width ih => rw [digitsOfNat, List.length_append, ih, List.length_singleton]

theorem isBlank_of_mem_digitsOfNat {width n : Nat} :
    ∀ c ∈ digitsOfNat width n, Text.isBlank c = false := by
  induction width generalizing n with
  | zero => exact nofun
  | succ width ih =>
    intro c hc
    rcases List.mem_append.1 hc with hc | hc
    · exact ih c hc
    · obtain rfl := List.mem_singleton.1 hc
      exact (digitChar_spec (Nat.mod_lt n (by decide))).2.2

/-- Digits written for a number read back as it, as far as their width goes. -/
theorem toNat?_digitsOfNat (width n : Nat) :
    toNat? (digitsOfNat width n) = some (n % 16 ^ width) := by
  induction width generalizing n with
  | zero => rw [Nat.pow_zero, Nat.mod_one]; rfl
  | succ width ih =>
    have hhigh : (digitsOfNat width (n / 16)).foldlM
        (fun value c => (digitValue? c).map (16 * value + ·)) 0 = some (n / 16 % 16 ^ width) :=
      ih (n / 16)
    have hlow : 16 * (n / 16 % 16 ^ width) + n % 16 = n % 16 ^ (width + 1) := by
      rw [Nat.pow_succ', Nat.mod_mul, Nat.add_comm]
    rw [toNat?, digitsOfNat, List.foldlM_append, hhigh, ← hlow]
    simp [digitValue?_digitChar (Nat.mod_lt n (by decide : 16 > 0))]

end Hex

end WorkLease
