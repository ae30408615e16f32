import Mathlib.Data.String.Basic
import WorkLease.Bytes.Lemmas
import WorkLease.Proofs.CompactTargets
import WorkLease.Proofs.HexText

/-!
# Digests as texts and as numbers

The bytes of a digest are stored with the least significant one first, its text is written with the
most significant digit first, and proof of work compares the number that both stand for.

* `decode_eq_ok_iff`: a text is decoded as the byte string that is the same number, if it has two
  digits for every byte. No other text is decoded, because the first byte of a character that is no
  digit is none either (`toNatFrom?_utf8Chars`).
* `lt_iff_of_toNatFrom?`: of two equally long texts in lower case, the first in the alphabet is the
  smaller number. Both facts are an induction along the digits, in which what was read so far is the
  value that the rest is read behind.

**Theorem (`display_agrees`).** A text is read as a digest exactly when it is the number of the
digest in sixty-four digits, and display texts and numbers have one order.
-/

namespace WorkLease

theorem Bytes.toNatLE_inj {a b : Bytes} (hlength : a.length = b.length)
    (h : toNatLE a = toNatLE b) : a = b := by
  rw [← ofNatLE_toNatLE a, ← ofNatLE_toNatLE b, hlength, h]

namespace Hex

/-! ## Digits -/

/-- The lower-case digits in the order of their values. -/
def lowerDigits : List Char := "0123456789abcdef".toList

/-- The digits of either case. -/
def digits : List Char := "0123456789abcdefABCDEF".toList

theorem toNat_lt_of_digitValue? {c : Char} {value : Nat} (h : digitValue? c = some value) :
    c.toNat < 128 := by
  have hbound : ∀ d : Char, d.toNat < 128 → c ≤ d → c.toNat < 128 :=
    fun d hd hle => Nat.lt_of_le_of_lt hle hd
  unfold digitValue? at h
  split_ifs at h with hten hlower hupper
  · exact hbound '9' (by decide) hten.2
  · exact hbound 'f' (by decide) hlower.2
  · exact hbound 'F' (by decide) hupper.2

theorem digitValue?_spec {c : Char} {value : Nat} (h : digitValue? c = some value) :
    value < 16 ∧ c ∈ digits := by
  have hall : ∀ n : Fin 128, ∀ v ∈ digitValue? (Char.ofNat n),
      v < 16 ∧ Char.ofNat n ∈ digits := by decide
  have hspec := hall ⟨c.toNat, toNat_lt_of_digitValue? h⟩ value
  rw [Char.ofNat_toNat] at hspec
  exact hspec h

theorem mem_lowerDigits_iff {c : Char} :
    c ∈ lowerDigits ↔ ∃ value < 16, Nat.digitChar value = c := by
  have hdigits : lowerDigits = (List.range 16).map Nat.digitChar := by decide
  rw [hdigits, List.mem_map]
  simp only [List.mem_range]

/-- The lower-case digits have the order of their values. -/
theorem digitChar_lt_iff {v w : Nat} (hv : v < 16) (hw : w < 16) :
    (Nat.digitChar v < Nat.digitChar w ↔ v < w) ∧ (Nat.digitChar v = Nat.digitChar w ↔ v = w) := by
  have hall : ∀ v w : Fin 16, (Nat.digitChar v < Nat.digitChar w ↔ v.val < w.val) ∧
      (Nat.digitChar v = Nat.digitChar w ↔ v.val = w.val) := by decide
  exact hall ⟨v, hv⟩ ⟨w, hw⟩

/-! ## Reading digits as a number -/

/-- The number that `value` becomes when digits are read behind it. -/
def toNatFrom? (value : Nat) (text : List Char) : Option Nat :=
  text.foldlM (fun value c => (digitValue? c).map (16 * value + ·)) value

theorem toNat?_eq (text : List Char) : toNat? text = toNatFrom? 0 text := rfl

@[simp] theorem toNatFrom?_nil (value : Nat) : toNatFrom? value [] = some value := rfl

theorem toNatFrom?_cons (value : Nat) (c : Char) (text : List Char) :
    toNatFrom? value (c :: text) =
      (digitValue? c).bind fun v => toNatFrom? (16 * value + v) text := by
  rw [toNatFrom?, List.foldlM_cons]
  cases digitValue? c <;> rfl

theorem toNatFrom?_cons_eq_some_iff {value n : Nat} {c : Char} {text : List Char} :
    toNatFrom? value (c :: text) = some n ↔
      ∃ v, digitValue? c = some v ∧ toNatFrom? (16 * value + v) text = some n := by
  rw [toNatFrom?_cons, Option.bind_eq_some_iff]

/-- What is read as a number has no characters but digits. -/
theorem exists_digitValue?_of_mem {value n : Nat} {text : List Char}
    (h : toNatFrom? value text = some n) {c : Char} (hc : c ∈ text) :
    ∃ v, digitValue? c = some v := by
  induction text generalizing value with
  | nil => cases hc
  | cons first text ih =>
    obtain ⟨v, hv, hrest⟩ := toNatFrom?_cons_eq_some_iff.1 h
    rcases List.mem_cons.1 hc with rfl | hc
    · exact ⟨v, hv⟩
    · exact ih hrest hc

/-! ## The bytes of a text -/

theorem utf8EncodeChar_of_lt {c : Char} (h : c.toNat < 128) :
    String.utf8EncodeChar c = [UInt8.ofNat c.toNat] ∧
      Text.charOfByte (UInt8.ofNat c.toNat) = c := by
  have hbyte : (UInt8.ofNat c.toNat).toNat = c.toNat :=
    UInt8.toNat_ofNat_of_lt' (Nat.lt_trans h (by decide))
  constructor
  · exact if_pos (Nat.le_of_lt_succ h)
  · rw [Text.charOfByte, hbyte, Char.ofNat_toNat]

/-- Any other character starts with a byte that is no digit. -/
theorem exists_utf8EncodeChar_of_ge {c : Char} (h : 128 ≤ c.toNat) :
    ∃ first more, String.utf8EncodeChar c = first :: more ∧
      digitValue? (Text.charOfByte first) = none := by
  have hmarker : ∀ k n : Nat, k < 64 → n = k + 192 →
      digitValue? (Text.charOfByte (UInt8.ofNat n)) = none := by
    have hall : ∀ k : Fin 64, digitValue? (Text.charOfByte (UInt8.ofNat (k + 192))) = none := by
      decide
    rintro k _ hk rfl
    exact hall ⟨k, hk⟩
  have hge : ¬ c.val.toNat ≤ 127 := Nat.not_le.2 h
  unfold String.utf8EncodeChar
  dsimp only
  rw [if_neg hge]
  split_ifs
  · exact ⟨_, _, rfl, hmarker (c.val.toNat / 64 % 32) _ (by omega) rfl⟩
  · exact ⟨_, _, rfl, hmarker (c.val.toNat / 4096 % 16 + 32) _ (by omega) rfl⟩
  · exact ⟨_, _, rfl, hmarker (c.val.toNat / 262144 % 8 + 48) _ (by omega) rfl⟩

/-- Byte by byte a text is the number that it is character by character. -/
theorem toNatFrom?_utf8Chars (value : Nat) (text : List Char) :
    toNatFrom? value ((Text.utf8Chars text).map Text.charOfByte) = toNatFrom? value text := by
  induction text generalizing value with
  | nil => rfl
  | cons c text ih =>
    have hbytes : Text.utf8Chars (c :: text) = String.utf8EncodeChar c ++ Text.utf8Chars text := rfl
    rw [hbytes, List.map_append]
    by_cases hsmall : c.toNat < 128
    · obtain ⟨hone, hchar⟩ := utf8EncodeChar_of_lt hsmall
      rw [hone, List.map_singleton, hchar, List.singleton_append, toNatFrom?_cons, toNatFrom?_cons]
      simp only [ih]
    · obtain ⟨first, more, hmore, hfirst⟩ := exists_utf8EncodeChar_of_ge (Nat.le_of_not_lt hsmall)
      have hnone : digitValue? c = none :=
        Option.eq_none_iff_forall_ne_some.2 fun v hv => hsmall (toNat_lt_of_digitValue? hv)
      rw [hmore, List.map_cons, List.cons_append, toNatFrom?_cons, toNatFrom?_cons, hfirst, hnone]
      rfl

/-- Digits take one byte each. -/
theorem length_utf8Chars {value n : Nat} {text : List Char} (h : toNatFrom? value text = some n) :
    (Text.utf8Chars text).length = text.length := by
  induction text generalizing value with
  | nil => rfl
  | cons c text ih =>
    obtain ⟨v, hv, hrest⟩ := toNatFrom?_cons_eq_some_iff.1 h
    have hbytes : Text.utf8Chars (c :: text) = String.utf8EncodeChar c ++ Text.utf8Chars text := rfl
    rw [hbytes, (utf8EncodeChar_of_lt (toNat_lt_of_digitValue? hv)).1, List.length_append,
      ih hrest, List.length_singleton, List.length_cons, Nat.add_comm]

/-! ## Decoding -/

theorem digitAt_eq_ok_iff {byte : UInt8} {index value : Nat} :
    digitAt byte index = .ok value ↔ digitValue? (Text.charOfByte byte) = some value := by
  unfold digitAt
  cases digitValue? (Text.charOfByte byte) <;> simp

theorem toNat_ofPair {h l : Nat} (hh : h < 16) (hl : l < 16) :
    (UInt8.ofNat (16 * h + l)).toNat = 16 * h + l := by
  apply UInt8.toNat_ofNat_of_lt'
  show _ < 256
  omega

/-- A byte read behind a number is the two digits read behind it. -/
theorem toNatLE_reverse_cons (value : Nat) {h l : Nat} (hh : h < 16) (hl : l < 16) (bytes : Bytes) :
    256 ^ bytes.length * (16 * (16 * value + h) + l) + Bytes.toNatLE bytes.reverse =
      256 ^ (UInt8.ofNat (16 * h + l) :: bytes).length * value +
        Bytes.toNatLE (UInt8.ofNat (16 * h + l) :: bytes).reverse := by
  have hvalue : 16 * (16 * value + h) + l = 256 * value + (16 * h + l) := by omega
  rw [List.reverse_cons, Bytes.toNatLE_append, Bytes.toNatLE_singleton, List.length_reverse,
    toNat_ofPair hh hl, hvalue, Nat.mul_add, List.length_cons, Nat.pow_succ, Nat.mul_assoc]
  omega

theorem length_of_decodePairs {text bytes : Bytes} {index : Nat} (heven : text.length % 2 = 0)
    (h : decodePairs index text = .ok bytes) : text.length = 2 * bytes.length := by
  fun_induction decodePairs index text generalizing bytes with
  | case1 index high low rest ih =>
    simp only [bind_eq_ok_iff] at h
    obtain ⟨_, -, _, -, more, hmore, hpair⟩ := h
    cases hpair
    simp only [List.length_cons] at heven ⊢
    have hrest := ih (by omega) hmore
    omega
  | case2 text index hshort =>
    match text with
    | [] => cases h; rfl
    | [_] => cases heven
    | high :: low :: rest => exact absurd rfl (hshort high low rest)

/-- **Pairs of digits are decoded** as the bytes that continue a number by as much. -/
theorem toNatFrom?_eq_some_iff {text : Bytes} (heven : text.length % 2 = 0) (index : Nat)
    {value n : Nat} : toNatFrom? value (text.map Text.charOfByte) = some n ↔
      ∃ bytes, decodePairs index text = .ok bytes ∧
        256 ^ bytes.length * value + Bytes.toNatLE bytes.reverse = n := by
  fun_induction decodePairs index text generalizing value with
  | case1 index high low rest ih =>
    have hrest : rest.length % 2 = 0 := by
      simp only [List.length_cons] at heven
      omega
    rw [List.map_cons, List.map_cons]
    simp only [toNatFrom?_cons_eq_some_iff, ih hrest, bind_eq_ok_iff, digitAt_eq_ok_iff]
    constructor
    · rintro ⟨h, hhigh, l, hlow, bytes, hbytes, rfl⟩
      exact ⟨_, ⟨h, hhigh, l, hlow, bytes, hbytes, rfl⟩,
        (toNatLE_reverse_cons value (digitValue?_spec hhigh).1 (digitValue?_spec hlow).1
          bytes).symm⟩
    · rintro ⟨_, ⟨h, hhigh, l, hlow, bytes, hbytes, hpair⟩, rfl⟩
      cases hpair
      exact ⟨h, hhigh, l, hlow, bytes, hbytes,
        toNatLE_reverse_cons value (digitValue?_spec hhigh).1 (digitValue?_spec hlow).1 bytes⟩
  | case2 text index hshort =>
    match text with
    | [] => simp [pure, Except.pure, Bytes.toNatLE]
    | [_] => cases heven
    | high :: low :: rest => exact absurd rfl (hshort high low rest)

/-- **A text is decoded as the byte string that is the same number**, if it has two digits for every
byte. -/
theorem decode_eq_ok_iff {text : String} {bytes : Bytes} : decode text = .ok bytes ↔
    text.toList.length = 2 * bytes.length ∧
      toNat? text.toList = some (Bytes.toNatLE bytes.reverse) := by
  have hnumber := toNatFrom?_utf8Chars 0 text.toList
  rw [toNat?_eq, decode, Text.utf8]
  constructor
  · intro h
    split_ifs at h with hodd
    have heven : (Text.utf8Chars text.toList).length % 2 = 0 := by omega
    have hread : toNatFrom? 0 ((Text.utf8Chars text.toList).map Text.charOfByte) = some _ :=
      (toNatFrom?_eq_some_iff heven 0).2 ⟨bytes, h, rfl⟩
    rw [hnumber, Nat.mul_zero, Nat.zero_add] at hread
    rw [← length_utf8Chars hread]
    exact ⟨length_of_decodePairs heven h, hread⟩
  · rintro ⟨hlength, hread⟩
    have hcount := length_utf8Chars hread
    have heven : (Text.utf8Chars text.toList).length % 2 = 0 := by omega
    obtain ⟨other, hother, hvalue⟩ := (toNatFrom?_eq_some_iff heven 0).1 (hnumber.trans hread)
    have hsize := length_of_decodePairs heven hother
    rw [Nat.mul_zero, Nat.zero_add] at hvalue
    have hreverse : other.reverse = bytes.reverse := by
      apply Bytes.toNatLE_inj
      · rw [List.length_reverse, List.length_reverse]
        omega
      · exact hvalue
    rw [if_neg (by omega), hother, List.reverse_inj.1 hreverse]

/-! ## Order -/

/-- **Of two equally long texts in lower case the first is the smaller number.** What was read so
far decides first. -/
theorem lt_iff_of_toNatFrom? {a b : List Char} (hlength : a.length = b.length)
    (ha : ∀ c ∈ a, c ∈ lowerDigits) (hb : ∀ c ∈ b, c ∈ lowerDigits) {s t m n : Nat}
    (hm : toNatFrom? s a = some m) (hn : toNatFrom? t b = some n) :
    m < n ↔ s < t ∨ s = t ∧ a < b := by
  induction a generalizing b s t with
  | nil =>
    obtain rfl := List.length_eq_zero_iff.1 hlength.symm
    cases hm
    cases hn
    simp
  | cons c a ih =>
    cases b with
    | nil => cases hlength
    | cons d b =>
      rw [List.forall_mem_cons] at ha hb
      obtain ⟨v, hv, rfl⟩ := mem_lowerDigits_iff.1 ha.1
      obtain ⟨w, hw, rfl⟩ := mem_lowerDigits_iff.1 hb.1
      rw [toNatFrom?_cons, digitValue?_digitChar hv, Option.bind_some] at hm
      rw [toNatFrom?_cons, digitValue?_digitChar hw, Option.bind_some] at hn
      obtain ⟨hlt, heq⟩ := digitChar_lt_iff hv hw
      rw [ih (Nat.succ.inj hlength) ha.2 hb.2 hm hn, List.cons_lt_cons_iff, hlt, heq]
      by_cases htail : a < b
      · simp only [htail, and_true]
        omega
      · simp only [htail, and_false, or_false]
        omega

end Hex

/-! ## Digests -/

namespace Digest

variable {text : String} {digest : Digest}

theorem ofBytes_eq_ok_iff {bytes : Bytes} : ofBytes bytes = .ok digest ↔ bytes = digest.bytes := by
  unfold ofBytes ofBytes?
  split_ifs with hsize
  · simp only [Except.ok.injEq]
    exact ⟨fun h => h ▸ rfl, fun h => Digest.ext h⟩
  · constructor
    · intro h
      cases h
    · rintro rfl
      exact absurd digest.size_eq hsize

/-- The text of a digest is read as the digest when it is decoded to its bytes, last byte first. -/
theorem ofDisplay_eq_ok_iff_decode :
    ofDisplay text = .ok digest ↔ Hex.decode text = .ok digest.bytes.reverse := by
  unfold ofDisplay
  cases Hex.decode text with
  | error fault => exact iff_of_false nofun nofun
  | ok bytes => rw [ofBytes_eq_ok_iff, Except.ok.injEq, List.reverse_eq_iff]

/-- **The text of a digest is its number** in sixty-four digits. -/
theorem ofDisplay_eq_ok_iff : ofDisplay text = .ok digest ↔
    text.toList.length = 64 ∧ Hex.toNat? text.toList = some digest.toNat := by
  rw [ofDisplay_eq_ok_iff_decode, Hex.decode_eq_ok_iff, List.reverse_reverse, List.length_reverse,
    digest.size_eq, toNat]

theorem ofDisplay_display (digest : Digest) : ofDisplay digest.display = .ok digest := by
  rw [ofDisplay_eq_ok_iff_decode, display, Hex.decode_encode]

theorem mem_lowerDigits_of_mem_display {c : Char} (h : c ∈ digest.display.toList) :
    c ∈ Hex.lowerDigits := by
  rw [display, Hex.encode, String.toList_ofList] at h
  obtain ⟨byte, -, hpair⟩ := List.mem_flatMap.1 h
  simp only [Hex.pair, List.mem_cons, List.not_mem_nil, or_false] at hpair
  rcases hpair with rfl | rfl
  · exact Hex.mem_lowerDigits_iff.2 ⟨_, Hex.high_lt byte, rfl⟩
  · exact Hex.mem_lowerDigits_iff.2 ⟨_, Hex.low_lt byte, rfl⟩

/-- **Texts and numbers of digests have one order**, whichever lower-case texts are taken. -/
theorem text_lt_text_iff {a b : Digest} {s t : String} (ha : ofDisplay s = .ok a)
    (hb : ofDisplay t = .ok b) (hs : ∀ c ∈ s.toList, c ∈ Hex.lowerDigits)
    (ht : ∀ c ∈ t.toList, c ∈ Hex.lowerDigits) : s < t ↔ a.toNat < b.toNat := by
  obtain ⟨hslength, hsread⟩ := ofDisplay_eq_ok_iff.1 ha
  obtain ⟨htlength, htread⟩ := ofDisplay_eq_ok_iff.1 hb
  rw [Hex.lt_iff_of_toNatFrom? (hslength.trans htlength.symm) hs ht hsread htread,
    String.lt_iff_toList_lt]
  simp

theorem display_lt_display_iff {a b : Digest} : a.display < b.display ↔ a.toNat < b.toNat :=
  text_lt_text_iff (ofDisplay_display a) (ofDisplay_display b)
    (fun _ => mem_lowerDigits_of_mem_display) fun _ => mem_lowerDigits_of_mem_display

/-- No other text in lower case is read as the digest. -/
theorem eq_display_iff : text = digest.display ↔
    ofDisplay text = .ok digest ∧ ∀ c ∈ text.toList, c ∈ Hex.lowerDigits := by
  constructor
  · rintro rfl
    exact ⟨ofDisplay_display digest, fun c => mem_lowerDigits_of_mem_display⟩
  · rintro ⟨hread, hlower⟩
    have hown := ofDisplay_display digest
    have hdisplay : ∀ c ∈ digest.display.toList, c ∈ Hex.lowerDigits :=
      fun c => mem_lowerDigits_of_mem_display
    -- Neither text comes before the other, because they are the same number.
    apply le_antisymm
    · exact not_lt.1 fun h => Nat.lt_irrefl _ ((text_lt_text_iff hown hread hdisplay hlower).1 h)
    · exact not_lt.1 fun h => Nat.lt_irrefl _ ((text_lt_text_iff hread hown hlower hdisplay).1 h)

/-- **Text, bytes and number of a digest agree.** -/
theorem display_agrees :
    (∀ (text : String) (digest : Digest), ofDisplay text = .ok digest ↔
      text.toList.length = 64 ∧ (∀ c ∈ text.toList, c ∈ Hex.digits) ∧
        Hex.toNat? text.toList = some digest.toNat) ∧
    (∀ (text : String) (digest : Digest), text = digest.display ↔
      ofDisplay text = .ok digest ∧ ∀ c ∈ text.toList, c ∈ Hex.lowerDigits) ∧
    (∀ a b : Digest, a.display < b.display ↔ a.toNat < b.toNat) ∧
    ∀ (a b : Digest) (bits : UInt32) (powLimit : Nat), a.display ≤ b.display →
      Target.check b bits powLimit = .met → Target.check a bits powLimit = .met := by
  refine ⟨fun text digest => ?_, fun text digest => eq_display_iff,
    fun a b => display_lt_display_iff, fun a b bits powLimit hle hmet => ?_⟩
  · rw [ofDisplay_eq_ok_iff]
    constructor
    · rintro ⟨hlength, hread⟩
      refine ⟨hlength, fun c hc => ?_, hread⟩
      obtain ⟨v, hv⟩ := Hex.exists_digitValue?_of_mem hread hc
      exact (Hex.digitValue?_spec hv).2
    · rintro ⟨hlength, -, hread⟩
      exact ⟨hlength, hread⟩
  · obtain ⟨target, htarget, hlimit, hhash⟩ := Target.check_eq_met_iff.1 hmet
    have hnumber : a.toNat ≤ b.toNat :=
      Nat.not_lt.1 (display_lt_display_iff.not.1 (not_lt.2 hle))
    exact Target.check_eq_met_iff.2 ⟨target, htarget, hlimit, Nat.le_trans hnumber hhash⟩

/-- The digest whose number is one. -/
def one : Digest := ⟨1 :: List.replicate 31 0, rfl⟩

theorem display_agrees_one : zero.display ≤ one.display ∧
    Target.check one 0x207fffff (2 ^ 255) = .met ∧
      Target.check zero 0x207fffff (2 ^ 255) = .met := by
  obtain ⟨-, -, horder, hmet⟩ := display_agrees
  have hle : zero.display ≤ one.display := le_of_lt ((horder zero one).2 (by decide))
  have hone : Target.check one 0x207fffff (2 ^ 255) = .met := by decide
  exact ⟨hle, hone, hmet zero one _ _ hle hone⟩

end Digest

end WorkLease
