import Mathlib.Tactic.Common
import WorkLease.Json

/-!
# What is read from a JSON value

A number is read only if it is an integer of the range that its type stands for, and then as it is:
none is truncated (`Spans.map_intIn?_eq_some_iff`). An optional field that is left out or null shows
no value, and it is read as what it shows (`optional_eq_some_iff`).
-/

namespace WorkLease.Json

variable {json : Json} {shown : Option Json}

/-! ## Values -/

theorem text?_eq_some_iff {text : String} : json.text? = some text ↔ json = .text text := by
  cases json <;> simp [text?]

theorem intIn?_eq_some_iff {low high n : Int} :
    json.intIn? low high = some n ↔ json = .int n ∧ low ≤ n ∧ n < high := by
  cases json with
  | int m =>
    rw [intIn?]
    split_ifs with h
    · simp only [Option.some.injEq, Json.int.injEq]
      exact ⟨fun hm => ⟨hm, hm ▸ h⟩, fun hn => hn.1⟩
    · simp only [Json.int.injEq, false_iff, not_and]
      rintro rfl hlow hhigh
      exact h ⟨hlow, hhigh⟩
  | _ => simp [intIn?]

/-- The values of a type stand for the integers of a half-open range. -/
structure Spans {α : Type} (low high : Int) (toInt : α → Int) (ofInt : Int → α) : Prop where
  low_le : ∀ a, low ≤ toInt a
  lt_high : ∀ a, toInt a < high
  ofInt_toInt : ∀ a, ofInt (toInt a) = a
  toInt_ofInt : ∀ n, low ≤ n → n < high → toInt (ofInt n) = n

theorem spans_int32 : Spans (-0x80000000) 0x80000000 Int32.toInt Int32.ofInt where
  low_le := Int32.le_toInt
  lt_high := Int32.toInt_lt
  ofInt_toInt := Int32.ofInt_toInt
  toInt_ofInt _ hlow hhigh := Int32.toInt_ofInt_of_le hlow hhigh

theorem spans_uint32 :
    Spans 0 UInt32.size (fun n : UInt32 => n.toNat) (UInt32.ofNat ∘ Int.toNat) where
  low_le n := Int.natCast_nonneg n.toNat
  lt_high n := Int.ofNat_lt.2 n.toNat_lt
  ofInt_toInt n := by rw [Function.comp_apply, Int.toNat_natCast, UInt32.ofNat_toNat]
  toInt_ofInt n hlow hhigh := by
    have hlt : n.toNat < UInt32.size := by omega
    rw [Function.comp_apply, UInt32.toNat_ofNat_of_lt' hlt, Int.toNat_of_nonneg hlow]

section Spans

variable {α : Type} {low high : Int} {toInt : α → Int} {ofInt : Int → α}

/-- **A number is read as it is**, and only from its range. -/
theorem Spans.map_intIn?_eq_some_iff (h : Spans low high toInt ofInt) {a : α} :
    (json.intIn? low high).map ofInt = some a ↔ json = .int (toInt a) := by
  rw [Option.map_eq_some_iff]
  constructor
  · rintro ⟨n, hread, rfl⟩
    obtain ⟨rfl, hlow, hhigh⟩ := intIn?_eq_some_iff.1 hread
    rw [h.toInt_ofInt n hlow hhigh]
  · rintro rfl
    exact ⟨toInt a, intIn?_eq_some_iff.2 ⟨rfl, h.low_le a, h.lt_high a⟩, h.ofInt_toInt a⟩

theorem Spans.exists_iff (h : Spans low high toInt ofInt) :
    (∃ n, json = .int n ∧ low ≤ n ∧ n < high) ↔ ∃ a, json = .int (toInt a) := by
  constructor
  · rintro ⟨n, rfl, hlow, hhigh⟩
    exact ⟨ofInt n, by rw [h.toInt_ofInt n hlow hhigh]⟩
  · rintro ⟨a, rfl⟩
    exact ⟨toInt a, rfl, h.low_le a, h.lt_high a⟩

end Spans

theorem int32?_eq_some_iff {n : Int32} : json.int32? = some n ↔ json = .int n.toInt :=
  spans_int32.map_intIn?_eq_some_iff

theorem uint32?_eq_some_iff {n : UInt32} : json.uint32? = some n ↔ json = .int n.toNat := by
  rw [uint32?, natBelow?, Option.map_map]
  exact spans_uint32.map_intIn?_eq_some_iff

/-! ## Optional fields -/

/-- What is shown of a value that may be missing: nothing is shown by a field that is left out, and
by null. -/
def Shows (shown value : Option Json) : Prop :=
  shown = value ∨ value = none ∧ shown = some .null

theorem optional_of_ne_null {α : Type} {read : Json → Option α} (h : json ≠ .null) :
    optional read (some json) = (read json).map some := by
  cases json with
  | null => exact absurd rfl h
  | _ => rfl

/-- **An optional field is read as what it shows**, if its values are read as they are. -/
theorem optional_eq_some_iff {α : Type} {read : Json → Option α} {write : α → Json}
    (hread : ∀ json a, read json = some a ↔ json = write a) (hnull : ∀ a, write a ≠ .null)
    {result : Option α} :
    optional read shown = some result ↔ Shows shown (result.map write) := by
  cases shown with
  | none =>
    show some none = some result ↔ _
    cases result <;> simp [Shows]
  | some json =>
    by_cases h : json = .null
    · subst h
      show some none = some result ↔ _
      cases result with
      | none => simp [Shows]
      | some a => simp [Shows, (hnull a).symm]
    · rw [optional_of_ne_null h]
      cases result with
      | none => simp [Shows, h]
      | some a => simp [Shows, hread]

end WorkLease.Json
