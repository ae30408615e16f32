/-!
# JSON values

A value as it is received or sent, and how values of the domain are read from it. A number is
an integer of at most 64 bits or it is real; a real number is never taken for an integer. A
record is read by the names of its fields, or from an array in their order; a field that is
not expected is passed over by name, but an array must not be longer than the record.
-/

namespace WorkLease

/-- A JSON value. The fields of an object have different names. -/
inductive Json where
  | null
  | bool (value : Bool)
  | int (value : Int)
  /-- A number with a fraction or an exponent, or beyond 64 bits, as it was written. -/
  | real (literal : String)
  | text (value : String)
  | array (items : List Json)
  | object (fields : List (String × Json))

namespace Json

def field? (name : String) : Json → Option Json
  | object fields => fields.lookup name
  | _ => none

/-- The integer in the half-open range, if the value is one. -/
def intIn? (low high : Int) : Json → Option Int
  | int n => if low ≤ n ∧ n < high then some n else none
  | _ => none

/-- An unsigned number below a bound. -/
def natBelow? (bound : Nat) (json : Json) : Option Nat :=
  (json.intIn? 0 bound).map Int.toNat

def uint8? (json : Json) : Option UInt8 := (json.natBelow? UInt8.size).map UInt8.ofNat

def uint32? (json : Json) : Option UInt32 := (json.natBelow? UInt32.size).map UInt32.ofNat

def uint64? (json : Json) : Option UInt64 := (json.natBelow? UInt64.size).map UInt64.ofNat

def int32? (json : Json) : Option Int32 :=
  (json.intIn? (-2147483648) 2147483648).map Int32.ofInt

def text? : Json → Option String
  | text value => some value
  | _ => none

def list? {α : Type} (item : Json → Option α) : Json → Option (List α)
  | array items => items.mapM item
  | _ => none

/-- The fields of a record with the given names, in their order. -/
def record? (names : List String) : Json → Option (String → Option Json)
  | object fields => some fun name => fields.lookup name
  | array items =>
      if items.length ≤ names.length then some fun name => (names.zip items).lookup name
      else none
  | _ => none

/-- A field that must be there. -/
def required {α : Type} (read : Json → Option α) (value : Option Json) : Option α :=
  value.bind read

/-- A field that takes a default when it is not there. -/
def orElse {α : Type} (default : α) (read : Json → Option α) (value : Option Json) : Option α :=
  match value with
  | none => some default
  | some json => read json

/-- A field that may be absent or null. -/
def optional {α : Type} (read : Json → Option α) (value : Option Json) : Option (Option α) :=
  match value with
  | none | some null => some none
  | some json => (read json).map some

end Json

end WorkLease
