import WorkLease.Text.Quoted

/-!
# Hexadecimal text

Bytes are written as two lower-case digits each, the high half first. Reading accepts both
cases; it refuses an odd number of bytes of text before it looks at any of them, and otherwise
names the first byte that is no digit.
-/

namespace WorkLease

/-- Why a text is not the hexadecimal form of a byte string. -/
inductive HexError where
  | oddLength
  | badDigit (byte : UInt8) (index : Nat)
  deriving DecidableEq

def HexError.message : HexError → String
  | .oddLength => "Odd number of digits"
  | .badDigit byte index => s!"Invalid character {Text.quoted byte} at position {index}"

namespace Hex

/-- The value of a hexadecimal digit of either case. -/
def digitValue? (c : Char) : Option Nat :=
  if '0' ≤ c ∧ c ≤ '9' then some (c.toNat - 48)
  else if 'a' ≤ c ∧ c ≤ 'f' then some (c.toNat - 87)
  else if 'A' ≤ c ∧ c ≤ 'F' then some (c.toNat - 55)
  else none

/-- The two digits of a byte, high half first. -/
def pair (byte : UInt8) : List Char :=
  [Nat.digitChar (byte.toNat / 16), Nat.digitChar (byte.toNat % 16)]

def encode (bytes : Bytes) : String :=
  String.ofList (bytes.flatMap pair)

/-- The value of the digit at `index` of a text. -/
def digitAt (byte : UInt8) (index : Nat) : Except HexError Nat :=
  match digitValue? (Text.charOfByte byte) with
  | some value => .ok value
  | none => .error (.badDigit byte index)

/-- Reads digits two by two; `index` is the position of the first of them. -/
def decodePairs (index : Nat) : Bytes → Except HexError Bytes
  | high :: low :: rest => do
      let h ← digitAt high index
      let l ← digitAt low (index + 1)
      let bytes ← decodePairs (index + 2) rest
      return UInt8.ofNat (16 * h + l) :: bytes
  | _ => return []

/-- The byte string whose hexadecimal form is the given text. -/
def decode (text : String) : Except HexError Bytes :=
  let digits := Text.utf8 text
  if digits.length % 2 = 1 then .error .oddLength else decodePairs 0 digits

/-- The `width` lowest hexadecimal digits of a number, most significant first. -/
def digitsOfNat : Nat → Nat → List Char
  | 0, _ => []
  | width + 1, n => digitsOfNat width (n / 16) ++ [Nat.digitChar (n % 16)]

/-- A number as hexadecimal text of a fixed width. -/
def ofNat (width n : Nat) : String :=
  String.ofList (digitsOfNat width n)

/-- The number written by hexadecimal digits, most significant first. -/
def toNat? (digits : List Char) : Option Nat :=
  digits.foldlM (fun value c => (digitValue? c).map (16 * value + ·)) 0

end Hex

end WorkLease
