import WorkLease.Text.Utf8

/-!
# Quoted bytes

A message that names a byte shows it as a character between single quotes.
-/

namespace WorkLease.Text

/-- How a character below 256 is written between quotes: the usual short escapes, the
characters without a visible form by number, and the others as they are. -/
def escaped (c : Char) : String :=
  let n := c.toNat
  if n = 0x00 then "\\0"
  else if n = 0x09 then "\\t"
  else if n = 0x0a then "\\n"
  else if n = 0x0d then "\\r"
  else if n = 0x27 then "\\\x27"
  else if n = 0x5c then "\\\\"
  else if n < 0x20 || (0x7f ≤ n && n ≤ 0xa0) || n = 0xad then
    "\\u\x7b" ++ String.ofList (Nat.toDigits 16 n) ++ "\x7d"
  else c.toString

/-- A byte as a character in single quotes. -/
def quoted (byte : UInt8) : String :=
  "\x27" ++ escaped (charOfByte byte) ++ "\x27"

end WorkLease.Text
