import WorkLease.Bytes

/-!
# Texts as bytes

A text is read byte by byte in UTF-8; a byte on its own stands for the character of the same
number.
-/

namespace WorkLease.Text

/-- The UTF-8 bytes of a list of characters. -/
def utf8Chars (chars : List Char) : Bytes :=
  chars.flatMap String.utf8EncodeChar

def utf8 (text : String) : Bytes :=
  utf8Chars text.toList

/-- The character with the same number as a byte. -/
def charOfByte (byte : UInt8) : Char :=
  Char.ofNat byte.toNat

end WorkLease.Text
