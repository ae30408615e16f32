import WorkLease.Hash.Digest

/-!
# Reading byte strings

A cursor is a place in a byte string. Each reader takes what it reads off the front, or says
why the bytes there are none of its values.
-/

namespace WorkLease

/-- Why bytes are not the wire form of a transaction. -/
inductive WireError where
  /-- The input ended; `offset` is where the missing field starts. -/
  | truncated (offset : Nat)
  | trailingBytes (count : Nat)
  /-- A count was written in a longer form than it needs. -/
  | nonCanonicalSize
  /-- A declared length is above its limit or above the bytes that are left. -/
  | oversized (length : Nat)
  | hex (fault : HexError)
  deriving DecidableEq

def WireError.message : WireError → String
  | truncated offset => s!"unexpected end of data at offset {offset}"
  | trailingBytes count => s!"{count} trailing bytes"
  | nonCanonicalSize => "non-canonical compact size"
  | oversized length => s!"length {length} exceeds limit"
  | hex fault => s!"invalid hex: {fault.message}"

/-- The bytes not yet read, and how many were read before them. -/
structure Cursor where
  offset : Nat
  rest : Bytes

/-- A step that reads one value. -/
abbrev Reader (α : Type) := Cursor → Except WireError (α × Cursor)

namespace Cursor

/-- The cursor at the start of a byte string. -/
def start (bytes : Bytes) : Cursor := ⟨0, bytes⟩

def take (n : Nat) : Reader { bytes : Bytes // bytes.length = n } := fun c =>
  if h : (c.rest.take n).length = n then
    .ok (⟨c.rest.take n, h⟩, ⟨c.offset + n, c.rest.drop n⟩)
  else
    .error (.truncated c.offset)

/-- Reads a number of `width` bytes, least significant first. -/
def nat (width : Nat) : Reader Nat := fun c => do
  let (bytes, c) ← c.take width
  return (Bytes.toNatLE bytes.val, c)

def digest : Reader Digest := fun c => do
  let (bytes, c) ← c.take 32
  return (⟨bytes.val, bytes.property⟩, c)

/-- Reads a number of `width` bytes that must be at least `least`. -/
def natFrom (least width : Nat) : Reader Nat := fun c => do
  let (n, c) ← c.nat width
  if n < least then .error .nonCanonicalSize else return (n, c)

/-- Reads a compact size, which must be in its shortest form. -/
def compactSize : Reader Nat := fun c => do
  let (marker, c) ← c.nat 1
  if marker = 0xfd then c.natFrom 0xfd 2
  else if marker = 0xfe then c.natFrom 0x10000 4
  else if marker = 0xff then c.natFrom 0x100000000 8
  else return (marker, c)

/-- Reads a declared length, bounded by `limit` and by the number of bytes left. -/
def length (limit : Nat) : Reader Nat := fun c => do
  let (n, c) ← c.compactSize
  if limit < n ∨ c.rest.length < n then .error (.oversized n) else return (n, c)

def many {α : Type} (item : Reader α) : Nat → Reader (List α)
  | 0, c => return ([], c)
  | n + 1, c => do
      let (x, c) ← item c
      let (xs, c) ← many item n c
      return (x :: xs, c)

end Cursor

end WorkLease
