import WorkLease.Error

/-!
# Digests

A digest is 32 bytes. It is stored and hashed in one byte order and shown in the other: the
text that callers read has the last byte first, so that it is the base-16 form of the number
whose little-endian digits the stored bytes are. That number is what proof of work compares.
-/

namespace WorkLease

structure Digest where
  bytes : Bytes
  size_eq : bytes.length = 32
  deriving DecidableEq

namespace Digest

@[ext] theorem ext {a b : Digest} (h : a.bytes = b.bytes) : a = b := by
  cases a
  cases b
  simp_all

def zero : Digest := ⟨List.replicate 32 0, rfl⟩

instance : Inhabited Digest := ⟨zero⟩

/-- The digest with the given bytes, if there are thirty-two. -/
def ofBytes? (bytes : Bytes) : Option Digest :=
  if h : bytes.length = 32 then some ⟨bytes, h⟩ else none

/-- The digest with the given bytes; any other number of them is a mistake of the caller. -/
def ofBytes (bytes : Bytes) : Except ProtocolError Digest :=
  match ofBytes? bytes with
  | some digest => .ok digest
  | none => .error (.invalidArgument (.digestLength bytes.length))

/-- The stored bytes, read as a little-endian number. -/
def toNat (digest : Digest) : Nat :=
  Bytes.toNatLE digest.bytes

/-- The text that callers read: the last byte first. -/
def display (digest : Digest) : String :=
  Hex.encode digest.bytes.reverse

/-- Reads the text that `display` writes, in either case. -/
def ofDisplay (text : String) : Except ProtocolError Digest :=
  match Hex.decode text with
  | .ok bytes => ofBytes bytes.reverse
  | .error fault => .error (.invalidArgument (.digestHex fault))

end Digest

end WorkLease
