import WorkLease.Cursor
import WorkLease.Text.Blank
import WorkLease.Transaction.Encoding

/-!
# Reading transactions

`Transaction.decode` reads the wire form and refuses bytes after it. Every declared length is
bounded before anything is read by it: a script by its greatest size, a list by the bytes that
its shortest elements would take.
-/

namespace WorkLease

/-- The greatest number of bytes of a script that is read. -/
def maxScriptSize : Nat := 10000

/-- The number of bytes of the shortest input. -/
def minInputSize : Nat := 41

def minOutputSize : Nat := 9

namespace Cursor

/-- Reads a script after its length. -/
def script : Reader Bytes := fun c => do
  let (n, c) ← c.length maxScriptSize
  let (bytes, c) ← c.take n
  return (bytes.val, c)

def input : Reader TxInput := fun c => do
  let (txid, c) ← c.digest
  let (index, c) ← c.nat 4
  let (script, c) ← c.script
  let (sequence, c) ← c.nat 4
  return (⟨⟨txid, UInt32.ofNat index⟩, script, UInt32.ofNat sequence⟩, c)

def output : Reader TxOutput := fun c => do
  let (value, c) ← c.nat 8
  let (script, c) ← c.script
  return (⟨UInt64.ofNat value, script⟩, c)

/-- Reads the elements of a list after their number, each of at least `least` bytes. -/
def counted {α : Type} (least : Nat) (item : Reader α) : Reader (List α) := fun c => do
  let (n, c) ← c.length (c.rest.length / least)
  c.many item n

def transaction : Reader Transaction := fun c => do
  let (version, c) ← c.nat 4
  let (inputs, c) ← c.counted minInputSize input
  let (outputs, c) ← c.counted minOutputSize output
  let (lockTime, c) ← c.nat 4
  return (⟨(UInt32.ofNat version).toInt32, inputs, outputs, UInt32.ofNat lockTime⟩, c)

end Cursor

namespace Transaction

/-- The transaction whose wire form is the whole of the given bytes. -/
def decode (bytes : Bytes) : Except WireError Transaction := do
  let (tx, c) ← (Cursor.start bytes).transaction
  if c.rest.length = 0 then return tx else .error (.trailingBytes c.rest.length)

/-- The transaction written by a hexadecimal text, blanks around it aside. -/
def ofHex (text : String) : Except WireError Transaction :=
  match Hex.decode (Text.trim text) with
  | .ok bytes => decode bytes
  | .error fault => .error (.hex fault)

end Transaction

end WorkLease
