import WorkLease.CompactSize
import WorkLease.Transaction.Basic

/-!
# The wire form of a transaction

Integers have a fixed width, least significant byte first; lists and scripts come after their
compact size. The identifier of a transaction is the double hash of this form. Its size is
computed without writing it.
-/

namespace WorkLease

/-- A script after its length. -/
def encodeScript (script : Bytes) : Bytes :=
  CompactSize.encode script.length ++ script

def scriptSize (script : Bytes) : Nat :=
  CompactSize.width script.length + script.length

def TxInput.encode (input : TxInput) : Bytes :=
  input.spent.txid.bytes ++ Bytes.ofNatLE 4 input.spent.index.toNat ++
    encodeScript input.script ++ Bytes.ofNatLE 4 input.sequence.toNat

def TxInput.size (input : TxInput) : Nat :=
  32 + 4 + scriptSize input.script + 4

def TxOutput.encode (output : TxOutput) : Bytes :=
  Bytes.ofNatLE 8 output.value.toNat ++ encodeScript output.script

def TxOutput.size (output : TxOutput) : Nat :=
  8 + scriptSize output.script

namespace Transaction

/-- The wire form of a transaction. -/
def encode (tx : Transaction) : Bytes :=
  Bytes.ofNatLE 4 tx.version.toUInt32.toNat ++
    (CompactSize.encode tx.inputs.length ++ tx.inputs.flatMap TxInput.encode) ++
    (CompactSize.encode tx.outputs.length ++ tx.outputs.flatMap TxOutput.encode) ++
    Bytes.ofNatLE 4 tx.lockTime.toNat

/-- The number of bytes of the wire form, from the lengths alone. -/
def size (tx : Transaction) : Nat :=
  4 + CompactSize.width tx.inputs.length + tx.inputs.foldr (·.size + ·) 0 +
    CompactSize.width tx.outputs.length + tx.outputs.foldr (·.size + ·) 0 + 4

def txid (tx : Transaction) : Digest :=
  Sha256.double tx.encode

/-- The wire form as hexadecimal text. -/
def toHex (tx : Transaction) : String :=
  Hex.encode tx.encode

end Transaction

end WorkLease
