import WorkLease.Block
import WorkLease.Json

/-!
# Transactions and blocks as JSON

Digests are texts, with or without `0x` before the digits; scripts are arrays of bytes.
-/

namespace WorkLease

open Json

namespace Digest

/-- Whether a byte of text is a blank that may stand between digits. -/
def isDigitBlank (byte : UInt8) : Bool :=
  byte = 0x20 || byte = 0x09 || byte = 0x0a || byte = 0x0d

/-- The bytes of a list of digit values, two digits a byte; a digit left over is dropped. -/
def pairUp : List Nat → Bytes
  | high :: low :: rest => UInt8.ofNat (16 * high + low) :: pairUp rest
  | _ => []

/-- The digest of sixty-four bytes of text: digits in either case, with blanks passed over and
zero bytes for what they take the place of. -/
def ofDigitText (text : Bytes) : Option Digest := do
  if text.length = 64 then
    let digits ← (text.filter (!isDigitBlank ·)).mapM fun b => Hex.digitValue? (Text.charOfByte b)
    let bytes := pairUp digits
    ofBytes? (bytes ++ List.replicate (32 - bytes.length) 0)
  else none

def ofJson? (json : Json) : Option Digest := do
  match Text.utf8 (← json.text?) with
  | 0x30 :: 0x78 :: digits => ofDigitText digits
  | digits => ofDigitText digits

def toJson (digest : Digest) : Json :=
  .text ("0x" ++ Hex.encode digest.bytes)

end Digest

def scriptOfJson? (json : Json) : Option Bytes :=
  json.list? uint8?

def scriptToJson (script : Bytes) : Json :=
  .array (script.map fun byte => .int byte.toNat)

namespace OutPoint

def ofJson? (json : Json) : Option OutPoint := do
  let field ← json.record? ["txid", "index"]
  return ⟨← required Digest.ofJson? (field "txid"), ← required uint32? (field "index")⟩

def toJson (point : OutPoint) : Json :=
  .object [("txid", point.txid.toJson), ("index", .int point.index.toNat)]

end OutPoint

namespace TxInput

def ofJson? (json : Json) : Option TxInput := do
  let field ← json.record? ["prev_out", "script_sig", "sequence"]
  return {
    spent := ← required OutPoint.ofJson? (field "prev_out")
    script := ← required scriptOfJson? (field "script_sig")
    sequence := ← required uint32? (field "sequence") }

def toJson (input : TxInput) : Json :=
  .object [
    ("prev_out", input.spent.toJson),
    ("script_sig", scriptToJson input.script),
    ("sequence", .int input.sequence.toNat)]

end TxInput

namespace TxOutput

def ofJson? (json : Json) : Option TxOutput := do
  let field ← json.record? ["value", "script_pubkey"]
  return ⟨← required uint64? (field "value"), ← required scriptOfJson? (field "script_pubkey")⟩

def toJson (output : TxOutput) : Json :=
  .object [
    ("value", .int output.value.toNat),
    ("script_pubkey", scriptToJson output.script)]

end TxOutput

namespace Transaction

def ofJson? (json : Json) : Option Transaction := do
  let field ← json.record? ["version", "inputs", "outputs", "lock_time"]
  return {
    version := ← required int32? (field "version")
    inputs := ← required (list? TxInput.ofJson?) (field "inputs")
    outputs := ← required (list? TxOutput.ofJson?) (field "outputs")
    lockTime := ← required uint32? (field "lock_time") }

def toJson (tx : Transaction) : Json :=
  .object [
    ("version", .int tx.version.toInt),
    ("inputs", .array (tx.inputs.map TxInput.toJson)),
    ("outputs", .array (tx.outputs.map TxOutput.toJson)),
    ("lock_time", .int tx.lockTime.toNat)]

end Transaction

namespace Header

def ofJson? (json : Json) : Option Header := do
  let field ← json.record? ["version", "prev_hash", "merkle_root", "time", "bits", "nonce"]
  return {
    version := ← required int32? (field "version")
    parent := ← required Digest.ofJson? (field "prev_hash")
    merkleRoot := ← required Digest.ofJson? (field "merkle_root")
    time := ← required uint32? (field "time")
    bits := ← required uint32? (field "bits")
    nonce := ← required uint32? (field "nonce") }

def toJson (header : Header) : Json :=
  .object [
    ("version", .int header.version.toInt),
    ("prev_hash", header.parent.toJson),
    ("merkle_root", header.merkleRoot.toJson),
    ("time", .int header.time.toNat),
    ("bits", .int header.bits.toNat),
    ("nonce", .int header.nonce.toNat)]

end Header

namespace Block

def ofJson? (json : Json) : Option Block := do
  let field ← json.record? ["header", "transactions"]
  return {
    header := ← required Header.ofJson? (field "header")
    transactions := ← required (list? Transaction.ofJson?) (field "transactions") }

def toJson (block : Block) : Json :=
  .object [
    ("header", block.header.toJson),
    ("transactions", .array (block.transactions.map Transaction.toJson))]

end Block

end WorkLease
