import WorkLease.Amount
import WorkLease.Hash.Sha256

/-!
# Transactions

A transaction spends outputs of earlier ones and creates new ones. The one that mints coins,
the coinbase, has a single input, and that input spends the null point.
-/

namespace WorkLease

/-- A reference to an output of an earlier transaction. -/
structure OutPoint where
  txid : Digest
  index : UInt32
  deriving DecidableEq

namespace OutPoint

/-- The point that a coinbase spends. -/
def null : OutPoint := ⟨Digest.zero, 0xffffffff⟩

/-- Whether this is the point that a coinbase spends. -/
def isNull (point : OutPoint) : Bool :=
  point.txid = Digest.zero && point.index = 0xffffffff

end OutPoint

structure TxInput where
  spent : OutPoint
  script : Bytes
  sequence : UInt32
  deriving DecidableEq

/-- An output: an amount in base units and the script that locks it. -/
structure TxOutput where
  value : UInt64
  script : Bytes
  deriving DecidableEq

structure Transaction where
  version : Int32
  inputs : List TxInput
  outputs : List TxOutput
  lockTime : UInt32
  deriving DecidableEq

namespace Transaction

/-- Whether the transaction mints coins: its only input spends the null point. -/
def isCoinbase (tx : Transaction) : Bool :=
  match tx.inputs with
  | [input] => input.spent.isNull
  | _ => false

/-- The sum of the output values, if it fits in 64 bits. -/
def outputValue? (tx : Transaction) : Option UInt64 :=
  Amount.sum? (tx.outputs.map TxOutput.value)

end Transaction

end WorkLease
