import WorkLease.Transaction.Basic

/-!
# Coinbases

The subsidy starts at fifty coins and halves every `interval` blocks. A coinbase commits to
the height of its block: its script starts with a push of the height as a script number, the
shortest little-endian form whose last byte has a clear top bit. `heightScript` writes the
commitment and `readHeight` reads it back.
-/

namespace WorkLease.Coinbase

/-- Base units per coin. -/
def coin : Nat := 100000000

/-- The subsidy of the first block, in coins. -/
def initialCoins : Nat := 50

def anyoneCanSpend : Bytes := [0x51]

/-- Bytes of block space held back for the coinbase. -/
def reserve : Nat := 1000

/-- The coins that the block at `height` mints, in base units. -/
def subsidy (height interval : UInt64) : UInt64 :=
  let halvings := height.toNat / max interval.toNat 1
  if 64 ≤ halvings then 0 else UInt64.ofNat ((initialCoins * coin) >>> halvings)

/-- The base-256 digits of a number, least significant first, with no zero at the end. -/
def digits (n : Nat) : Bytes :=
  if n = 0 then [] else UInt8.ofNat n :: digits (n / 256)
  termination_by n
  decreasing_by omega

/-- Whether the last byte of a number has its top bit set, which would read as a sign. -/
def signSet (number : Bytes) : Bool :=
  match number.getLast? with
  | some last => 0x80 ≤ last
  | none => false

def heightNumber (height : UInt64) : Bytes :=
  let number := digits height.toNat
  if signSet number then number ++ [0] else number

/-- The push that commits to a height; height zero is the empty push. -/
def heightScript (height : UInt64) : Bytes :=
  let number := heightNumber height
  UInt8.ofNat number.length :: number

/-- The height that a script commits to at its start. -/
def readHeight (script : Bytes) : Option UInt64 :=
  match script with
  | [] => none
  | length :: rest =>
      let size := length.toNat
      let number := rest.take size
      if 8 < size ∨ number.length < size ∨ signSet number then none
      else
        let height := UInt64.ofNat (Bytes.toNatLE number)
        -- Only the shortest form commits to the height.
        if heightScript height = length :: number then some height else none

/-- Whether the first input of a transaction commits to `height`. -/
def commitsTo (tx : Transaction) (height : UInt64) : Bool :=
  match tx.inputs with
  | input :: _ => (heightScript height).isPrefixOf input.script
  | [] => false

/-- The coinbase of one output: it commits to `height` and pays `value` to `payout`. -/
def create (height value : UInt64) (payout : Bytes) : Transaction where
  version := 1
  inputs :=
    -- A coinbase script has at least two bytes.
    let script := heightScript height
    [⟨OutPoint.null, if script.length < 2 then script ++ [0] else script, 0xffffffff⟩]
  outputs := [⟨value, payout⟩]
  lockTime := 0

end WorkLease.Coinbase
