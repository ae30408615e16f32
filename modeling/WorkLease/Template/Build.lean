import WorkLease.Chain
import WorkLease.Config
import WorkLease.Template.Basic

/-!
# Building templates

A template takes transactions from the pool in their order, as long as each fits: none that
looks like a coinbase, none twice, none that would push the block over its size. Room for the
header, the count and a coinbase is held back first.
-/

namespace WorkLease

/-- A transaction of the pool and the fee that it pays. -/
structure PoolEntry where
  tx : Transaction
  fee : UInt64
  deriving DecidableEq

/-- An entry of the pool that is taken into a block, with its identifier. -/
structure Selected where
  entry : PoolEntry
  txid : Digest

namespace Template

/-- The bytes held back for the header, the transaction count and the coinbase. -/
def baseSize : Nat :=
  Header.size + CompactSize.width 0xffffffff + Coinbase.reserve

/-- Takes the entries that fit, in order: at most `slots` of them and at most `room` bytes,
and none whose identifier is in `taken` already. -/
def select (slots room : Nat) (taken : List Digest) : List PoolEntry → List Selected
  | [] => []
  | entry :: rest =>
      if slots = 0 then []
      else if entry.tx.isCoinbase || room < entry.tx.size then select slots room taken rest
      else
        let txid := entry.tx.txid
        if txid ∈ taken then select slots room taken rest
        else ⟨entry, txid⟩ ::
          select (slots - 1) (room - entry.tx.size) (txid :: taken) rest

/-- The template on a tip with the entries that fit. The time is raised to one past the median
time past of the tip when it is behind that. -/
def build (policy : BlockPolicy) (payout : Bytes) (tip : Tip) (pool : List PoolEntry)
    (withCoinbase : Bool) (now : UInt32) : Except ProtocolError Template :=
  match Amount.add? tip.height 1 with
  | none => .error .heightOverflow
  | some height =>
    let chosen := select policy.maxTransactions (policy.maxBlockSize - baseSize) [] pool
    match Amount.sum? (chosen.map (·.entry.fee)) with
    | none => .error .feeOverflow
    | some totalFees =>
      match Amount.add? (Coinbase.subsidy height policy.halvingInterval) totalFees with
      | none => .error .valueOverflow
      | some coinbaseValue =>
        let txids := chosen.map (·.txid)
        .ok {
          parent := tip.hash
          height
          version := policy.version
          bits := tip.nextBits
          time := max now tip.earliestTime
          medianTimePast := tip.medianTimePast
          coinbaseValue
          totalFees
          branch := (Merkle.branch Digest.zero txids).1
          coinbase :=
            if withCoinbase then some (Coinbase.create height coinbaseValue payout) else none
          transactions := chosen.map (·.entry.tx)
          txids }

end Template

end WorkLease
