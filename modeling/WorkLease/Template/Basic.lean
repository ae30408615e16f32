import WorkLease.Block
import WorkLease.Coinbase
import WorkLease.Merkle

/-!
# Templates

A template is everything of a block but its coinbase and its work. The branch of the coinbase
slot is enough to find the merkle root for any coinbase, so a miner needs neither the
transactions nor their identifiers.
-/

namespace WorkLease

structure Template where
  /-- The tip it extends. -/
  parent : Digest
  height : UInt64
  version : Int32
  bits : UInt32
  time : UInt32
  /-- The median time past of the parent; the time of the block must be later. -/
  medianTimePast : UInt32
  /-- What the coinbase may pay: subsidy and fees. -/
  coinbaseValue : UInt64
  totalFees : UInt64
  /-- The neighbours of the coinbase slot on the way up to the merkle root. -/
  branch : List Digest
  /-- The coinbase built by the node, if the miner asked for one. -/
  coinbase : Option Transaction
  /-- The transactions after the coinbase, in block order. -/
  transactions : List Transaction
  txids : List Digest

namespace Template

/-- The header for a merkle root and the fields that a miner may choose. -/
def headerFor (template : Template) (merkleRoot : Digest) (time : UInt32) (version : Int32)
    (nonce : UInt32) : Header :=
  ⟨version, template.parent, merkleRoot, time, template.bits, nonce⟩

/-- The merkle root for a coinbase, found from the branch alone. -/
def rootWith (template : Template) (coinbase : Transaction) : Digest :=
  Merkle.fold coinbase.txid template.branch

def complete (template : Template) (header : Header) (coinbase : Transaction) : Block :=
  ⟨header, coinbase :: template.transactions⟩

/-- The coinbase of the preview: the one built by the node, or else one that anyone can
spend. -/
def previewCoinbase (template : Template) : Transaction :=
  template.coinbase.getD
    (Coinbase.create template.height template.coinbaseValue Coinbase.anyoneCanSpend)

/-- The unsolved block that is tested before the template is issued. -/
def preview (template : Template) : Block :=
  let coinbase := template.previewCoinbase
  let root := Merkle.root (coinbase.txid :: template.txids)
  template.complete (template.headerFor root template.time template.version 0) coinbase

end Template

end WorkLease
