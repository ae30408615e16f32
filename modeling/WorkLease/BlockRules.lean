import WorkLease.Target
import WorkLease.Template.Basic

/-!
# Block rules

The rules that every solved block has to keep, each with the reason that a miner reads when it
is broken. `check` tries them in a fixed order and names the first broken one. For a block
that was assembled from a template it hashes the coinbase alone and takes the identifiers of
the other transactions from the template.
-/

namespace WorkLease

inductive BrokenRule where
  | badDifficultyBits
  | coinbaseMissing
  | coinbaseMultiple
  | coinbaseHeight
  | coinbaseAmount
  | merkleRoot
  | duplicateTransaction
  | blockLength
  | timeTooOld
  | timeTooNew
  deriving DecidableEq

/-- The reason reported for a broken rule. -/
def BrokenRule.reason : BrokenRule → String
  | badDifficultyBits => "bad-diffbits"
  | coinbaseMissing => "bad-cb-missing"
  | coinbaseMultiple => "bad-cb-multiple"
  | coinbaseHeight => "bad-cb-height"
  | coinbaseAmount => "bad-cb-amount"
  | merkleRoot => "bad-txnmrklroot"
  | duplicateTransaction => "bad-txns-duplicate"
  | blockLength => "bad-blk-length"
  | timeTooOld => "time-too-old"
  | timeTooNew => "time-too-new"

/-- The limits that a block is checked against. -/
structure BlockLimits where
  /-- The easiest target. -/
  powLimit : Nat
  maxBlockSize : Nat
  /-- How many seconds a block may be ahead of the clock. -/
  maxFutureSecs : Nat
  now : UInt64

namespace BlockRules

abbrev Check := Except BrokenRule Unit

def ensure (condition : Prop) [Decidable condition] (violation : BrokenRule) : Check :=
  if condition then .ok () else .error violation

/-- The first transaction is a coinbase, and no other is. -/
def coinbasePlacement (block : Block) : Check :=
  match block.transactions with
  | first :: rest => do
      ensure (first.isCoinbase = true) .coinbaseMissing
      ensure (rest.any Transaction.isCoinbase = false) .coinbaseMultiple
  | [] => .error .coinbaseMissing

def distinctTxids (txids : List Digest) : Check :=
  ensure txids.Nodup .duplicateTransaction

/-- The header commits to the identifiers. -/
def committedRoot (block : Block) (txids : List Digest) : Check :=
  ensure (Merkle.root txids = block.header.merkleRoot) .merkleRoot

/-- The rules that need nothing but the block, with the identifiers already known. -/
def standaloneWith (block : Block) (txids : List Digest) : Check := do
  coinbasePlacement block
  distinctTxids txids
  committedRoot block txids

/-- The rules that need nothing but the block. -/
def standalone (block : Block) : Check :=
  standaloneWith block block.txids

/-- The identifiers of a block assembled from a template: only the coinbase is hashed. -/
def cachedTxids (block : Block) (template : Template) : List Digest :=
  (block.coinbase?.map Transaction.txid).toList ++ template.txids

/-- The coinbase commits to the height and pays no more than it may. -/
def coinbaseTerms (block : Block) (template : Template) : Check :=
  match block.coinbase? with
  | none => .error .coinbaseMissing
  | some coinbase => do
      ensure (Coinbase.commitsTo coinbase template.height = true) .coinbaseHeight
      match coinbase.outputValue? with
      | some paid => ensure (paid ≤ template.coinbaseValue) .coinbaseAmount
      | none => .error .coinbaseAmount

/-- The time is after the median time past and not too far ahead of the clock. -/
def timeWindow (time medianTimePast : UInt32) (limits : BlockLimits) : Check := do
  ensure (medianTimePast < time) .timeTooOld
  ensure (time.toNat ≤ limits.now.toNat + limits.maxFutureSecs) .timeTooNew

/-- The bits stand for a target no easier than the limit. -/
def difficulty (bits : UInt32) (powLimit : Nat) : Check :=
  match Target.ofBits bits with
  | .ok target => ensure (target ≤ powLimit) .badDifficultyBits
  | .error _ => .error .badDifficultyBits

/-- Every rule, for a block assembled from the template. -/
def check (block : Block) (template : Template) (limits : BlockLimits) : Check := do
  difficulty block.header.bits limits.powLimit
  standaloneWith block (cachedTxids block template)
  coinbaseTerms block template
  ensure (block.size ≤ limits.maxBlockSize) .blockLength
  timeWindow block.header.time template.medianTimePast limits

end BlockRules

end WorkLease
