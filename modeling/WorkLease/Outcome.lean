import WorkLease.Hash.Digest

/-!
# Submissions and outcomes

A submission is a solution for an issued candidate. When it is well formed its result is an
outcome, also when the block is refused; each refusal has a reason that the miner reads.
-/

namespace WorkLease

/-- A solution for an issued candidate. -/
structure Submission where
  id : String
  nonce : Option UInt32 := none
  /-- A coinbase in place of the one of the template, in hexadecimal. -/
  coinbase : Option String := none
  /-- A time in place of the one of the template. -/
  time : Option UInt32 := none
  /-- A version in place of the one of the template. -/
  version : Option Int32 := none
  deriving DecidableEq

inductive Outcome where
  /-- The block is the new tip. -/
  | accepted (hash : Digest) (height : UInt64)
  | highHash
  /-- The tip moved first. -/
  | staleTip
  | invalid (reason : String)
  /-- The block validator did not answer in time. -/
  | timedOut
  deriving DecidableEq

namespace Outcome

def isAccepted : Outcome → Bool
  | accepted _ _ => true
  | _ => false

def reason : Outcome → Option String
  | accepted _ _ => none
  | highHash => some "high-hash"
  | staleTip => some "stale-tip"
  | invalid reason => some reason
  | timedOut => some "validation-timeout"

end Outcome

end WorkLease
