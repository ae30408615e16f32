import WorkLease.Outcome

/-!
# Counters

What a node counts over its life. Every counter starts again from zero after 2 ^ 64 - 1.
-/

namespace WorkLease

structure Counters where
  candidatesIssued : UInt64 := 0
  templatesRejected : UInt64 := 0
  submissions : UInt64 := 0
  blocksAccepted : UInt64 := 0
  highHash : UInt64 := 0
  staleSubmissions : UInt64 := 0
  validationFailures : UInt64 := 0
  validationTimeouts : UInt64 := 0
  leasesEvicted : UInt64 := 0
  deriving DecidableEq

namespace Counters

def countIssued (c : Counters) : Counters :=
  { c with candidatesIssued := c.candidatesIssued + 1 }

/-- Counts a template that was refused before issue. -/
def countRejectedTemplate (c : Counters) : Counters :=
  { c with templatesRejected := c.templatesRejected + 1 }

def countEvicted (c : Counters) (count : Nat) : Counters :=
  { c with leasesEvicted := c.leasesEvicted + UInt64.ofNat count }

/-- Counts a submission by its outcome. -/
def countOutcome (c : Counters) (outcome : Outcome) : Counters :=
  let c := { c with submissions := c.submissions + 1 }
  match outcome with
  | .accepted _ _ => { c with blocksAccepted := c.blocksAccepted + 1 }
  | .highHash => { c with highHash := c.highHash + 1 }
  | .staleTip => { c with staleSubmissions := c.staleSubmissions + 1 }
  | .invalid _ => { c with validationFailures := c.validationFailures + 1 }
  | .timedOut => { c with validationTimeouts := c.validationTimeouts + 1 }

/-- The share of submissions that became blocks; zero before the first. -/
def acceptanceRate (c : Counters) : Float :=
  if c.submissions = 0 then 0 else c.blocksAccepted.toFloat / c.submissions.toFloat

end Counters

end WorkLease
