import WorkLease.Node.Basic

/-!
# Issuing candidates

A candidate is built on the tip from the pool and, at full depth, tested before it is issued.
The time given out for a tip never goes back while the node stays on that tip, whatever the
clock does.
-/

namespace WorkLease.Node

/-- The clock as a block time; a later clock reads as the greatest time. -/
def blockClock (node : Node) : UInt32 :=
  UInt32.ofNat (min node.clock.toNat 0xffffffff)

/-- The time for a candidate on a tip: the clock, but not before the next block may be, and
not before a time already given out for this tip. -/
def issueTime (node : Node) (tip : Tip) : UInt32 :=
  let earliest := max node.blockClock tip.earliestTime
  match node.timeFloor with
  | some (floorTip, issued) => if floorTip = tip.hash then max earliest issued else earliest
  | none => earliest

/-- The test of a template before it is issued; at fast depth there is none. -/
def pretest (node : Node) (template : Template) : Except ProtocolError Unit × Node :=
  match node.settings.depth with
  | .fast => (.ok (), node)
  | .full =>
      match node.consult .template template.preview with
      | (.late, node) => (.error .validationTimeout, node)
      | (.failed error, node) => (.error error, node)
      | (.answered (.invalid reason), node) =>
          (.error (.templateRejected reason),
            { node with counters := node.counters.countRejectedTemplate })
      | (.answered .valid, node) => (.ok (), node)

def grant (node : Node) (template : Template) (drawn : CandidateId) (now : Instant) :
    Candidate × Node :=
  let (candidate, evicted, leases) := node.leases.grant template drawn now
  (candidate,
    { node with
      leases
      counters := (node.counters.countEvicted evicted).countIssued })

/-- Issues a candidate on the tip, with a coinbase if the miner asks for one. -/
def issue (node : Node) (withCoinbase : Bool) (drawn : CandidateId) (now : Instant) :
    Except ProtocolError Candidate × Node :=
  match node.link.readTip, node.pool.snapshot with
  | .error error, _ => (.error error, node)
  | .ok _, .error error => (.error error, node)
  | .ok tip, .ok entries =>
      let time := node.issueTime tip
      let node := { node with timeFloor := some (tip.hash, time) }
      match
        Template.build node.settings.block node.settings.payout tip entries withCoinbase time
      with
      | .error error => (.error error, node)
      | .ok template =>
          match node.pretest template with
          | (.error error, node) => (.error error, node)
          | (.ok (), node) =>
              let (candidate, node) := node.grant template drawn now
              (.ok candidate, node)

end WorkLease.Node
