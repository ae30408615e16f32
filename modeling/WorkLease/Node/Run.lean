import WorkLease.Rpc

/-!
# Runs of a node

Everything that can happen to a node between its creation and an answer is an operation: the
calls of miners, the announcements and removals of its operator, and the changes of the chain,
pool, clock and validator that it works with. A run is a list of operations.
-/

namespace WorkLease.Node

inductive Op where
  | issue (withCoinbase : Bool) (drawn : CandidateId) (now : Instant)
  | submit (submission : Submission)
  | call (method : String) (params : Json) (drawn : CandidateId) (now : Instant)
  | announce (tip : Digest)
  | follow
  | remove (id : CandidateId)
  | evict (now : Instant)
  /-- The tip moves from outside, and nobody announces it. -/
  | moveTip (move : TipMove)
  /-- The faults of the chain that are given are set, and the others stay. -/
  | setChainFaults (tip extend tipAfterExtend : Option Bool)
  | addToPool (entry : PoolEntry)
  | clearPool
  | setPoolDown (down : Bool)
  | setClock (reading : UInt64)
  | advanceClock (seconds : UInt64)
  | setValidator (validator : Validator)

inductive Answer where
  | done
  | candidate (result : Except ProtocolError Candidate)
  | settled (result : Settled)
  | called (result : Except Rpc.Fault Json)
  | superseded (count : Nat)
  | followed (result : Except ProtocolError Nat)
  | removed (held : Bool)
  | evicted (count : Nat)
  | tip (tip : Tip)

def perform (node : Node) : Op → Answer × Node
  | .issue withCoinbase drawn now =>
      let (result, node) := node.issue withCoinbase drawn now
      (.candidate result, node)
  | .submit submission =>
      let (result, node) := node.submit submission
      (.settled result, node)
  | .call method params drawn now =>
      let (result, node) := Rpc.handle node method params drawn now
      (.called result, node)
  | .announce tip =>
      let (count, node) := node.announce tip
      (.superseded count, node)
  | .follow =>
      let (result, node) := node.follow
      (.followed result, node)
  | .remove id =>
      let (held, node) := node.remove id
      (.removed held, node)
  | .evict now =>
      let (count, node) := node.evict now
      (.evicted count, node)
  | .moveTip move =>
      let chain := node.link.chain.moveTo move.hash move.height move.time
      (.tip chain.tip, { node with link := { node.link with chain } })
  | .setChainFaults tip extend tipAfterExtend =>
      (.done, { node with link := node.link.setFaults tip extend tipAfterExtend })
  | .addToPool entry => (.done, { node with pool := node.pool.add entry })
  | .clearPool => (.done, { node with pool := node.pool.clear })
  | .setPoolDown down => (.done, { node with pool := { node.pool with down } })
  | .setClock reading => (.done, { node with clock := reading })
  | .advanceClock seconds => (.done, { node with clock := node.clock + seconds })
  | .setValidator validator => (.done, { node with validator })

/-- The answers of a list of operations, and the node after them. -/
def run (node : Node) : List Op → List Answer × Node
  | [] => ([], node)
  | op :: ops =>
      let (answer, node) := node.perform op
      let (answers, node) := run node ops
      (answer :: answers, node)

end WorkLease.Node
