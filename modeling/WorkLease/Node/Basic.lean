import WorkLease.Validator
import WorkLease.Counters
import WorkLease.LeaseBook
import WorkLease.Template.Build

/-!
# Nodes

A node issues candidates and takes solutions. Its state is all that a later answer can depend
on: the leases, the counters, and the chain, pool, clock and validator that it works with.
What it takes from outside, a fresh id or the instant of an issue, is an argument of the
operation.
-/

namespace WorkLease

structure Pool where
  /-- The entries in the order in which a block takes them. -/
  entries : List PoolEntry := []
  down : Bool := false

namespace Pool

def snapshot (pool : Pool) : Except ProtocolError (List PoolEntry) :=
  if pool.down then .error (.mempool "snapshot unavailable") else .ok pool.entries

def add (pool : Pool) (entry : PoolEntry) : Pool :=
  { pool with entries := pool.entries ++ [entry] }

def clear (pool : Pool) : Pool :=
  { pool with entries := [] }

end Pool

/-- The settings of a node, checked and decoded. -/
structure Settings where
  depth : ValidationDepth
  timeoutMillis : Nat
  payout : Bytes
  powLimit : Nat
  block : BlockPolicy

/-- The settings of a configuration that a node can run with. -/
def Config.settings (config : Config) : Except ProtocolError Settings := do
  config.validate
  let powLimit ← config.block.powLimit
  let payout ← config.payout
  return ⟨config.depth, config.timeoutMillis, payout, powLimit, config.block⟩

/-- A node and what it works with. -/
structure Node where
  settings : Settings
  link : ChainLink
  pool : Pool
  clock : UInt64
  validator : Validator
  leases : LeaseBook
  counters : Counters
  /-- The last tip that a candidate was timed for, and the latest time given out for it. -/
  timeFloor : Option (Digest × UInt32)
  consultations : List (Stage × ValidationDepth)

namespace Node

/-- A node on a chain, with an empty pool and no leases; refused if the configuration is. -/
def start (config : Config) (chain : Chain) (clock : UInt64) (validator : Validator) :
    Except ProtocolError Node := do
  let settings ← config.settings
  return {
    settings
    link := ChainLink.sound chain
    pool := {}
    clock
    validator
    leases := LeaseBook.empty config.lease
    counters := {}
    timeFloor := none
    consultations := [] }

inductive Consultation where
  | answered (verdict : Verdict)
  | failed (error : ProtocolError)
  | late

/-- Asks the validator about a block. The tip may move meanwhile. -/
def consult (node : Node) (stage : Stage) (block : Block) : Consultation × Node :=
  let reply := node.validator stage node.settings.depth block
  let chain := reply.tipMoves.foldl (fun chain move => chain.moveTo move.hash move.height move.time)
    node.link.chain
  let result :=
    if node.settings.timeoutMillis < reply.elapsedMillis then .late
    else
      match reply.verdict with
      | .ok verdict => .answered verdict
      | .error error => .failed error
  (result,
    { node with
      link := { node.link with chain }
      consultations := node.consultations ++ [(stage, node.settings.depth)] })

/-- Drops a lease, and tells whether it was held. -/
def remove (node : Node) (id : CandidateId) : Bool × Node :=
  let removed := node.leases.remove id
  (removed.1, { node with leases := removed.2 })

/-- Evicts leases that are too old or too many at an instant, and counts them. -/
def evict (node : Node) (now : Instant) : Nat × Node :=
  let swept := node.leases.evict now
  (swept.1,
    { node with leases := swept.2, counters := node.counters.countEvicted swept.1 })

/-- Announces a tip, and counts the leases that it supersedes. -/
def announce (node : Node) (tip : Digest) : Nat × Node :=
  let announced := node.leases.announce tip
  (announced.1, { node with leases := announced.2 })

/-- Announces the tip of the chain, if it can be read. -/
def follow (node : Node) : Except ProtocolError Nat × Node :=
  let followed := node.leases.follow node.link
  (followed.1, { node with leases := followed.2 })

end Node

end WorkLease
