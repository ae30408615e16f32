import WorkLease.Coinbase
import WorkLease.Target

/-!
# Configuration

The settings of a node, their defaults, and the check that a node can run with them.
-/

namespace WorkLease

/-- How much of a block the block validator checks. -/
inductive ValidationDepth where
  /-- Trust what was established when the template was built. -/
  | fast
  | full
  deriving DecidableEq

def ValidationDepth.name : ValidationDepth → String
  | .fast => "fast"
  | .full => "full"

def ValidationDepth.ofName? (name : String) : Option ValidationDepth :=
  if name = "fast" then some .fast else if name = "full" then some .full else none

structure LeasePolicy where
  /-- Leases older than this many seconds are evicted. -/
  maxAgeSecs : UInt64 := 600
  /-- The oldest leases beyond this many are evicted. -/
  maxLeases : UInt64 := 1024

/-- The limits on the blocks that a node builds and accepts. -/
structure BlockPolicy where
  version : Int32 := 0x20000000
  maxBlockSize : Nat := 32000000
  /-- The greatest number of transactions beside the coinbase. -/
  maxTransactions : Nat := 100000
  /-- How many seconds a block may be ahead of the clock. -/
  maxFutureSecs : Nat := 7200
  /-- How many blocks have the same subsidy. -/
  halvingInterval : UInt64 := 210000
  /-- The easiest target, in compact form. -/
  powLimitBits : UInt32 := 0x207fffff

structure Config where
  depth : ValidationDepth := .full
  /-- How many milliseconds one call of the block validator may take. -/
  timeoutMillis : Nat := 10000
  /-- The script that coinbases built by the node pay to, in hexadecimal. -/
  payoutScript : String := Hex.encode Coinbase.anyoneCanSpend
  lease : LeasePolicy := {}
  block : BlockPolicy := {}

def BlockPolicy.powLimit (policy : BlockPolicy) : Except ProtocolError Nat :=
  match Target.ofBits policy.powLimitBits with
  | .ok limit => .ok limit
  | .error fault => .error (.invalidConfig (.powLimit fault))

namespace Config

/-- The script that coinbases built by the node pay to. -/
def payout (config : Config) : Except ProtocolError Bytes :=
  match Hex.decode config.payoutScript with
  | .ok script => .ok script
  | .error fault => .error (.invalidConfig (.payoutScript fault))

/-- Refuses the settings that a node cannot run with. -/
def validate (config : Config) : Except ProtocolError Unit := do
  if config.timeoutMillis = 0 then .error (.invalidConfig .zeroTimeout)
  if config.lease.maxLeases = 0 then .error (.invalidConfig .zeroLeases)
  if config.block.maxBlockSize ≤ Coinbase.reserve then
    .error (.invalidConfig (.blockTooSmall Coinbase.reserve))
  let _ ← config.payout
  let _ ← config.block.powLimit
  return ()

end Config

end WorkLease
