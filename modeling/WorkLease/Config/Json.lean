import WorkLease.Config
import WorkLease.Json

/-!
# Configurations as JSON

Every field that is not given has its default, on each level.
-/

namespace WorkLease

open Json

namespace ValidationDepth

/-- Reads a depth: its name, or an object with the name as its only field and nothing in it. -/
def ofJson? : Json → Option ValidationDepth
  | .text name => ofName? name
  | .object [(name, .null)] => ofName? name
  | _ => none

def toJson (depth : ValidationDepth) : Json := .text depth.name

end ValidationDepth

def LeasePolicy.ofJson? (json : Json) : Option LeasePolicy := do
  let field ← json.record? ["max_age_secs", "max_leases"]
  let defaults : LeasePolicy := {}
  return {
    maxAgeSecs := ← orElse defaults.maxAgeSecs uint64? (field "max_age_secs")
    maxLeases := ← orElse defaults.maxLeases uint64? (field "max_leases") }

def BlockPolicy.ofJson? (json : Json) : Option BlockPolicy := do
  let field ← json.record? ["version", "max_block_size", "max_transactions",
    "max_future_time_secs", "halving_interval", "pow_limit_bits"]
  let defaults : BlockPolicy := {}
  return {
    version := ← orElse defaults.version int32? (field "version")
    maxBlockSize :=
      ← orElse defaults.maxBlockSize (natBelow? UInt64.size) (field "max_block_size")
    maxTransactions :=
      ← orElse defaults.maxTransactions (natBelow? UInt64.size) (field "max_transactions")
    maxFutureSecs :=
      ← orElse defaults.maxFutureSecs (natBelow? UInt32.size) (field "max_future_time_secs")
    halvingInterval := ← orElse defaults.halvingInterval uint64? (field "halving_interval")
    powLimitBits := ← orElse defaults.powLimitBits uint32? (field "pow_limit_bits") }

def Config.ofJson? (json : Json) : Option Config := do
  let field ← json.record? ["validation_mode", "validation_timeout_ms", "payout_script", "lease",
    "block"]
  let defaults : Config := {}
  return {
    depth := ← orElse defaults.depth ValidationDepth.ofJson? (field "validation_mode")
    timeoutMillis :=
      ← orElse defaults.timeoutMillis (natBelow? UInt64.size) (field "validation_timeout_ms")
    payoutScript := ← orElse defaults.payoutScript text? (field "payout_script")
    lease := ← orElse defaults.lease LeasePolicy.ofJson? (field "lease")
    block := ← orElse defaults.block BlockPolicy.ofJson? (field "block") }

end WorkLease
