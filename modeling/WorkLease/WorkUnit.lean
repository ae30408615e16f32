import WorkLease.Json
import WorkLease.LeaseBook

/-!
# Views of candidates

What a miner receives: digests and bits as texts, and the branch of the coinbase slot in place
of the transactions.
-/

namespace WorkLease

open Json

/-- An issued candidate as a miner sees it. -/
structure WorkUnit where
  id : String
  /-- The parent, as digests are shown. -/
  parent : String
  /-- The coinbase built by the node, in hexadecimal. -/
  coinbase : Option String
  coinbaseValue : UInt64
  version : Int32
  /-- The compact target, in eight hexadecimal digits. -/
  bits : String
  time : UInt32
  height : UInt64
  /-- The branch of the coinbase slot, as digests are shown. -/
  branch : List String
  deriving DecidableEq

namespace WorkUnit

def ofCandidate (candidate : Candidate) : WorkUnit where
  id := candidate.id.toText
  parent := candidate.template.parent.display
  coinbase := candidate.template.coinbase.map Transaction.toHex
  coinbaseValue := candidate.template.coinbaseValue
  version := candidate.template.version
  bits := Hex.ofNat 8 candidate.template.bits.toNat
  time := candidate.template.time
  height := candidate.template.height
  branch := candidate.template.branch.map Digest.display

/-- Writes a view; the coinbase is left out when there is none. -/
def toJson (view : WorkUnit) : Json :=
  .object ([
    ("id", .text view.id),
    ("prevhash", .text view.parent)] ++
    (view.coinbase.map fun hex => ("coinbase", Json.text hex)).toList ++ [
    ("coinbaseValue", .int view.coinbaseValue.toNat),
    ("version", .int view.version.toInt),
    ("nBits", .text view.bits),
    ("time", .int view.time.toNat),
    ("height", .int view.height.toNat),
    ("merkleProof", .array (view.branch.map .text))])

def ofJson? (json : Json) : Option WorkUnit := do
  let field ← json.record? ["id", "prevhash", "coinbase", "coinbaseValue", "version", "nBits",
    "time", "height", "merkleProof"]
  return {
    id := ← required text? (field "id")
    parent := ← required text? (field "prevhash")
    coinbase := ← optional text? (field "coinbase")
    coinbaseValue := ← required uint64? (field "coinbaseValue")
    version := ← required int32? (field "version")
    bits := ← required text? (field "nBits")
    time := ← required uint32? (field "time")
    height := ← required uint64? (field "height")
    branch := ← required (list? text?) (field "merkleProof") }

end WorkUnit

end WorkLease
