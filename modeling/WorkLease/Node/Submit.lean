import WorkLease.Node.Basic
import WorkLease.Outcome
import WorkLease.Transaction.Decoding

/-!
# Taking solutions

A submission is first screened, which changes nothing: its candidate and its coinbase are
found, the block is rebuilt, and the work, the parent and the rules are checked. What passes
goes to the block validator and then to the chain, which alone decides whether the block is
the new tip. Mistakes of the caller are errors; everything else is an outcome, and is counted.
-/

namespace WorkLease

namespace Submission

/-- The coinbase of the solved block: the submitted one, or else the one of the template. -/
def coinbaseOn (submission : Submission) (template : Template) :
    Except ProtocolError Transaction :=
  match submission.coinbase with
  | some text =>
      match Transaction.ofHex text with
      | .ok tx => .ok tx
      | .error _ => .error .invalidCoinbase
  | none =>
      match template.coinbase with
      | some tx => .ok tx
      | none => .error (.missingInput "coinbase")

/-- The header of the solved block, with the merkle root of its transactions. -/
def headerOn (submission : Submission) (template : Template) (merkleRoot : Digest)
    (nonce : UInt32) : Header :=
  template.headerFor merkleRoot (submission.time.getD template.time)
    (submission.version.getD template.version) nonce

end Submission

namespace Node

/-- What a submission comes to when it goes no further: a mistake of the caller, a failure, or
an outcome. -/
abbrev Settled := Except ProtocolError Outcome

def leaseOf (node : Node) (submission : Submission) : Except ProtocolError Lease := do
  let id ← CandidateId.ofText submission.id
  node.leases.find id

def blockLimits (node : Node) : BlockLimits :=
  { powLimit := node.settings.powLimit
    maxBlockSize := node.settings.block.maxBlockSize
    maxFutureSecs := node.settings.block.maxFutureSecs
    now := node.clock }

def rebuild (node : Node) (submission : Submission) :
    Except ProtocolError (Template × Transaction × Header) := do
  let lease ← node.leaseOf submission
  match submission.nonce with
  | none => .error (.missingInput "nonce")
  | some nonce =>
      let coinbase ← submission.coinbaseOn lease.template
      let root := lease.template.rootWith coinbase
      return (lease.template, coinbase, submission.headerOn lease.template root nonce)

/-- The checks on a rebuilt block, from the work on: the block if it passes them all. -/
def examine (node : Node) (template : Template) (coinbase : Transaction) (header : Header) :
    Except Settled Block :=
  match Target.check header.hash header.bits node.settings.powLimit with
  | .highHash => .error (.ok .highHash)
  | .badBits => .error (.ok (.invalid BrokenRule.badDifficultyBits.reason))
  | .met =>
      match node.link.readTip with
      | .error error => .error (.error error)
      | .ok tip =>
          if tip.hash ≠ template.parent then .error (.ok .staleTip)
          else
            let block := template.complete header coinbase
            match BlockRules.check block template node.blockLimits with
            | .error violation => .error (.ok (.invalid violation.reason))
            | .ok () => .ok block

/-- Everything that is decided about a submission before the validator is asked: the solved
block, or what the submission comes to. -/
def screen (node : Node) (submission : Submission) : Except Settled Block :=
  match node.rebuild submission with
  | .error error => .error (.error error)
  | .ok (template, coinbase, header) => node.examine template coinbase header

/-- Hands a block to the chain; if it became the tip, announces the tip. A tip that cannot be
read then leaves the leases as they are. An attempt that breaks off ends the call. -/
def commit (node : Node) (block : Block) : Settled × Node :=
  match node.link.extend block with
  | (.error error, link) => (.error error, { node with link })
  | (.ok (.stale _), link) => (.ok .staleTip, { node with link })
  | (.ok .overflow, link) => (.error .overflow, { node with link })
  | (.ok (.extended tip), link) =>
      (.ok (.accepted tip.hash tip.height), ({ node with link } : Node).follow.2)

def decideSubmission (node : Node) (submission : Submission) : Settled × Node :=
  match node.screen submission with
  | .error settled => (settled, node)
  | .ok block =>
      match node.consult .submission block with
      | (.late, node) => (.ok .timedOut, node)
      | (.failed error, node) => (.error error, node)
      | (.answered (.invalid reason), node) => (.ok (.invalid reason), node)
      | (.answered .valid, node) => node.commit block

/-- Takes a solution, and counts it if it is well formed. -/
def submit (node : Node) (submission : Submission) : Settled × Node :=
  match node.decideSubmission submission with
  | (.ok outcome, node) =>
      (.ok outcome, { node with counters := node.counters.countOutcome outcome })
  | (.error error, node) => (.error error, node)

/-- The first nonce from `first` on whose header compares with its target as wanted, of `tries`
in turn. -/
def findNonce (powLimit : Nat) (wanted : Target.WorkCheck) (header : UInt32 → Header) :
    Nat → UInt32 → Option UInt32
  | 0, _ => none
  | tries + 1, nonce =>
      let candidate := header nonce
      if Target.check candidate.hash candidate.bits powLimit = wanted then some nonce
      else findNonce powLimit wanted header tries (nonce + 1)

/-- Searches the nonce of a submission as a miner does. -/
def search (node : Node) (submission : Submission) (wanted : Target.WorkCheck) (tries : Nat)
    (first : UInt32) : Option UInt32 :=
  match node.leaseOf submission with
  | .error _ => none
  | .ok lease =>
      match submission.coinbaseOn lease.template with
      | .error _ => none
      | .ok coinbase =>
          let root := lease.template.rootWith coinbase
          findNonce node.settings.powLimit wanted (submission.headerOn lease.template root)
            tries first

end Node

end WorkLease
