import Mathlib.Tactic.Common
import WorkLease.Node.Run
import WorkLease.Proofs.Commits
import WorkLease.Proofs.CompactTargets

/-!
# How an operation can end

Issuing a candidate and taking a solution leave at many places. The exits are listed here once,
each with what was read on the way to it and the node that is left, so that a property of either
operation is a case analysis over its exits.

* `issue_exit`: an issue ends at one of the exits of `IssueExit`.
* `screen_eq_ok_iff`: what passes the screen is `Examined`, with the parts that it `Gives`.
* `decideSubmission_exit`: a submission ends at one of the exits of `SubmitExit`.
* `handle_node`: a remote call is an issue, a submission or nothing.
-/

namespace WorkLease

namespace ChainLink

variable {link : ChainLink}

theorem readTip_eq_ok_iff {tip : Tip} :
    link.readTip = .ok tip ↔ link.tipDown = false ∧ link.chain.tip = tip := by
  unfold readTip
  cases link.tipDown <;> simp

/-- A link through which a block has got to the chain, and been extended or found stale. -/
def through (link : ChainLink) (chain : Chain) : ChainLink :=
  { link with chain, tipDown := link.tipDown || link.tipDownAfterExtend }

variable {block : Block} {chain : Chain}

theorem extend_of_extended {tip : Tip} (hup : link.extendDown = false)
    (hwon : link.chain.extend block = (.extended tip, chain)) :
    link.extend block = (.ok (.extended tip), link.through chain) := by
  rw [ChainLink.extend, if_neg (Bool.eq_false_iff.1 hup), hwon]
  rfl

theorem extend_of_stale {tip : Tip} (hup : link.extendDown = false)
    (hstale : link.chain.extend block = (.stale tip, chain)) :
    link.extend block = (.ok (.stale tip), link.through chain) := by
  rw [ChainLink.extend, if_neg (Bool.eq_false_iff.1 hup), hstale]
  rfl

theorem extend_of_overflow (hup : link.extendDown = false)
    (hoverflow : link.chain.extend block = (.overflow, chain)) :
    link.extend block = (.ok .overflow, link) := by
  rw [ChainLink.extend, if_neg (Bool.eq_false_iff.1 hup), hoverflow]

theorem extend_of_down (hdown : link.extendDown = true) (block : Block) :
    link.extend block = (.error (.chainState "extend failed"), link) :=
  if_pos hdown

end ChainLink

theorem Pool.snapshot_eq_ok {pool : Pool} {entries : List PoolEntry}
    (h : pool.snapshot = .ok entries) : entries = pool.entries := by
  unfold Pool.snapshot at h
  split_ifs at h
  exact (Except.ok.inj h).symm

namespace Node

/-! ## Asking the validator -/

section Consult

variable (node : Node) (stage : Stage) (block : Block)

/-- The node once the validator has answered about a block. -/
def asked : Node := (node.consult stage block).2

/-- The chain once the validator has answered about a block. -/
def chainAsked : Chain :=
  (node.validator stage node.settings.depth block).tipMoves.foldl
    (fun chain move => chain.moveTo move.hash move.height move.time) node.link.chain

theorem chainAsked_of_still
    (h : (node.validator stage node.settings.depth block).tipMoves = []) :
    node.chainAsked stage block = node.link.chain := by
  rw [chainAsked, h, List.foldl_nil]

@[simp] theorem asked_link :
    (node.asked stage block).link = { node.link with chain := node.chainAsked stage block } := rfl

@[simp] theorem asked_extendDown :
    (node.asked stage block).link.extendDown = node.link.extendDown := rfl

end Consult

/-- What a submission comes to that the validator did not find valid in time. -/
def Consultation.refusal? : Consultation → Option Settled
  | .late => some (.ok .timedOut)
  | .failed error => some (.error error)
  | .answered (.invalid reason) => some (.ok (.invalid reason))
  | .answered .valid => none

/-- A verdict of valid that comes in time refuses nothing. -/
theorem refusal?_consult_of_valid {node : Node} {stage : Stage} {block : Block}
    (hverdict : (node.validator stage node.settings.depth block).verdict = .ok .valid)
    (htime : (node.validator stage node.settings.depth block).elapsedMillis ≤
      node.settings.timeoutMillis) : (node.consult stage block).1.refusal? = none := by
  unfold consult
  dsimp only
  rw [if_neg (Nat.not_lt.2 htime), hverdict]
  rfl

/-! ## Issuing -/

/-- The node once it has noted the time that it gives out on a tip. -/
def noted (node : Node) (tip : Tip) : Node :=
  { node with timeFloor := some (tip.hash, node.issueTime tip) }

/-- A test of a template changes the link, the counters and the list of consultations at most. -/
theorem pretest_changes (node : Node) (template : Template) :
    ∃ link counters consultations, (node.pretest template).2 =
      { node with link, counters, consultations } := by
  unfold pretest
  cases node.settings.depth with
  | fast => exact ⟨_, _, _, rfl⟩
  | full =>
    rcases hasked : node.consult .template template.preview with ⟨result, after⟩
    obtain rfl : node.asked .template template.preview = after := congrArg Prod.snd hasked
    rcases result with (_ | reason) | error | _ <;> exact ⟨_, _, _, rfl⟩

/-- It leaves all that an issue goes on with as it was. -/
theorem pretest_frame {node after : Node} {tip : Tip} {template : Template}
    {result : Except ProtocolError Unit}
    (htest : (node.noted tip).pretest template = (result, after)) :
    after.settings = node.settings ∧ after.pool = node.pool ∧ after.leases = node.leases := by
  obtain ⟨link, counters, consultations, hafter⟩ := pretest_changes (node.noted tip) template
  rw [htest] at hafter
  obtain rfl := hafter
  exact ⟨rfl, rfl, rfl⟩

theorem pretest_timeFloor {node after : Node} {template : Template}
    {result : Except ProtocolError Unit} (htest : node.pretest template = (result, after)) :
    after.timeFloor = node.timeFloor := by
  obtain ⟨link, counters, consultations, hafter⟩ := pretest_changes node template
  rw [htest] at hafter
  obtain rfl := hafter
  rfl

theorem pretest_validator {node after : Node} {template : Template}
    {result : Except ProtocolError Unit} (htest : node.pretest template = (result, after)) :
    after.validator = node.validator := by
  obtain ⟨link, counters, consultations, hafter⟩ := pretest_changes node template
  rw [htest] at hafter
  obtain rfl := hafter
  rfl

/-- The exits of an issue. -/
inductive IssueExit (node : Node) (withCoinbase : Bool) (drawn : CandidateId) (now : Instant) :
    Except ProtocolError Candidate × Node → Prop
  | tipUnread {error : ProtocolError} (htip : node.link.readTip = .error error) :
      IssueExit node withCoinbase drawn now (.error error, node)
  | poolUnread {tip : Tip} {error : ProtocolError} (htip : node.link.readTip = .ok tip)
      (hpool : node.pool.snapshot = .error error) :
      IssueExit node withCoinbase drawn now (.error error, node)
  | notBuilt {tip : Tip} {error : ProtocolError} (htip : node.link.readTip = .ok tip)
      (hpool : node.pool.snapshot = .ok node.pool.entries)
      (hbuild : Template.build node.settings.block node.settings.payout tip node.pool.entries
        withCoinbase (node.issueTime tip) = .error error) :
      IssueExit node withCoinbase drawn now (.error error, node.noted tip)
  | refused {tip : Tip} {template : Template} {error : ProtocolError} {after : Node}
      (htip : node.link.readTip = .ok tip)
      (hpool : node.pool.snapshot = .ok node.pool.entries)
      (hbuild : Template.build node.settings.block node.settings.payout tip node.pool.entries
        withCoinbase (node.issueTime tip) = .ok template)
      (htest : (node.noted tip).pretest template = (.error error, after)) :
      IssueExit node withCoinbase drawn now (.error error, after)
  | issued {tip : Tip} {template : Template} {after : Node}
      (htip : node.link.readTip = .ok tip)
      (hpool : node.pool.snapshot = .ok node.pool.entries)
      (hbuild : Template.build node.settings.block node.settings.payout tip node.pool.entries
        withCoinbase (node.issueTime tip) = .ok template)
      (htest : (node.noted tip).pretest template = (.ok (), after)) :
      IssueExit node withCoinbase drawn now
        (.ok (after.grant template drawn now).1, (after.grant template drawn now).2)

theorem issue_exit (node : Node) (withCoinbase : Bool) (drawn : CandidateId) (now : Instant) :
    IssueExit node withCoinbase drawn now (node.issue withCoinbase drawn now) := by
  unfold issue
  cases htip : node.link.readTip with
  | error error => exact .tipUnread htip
  | ok tip =>
    cases hpool : node.pool.snapshot with
    | error error => exact .poolUnread htip hpool
    | ok entries =>
      obtain rfl := Pool.snapshot_eq_ok hpool
      dsimp only
      cases hbuild : Template.build node.settings.block node.settings.payout tip
          node.pool.entries withCoinbase (node.issueTime tip) with
      | error error => exact .notBuilt htip hpool hbuild
      | ok template =>
        dsimp only
        rcases htest : (node.noted tip).pretest template with ⟨error | _, after⟩
        · rw [noted] at htest
          rw [htest]
          exact .refused htip hpool hbuild htest
        · rw [noted] at htest
          rw [htest]
          exact .issued htip hpool hbuild htest

/-! ## Screening a submission -/

/-- What a rebuilt block has passed once it is examined. -/
structure Examined (node : Node) (template : Template) (coinbase : Transaction)
    (header : Header) : Prop where
  work : ∃ target, Target.ofBits header.bits = .ok target ∧
    target ≤ node.settings.powLimit ∧ header.hash.toNat ≤ target
  tipUp : node.link.tipDown = false
  parent : node.link.chain.tip.hash = template.parent
  rules : BlockRules.check (template.complete header coinbase) template node.blockLimits = .ok ()

/-- The exits of the examination of a rebuilt block. -/
inductive ExamineExit (node : Node) (template : Template) (coinbase : Transaction)
    (header : Header) : Except Settled Block → Prop
  | highHash
      (hwork : Target.check header.hash header.bits node.settings.powLimit = .highHash) :
      ExamineExit node template coinbase header (.error (.ok .highHash))
  | badBits
      (hwork : Target.check header.hash header.bits node.settings.powLimit = .badBits) :
      ExamineExit node template coinbase header
        (.error (.ok (.invalid BrokenRule.badDifficultyBits.reason)))
  | tipUnread {error : ProtocolError}
      (hwork : Target.check header.hash header.bits node.settings.powLimit = .met)
      (htip : node.link.readTip = .error error) :
      ExamineExit node template coinbase header (.error (.error error))
  | stale {tip : Tip}
      (hwork : Target.check header.hash header.bits node.settings.powLimit = .met)
      (htip : node.link.readTip = .ok tip) (hparent : tip.hash ≠ template.parent) :
      ExamineExit node template coinbase header (.error (.ok .staleTip))
  | broken {tip : Tip} {rule : BrokenRule}
      (hwork : Target.check header.hash header.bits node.settings.powLimit = .met)
      (htip : node.link.readTip = .ok tip) (hparent : tip.hash = template.parent)
      (hrule : BlockRules.check (template.complete header coinbase) template node.blockLimits =
        .error rule) :
      ExamineExit node template coinbase header (.error (.ok (.invalid rule.reason)))
  | passed (hexamined : node.Examined template coinbase header) :
      ExamineExit node template coinbase header (.ok (template.complete header coinbase))

theorem examine_exit (node : Node) (template : Template) (coinbase : Transaction)
    (header : Header) :
    ExamineExit node template coinbase header (node.examine template coinbase header) := by
  unfold examine
  cases hwork : Target.check header.hash header.bits node.settings.powLimit with
  | highHash => exact .highHash hwork
  | badBits => exact .badBits hwork
  | met =>
    cases htip : node.link.readTip with
    | error error => exact .tipUnread hwork htip
    | ok tip =>
      dsimp only
      by_cases hparent : tip.hash = template.parent
      · rw [if_neg (not_not.2 hparent)]
        cases hrules : BlockRules.check (template.complete header coinbase) template
            node.blockLimits with
        | error rule => exact .broken hwork htip hparent hrules
        | ok _ =>
          obtain ⟨hup, rfl⟩ := ChainLink.readTip_eq_ok_iff.1 htip
          exact .passed ⟨Target.check_eq_met_iff.1 hwork, hup, hparent, hrules⟩
      · rw [if_pos hparent]
        exact .stale hwork htip hparent

theorem examine_eq_ok_iff {node : Node} {template : Template} {coinbase : Transaction}
    {header : Header} {block : Block} :
    node.examine template coinbase header = .ok block ↔
      node.Examined template coinbase header ∧ block = template.complete header coinbase := by
  constructor
  · intro h
    have hexit := examine_exit node template coinbase header
    rw [h] at hexit
    cases hexit with
    | passed hexamined => exact ⟨hexamined, rfl⟩
  · rintro ⟨hexamined, rfl⟩
    have htip := ChainLink.readTip_eq_ok_iff.2 ⟨hexamined.tipUp, rfl⟩
    unfold examine
    rw [Target.check_eq_met_iff.2 hexamined.work, htip]
    dsimp only
    rw [if_neg (not_not.2 hexamined.parent), hexamined.rules]

/-- The lease, the nonce and the coinbase that a submission gives. -/
structure Gives (node : Node) (submission : Submission) (lease : Lease) (nonce : UInt32)
    (coinbase : Transaction) : Prop where
  leaseOf : node.leaseOf submission = .ok lease
  nonce : submission.nonce = some nonce
  coinbaseOn : submission.coinbaseOn lease.template = .ok coinbase

/-- The header of the block that a submission solves with a coinbase and a nonce. -/
def solvedHeader (submission : Submission) (template : Template) (coinbase : Transaction)
    (nonce : UInt32) : Header :=
  submission.headerOn template (template.rootWith coinbase) nonce

theorem rebuild_eq_ok_iff {node : Node} {submission : Submission}
    {parts : Template × Transaction × Header} :
    node.rebuild submission = .ok parts ↔ ∃ lease nonce coinbase,
      node.Gives submission lease nonce coinbase ∧ parts =
        (lease.template, coinbase, solvedHeader submission lease.template coinbase nonce) := by
  unfold rebuild
  rw [bind_eq_ok_iff]
  constructor
  · rintro ⟨lease, hlease, h⟩
    cases hnonce : submission.nonce with
    | none =>
      rw [hnonce] at h
      cases h
    | some nonce =>
      rw [hnonce] at h
      obtain ⟨coinbase, hcoinbase, h⟩ := bind_eq_ok_iff.1 h
      exact ⟨lease, nonce, coinbase, ⟨hlease, hnonce, hcoinbase⟩, (Except.ok.inj h).symm⟩
  · rintro ⟨lease, nonce, coinbase, hgives, rfl⟩
    refine ⟨lease, hgives.leaseOf, ?_⟩
    rw [hgives.nonce]
    exact bind_eq_ok_iff.2 ⟨coinbase, hgives.coinbaseOn, rfl⟩

/-- A screen ends where the rebuilt block is examined, unless there is none. -/
theorem screen_of_rebuild {node : Node} {submission : Submission} {template : Template}
    {coinbase : Transaction} {header : Header}
    (h : node.rebuild submission = .ok (template, coinbase, header)) :
    node.screen submission = node.examine template coinbase header := by
  rw [screen, h]

theorem screen_of_mistake {node : Node} {submission : Submission} {error : ProtocolError}
    (h : node.rebuild submission = .error error) :
    node.screen submission = .error (.error error) := by
  rw [screen, h]

/-- **What passes the screen** names a held lease, gives what the block lacks, and the block is
examined. -/
theorem screen_eq_ok_iff {node : Node} {submission : Submission} {block : Block} :
    node.screen submission = .ok block ↔ ∃ lease nonce coinbase,
      node.Gives submission lease nonce coinbase ∧
      node.Examined lease.template coinbase
        (solvedHeader submission lease.template coinbase nonce) ∧
      block = lease.template.complete
        (solvedHeader submission lease.template coinbase nonce) coinbase := by
  constructor
  · intro h
    cases hparts : node.rebuild submission with
    | error error =>
      rw [screen_of_mistake hparts] at h
      cases h
    | ok parts =>
      obtain ⟨lease, nonce, coinbase, hgives, rfl⟩ := rebuild_eq_ok_iff.1 hparts
      rw [screen_of_rebuild hparts] at h
      exact ⟨lease, nonce, coinbase, hgives, examine_eq_ok_iff.1 h⟩
  · rintro ⟨lease, nonce, coinbase, hgives, hexamined⟩
    rw [screen_of_rebuild (rebuild_eq_ok_iff.2 ⟨lease, nonce, coinbase, hgives, rfl⟩)]
    exact examine_eq_ok_iff.2 hexamined

/-! ## Taking a submission -/

/-- The node once a block was handed to the chain. -/
def handed (node : Node) (block : Block) : Node :=
  { node with link := (node.link.extend block).2 }

section Commit

variable {node : Node} {block : Block}

theorem commit_of_down (hdown : node.link.extendDown = true) :
    node.commit block = (.error (.chainState "extend failed"), node) := by
  rw [commit, ChainLink.extend_of_down hdown]

theorem commit_of_parent_ne (hup : node.link.extendDown = false)
    (hparent : block.header.parent ≠ node.link.chain.tip.hash) :
    node.commit block = (.ok .staleTip, node.handed block) := by
  rw [commit, handed, ChainLink.extend_of_stale hup (Chain.extend_of_parent_ne hparent)]

theorem commit_of_parent_eq (hup : node.link.extendDown = false)
    (hparent : block.header.parent = node.link.chain.tip.hash)
    (hnext : node.link.chain.tip.HasNext) :
    node.commit block =
      (.ok (.accepted block.hash (node.link.chain.tip.height + 1)),
        (node.handed block).follow.2) := by
  rw [commit, handed, ChainLink.extend_of_extended hup (Chain.extend_of_parent_eq hparent hnext)]
  rfl

/-- Where the tip has no next height the call ends, and nothing is done. -/
theorem commit_of_not_hasNext (hup : node.link.extendDown = false)
    (hparent : block.header.parent = node.link.chain.tip.hash)
    (htop : ¬ node.link.chain.tip.HasNext) : node.commit block = (.error .overflow, node) := by
  rw [commit, ChainLink.extend_of_overflow hup (Chain.extend_of_not_hasNext hparent htop)]

/-- The chain that is handed a block extends or refuses it. -/
theorem handed_chain (hup : node.link.extendDown = false) (block : Block) :
    (node.handed block).link.chain = (node.link.chain.extend block).2 := by
  rw [handed]
  rcases Chain.extend_cases node.link.chain block with ⟨-, -, heq⟩ | ⟨-, -, heq⟩ | ⟨-, heq⟩
  · rw [ChainLink.extend_of_extended hup heq, heq]
    rfl
  · rw [ChainLink.extend_of_overflow hup heq, heq]
  · rw [ChainLink.extend_of_stale hup heq, heq]
    rfl

end Commit

/-- The exits of a submission, before it is counted. -/
inductive SubmitExit (node : Node) (submission : Submission) : Settled × Node → Prop
  | screened {settled : Settled} (hscreen : node.screen submission = .error settled) :
      SubmitExit node submission (settled, node)
  | refused {block : Block} {settled : Settled} (hscreen : node.screen submission = .ok block)
      (hrefusal : (node.consult .submission block).1.refusal? = some settled) :
      SubmitExit node submission (settled, node.asked .submission block)
  | chainDown {block : Block} (hscreen : node.screen submission = .ok block)
      (hvalid : (node.consult .submission block).1.refusal? = none)
      (hdown : node.link.extendDown = true) :
      SubmitExit node submission
        (.error (.chainState "extend failed"), node.asked .submission block)
  | stale {block : Block} (hscreen : node.screen submission = .ok block)
      (hvalid : (node.consult .submission block).1.refusal? = none)
      (hup : node.link.extendDown = false)
      (hparent : block.header.parent ≠ (node.chainAsked .submission block).tip.hash) :
      SubmitExit node submission (.ok .staleTip, (node.asked .submission block).handed block)
  | overflow {block : Block} (hscreen : node.screen submission = .ok block)
      (hvalid : (node.consult .submission block).1.refusal? = none)
      (hup : node.link.extendDown = false)
      (hparent : block.header.parent = (node.chainAsked .submission block).tip.hash)
      (htop : ¬ (node.chainAsked .submission block).tip.HasNext) :
      SubmitExit node submission (.error .overflow, node.asked .submission block)
  | accepted {block : Block} (hscreen : node.screen submission = .ok block)
      (hvalid : (node.consult .submission block).1.refusal? = none)
      (hup : node.link.extendDown = false)
      (hparent : block.header.parent = (node.chainAsked .submission block).tip.hash)
      (hnext : (node.chainAsked .submission block).tip.HasNext) :
      SubmitExit node submission
        (.ok (.accepted block.hash ((node.chainAsked .submission block).tip.height + 1)),
          ((node.asked .submission block).handed block).follow.2)

theorem commit_exit {node : Node} {submission : Submission} {block : Block}
    (hscreen : node.screen submission = .ok block)
    (hvalid : (node.consult .submission block).1.refusal? = none) :
    SubmitExit node submission ((node.asked .submission block).commit block) := by
  cases hdown : node.link.extendDown with
  | true =>
    rw [commit_of_down ((asked_extendDown node .submission block).trans hdown)]
    exact .chainDown hscreen hvalid hdown
  | false =>
    have hup := (asked_extendDown node .submission block).trans hdown
    by_cases hparent : block.header.parent = (node.chainAsked .submission block).tip.hash
    · by_cases hnext : (node.chainAsked .submission block).tip.HasNext
      · rw [commit_of_parent_eq hup hparent hnext]
        exact .accepted hscreen hvalid hdown hparent hnext
      · rw [commit_of_not_hasNext hup hparent hnext]
        exact .overflow hscreen hvalid hdown hparent hnext
    · rw [commit_of_parent_ne hup hparent]
      exact .stale hscreen hvalid hdown hparent

theorem decideSubmission_exit (node : Node) (submission : Submission) :
    SubmitExit node submission (node.decideSubmission submission) := by
  unfold decideSubmission
  cases hscreen : node.screen submission with
  | error settled => exact .screened hscreen
  | ok block =>
    have hrefused {settled : Settled}
        (h : (node.consult .submission block).1.refusal? = some settled) :=
      SubmitExit.refused hscreen h
    have hcommitted (h : (node.consult .submission block).1.refusal? = none) :=
      commit_exit hscreen h
    -- The exits speak of the node that was asked, which the match on the answer calls `after`.
    unfold asked at hrefused hcommitted
    dsimp only
    rcases hasked : node.consult .submission block with ⟨(_ | reason) | error | _, after⟩ <;>
      rw [hasked] at hrefused hcommitted
    · exact hcommitted rfl
    · exact hrefused rfl
    · exact hrefused rfl
    · exact hrefused rfl

/-- A node with a submission counted by its outcome; a mistake is not counted. -/
def counted (node : Node) : Settled → Node
  | .ok outcome => { node with counters := node.counters.countOutcome outcome }
  | .error _ => node

section Counted

variable (node : Node) (settled : Settled)

@[simp] theorem counted_settings : (node.counted settled).settings = node.settings := by
  cases settled <;> rfl

@[simp] theorem counted_link : (node.counted settled).link = node.link := by
  cases settled <;> rfl

@[simp] theorem counted_pool : (node.counted settled).pool = node.pool := by
  cases settled <;> rfl

@[simp] theorem counted_leases : (node.counted settled).leases = node.leases := by
  cases settled <;> rfl

@[simp] theorem counted_validator : (node.counted settled).validator = node.validator := by
  cases settled <;> rfl

@[simp] theorem counted_timeFloor : (node.counted settled).timeFloor = node.timeFloor := by
  cases settled <;> rfl

end Counted

theorem submit_eq (node : Node) (submission : Submission) :
    node.submit submission = ((node.decideSubmission submission).1,
      (node.decideSubmission submission).2.counted (node.decideSubmission submission).1) := by
  unfold submit
  rcases node.decideSubmission submission with ⟨error | outcome, after⟩ <;> rfl

/-- What stops at the screen was not accepted. -/
theorem isAccepted_of_screen {node : Node} {submission : Submission} {outcome : Outcome}
    (h : node.screen submission = .error (.ok outcome)) : outcome.isAccepted = false := by
  cases hparts : node.rebuild submission with
  | error error =>
    rw [screen_of_mistake hparts] at h
    cases h
  | ok parts =>
    obtain ⟨template, coinbase, header⟩ := parts
    have hexit := examine_exit node template coinbase header
    rw [← screen_of_rebuild hparts, h] at hexit
    cases hexit <;> rfl

/-- What the validator refuses was not accepted. -/
theorem isAccepted_of_refusal {result : Consultation} {outcome : Outcome}
    (h : result.refusal? = some (.ok outcome)) : outcome.isAccepted = false := by
  rcases result with (_ | reason) | error | _ <;> cases h <;> rfl

/-- **An accepted submission** took the last exit. -/
theorem submit_of_accepted {node : Node} {submission : Submission} {hash : Digest}
    {height : UInt64} (h : (node.submit submission).1 = .ok (.accepted hash height)) :
    ∃ block, node.screen submission = .ok block ∧ block.hash = hash ∧
      height = (node.chainAsked .submission block).tip.height + 1 ∧
      node.link.extendDown = false ∧
      block.header.parent = (node.chainAsked .submission block).tip.hash ∧
      (node.chainAsked .submission block).tip.HasNext ∧
      (node.submit submission).2 = ((node.asked .submission block).handed block).follow.2.counted
        (.ok (.accepted hash height)) := by
  rw [submit_eq] at h ⊢
  have hexit := decideSubmission_exit node submission
  generalize node.decideSubmission submission = result at hexit h ⊢
  cases hexit with
  | @screened settled hscreen =>
    obtain rfl : settled = .ok (.accepted hash height) := h
    cases isAccepted_of_screen hscreen
  | @refused block settled hscreen hrefusal =>
    obtain rfl : settled = .ok (.accepted hash height) := h
    cases isAccepted_of_refusal hrefusal
  | chainDown hscreen hvalid hdown => cases h
  | stale hscreen hvalid hup hparent => cases h
  | overflow hscreen hvalid hup hparent htop => cases h
  | @accepted block hscreen hvalid hup hparent hnext =>
    cases h
    exact ⟨block, hscreen, rfl, rfl, hup, hparent, hnext, rfl⟩

/-- The block that was accepted passed the screen and became the tip. -/
theorem exists_block_of_accepted {node : Node} {submission : Submission} {hash : Digest}
    {height : UInt64} (h : (node.submit submission).1 = .ok (.accepted hash height)) :
    ∃ block, node.screen submission = .ok block ∧ block.hash = hash ∧
      block.header.parent = (node.chainAsked .submission block).tip.hash ∧
      height = (node.chainAsked .submission block).tip.height + 1 ∧
      (node.chainAsked .submission block).tip.HasNext ∧
      (node.submit submission).2.link.chain =
        (node.chainAsked .submission block).extended block := by
  obtain ⟨block, hscreen, hhash, hheight, hup, hparent, hnext, hafter⟩ := submit_of_accepted h
  refine ⟨block, hscreen, hhash, hparent, hheight, hnext, ?_⟩
  rw [hafter, counted_link]
  show ((node.asked .submission block).handed block).link.chain = _
  rw [handed_chain ((asked_extendDown node .submission block).trans hup), asked_link,
    Chain.extend_of_parent_eq hparent hnext]

/-! ## Remote calls -/

section Handle

variable (node : Node) (method : String) (params : Json) (drawn : CandidateId) (now : Instant)

variable {method params} in
theorem handle_issue {withCoinbase : Bool} (hmethod : method = "getminingcandidate")
    (hwants : Rpc.wantsCoinbase params = .ok withCoinbase) :
    (Rpc.handle node method params drawn now).2 = (node.issue withCoinbase drawn now).2 := by
  rw [Rpc.handle, if_pos hmethod, hwants]
  dsimp only
  rcases node.issue withCoinbase drawn now with ⟨error | candidate, after⟩ <;> rfl

/-- **A remote call** leaves the node that an issue or a submission leaves, or changes nothing. -/
theorem handle_node :
    (Rpc.handle node method params drawn now).2 = node ∨
      (∃ withCoinbase, method = "getminingcandidate" ∧
        Rpc.wantsCoinbase params = .ok withCoinbase ∧
        (Rpc.handle node method params drawn now).2 =
          (node.issue withCoinbase drawn now).2) ∨
      ∃ submission, Submission.ofParams params = .ok submission ∧
        (Rpc.handle node method params drawn now).2 = (node.submit submission).2 := by
  by_cases hmethod : method = "getminingcandidate"
  · cases hwants : Rpc.wantsCoinbase params with
    | error error =>
      rw [Rpc.handle, if_pos hmethod, hwants]
      exact .inl rfl
    | ok withCoinbase =>
      exact .inr (.inl ⟨withCoinbase, hmethod, rfl, handle_issue node drawn now hmethod hwants⟩)
  · rw [Rpc.handle, if_neg hmethod]
    split_ifs
    · cases hparams : Submission.ofParams params with
      | error error => exact .inl rfl
      | ok submission =>
        refine .inr (.inr ⟨submission, rfl, ?_⟩)
        dsimp only
        rcases node.submit submission with ⟨error | outcome, after⟩ <;> rfl
    · exact .inl rfl

end Handle

end Node

end WorkLease
