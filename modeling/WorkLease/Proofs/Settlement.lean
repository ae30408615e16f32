import Mathlib.Tactic.Common
import WorkLease.Proofs.Exits

/-!
# What a submission changes

A submission that ends early, at whichever exit, leaves no trace beside its count: the chain
changes exactly when the answer is that the block was accepted.

The validator may see the tip move while it works, so the chain is compared with the one that
stood when the validator had answered (`chainMeanwhile`); it is the chain of before wherever
the validator leaves the tip alone.

**Theorem (`submit_settles`).** Every submission to every node settles in this way.
-/

namespace WorkLease

/-! ## Counting -/

/-- The kinds of outcomes that are counted apart. -/
inductive OutcomeKind where
  | accepted
  | highHash
  | stale
  | invalid
  | timedOut
  deriving DecidableEq

def Outcome.kind : Outcome → OutcomeKind
  | accepted _ _ => .accepted
  | highHash => .highHash
  | staleTip => .stale
  | invalid _ => .invalid
  | timedOut => .timedOut

namespace Counters

/-- The counter of a kind of outcomes. -/
def ofKind (c : Counters) : OutcomeKind → UInt64
  | .accepted => c.blocksAccepted
  | .highHash => c.highHash
  | .stale => c.staleSubmissions
  | .invalid => c.validationFailures
  | .timedOut => c.validationTimeouts

/-- One submission more was counted, by this outcome and nothing else. -/
structure Counts (outcome : Outcome) (before after : Counters) : Prop where
  submissions : after.submissions = before.submissions + 1
  kind : after.ofKind outcome.kind = before.ofKind outcome.kind + 1
  otherKinds : ∀ kind ≠ outcome.kind, after.ofKind kind = before.ofKind kind
  candidatesIssued : after.candidatesIssued = before.candidatesIssued
  templatesRejected : after.templatesRejected = before.templatesRejected
  leasesEvicted : after.leasesEvicted = before.leasesEvicted

theorem counts_countOutcome (c : Counters) (outcome : Outcome) :
    Counts outcome c (c.countOutcome outcome) := by
  constructor
  case otherKinds =>
    intro kind hkind
    cases outcome <;> cases kind <;> first | rfl | exact absurd rfl hkind
  all_goals cases outcome <;> rfl

end Counters

/-- An announcement is made where the tip can be read, and nothing is done elsewhere. -/
theorem LeaseBook.follow_snd (book : LeaseBook) (link : ChainLink) :
    (book.follow link).2 =
      if link.tipDown then book else (book.announce link.chain.tip.hash).2 := by
  unfold follow ChainLink.readTip
  cases link.tipDown <;> rfl

namespace Node

/-! ## Settling -/

/-- The chain that a submission finds once the validator, if it is asked, has answered. -/
def chainMeanwhile (node : Node) (submission : Submission) : Chain :=
  match node.screen submission with
  | .ok block => node.chainAsked .submission block
  | .error _ => node.link.chain

theorem chainMeanwhile_of_screen {node : Node} {submission : Submission} {block : Block}
    (h : node.screen submission = .ok block) :
    node.chainMeanwhile submission = node.chainAsked .submission block := by
  rw [chainMeanwhile, h]

/-- What an answer tells of the node that is left. -/
structure Settles (node : Node) (submission : Submission) (settled : Settled) (after : Node) :
    Prop where
  /-- Only the validator moves the chain meanwhile. -/
  still : (∀ block, (node.validator .submission node.settings.depth block).tipMoves = []) →
    node.chainMeanwhile submission = node.link.chain
  changed_iff : after.link.chain ≠ node.chainMeanwhile submission ↔
    ∃ hash height, settled = .ok (.accepted hash height)
  /-- An accepted block is the one rebuilt from the submission, and the only change. -/
  committed : ∀ hash height, settled = .ok (.accepted hash height) →
    ∃ template coinbase header tip,
      node.rebuild submission = .ok (template, coinbase, header) ∧
      (node.chainMeanwhile submission).extend (template.complete header coinbase) =
        (.extended tip, after.link.chain) ∧
      tip.hash = hash ∧ tip.height = height
  /-- The tip is announced after a commit if it can be read then. -/
  announced : ∀ hash height, settled = .ok (.accepted hash height) →
    node.link.tipDownAfterExtend = false → after.leases = (node.leases.announce hash).2
  unannounced : ∀ hash height, settled = .ok (.accepted hash height) →
    node.link.tipDownAfterExtend = true → after.leases = node.leases
  refused : (∀ hash height, settled ≠ .ok (.accepted hash height)) →
    after.link.chain = node.chainMeanwhile submission ∧ after.leases = node.leases
  pool : after.pool = node.pool
  timeFloor : after.timeFloor = node.timeFloor
  mistake : ∀ error, settled = .error error → after.counters = node.counters
  counted : ∀ outcome, settled = .ok outcome → Counters.Counts outcome node.counters after.counters

variable {node after : Node} {submission : Submission} {settled : Settled}

theorem counters_of_counted (hcounters : after.counters = node.counters) :
    (∀ error, settled = .error error → (after.counted settled).counters = node.counters) ∧
      ∀ outcome, settled = .ok outcome →
        Counters.Counts outcome node.counters (after.counted settled).counters := by
  refine ⟨?_, ?_⟩
  · rintro error rfl
    exact hcounters
  · rintro outcome rfl
    rw [← hcounters]
    exact Counters.counts_countOutcome after.counters outcome

theorem chainMeanwhile_still
    (h : ∀ block, (node.validator .submission node.settings.depth block).tipMoves = []) :
    node.chainMeanwhile submission = node.link.chain := by
  unfold chainMeanwhile
  cases node.screen submission with
  | error settled => rfl
  | ok block => exact chainAsked_of_still node .submission block (h block)

/-- Every exit but the last leaves chain and leases as they were. -/
theorem settles_of_not_accepted (hno : ∀ hash height, settled ≠ .ok (.accepted hash height))
    (hchain : after.link.chain = node.chainMeanwhile submission)
    (hleases : after.leases = node.leases) (hpool : after.pool = node.pool)
    (hfloor : after.timeFloor = node.timeFloor) (hcounters : after.counters = node.counters) :
    node.Settles submission settled (after.counted settled) where
  still := chainMeanwhile_still
  changed_iff := by
    rw [counted_link]
    exact ⟨fun hchanged => absurd hchain hchanged,
      fun ⟨hash, height, haccepted⟩ => absurd haccepted (hno hash height)⟩
  committed hash height haccepted := absurd haccepted (hno hash height)
  announced hash height haccepted := absurd haccepted (hno hash height)
  unannounced hash height haccepted := absurd haccepted (hno hash height)
  refused _ := by
    rw [counted_link, counted_leases]
    exact ⟨hchain, hleases⟩
  pool := (counted_pool after settled).trans hpool
  timeFloor := (counted_timeFloor after settled).trans hfloor
  mistake := (counters_of_counted hcounters).1
  counted := (counters_of_counted hcounters).2

/-- The last exit extends the chain by the block, and announces the tip if it can. -/
theorem settles_accepted {block : Block} (hscreen : node.screen submission = .ok block)
    (hup : node.link.extendDown = false)
    (hparent : block.header.parent = (node.chainAsked .submission block).tip.hash)
    (hnext : (node.chainAsked .submission block).tip.HasNext) :
    node.Settles submission
      (.ok (.accepted block.hash ((node.chainAsked .submission block).tip.height + 1)))
      (((node.asked .submission block).handed block).follow.2.counted
        (.ok (.accepted block.hash ((node.chainAsked .submission block).tip.height + 1)))) := by
  have hmeanwhile := chainMeanwhile_of_screen hscreen
  have hasked : (node.asked .submission block).link.extendDown = false := hup
  have hwon := Chain.extend_of_parent_eq hparent hnext
  obtain ⟨lease, nonce, coinbase, hgives, hexamined, hblock⟩ := screen_eq_ok_iff.1 hscreen
  have hlink : ((node.asked .submission block).handed block).link =
      { node.link with
        chain := (node.chainAsked .submission block).extended block
        tipDown := node.link.tipDownAfterExtend } := by
    rw [handed, ChainLink.extend_of_extended hasked hwon, ChainLink.through, asked_link]
    simp only [hexamined.tipUp, Bool.false_or]
  have hleases : ((node.asked .submission block).handed block).follow.2.leases =
      (node.leases.follow ((node.asked .submission block).handed block).link).2 := rfl
  rw [hlink, LeaseBook.follow_snd] at hleases
  refine {
    still := chainMeanwhile_still
    changed_iff := ?_
    committed := ?_
    announced := ?_
    unannounced := ?_
    refused := fun hno => absurd rfl (hno _ _)
    pool := rfl
    timeFloor := rfl
    mistake := fun error herror => by cases herror
    counted := (counters_of_counted rfl).2 }
  · rw [counted_link, hmeanwhile]
    refine ⟨fun _ => ⟨_, _, rfl⟩, fun _ => ?_⟩
    show ((node.asked .submission block).handed block).link.chain ≠ _
    rw [hlink]
    exact Chain.extended_ne _ block
  · intro hash height haccepted
    cases haccepted
    refine ⟨lease.template, coinbase, _, ((node.chainAsked .submission block).extended block).tip,
      rebuild_eq_ok_iff.2 ⟨_, _, _, hgives, rfl⟩, ?_, rfl, rfl⟩
    rw [hmeanwhile, ← hblock, hwon, counted_link]
    show _ = (_, ((node.asked .submission block).handed block).link.chain)
    rw [hlink]
  · intro hash height haccepted hreadable
    cases haccepted
    rw [counted_leases, hleases, hreadable]
    rfl
  · intro hash height haccepted hunread
    rw [counted_leases, hleases, hunread]
    rfl

/-- Every exit settles the submission. -/
theorem SubmitExit.settles {result : Settled × Node} (h : SubmitExit node submission result) :
    node.Settles submission result.1 (result.2.counted result.1) := by
  cases h with
  | screened hscreen =>
    refine settles_of_not_accepted (fun hash height h => ?_) ?_ rfl rfl rfl rfl
    · subst h
      cases isAccepted_of_screen hscreen
    · rw [chainMeanwhile, hscreen]
  | refused hscreen hrefusal =>
    refine settles_of_not_accepted (fun hash height h => ?_) ?_ rfl rfl rfl rfl
    · subst h
      cases isAccepted_of_refusal hrefusal
    · rw [chainMeanwhile_of_screen hscreen, asked_link]
  | chainDown hscreen hvalid hdown =>
    refine settles_of_not_accepted (fun hash height h => by cases h) ?_ rfl rfl rfl rfl
    rw [chainMeanwhile_of_screen hscreen, asked_link]
  | @stale block hscreen hvalid hup hparent =>
    refine settles_of_not_accepted (fun hash height h => by cases h) ?_ rfl rfl rfl rfl
    rw [handed_chain ((asked_extendDown node .submission block).trans hup), asked_link,
      Chain.extend_of_parent_ne hparent, chainMeanwhile_of_screen hscreen]
  | overflow hscreen hvalid hup hparent htop =>
    refine settles_of_not_accepted (fun hash height h => by cases h) ?_ rfl rfl rfl rfl
    rw [chainMeanwhile_of_screen hscreen, asked_link]
  | accepted hscreen hvalid hup hparent hnext =>
    exact settles_accepted hscreen hup hparent hnext

/-- What is not accepted leaves chain and leases alone, but for what the validator does. -/
theorem chain_leases_of_not_accepted
    (h : ¬ ∃ hash height, (node.submit submission).1 = .ok (.accepted hash height)) :
    (node.submit submission).2.link.chain = node.chainMeanwhile submission ∧
      (node.submit submission).2.leases = node.leases := by
  rw [submit_eq] at h ⊢
  exact (decideSubmission_exit node submission).settles.refused fun hash height hsettled =>
    h ⟨hash, height, hsettled⟩

/-- The outcome alone is counted. -/
theorem counters_submit (node : Node) (submission : Submission) :
    (node.submit submission).2.counters =
      (node.submit submission).1.toOption.elim node.counters node.counters.countOutcome := by
  rw [submit_eq]
  have hexit := decideSubmission_exit node submission
  generalize node.decideSubmission submission = result at hexit
  have hcounters : result.2.counters = node.counters := by cases hexit <;> rfl
  obtain ⟨error | outcome, after⟩ := result
  · exact hcounters
  · exact congrArg (·.countOutcome outcome) hcounters

/-- **Told accepted exactly when committed**, and nothing is half done. -/
theorem submit_settles (node : Node) (submission : Submission) :
    node.Settles submission (node.submit submission).1 (node.submit submission).2 := by
  rw [submit_eq]
  exact (decideSubmission_exit node submission).settles

end Node

end WorkLease
