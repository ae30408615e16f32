import Mathlib.Tactic.Common
import WorkLease.Proofs.Runs
import WorkLease.Proofs.Settlement

/-!
# What an operation comes to

A miner asks for a candidate or brings a solution, from within or by a remote call, and both ways
lead to the same. Every other operation is one change of the node or of what it works with.

* `perform_of_asks`, `perform_of_brings`: an operation that asks or brings leaves what the issue or
  the submission leaves.
* `issues_of_issuedBy`: what came before a candidate that is issued.
* `perform_call_idle`: a remote call that does neither leaves the node as it is.
* `candidates_perform`: what is held was held before or is issued now.
* `id_not_mem_of_issuedBy`: and what is issued now has an id that was not held.
-/

namespace WorkLease.Node

variable {node : Node} {op : Op} {withCoinbase : Bool} {drawn : CandidateId} {now : Instant}
  {hash : Digest} {height : UInt64}

/-! ## Asking for a candidate -/

/-- What an operation asks for, if it asks for a candidate, be it a call from within or a remote
one. -/
def Op.asks : Op → Option (Bool × CandidateId × Instant)
  | .issue withCoinbase drawn now => some (withCoinbase, drawn, now)
  | .call method params drawn now =>
      if method = "getminingcandidate" then
        (Rpc.wantsCoinbase params).toOption.map fun withCoinbase => (withCoinbase, drawn, now)
      else none
  | _ => none

/-- The candidate that an operation issues. -/
def issuedBy (node : Node) (op : Op) : Option Candidate :=
  op.asks.bind fun (withCoinbase, drawn, now) => (node.issue withCoinbase drawn now).1.toOption

/-- What the operations of a list yield, one after the other. -/
def collect {α : Type} (yields : Node → Op → List α) (node : Node) : List Op → List α
  | [] => []
  | op :: ops => yields node op ++ collect yields (node.perform op).2 ops

/-- The candidates that a list of operations issues, in order. -/
def issuedOver (node : Node) (ops : List Op) : List Candidate :=
  node.collect (fun node op => (node.issuedBy op).toList) ops

/-- An operation that asks for a candidate does what an issue does. -/
theorem perform_of_asks (h : op.asks = some (withCoinbase, drawn, now)) :
    (node.perform op).2 = (node.issue withCoinbase drawn now).2 := by
  cases op with
  | issue =>
    cases h
    exact perform_issue node withCoinbase drawn now
  | call method params =>
    rw [Op.asks] at h
    split_ifs at h with hmethod
    rw [perform_call]
    cases hwants : Rpc.wantsCoinbase params with
    | error error =>
      rw [hwants] at h
      cases h
    | ok wanted =>
      rw [hwants] at h
      cases h
      exact handle_issue node drawn now hmethod hwants
  | _ => cases h

/-- An operation issues a candidate: its template is built on the tip from the pool, passes the
test, and is granted. -/
inductive Issues (node : Node) (op : Op) : Candidate → Node → Prop
  | intro {withCoinbase : Bool} {drawn : CandidateId} {now : Instant} {tip : Tip}
      {template : Template} {after : Node} (hasks : op.asks = some (withCoinbase, drawn, now))
      (htip : node.link.readTip = .ok tip) (hpool : node.pool.snapshot = .ok node.pool.entries)
      (hbuild : Template.build node.settings.block node.settings.payout tip node.pool.entries
        withCoinbase (node.issueTime tip) = .ok template)
      (htest : (node.noted tip).pretest template = (.ok (), after)) :
      Issues node op (after.grant template drawn now).1 (after.grant template drawn now).2

/-- **A candidate that is issued** was built, tested and granted. -/
theorem issues_of_issuedBy {candidate : Candidate} (h : node.issuedBy op = some candidate) :
    Issues node op candidate (node.perform op).2 := by
  obtain ⟨⟨withCoinbase, drawn, now⟩, hasks, hissue⟩ := Option.bind_eq_some_iff.1 h
  rw [perform_of_asks hasks]
  dsimp only at hissue
  have hexit := issue_exit node withCoinbase drawn now
  generalize node.issue withCoinbase drawn now = result at hexit hissue ⊢
  cases hexit with
  | issued htip hpool hbuild htest =>
    obtain rfl := Option.some.inj hissue
    exact .intro hasks htip hpool hbuild htest
  | _ => cases hissue

/-! ## Bringing a solution -/

/-- The solution that an operation brings, be it a call from within or a remote one. -/
def Op.brings : Op → Option Submission
  | .submit submission => some submission
  | .call method params _ _ =>
      if method = "submitminingsolution" then (Submission.ofParams params).toOption else none
  | _ => none

/-- The hash and the height of the block that is accepted by an operation. -/
def acceptedBy (node : Node) (op : Op) : Option (Digest × UInt64) :=
  op.brings.bind fun submission =>
    match (node.submit submission).1 with
    | .ok (.accepted hash height) => some (hash, height)
    | _ => none

/-- An operation that brings a solution does what a submission does. -/
theorem perform_of_brings {submission : Submission} (h : op.brings = some submission) :
    (node.perform op).2 = (node.submit submission).2 := by
  cases op with
  | submit =>
    cases h
    exact perform_submit node submission
  | call method params drawn now =>
    rw [Op.brings] at h
    split_ifs at h with hmethod
    rw [perform_call, Rpc.handle, if_neg (by rw [hmethod]; decide), if_pos hmethod]
    cases hparams : Submission.ofParams params with
    | error error =>
      rw [hparams] at h
      cases h
    | ok found =>
      rw [hparams] at h
      obtain rfl := Option.some.inj h
      dsimp only
      rcases node.submit found with ⟨error | outcome, after⟩ <;> rfl
  | _ => cases h

/-- A remote call that asks for no candidate and brings no solution changes nothing. -/
theorem perform_call_idle {method : String} {params : Json} {drawn : CandidateId} {now : Instant}
    (hasks : (Op.call method params drawn now).asks = none)
    (hbrings : (Op.call method params drawn now).brings = none) :
    (node.perform (.call method params drawn now)).2 = node := by
  rw [Op.asks] at hasks
  rw [Op.brings] at hbrings
  rw [perform_call, Rpc.handle]
  split_ifs with hissue hsubmit
  · rw [if_pos hissue] at hasks
    cases hwants : Rpc.wantsCoinbase params with
    | error error => rfl
    | ok withCoinbase =>
      rw [hwants] at hasks
      cases hasks
  · rw [if_pos hsubmit] at hbrings
    cases hparams : Submission.ofParams params with
    | error error => rfl
    | ok submission =>
      rw [hparams] at hbrings
      cases hbrings
  · rfl

theorem acceptedBy_eq_some_iff : node.acceptedBy op = some (hash, height) ↔
    ∃ submission, op.brings = some submission ∧
      (node.submit submission).1 = .ok (.accepted hash height) := by
  rw [acceptedBy, Option.bind_eq_some_iff]
  refine exists_congr fun submission => and_congr_right fun _ => ?_
  split
  · rename_i found foundHeight haccepted
    rw [haccepted]
    simp
  · rename_i hother
    exact ⟨nofun, fun h => absurd h (hother hash height)⟩

/-- The accepted block is the tip afterwards. -/
theorem tip_of_acceptedBy (h : node.acceptedBy op = some (hash, height)) :
    (node.perform op).2.link.chain.tip.hash = hash ∧
      (node.perform op).2.link.chain.tip.height = height := by
  obtain ⟨submission, hbrings, haccepted⟩ := acceptedBy_eq_some_iff.1 h
  obtain ⟨block, -, hhash, -, hheight, -, hchain⟩ := exists_block_of_accepted haccepted
  rw [perform_of_brings hbrings, hchain, hheight]
  exact ⟨hhash, rfl⟩

/-- The book follows the chain when a block is accepted. -/
theorem leases_of_accepted {submission : Submission}
    (h : (node.submit submission).1 = .ok (.accepted hash height)) :
    (node.submit submission).2.leases =
      node.leases.afterStep (.follow (node.submit submission).2.link) := by
  obtain ⟨block, -, -, -, -, -, -, hafter⟩ := submit_of_accepted h
  rw [hafter]
  rfl

/-- An operation that asks for a candidate brings no solution. -/
theorem brings_of_asks {request : Bool × CandidateId × Instant} (h : op.asks = some request) :
    op.brings = none := by
  cases op with
  | issue => rfl
  | call method params drawn now =>
    rw [Op.asks] at h
    split_ifs at h with hmethod
    rw [Op.brings, if_neg (by rw [hmethod]; decide)]
  | _ => cases h

/-! ## What is held afterwards -/

theorem candidates_submit (node : Node) (submission : Submission) :
    (node.submit submission).2.leases.candidates = node.leases.candidates := by
  by_cases haccepted : ∃ hash height, (node.submit submission).1 = .ok (.accepted hash height)
  · obtain ⟨hash, height, haccepted⟩ := haccepted
    rw [leases_of_accepted haccepted, LeaseBook.afterStep, LeaseBook.follow_snd]
    split_ifs
    · rfl
    · exact LeaseBook.candidates_announce _ _
  · rw [(chain_leases_of_not_accepted haccepted).2]

theorem candidates_issue (node : Node) (withCoinbase : Bool) (drawn : CandidateId)
    (now : Instant) : (node.issue withCoinbase drawn now).2.leases.candidates.Sublist
      (node.leases.candidates ++ (node.issue withCoinbase drawn now).1.toOption.toList) := by
  have hexit := issue_exit node withCoinbase drawn now
  generalize node.issue withCoinbase drawn now = result at hexit ⊢
  cases hexit with
  | refused htip hpool hbuild htest =>
    rw [(pretest_frame htest).2.2]
    exact List.sublist_append_left _ _
  | @issued tip template after htip hpool hbuild htest =>
    rw [← (pretest_frame htest).2.2]
    exact LeaseBook.candidates_grant after.leases template drawn now
  | _ => exact List.sublist_append_left _ _

/-- An operation may drop leases without issuing any. -/
def Op.drops : Op → Bool
  | .remove _ | .evict _ => true
  | _ => false

theorem candidates_perform_of_asks_none (hasks : op.asks = none) (hdrops : op.drops = false) :
    (node.perform op).2.leases.candidates = node.leases.candidates := by
  cases hbrings : op.brings with
  | some submission =>
    rw [perform_of_brings hbrings, candidates_submit]
  | none =>
    cases op with
    | issue => cases hasks
    | submit => cases hbrings
    | call => rw [perform_call_idle hasks hbrings]
    | announce tip => exact LeaseBook.candidates_announce node.leases tip
    | follow =>
      show (node.leases.follow node.link).2.candidates = _
      rw [LeaseBook.follow_snd]
      split_ifs
      · rfl
      · exact LeaseBook.candidates_announce _ _
    | remove => cases hdrops
    | evict => cases hdrops
    | _ => rfl

/-- **What is held** after an operation is some of what was held before and of what it issues, in
this order. -/
theorem candidates_perform (node : Node) (op : Op) :
    (node.perform op).2.leases.candidates.Sublist
      (node.leases.candidates ++ (node.issuedBy op).toList) := by
  rcases hasks : op.asks with _ | ⟨withCoinbase, drawn, now⟩
  · refine List.Sublist.trans ?_ (List.sublist_append_left _ _)
    cases op with
    | remove id => exact LeaseBook.candidates_remove node.leases id
    | evict now => exact LeaseBook.candidates_evict node.leases now
    | _ => rw [candidates_perform_of_asks_none hasks rfl]
  · rw [perform_of_asks hasks, issuedBy, hasks]
    exact candidates_issue node withCoinbase drawn now

theorem mem_candidates_perform {candidate : Candidate}
    (h : candidate ∈ (node.perform op).2.leases.candidates) :
    candidate ∈ node.leases.candidates ∨ node.issuedBy op = some candidate :=
  (List.mem_append.1 ((candidates_perform node op).subset h)).imp_right Option.mem_toList.1

/-- The id of a candidate that is issued was not held. -/
theorem id_not_mem_of_issuedBy {candidate : Candidate} (hsound : node.leases.Sound)
    (h : node.issuedBy op = some candidate) : candidate.id ∉ node.leases.ids := by
  have hissues := issues_of_issuedBy h
  generalize (node.perform op).2 = after at hissues
  obtain @⟨withCoinbase, drawn, now, tip, template, tested, -, -, -, -, htest⟩ := hissues
  have hfresh := hsound.newLease_id_not_mem template drawn now
  rwa [← (pretest_frame htest).2.2] at hfresh ⊢

end WorkLease.Node
