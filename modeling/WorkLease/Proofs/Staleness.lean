import Mathlib.Tactic.Common
import WorkLease.Proofs.Acceptance

/-!
# Submissions that come too late

A submission comes too late when the lease that it names is held and the tip is no longer the one
the lease was built on. Its answer is then found from the template, the submission and the limit
on targets alone (`Late.submit_eq`): status, clock, pool, validator and height of the tip are not
looked at. The template of a lease never changes while the lease is held
(`HeldThrough.candidate_eq`), so the answer stays the same for the rest of the lease.

**Theorem (`late_answers_stay`).** In any two states of a run that hold the lease, a submission
that is too late in both is answered the same, with a mistake of the caller, a failed proof of work
or a stale tip, and changes nothing but the count; once it was accepted, it is stale.
-/

namespace WorkLease.Node

/-- A submission comes too late: the lease that it names is held, and the tip can be read and is
not the parent of its template. -/
structure Late (node : Node) (submission : Submission) (lease : Lease) : Prop where
  named : node.leaseOf submission = .ok lease
  tipUp : node.link.tipDown = false
  moved : node.link.chain.tip.hash ≠ lease.template.parent

/-- The answers to submissions that come too late. -/
inductive LateAnswer : Settled → Prop
  | mistake {error : ProtocolError} (hcaller : error.isCallerError = true) :
      LateAnswer (.error error)
  | highHash : LateAnswer (.ok .highHash)
  | badBits : LateAnswer (.ok (.invalid "bad-diffbits"))
  | stale : LateAnswer (.ok .staleTip)

variable {config : Config} {ops between : List Op} {settings : Settings}
  {offered : List PoolEntry} {node : Node} {submission : Submission} {lease : Lease}

/-! ## The answer -/

/-- What a rebuilt block comes to that does not extend the tip: only its work is looked at. -/
def overtakenOutcome (powLimit : Nat) (header : Header) : Outcome :=
  match Target.check header.hash header.bits powLimit with
  | .highHash => .highHash
  | .badBits => .invalid BrokenRule.badDifficultyBits.reason
  | .met => .staleTip

/-- What a submission comes to that is too late, by what it is rebuilt to. -/
def lateSettled (powLimit : Nat) :
    Except ProtocolError (Template × Transaction × Header) → Settled
  | .error error => .error error
  | .ok (_, _, header) => .ok (overtakenOutcome powLimit header)

theorem examine_of_moved {template : Template} {coinbase : Transaction} {header : Header}
    (htip : node.link.tipDown = false) (hmoved : node.link.chain.tip.hash ≠ template.parent) :
    node.examine template coinbase header =
      .error (.ok (overtakenOutcome node.settings.powLimit header)) := by
  have hread := ChainLink.readTip_eq_ok_iff.2 ⟨htip, rfl⟩
  unfold examine overtakenOutcome
  cases Target.check header.hash header.bits node.settings.powLimit with
  | highHash => rfl
  | badBits => rfl
  | met =>
    rw [hread]
    exact if_pos hmoved

theorem Late.screen (h : node.Late submission lease) :
    node.screen submission =
      .error (lateSettled node.settings.powLimit (node.rebuild submission)) := by
  cases hparts : node.rebuild submission with
  | error error => exact screen_of_mistake hparts
  | ok parts =>
    obtain ⟨found, nonce, coinbase, hgives, rfl⟩ := rebuild_eq_ok_iff.1 hparts
    obtain rfl := Except.ok.inj (h.named.symm.trans hgives.leaseOf)
    rw [screen_of_rebuild hparts]
    exact examine_of_moved h.tipUp h.moved

/-- **A submission that is too late** is answered by what it is rebuilt to, and is only
counted. -/
theorem Late.submit_eq (h : node.Late submission lease) :
    node.submit submission =
      (lateSettled node.settings.powLimit (node.rebuild submission),
        node.counted (lateSettled node.settings.powLimit (node.rebuild submission))) := by
  have hdecided : node.decideSubmission submission =
      (lateSettled node.settings.powLimit (node.rebuild submission), node) := by
    rw [decideSubmission, h.screen]
  rw [Node.submit_eq, hdecided]

/-- The node that was only counted differs in its counters. -/
theorem exists_counted_eq (node : Node) (settled : Settled) :
    ∃ counters, node.counted settled = { node with counters } := by
  cases settled with
  | ok outcome => exact ⟨node.counters.countOutcome outcome, rfl⟩
  | error error => exact ⟨node.counters, rfl⟩

theorem isCallerError_of_coinbaseOn {template : Template} {error : ProtocolError}
    (h : submission.coinbaseOn template = .error error) : error.isCallerError = true := by
  unfold Submission.coinbaseOn at h
  split at h
  · split at h <;> cases h
    rfl
  · split at h <;> cases h
    rfl

/-- A submission that names a lease and cannot be rebuilt is a mistake of the caller. -/
theorem isCallerError_of_rebuild (hlease : node.leaseOf submission = .ok lease)
    {error : ProtocolError} (h : node.rebuild submission = .error error) :
    error.isCallerError = true := by
  unfold rebuild at h
  rcases bind_eq_error_iff.1 h with hlost | ⟨found, hfound, h⟩
  · rw [hlease] at hlost
    cases hlost
  · cases hnonce : submission.nonce with
    | none =>
      rw [hnonce] at h
      cases h
      rfl
    | some nonce =>
      rw [hnonce] at h
      rcases bind_eq_error_iff.1 h with hcoinbase | ⟨coinbase, -, h⟩
      · exact isCallerError_of_coinbaseOn hcoinbase
      · cases h

theorem Late.answer (h : node.Late submission lease) :
    LateAnswer (node.submit submission).1 := by
  rw [h.submit_eq]
  cases hparts : node.rebuild submission with
  | error error => exact .mistake (isCallerError_of_rebuild h.named hparts)
  | ok parts =>
    obtain ⟨template, coinbase, header⟩ := parts
    show LateAnswer (.ok (overtakenOutcome node.settings.powLimit header))
    unfold overtakenOutcome
    cases Target.check header.hash header.bits node.settings.powLimit with
    | highHash => exact .highHash
    | badBits => exact .badBits
    | met => exact .stale

/-! ## Leases that stay held -/

/-- Some lease is held under an id from this state on to the end of a run. A lease that is dropped
does not come back, so if a later state holds the lease that is held now, it is one that the run
reaches in this way; a lease that is issued under the id afterwards is another one. -/
def HeldThrough (node : Node) (id : CandidateId) : List Op → Prop
  | [] => id ∈ node.leases.ids
  | op :: ops => id ∈ node.leases.ids ∧ HeldThrough (node.perform op).2 id ops

theorem HeldThrough.held {id : CandidateId} (h : node.HeldThrough id ops) :
    id ∈ node.leases.ids := by
  cases ops with
  | nil => exact h
  | cons op ops => exact h.1

/-- **One operation** leaves a candidate as it is while its id stays held. -/
theorem Sound.mem_candidates_perform (h : node.Sound settings offered) {op : Op}
    {candidate : Candidate} (hmem : candidate ∈ node.leases.candidates)
    (hid : candidate.id ∈ (node.perform op).2.leases.ids) :
    candidate ∈ (node.perform op).2.leases.candidates := by
  rcases leases_perform node op with hsame | ⟨step, hstep⟩
  · rw [hsame]
    exact hmem
  · rw [hstep] at hid ⊢
    exact h.leases.mem_candidates_afterStep hmem hid

/-- **A run** leaves it as it is too. -/
theorem HeldThrough.mem_candidates {candidate : Candidate}
    (hheld : node.HeldThrough candidate.id between) (h : node.Sound settings offered)
    (hmem : candidate ∈ node.leases.candidates) :
    candidate ∈ (node.run between).2.leases.candidates := by
  induction between generalizing node offered with
  | nil => exact hmem
  | cons op between ih =>
    exact ih hheld.2 (h.perform op) (h.mem_candidates_perform hmem hheld.2.held)

/-- A submission names the same candidate at both ends of a run that holds the lease. -/
theorem HeldThrough.candidate_eq {first last : Lease} (hheld : node.HeldThrough last.id between)
    (h : node.Sound settings offered) (hfirst : node.leaseOf submission = .ok first)
    (hlast : (node.run between).2.leaseOf submission = .ok last) :
    first.candidate = last.candidate := by
  have hrun := (h.run between).leases
  obtain ⟨hfirstNamed, hfirstMem⟩ := (leaseOf_eq_ok_iff h.leases).1 hfirst
  obtain ⟨hlastNamed, hlastMem⟩ := (leaseOf_eq_ok_iff hrun).1 hlast
  have hid : first.candidate.id = last.candidate.id :=
    Except.ok.inj (hfirstNamed.symm.trans hlastNamed)
  have hkept : first.candidate ∈ (node.run between).2.leases.candidates := by
    refine HeldThrough.mem_candidates ?_ h (List.mem_map_of_mem hfirstMem)
    rw [hid]
    exact hheld
  have hdistinct := hrun.distinct
  rw [LeaseBook.ids_eq] at hdistinct
  exact List.inj_on_of_nodup_map hdistinct hkept (List.mem_map_of_mem hlastMem) hid

/-- Only the template of the lease decides what a submission is rebuilt to. -/
theorem rebuild_congr {later : Node} {first last : Lease}
    (hfirst : node.leaseOf submission = .ok first)
    (hlast : later.leaseOf submission = .ok last) (h : first.candidate = last.candidate) :
    node.rebuild submission = later.rebuild submission := by
  have htemplate : first.template = last.template := congrArg Candidate.template h
  unfold rebuild
  rw [hfirst, hlast]
  simp only [bind, Except.bind, htemplate]

/-! ## Late answers stay -/

/-- **Late answers stay.** The run may begin with the submission itself. -/
theorem late_answers_stay (hreached : ReachedBy config ops node)
    (hheld : node.HeldThrough lease.id between)
    (hlate : (node.run between).2.Late submission lease) :
    let later := (node.run between).2
    LateAnswer (later.submit submission).1 ∧
      (∃ counters, (later.submit submission).2 = { later with counters }) ∧
      (∀ before, node.Late submission before →
        before.candidate = lease.candidate ∧
          (node.submit submission).1 = (later.submit submission).1) ∧
      ∀ hash height, (node.submit submission).1 = .ok (.accepted hash height) →
        (node.submit submission).2.link.chain.tip.hash = hash ∧
          (later.submit submission).1 = .ok .staleTip := by
  have hsound := hreached.sound.2
  have hsettings : (node.run between).2.settings = node.settings :=
    (hsound.run between).configured
  refine ⟨hlate.answer, ?_, fun before hbefore => ?_, fun hash height haccepted => ?_⟩
  · rw [hlate.submit_eq]
    exact exists_counted_eq _ _
  · have hcandidate := hheld.candidate_eq hsound hbefore.named hlate.named
    refine ⟨hcandidate, ?_⟩
    rw [hbefore.submit_eq, hlate.submit_eq, hsettings,
      rebuild_congr hbefore.named hlate.named hcandidate]
  · obtain ⟨block, hscreen, hhash, -, -, -, hchain⟩ := exists_block_of_accepted haccepted
    obtain ⟨first, nonce, coinbase, hgives, hexamined, -⟩ := screen_eq_ok_iff.1 hscreen
    refine ⟨by rw [hchain, Chain.extended_tip_hash, hhash], ?_⟩
    have hcandidate := hheld.candidate_eq hsound hgives.leaseOf hlate.named
    have hparts := rebuild_eq_ok_iff.2 ⟨first, nonce, coinbase, hgives, rfl⟩
    rw [rebuild_congr hgives.leaseOf hlate.named hcandidate] at hparts
    -- The work was met when the block was accepted, and it is the same work.
    rw [hlate.submit_eq, hparts, lateSettled, overtakenOutcome, hsettings,
      Target.check_eq_met_iff.2 hexamined.work]

/-- A tip that the sample lease is not built on. -/
def otherTip : Digest := ⟨List.replicate 32 7, rfl⟩

/-- The sample node after another block was found first. -/
def overtakenNode : Node :=
  (sampleNode.run [.moveTip ⟨otherTip, 8, 1700000300⟩]).2

/-- The new tip is announced, and the clock goes on. -/
def overtakenOps : List Op :=
  [.announce otherTip, .advanceClock 100]

/-- The sample lease once the new tip is announced. -/
def overtakenLease : Lease :=
  sampleLease.announced otherTip

/-- The sample solution comes too late before and after the announcement that supersedes its
lease, and is answered the same. -/
theorem late_answers_stay_sample :
    overtakenNode.Late sampleSubmission sampleLease ∧
      overtakenNode.HeldThrough overtakenLease.id overtakenOps ∧
      (overtakenNode.run overtakenOps).2.Late sampleSubmission overtakenLease ∧
      LateAnswer (overtakenNode.submit sampleSubmission).1 ∧
      ((overtakenNode.run overtakenOps).2.submit sampleSubmission).1 =
        (overtakenNode.submit sampleSubmission).1 := by
  have hreached := reachedBy_sample.run [.moveTip ⟨otherTip, 8, 1700000300⟩]
  have hnamed : CandidateId.ofText sampleSubmission.id = .ok sampleLease.id := by decide +kernel
  have hbefore : overtakenNode.Late sampleSubmission sampleLease := {
    named := (leaseOf_eq_ok_iff hreached.sound.2.leases).2 ⟨hnamed, sampleLease_mem⟩
    tipUp := by decide +kernel
    moved := by decide +kernel }
  have hmem : overtakenLease ∈ (overtakenNode.run overtakenOps).2.leases.leases :=
    List.mem_map_of_mem sampleLease_mem
  have hheld : overtakenNode.HeldThrough overtakenLease.id overtakenOps := by
    have hbeforeId : sampleLease.id ∈ overtakenNode.leases.ids :=
      List.mem_map_of_mem sampleLease_mem
    have hafterId : overtakenLease.id ∈ (overtakenNode.run overtakenOps).2.leases.ids :=
      List.mem_map_of_mem hmem
    exact ⟨hbeforeId, hafterId, hafterId⟩
  have hafter : (overtakenNode.run overtakenOps).2.Late sampleSubmission overtakenLease := {
    named := (leaseOf_eq_ok_iff (hreached.run overtakenOps).sound.2.leases).2 ⟨hnamed, hmem⟩
    tipUp := by decide +kernel
    moved := by decide +kernel }
  obtain ⟨hanswer, -, hsame, -⟩ := late_answers_stay hreached hheld hafter
  obtain ⟨-, hequal⟩ := hsame sampleLease hbefore
  exact ⟨hbefore, hheld, hafter, hequal ▸ hanswer, hequal.symm⟩

end WorkLease.Node
