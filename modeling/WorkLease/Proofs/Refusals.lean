import Mathlib.Tactic.Common
import WorkLease.Proofs.Accounting
import WorkLease.Proofs.Agreement
import WorkLease.Proofs.Depth

/-!
# Issues that are refused

An issue can end without a candidate at many places: the tip or the pool cannot be read, the
template cannot be built, the validator finds it invalid, fails or takes too long. What was done
until then differs, but the node that is left is always the same one (`inspected`): the time for the
tip is taken up if tip and pool could be read, the validator was asked if there was a template, and
a verdict against it is counted. When nothing refuses the issue, this node is the one that grants.

* `issue_of_refusal`, `issue_of_drafted`: an issue is refused, or grants the template that it built.
* `timing_of_drafted`: the time of a template is the one taken up, so the builder does not move it.
* `issueFrame_inspected`: what is left alone either way.

**Theorem (`issue_all_or_nothing`).** In every state that can be reached an issue ends with an error
and issues nothing, or ends with a candidate and holds it.

Of the errors that tell of a rejected template only those are counted that come of a verdict: a
validator that itself fails with such an error has found nothing out about the template. And the tip
may be another one after the issue, if it moves while the validator works (`refusal_uncounted`).
-/

namespace WorkLease

/-- Counts a verdict against a template, and nothing else that the validator may find. -/
def Counters.countFinding (c : Counters) : Option Node.Consultation → Counters
  | some (.answered (.invalid _)) => c.countRejectedTemplate
  | _ => c

theorem Counters.countFinding_of_ne (c : Counters) {found : Option Node.Consultation}
    (h : ∀ reason, found ≠ some (.answered (.invalid reason))) : c.countFinding found = c := by
  unfold countFinding
  split
  · rename_i reason
    exact absurd rfl (h reason)
  · rfl

theorem Counters.countRejectedTemplate_ne (c : Counters) : c.countRejectedTemplate ≠ c := by
  intro h
  have hcount : c.templatesRejected + 1 = c.templatesRejected :=
    congrArg Counters.templatesRejected h
  simp at hcount

namespace Node

variable {config : Config} {ops : List Op} {node : Node} {withCoinbase : Bool}
  {template : Template} {error : ProtocolError} {reason : String}

/-! ## What the validator finds -/

/-- What a template is refused for before its issue. -/
def Consultation.draftRefusal? : Consultation → Option ProtocolError
  | .late => some .validationTimeout
  | .failed error => some error
  | .answered (.invalid reason) => some (.templateRejected reason)
  | .answered .valid => none

/-- The block that the validator is asked about before an issue: the preview of the template, at
full depth. -/
def previewed (node : Node) (withCoinbase : Bool) : Option Block :=
  match node.settings.depth with
  | .fast => none
  | .full => (node.drafted withCoinbase).toOption.map Template.preview

/-- What the validator finds about it. -/
def finding (node : Node) (withCoinbase : Bool) : Option Consultation :=
  (node.previewed withCoinbase).map fun block => (node.consult .template block).1

/-- The chain once the validator has answered. -/
def chainTested (node : Node) (withCoinbase : Bool) : Chain :=
  (node.previewed withCoinbase).elim node.link.chain (node.chainAsked .template)

/-- Why an issue is refused, if it is. -/
def refusal? (node : Node) (withCoinbase : Bool) : Option ProtocolError :=
  match node.drafted withCoinbase with
  | .error error => some error
  | .ok _ => (node.finding withCoinbase).bind Consultation.draftRefusal?

/-- The node once the time of an issue is taken up and the validator has answered. -/
def inspected (node : Node) (withCoinbase : Bool) : Node :=
  { node.timed with
    link := { node.link with chain := node.chainTested withCoinbase }
    counters := node.counters.countFinding (node.finding withCoinbase)
    consultations := node.consultations ++
      (node.previewed withCoinbase).toList.map fun _ => (.template, node.settings.depth) }

theorem previewed_of_error (hdrafted : node.drafted withCoinbase = .error error) :
    node.previewed withCoinbase = none := by
  rw [previewed, hdrafted]
  cases node.settings.depth <;> rfl

theorem inspected_of_unasked (h : node.previewed withCoinbase = none) :
    node.inspected withCoinbase = node.timed := by
  rw [inspected, finding, chainTested, h]
  simp only [Option.toList_none, List.map_nil, List.append_nil]
  rfl

/-- The test of the template that an issue builds. -/
theorem pretest_of_drafted (hdrafted : node.drafted withCoinbase = .ok template) :
    node.timed.pretest template =
      ((node.refusal? withCoinbase).elim (.ok ()) Except.error, node.inspected withCoinbase) := by
  have hrefusal : node.refusal? withCoinbase =
      (node.finding withCoinbase).bind Consultation.draftRefusal? := by
    rw [refusal?, hdrafted]
  rw [hrefusal, pretest]
  cases hdepth : node.settings.depth with
  | fast =>
    have hunasked : node.previewed withCoinbase = none := by
      rw [previewed, hdepth]
    rw [show node.timed.settings.depth = .fast from hdepth, inspected_of_unasked hunasked, finding,
      hunasked]
    rfl
  | full =>
    have hasked : node.previewed withCoinbase = some template.preview := by
      rw [previewed, hdepth, hdrafted]
      rfl
    rw [show node.timed.settings.depth = .full from hdepth]
    dsimp only
    rcases hconsult : node.timed.consult .template template.preview with ⟨result, after⟩
    obtain rfl : node.timed.asked .template template.preview = after := congrArg Prod.snd hconsult
    have hfinding : node.finding withCoinbase = some result := by
      rw [finding, hasked]
      exact congrArg (fun consulted => some consulted.1) hconsult
    rw [inspected, chainTested, hasked, hfinding]
    rcases result with (_ | reason) | error | _ <;> rfl

/-- **A refused issue** ends where the template was inspected. -/
theorem issue_of_refusal (h : node.refusal? withCoinbase = some error) (drawn : CandidateId)
    (now : Instant) :
    node.issue withCoinbase drawn now = (.error error, node.inspected withCoinbase) := by
  rw [issue_eq]
  cases hdrafted : node.drafted withCoinbase with
  | error fault =>
    have hfault : fault = error := by
      rw [refusal?, hdrafted] at h
      exact Option.some.inj h
    rw [inspected_of_unasked (previewed_of_error hdrafted), hfault]
  | ok template =>
    dsimp only
    rw [pretest_of_drafted hdrafted, h]
    rfl

/-- Any other issue grants what it has built. -/
theorem issue_of_drafted (hdrafted : node.drafted withCoinbase = .ok template)
    (h : node.refusal? withCoinbase = none) (drawn : CandidateId) (now : Instant) :
    node.issue withCoinbase drawn now =
      (.ok ((node.inspected withCoinbase).grant template drawn now).1,
        ((node.inspected withCoinbase).grant template drawn now).2) := by
  rw [issue_eq, hdrafted]
  dsimp only
  rw [pretest_of_drafted hdrafted, h]
  rfl

theorem exists_drafted (h : node.refusal? withCoinbase = none) :
    ∃ template, node.drafted withCoinbase = .ok template := by
  cases hdrafted : node.drafted withCoinbase with
  | error error =>
    rw [refusal?, hdrafted] at h
    cases h
  | ok template => exact ⟨template, rfl⟩

/-! ## Errors and counts -/

/-- What keeps a template from being built. -/
theorem error_of_drafted (h : node.drafted withCoinbase = .error error) :
    error ∈ [.chainState "tip unavailable", .mempool "snapshot unavailable",
      ProtocolError.heightOverflow, ProtocolError.feeOverflow, ProtocolError.valueOverflow] := by
  rcases bind_eq_error_iff.1 h with htip | ⟨tip, -, h⟩
  · unfold ChainLink.readTip at htip
    split_ifs at htip
    obtain rfl := Except.error.inj htip
    simp
  · rcases bind_eq_error_iff.1 h with hpool | ⟨entries, -, hbuild⟩
    · unfold Pool.snapshot at hpool
      split_ifs at hpool
      obtain rfl := Except.error.inj hpool
      simp
    · unfold Template.build at hbuild
      split at hbuild
      · obtain rfl := Except.error.inj hbuild
        simp
      dsimp only at hbuild
      split at hbuild
      · obtain rfl := Except.error.inj hbuild
        simp
      split at hbuild
      · obtain rfl := Except.error.inj hbuild
        simp
      · cases hbuild

/-- The time of a template is the one that was taken up: the builder raises it no further. -/
theorem timing_of_drafted (h : node.drafted withCoinbase = .ok template) :
    node.timing = some (template.parent, template.time) := by
  obtain ⟨tip, htip, h⟩ := bind_eq_ok_iff.1 h
  obtain ⟨entries, hpool, hbuild⟩ := bind_eq_ok_iff.1 h
  obtain ⟨chosen, -, hbuilt⟩ := Template.build_spec hbuild
  rw [timing, htip, hpool, hbuilt.parent, time_of_build hbuild]

/-! ## What an issue leaves -/

/-- What an issue leaves beside leases and counters, whether a candidate comes of it or not. -/
structure IssueFrame (node : Node) (withCoinbase : Bool) (after : Node) : Prop where
  settings : after.settings = node.settings
  pool : after.pool = node.pool
  clock : after.clock = node.clock
  validator : after.validator = node.validator
  /-- The validator is asked once at most. -/
  consultations : ∃ asked, asked.length ≤ 1 ∧ after.consultations = node.consultations ++ asked
  /-- Only the validator moves the tip meanwhile. -/
  link : after.link = { node.link with chain := node.chainTested withCoinbase }
  still : (∀ block, (node.validator .template node.settings.depth block).tipMoves = []) →
    after.link = node.link
  timeFloor : after.timeFloor = node.timing.or node.timeFloor
  /-- For the tip of the issue the time does not go back. -/
  raised : ∀ time, node.timeFloor = some (node.link.chain.tip.hash, time) →
    ∃ later, after.timeFloor = some (node.link.chain.tip.hash, later) ∧ time ≤ later

/-- What a refused issue leaves: the leases as they were, and the counters but for one count. -/
structure Refuses (node : Node) (withCoinbase : Bool) (error : ProtocolError) (after : Node) :
    Prop extends IssueFrame node withCoinbase after where
  cause : node.refusal? withCoinbase = some error
  leases : after.leases = node.leases
  /-- A verdict against the template is told, and counted. -/
  counted : ∀ reason, node.finding withCoinbase = some (.answered (.invalid reason)) →
    error = .templateRejected reason ∧ after.counters = node.counters.countRejectedTemplate
  uncounted : (∀ reason, node.finding withCoinbase ≠ some (.answered (.invalid reason))) →
    after.counters = node.counters
  /-- So the error tells what is counted, unless the validator itself fails with it. -/
  told_iff : (∀ reason, node.finding withCoinbase ≠ some (.failed (.templateRejected reason))) →
    ((∃ reason, error = .templateRejected reason) ↔
      after.counters = node.counters.countRejectedTemplate)

/-- What an issue leaves that a candidate comes of. -/
structure Grants (node : Node) (withCoinbase : Bool) (now : Instant) (candidate : Candidate)
    (after : Node) : Prop extends IssueFrame node withCoinbase after where
  drafted : node.drafted withCoinbase = .ok candidate.template
  fresh : candidate.id ∉ node.leases.ids
  /-- One lease is added before others are evicted, and the id finds it afterwards. -/
  lease : ∃ lease : Lease, lease.candidate = candidate ∧
    lease.issuedTip = candidate.template.parent ∧ lease.issuedAt = now ∧
    after.leases = ((node.leases.push lease).evict now).2 ∧
    after.leases.find candidate.id = .ok lease
  counters : after.counters =
    (node.counters.countEvicted (node.leases.size + 1 - after.leases.size)).countIssued
  /-- The time taken up is the time of the template, and it is what is remembered. -/
  timed : node.timing = some (candidate.template.parent, candidate.template.time)
  remembered : after.timeFloor = some (candidate.template.parent, candidate.template.time)

theorem chainTested_of_still
    (h : ∀ block, (node.validator .template node.settings.depth block).tipMoves = []) :
    node.chainTested withCoinbase = node.link.chain := by
  unfold chainTested
  cases node.previewed withCoinbase with
  | none => rfl
  | some block => exact chainAsked_of_still node .template block (h block)

theorem timing_or_raised {time : UInt32}
    (h : node.timeFloor = some (node.link.chain.tip.hash, time)) :
    ∃ later, node.timing.or node.timeFloor = some (node.link.chain.tip.hash, later) ∧
      time ≤ later := by
  unfold timing
  split
  · rename_i tip entries htip hpool
    obtain ⟨-, rfl⟩ := ChainLink.readTip_eq_ok_iff.1 htip
    refine ⟨node.issueTime node.link.chain.tip, rfl, ?_⟩
    rw [UInt32.le_iff_toNat_le]
    exact floor_le_issueTime h
  · exact ⟨time, h, UInt32.le_refl time⟩

theorem issueFrame_inspected (node : Node) (withCoinbase : Bool) :
    node.IssueFrame withCoinbase (node.inspected withCoinbase) where
  settings := rfl
  pool := rfl
  clock := rfl
  validator := rfl
  consultations := by
    refine ⟨_, ?_, rfl⟩
    rw [List.length_map]
    exact Option.length_toList_le
  link := rfl
  still h := by
    show ({ node.link with chain := node.chainTested withCoinbase } : ChainLink) = node.link
    rw [chainTested_of_still h]
  timeFloor := rfl
  raised time hfloor := timing_or_raised hfloor

/-- A grant leaves alone what an issue does. -/
theorem IssueFrame.grant {after : Node} (h : node.IssueFrame withCoinbase after)
    (template : Template) (drawn : CandidateId) (now : Instant) :
    node.IssueFrame withCoinbase (after.grant template drawn now).2 :=
  { h with }

/-- A verdict against the template refuses the issue. -/
theorem refusal_of_verdict
    (h : node.finding withCoinbase = some (.answered (.invalid reason))) :
    node.refusal? withCoinbase = some (.templateRejected reason) := by
  unfold refusal?
  cases hdrafted : node.drafted withCoinbase with
  | error error =>
    rw [finding, previewed_of_error hdrafted] at h
    cases h
  | ok template =>
    dsimp only
    rw [h]
    rfl

/-- A refusal that tells of a verdict comes of one, or is in the words of the validator. -/
theorem finding_of_refusal (h : node.refusal? withCoinbase = some (.templateRejected reason)) :
    node.finding withCoinbase = some (.answered (.invalid reason)) ∨
      node.finding withCoinbase = some (.failed (.templateRejected reason)) := by
  unfold refusal? at h
  cases hdrafted : node.drafted withCoinbase with
  | error error =>
    rw [hdrafted] at h
    obtain rfl := Option.some.inj h
    have hfault := error_of_drafted hdrafted
    simp [ProtocolError.heightOverflow, ProtocolError.feeOverflow,
      ProtocolError.valueOverflow] at hfault
  | ok template =>
    rw [hdrafted] at h
    obtain ⟨result, hfinding, hresult⟩ := Option.bind_eq_some_iff.1 h
    rw [hfinding]
    rcases result with (_ | verdict) | error | _
    · cases hresult
    · cases hresult
      exact .inl rfl
    · cases hresult
      exact .inr rfl
    · cases hresult

/-- The node that was inspected is what a refused issue may leave. -/
theorem refuses_inspected (h : node.refusal? withCoinbase = some error) :
    node.Refuses withCoinbase error (node.inspected withCoinbase) := by
  have hcounted : ∀ reason, node.finding withCoinbase = some (.answered (.invalid reason)) →
      error = .templateRejected reason ∧
        (node.inspected withCoinbase).counters = node.counters.countRejectedTemplate := by
    intro reason hfinding
    refine ⟨?_, ?_⟩
    · exact Option.some.inj (h.symm.trans (refusal_of_verdict hfinding))
    · rw [inspected, hfinding]
      rfl
  have huncounted : (∀ reason, node.finding withCoinbase ≠ some (.answered (.invalid reason))) →
      (node.inspected withCoinbase).counters = node.counters :=
    node.counters.countFinding_of_ne
  refine { issueFrame_inspected node withCoinbase with
    cause := h
    leases := rfl
    counted := hcounted
    uncounted := huncounted
    told_iff := ?_ }
  intro hown
  constructor
  · rintro ⟨reason, rfl⟩
    rcases finding_of_refusal h with hverdict | hfailed
    · exact (hcounted reason hverdict).2
    · exact absurd hfailed (hown reason)
  · intro hcounters
    by_contra hno
    refine node.counters.countRejectedTemplate_ne (hcounters.symm.trans (huncounted ?_))
    intro reason hverdict
    exact hno ⟨reason, (hcounted reason hverdict).1⟩

/-- Where nothing refuses the issue, nothing is counted against it. -/
theorem counters_inspected (h : node.refusal? withCoinbase = none) :
    (node.inspected withCoinbase).counters = node.counters := by
  apply Counters.countFinding_of_ne
  intro reason hverdict
  rw [refusal_of_verdict hverdict] at h
  cases h

/-- The node that was inspected is one to grant to, as it holds the leases of before. -/
theorem grants_inspected (hreached : ReachedBy config ops node)
    (hdrafted : node.drafted withCoinbase = .ok template) (h : node.refusal? withCoinbase = none)
    (drawn : CandidateId) (now : Instant) :
    node.Grants withCoinbase now ((node.inspected withCoinbase).grant template drawn now).1
      ((node.inspected withCoinbase).grant template drawn now).2 := by
  have hframe := (issueFrame_inspected node withCoinbase).grant template drawn now
  have hsound := hreached.sound.2.leases
  have htimed := timing_of_drafted hdrafted
  refine { hframe with
    drafted := hdrafted
    fresh := hsound.newLease_id_not_mem template drawn now
    lease := ⟨node.leases.newLease template drawn now, rfl, rfl, rfl, rfl,
      LeaseBook.find_grant hsound hreached.maxLeases_pos template drawn now⟩
    counters := ?_
    timed := htimed
    remembered := ?_ }
  · show ((node.inspected withCoinbase).counters.countEvicted
      (node.leases.grant template drawn now).2.1).countIssued = _
    rw [counters_inspected h]
    have hevicted := hsound.size_grant template drawn now
    congr 2
    show _ = node.leases.size + 1 - (node.leases.grant template drawn now).2.2.size
    omega
  · show node.timing.or node.timeFloor = _
    rw [htimed]
    rfl

/-- **All or nothing.** A refused issue leaves pool and leases as they were, and counts at most the
verdict that it was refused for. An issue that a candidate comes of adds one lease, under an id that
was free and finds it, for the time that was taken up. -/
theorem issue_all_or_nothing (h : ReachedBy config ops node) (withCoinbase : Bool)
    (drawn : CandidateId) (now : Instant) :
    (∀ error, (node.issue withCoinbase drawn now).1 = .error error →
      node.Refuses withCoinbase error (node.issue withCoinbase drawn now).2) ∧
    ∀ candidate, (node.issue withCoinbase drawn now).1 = .ok candidate →
      node.Grants withCoinbase now candidate (node.issue withCoinbase drawn now).2 := by
  cases hrefusal : node.refusal? withCoinbase with
  | some error =>
    rw [issue_of_refusal hrefusal]
    refine ⟨fun found hfound => ?_, nofun⟩
    obtain rfl := Except.error.inj hfound
    exact refuses_inspected hrefusal
  | none =>
    obtain ⟨template, hdrafted⟩ := exists_drafted hrefusal
    rw [issue_of_drafted hdrafted hrefusal]
    refine ⟨nofun, fun candidate hissued => ?_⟩
    obtain rfl := Except.ok.inj hissued
    exact grants_inspected h hdrafted hrefusal drawn now

/-- The sample node at full depth after these operations. -/
def fullAfter (ops : List Op) : Node := ((sampleAt .full).run ops).2

theorem reachedBy_fullAfter (ops : List Op) :
    ReachedBy { sampleConfig with depth := .full } ops (fullAfter ops) :=
  ⟨_, _, _, sampleAt .full, start_sampleAt .full, rfl⟩

/-- The validator finds every template invalid. -/
def rejectingOps : List Op :=
  [.setValidator (Validator.rejecting "bad-policy")]

/-- A template that is rejected is refused and counted, and one that is not is issued. -/
theorem issue_all_or_nothing_sample :
    (ReachedBy { sampleConfig with depth := .full } rejectingOps (fullAfter rejectingOps) ∧
      ((fullAfter rejectingOps).issue true ⟨1⟩ 0).1 = .error (.templateRejected "bad-policy") ∧
      (fullAfter rejectingOps).Refuses true (.templateRejected "bad-policy")
        ((fullAfter rejectingOps).issue true ⟨1⟩ 0).2) ∧
    ∃ candidate, ((fullAfter []).issue true ⟨1⟩ 0).1 = .ok candidate ∧
      (fullAfter []).Grants true 0 candidate ((fullAfter []).issue true ⟨1⟩ 0).2 := by
  have hrefusal : (fullAfter rejectingOps).refusal? true =
      some (.templateRejected "bad-policy") := by decide +kernel
  have hnone : (fullAfter []).refusal? true = none := by decide +kernel
  obtain ⟨template, hdrafted⟩ := exists_drafted hnone
  have hrefused := congrArg Prod.fst (issue_of_refusal hrefusal ⟨1⟩ 0)
  have hissued := congrArg Prod.fst (issue_of_drafted hdrafted hnone ⟨1⟩ 0)
  refine ⟨⟨reachedBy_fullAfter rejectingOps, hrefused, ?_⟩, _, hissued, ?_⟩
  · exact (issue_all_or_nothing (reachedBy_fullAfter rejectingOps) true ⟨1⟩ 0).1 _ hrefused
  · exact (issue_all_or_nothing (reachedBy_fullAfter []) true ⟨1⟩ 0).2 _ hissued

/-- The validator fails, with the words for a rejected template. -/
def failingOps : List Op :=
  [.setValidator (Validator.failing (.templateRejected "boom"))]

/-- A transaction without inputs is offered, and the tip moves while the validator works. -/
def racedOps : List Op :=
  [.addToPool ⟨{ sampleTx with inputs := [] }, 0⟩,
    .setValidator (Validator.racing ⟨otherTip, 8, 1700000000⟩ Validator.byRules)]

/-- **An error may tell of a rejected template that is not counted**, and a refused issue may find
the tip moved. -/
theorem refusal_uncounted :
    (ReachedBy { sampleConfig with depth := .full } failingOps (fullAfter failingOps) ∧
      ((fullAfter failingOps).issue true ⟨1⟩ 0).1 = .error (.templateRejected "boom") ∧
      ((fullAfter failingOps).issue true ⟨1⟩ 0).2.counters.templatesRejected =
        (fullAfter failingOps).counters.templatesRejected) ∧
    ReachedBy { sampleConfig with depth := .full } racedOps (fullAfter racedOps) ∧
      ((fullAfter racedOps).issue true ⟨1⟩ 0).1 =
        .error (.templateRejected "bad-txns-vin-empty") ∧
      ((fullAfter racedOps).issue true ⟨1⟩ 0).2.link.chain.tip.hash ≠
        (fullAfter racedOps).link.chain.tip.hash := by
  have hfails : (fullAfter failingOps).refusal? true = some (.templateRejected "boom") := by
    decide +kernel
  have hraced : (fullAfter racedOps).refusal? true =
      some (.templateRejected "bad-txns-vin-empty") := by decide +kernel
  rw [issue_of_refusal hfails, issue_of_refusal hraced]
  refine ⟨⟨reachedBy_fullAfter failingOps, rfl, ?_⟩, reachedBy_fullAfter racedOps, rfl, ?_⟩
  · decide +kernel
  · decide +kernel

end Node

end WorkLease
