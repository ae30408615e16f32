import Mathlib.Tactic.Common
import WorkLease.Proofs.Operations
import WorkLease.Proofs.Staleness

/-!
# Issued times

The time of a candidate is that of the clock, but not before the next block may be, and not before
the time taken up last, if that was for the same tip (`issuedBy_spec`). Nothing else is remembered:
as soon as a candidate is timed for another tip, the time of the first one is forgotten.

* `timeFloor_perform`: an operation remembers the tip and the time that it takes up, if any.
* `floor_perform`, `floor_run`: while no other tip is timed, the time only rises.

**Theorem (`issued_time_mono`).** The times of the candidates for a tip do not go back, whatever
the clock does, as long as no candidate is timed for another tip in between.

The tip alone is not enough, though it was meant to be: when the chain leaves a tip and comes back
to it, a candidate for the other tip has taken the place of the time that was remembered, and a
clock that was set back meanwhile gives out an earlier time (`issued_time_goes_back`).
-/

namespace WorkLease.Node

variable {ops between : List Op} {node : Node} {op : Op} {withCoinbase : Bool}
  {drawn : CandidateId} {now : Instant} {tip : Digest} {time : UInt32}

/-! ## What is timed -/

/-- The tip and the time that an issue takes up, whether a candidate comes of it or not. -/
def timing (node : Node) : Option (Digest × UInt32) :=
  match node.link.readTip, node.pool.snapshot with
  | .ok tip, .ok _ => some (tip.hash, node.issueTime tip)
  | _, _ => none

/-- The tip and the time that an operation takes up. -/
def timedBy (node : Node) (op : Op) : Option (Digest × UInt32) :=
  op.asks.bind fun _ => node.timing

/-- The tips and times that a list of operations takes up, in order. -/
def timings (node : Node) : List Op → List (Digest × UInt32)
  | [] => []
  | op :: ops => (node.timedBy op).toList ++ timings (node.perform op).2 ops

/-! ## What is remembered -/

theorem timeFloor_issue (node : Node) (withCoinbase : Bool) (drawn : CandidateId)
    (now : Instant) :
    (node.issue withCoinbase drawn now).2.timeFloor = node.timing.or node.timeFloor := by
  have hexit := issue_exit node withCoinbase drawn now
  generalize node.issue withCoinbase drawn now = result at hexit
  unfold timing
  cases hexit with
  | tipUnread htip =>
    rw [htip]
    rfl
  | poolUnread htip hpool =>
    rw [htip, hpool]
    rfl
  | notBuilt htip hpool hbuild =>
    rw [htip, hpool]
    rfl
  | refused htip hpool hbuild htest =>
    rw [htip, hpool]
    exact pretest_timeFloor htest
  | issued htip hpool hbuild htest =>
    rw [htip, hpool]
    exact pretest_timeFloor htest

theorem timeFloor_submit (node : Node) (submission : Submission) :
    (node.submit submission).2.timeFloor = node.timeFloor := by
  rw [submit_eq, counted_timeFloor]
  have hexit := decideSubmission_exit node submission
  generalize node.decideSubmission submission = result at hexit
  cases hexit <;> rfl

theorem timeFloor_of_asks_none (h : op.asks = none) :
    (node.perform op).2.timeFloor = node.timeFloor := by
  cases op with
  | issue => cases h
  | submit submission =>
    rw [perform_submit]
    exact timeFloor_submit node submission
  | call method params drawn now =>
    rw [perform_call]
    rcases handle_node node method params drawn now with
      hnone | ⟨withCoinbase, hmethod, hwants, -⟩ | ⟨submission, -, hsubmit⟩
    · rw [hnone]
    · rw [Op.asks, if_pos hmethod, hwants] at h
      cases h
    · rw [hsubmit]
      exact timeFloor_submit node submission
  | _ => rfl

/-- **One operation** remembers what it takes up, or what was remembered before. -/
theorem timeFloor_perform (node : Node) (op : Op) :
    (node.perform op).2.timeFloor = (node.timedBy op).or node.timeFloor := by
  unfold timedBy
  rcases hasks : op.asks with _ | ⟨withCoinbase, drawn, now⟩
  · exact timeFloor_of_asks_none hasks
  · rw [perform_of_asks hasks]
    exact timeFloor_issue node withCoinbase drawn now

/-! ## The time of a candidate -/

theorem earliestTime_le_issueTime (node : Node) (tip : Tip) :
    tip.earliestTime.toNat ≤ (node.issueTime tip).toNat := by
  unfold issueTime
  dsimp only
  split
  · split_ifs <;> simp only [UInt32.toNat_max] <;> omega
  · rw [UInt32.toNat_max]
    omega

theorem floor_le_issueTime {tip : Tip} (h : node.timeFloor = some (tip.hash, time)) :
    time.toNat ≤ (node.issueTime tip).toNat := by
  unfold issueTime
  rw [h]
  dsimp only
  rw [if_pos rfl, UInt32.toNat_max]
  omega

/-- The builder raises the time of an issue no further, because the node already has. -/
theorem time_of_build {policy : BlockPolicy} {payout : Bytes} {pool : List PoolEntry} {tip : Tip}
    {template : Template}
    (h : Template.build policy payout tip pool withCoinbase (node.issueTime tip) = .ok template) :
    template.time = node.issueTime tip := by
  obtain ⟨htime, -⟩ := Template.build_own h
  apply UInt32.toNat_inj.1
  rw [htime, UInt32.toNat_max]
  exact Nat.max_eq_left (earliestTime_le_issueTime node tip)

/-- A candidate has the tip and the time that its issue takes up. -/
theorem issuedBy_spec {candidate : Candidate} (h : node.issuedBy op = some candidate) :
    ∃ tip, node.link.readTip = .ok tip ∧ candidate.template.parent = tip.hash ∧
      candidate.template.time = node.issueTime tip ∧
      node.timedBy op = some (tip.hash, node.issueTime tip) := by
  have hissues := issues_of_issuedBy h
  generalize (node.perform op).2 = last at hissues
  cases hissues with
  | @intro withCoinbase drawn now tip template after hasks htip hpool hbuild htest =>
    obtain ⟨chosen, -, hbuilt⟩ := Template.build_spec hbuild
    refine ⟨tip, htip, hbuilt.parent, time_of_build hbuild, ?_⟩
    rw [timedBy, hasks]
    show node.timing = _
    rw [timing, htip, hpool]

/-! ## Times do not go back -/

/-- **One operation** that times no other tip leaves the time for this one, or raises it. -/
theorem floor_perform (hfloor : node.timeFloor = some (tip, time))
    (hsame : ∀ timing ∈ node.timedBy op, timing.1 = tip) :
    ∃ later, (node.perform op).2.timeFloor = some (tip, later) ∧ time.toNat ≤ later.toNat := by
  rw [timeFloor_perform]
  cases htimed : node.timedBy op with
  | none => exact ⟨time, hfloor, Nat.le_refl _⟩
  | some timing =>
    obtain rfl := hsame timing htimed
    refine ⟨timing.2, rfl, ?_⟩
    obtain ⟨request, -, htiming⟩ := Option.bind_eq_some_iff.1 htimed
    unfold Node.timing at htiming
    split at htiming
    · obtain rfl := Option.some.inj htiming
      exact floor_le_issueTime hfloor
    · cases htiming

/-- **A run** that times no other tip does so too. -/
theorem floor_run (hfloor : node.timeFloor = some (tip, time))
    (hsame : ∀ timing ∈ node.timings ops, timing.1 = tip) :
    ∃ later, (node.run ops).2.timeFloor = some (tip, later) ∧ time.toNat ≤ later.toNat := by
  induction ops generalizing node time with
  | nil => exact ⟨time, hfloor, Nat.le_refl _⟩
  | cons op ops ih =>
    obtain ⟨hnow, hrest⟩ := List.forall_mem_append.1 hsame
    obtain ⟨next, hnext, hle⟩ :=
      floor_perform hfloor fun timing htimed => hnow timing (Option.mem_toList.2 htimed)
    obtain ⟨later, hlater, hle'⟩ := ih hnext hrest
    exact ⟨later, hlater, Nat.le_trans hle hle'⟩

/-- **The time given out for a tip does not go back** while no other tip is timed. -/
theorem issued_time_mono {first last : Candidate} {again : Op}
    (hfirst : node.issuedBy op = some first)
    (hsame : ∀ timing ∈ (node.perform op).2.timings between, timing.1 = first.template.parent)
    (hlast : ((node.perform op).2.run between).2.issuedBy again = some last)
    (hparent : last.template.parent = first.template.parent) :
    first.template.time ≤ last.template.time := by
  obtain ⟨tip, -, htip, htime, htimed⟩ := issuedBy_spec hfirst
  have hfloor : (node.perform op).2.timeFloor =
      some (first.template.parent, first.template.time) := by
    rw [timeFloor_perform, htimed, htip, htime]
    rfl
  obtain ⟨later, hlater, hle⟩ := floor_run hfloor hsame
  obtain ⟨tip', -, htip', htime', -⟩ := issuedBy_spec hlast
  rw [← hparent, htip'] at hlater
  rw [UInt32.le_iff_toNat_le, htime']
  exact Nat.le_trans hle (floor_le_issueTime hlater)

/-- A miner asks for a candidate. -/
def sampleIssue : Op := .issue false ⟨1⟩ 0

/-- The tip and the time of the candidate that an operation issues. -/
def issuedTiming (node : Node) (op : Op) : Option (Digest × UInt32) :=
  (node.issuedBy op).map fun candidate => (candidate.template.parent, candidate.template.time)

theorem exists_issued (h : node.issuedTiming op = some (tip, time)) :
    ∃ candidate, node.issuedBy op = some candidate ∧ candidate.template.parent = tip ∧
      candidate.template.time = time := by
  obtain ⟨candidate, hissued, hparts⟩ := Option.map_eq_some_iff.1 h
  obtain ⟨rfl, rfl⟩ := Prod.mk.inj hparts
  exact ⟨candidate, hissued, rfl, rfl⟩

/-- The clock is set back, and a remote miner asks for a candidate too. -/
def setBackOps : List Op :=
  [.setClock 1700000050, .call "getminingcandidate" .null ⟨2⟩ 0]

/-- The candidates before and after have the same time. -/
theorem issued_time_mono_sample : ∃ first last,
    sampleStart.issuedBy sampleIssue = some first ∧
      ((sampleStart.perform sampleIssue).2.run setBackOps).2.issuedBy sampleIssue = some last ∧
      first.template.time ≤ last.template.time := by
  have hfirst : sampleStart.issuedTiming sampleIssue = some (Digest.zero, 1700000100) := by
    decide +kernel
  have hlast : ((sampleStart.perform sampleIssue).2.run setBackOps).2.issuedTiming sampleIssue =
      some (Digest.zero, 1700000100) := by decide +kernel
  obtain ⟨first, hfirst, hparent, -⟩ := exists_issued hfirst
  obtain ⟨last, hlast, hparent', -⟩ := exists_issued hlast
  have hsame : ∀ timing ∈ (sampleStart.perform sampleIssue).2.timings setBackOps,
      timing.1 = first.template.parent := by
    rw [hparent]
    decide +kernel
  exact ⟨first, last, hfirst, hlast,
    issued_time_mono hfirst hsame hlast (hparent'.trans hparent.symm)⟩

/-- The tip moves and comes back, a candidate is issued meanwhile, and the clock is set back. -/
def returnOps : List Op :=
  [.moveTip ⟨otherTip, 8, 1700000000⟩, sampleIssue, .moveTip ⟨Digest.zero, 7, 1700000000⟩,
    .setClock 1700000050]

/-- The node after this, on the tip where it was before. -/
def returnedNode : Node := ((sampleStart.perform sampleIssue).2.run returnOps).2

theorem medianTime_of_sorted {times : List UInt32} (h : times.Pairwise (· ≤ ·)) :
    medianTime times = times.getD (times.length / 2) 0 := by
  rw [medianTime, List.mergeSort_of_pairwise]
  simpa using h

/-- All times are the same, and so is their median. -/
theorem returnedNode_link : returnedNode.link = ChainLink.sound
    ⟨⟨Digest.zero, 7, 1700000000, 1700000000, 0x207fffff⟩, List.replicate 3 1700000000, [],
      0x207fffff⟩ := by
  have hmedian : medianTime (List.replicate 3 1700000000) = 1700000000 :=
    medianTime_of_sorted (by decide)
  have hmoved : returnedNode.link = ChainLink.sound
      ⟨⟨Digest.zero, 7, 1700000000, medianTime (List.replicate 3 1700000000), 0x207fffff⟩,
        List.replicate 3 1700000000, [], 0x207fffff⟩ := rfl
  rw [hmoved, hmedian]

/-- **The time for a tip goes back** when the chain comes back to it. -/
theorem issued_time_goes_back : ReachedBy sampleConfig [] sampleStart ∧ ∃ first last,
    sampleStart.issuedBy sampleIssue = some first ∧
      ((sampleStart.perform sampleIssue).2.run returnOps).2.issuedBy sampleIssue = some last ∧
      last.template.parent = first.template.parent ∧
      last.template.time < first.template.time := by
  have hfirst : sampleStart.issuedTiming sampleIssue = some (Digest.zero, 1700000100) := by
    decide +kernel
  have hlast : returnedNode.issuedTiming sampleIssue = some (Digest.zero, 1700000050) := by
    -- The median is sorted by a recursion that does not reduce, so it is put in by hand.
    have hnode : returnedNode = { returnedNode with link := returnedNode.link } := rfl
    rw [hnode, returnedNode_link]
    decide +kernel
  obtain ⟨first, hfirst, hparent, htime⟩ := exists_issued hfirst
  obtain ⟨last, hlast, hparent', htime'⟩ := exists_issued hlast
  refine ⟨reachedBy_start, first, last, hfirst, hlast, hparent'.trans hparent.symm, ?_⟩
  rw [htime, htime']
  decide

end WorkLease.Node
