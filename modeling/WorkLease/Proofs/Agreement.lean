import Mathlib.Tactic.Common
import WorkLease.Proofs.IssueTimes
import WorkLease.Proofs.Retention

/-!
# Leases and the tip of the chain

A book of leases knows no chain. It hears of tips by announcements, and before the first one it
knows of none. When every move of the tip from outside is announced at once, the book still agrees
with the chain at any time: a commit announces the tip that it made, a candidate is granted on the
tip that is there, and as long as nothing was announced the tip is the one that the node started on.

* `LeaseBook.InStep`: a book agrees with a tip; `LeaseBook.InStep.afterStep` is what one step asks
  for.
* `InStep.perform` is the step of a node, and `InStep.afterTurns` the run.

**Theorem (`leases_track_tip`).** In every run whose moves are announced, the leases that are current
are those on the tip. After a solution was accepted none on another tip is, and the next candidate
stands on the accepted block.
-/

namespace WorkLease

namespace LeaseBook

/-- The book agrees with a tip: no other was announced last, and the leases on it are the current
ones. -/
structure InStep (book : LeaseBook) (tip : Digest) : Prop where
  announced : ∀ last ∈ book.announcedTip, last = tip
  issuedTip : ∀ lease ∈ book.leases, lease.issuedTip = lease.template.parent
  status : ∀ lease ∈ book.leases, lease.status = .current ↔ lease.issuedTip = tip

theorem inStep_empty (policy : LeasePolicy) (tip : Digest) : (empty policy).InStep tip where
  announced _ hlast := by cases hlast
  issuedTip _ hmem := absurd hmem List.not_mem_nil
  status _ hmem := absurd hmem List.not_mem_nil

variable {book : LeaseBook} {tip next : Digest}

/-- A lease that is granted on the tip is current. -/
theorem InStep.newLease_status (h : book.InStep tip) {template : Template}
    (hparent : template.parent = tip) (drawn : CandidateId) (now : Instant) :
    (book.newLease template drawn now).status = .current := by
  show Lease.statusAfter book.announcedTip template.parent = .current
  cases hlast : book.announcedTip with
  | none => rfl
  | some last =>
    rw [h.announced last hlast, hparent]
    exact Lease.statusOn_eq_current_iff.2 rfl

/-- **One step** brings a book in step with the next tip if it announces that tip, or leaves it in
step with a tip that stays; what it grants must stand on that tip. -/
theorem InStep.afterStep (h : book.InStep tip) {step : Step}
    (hnext : step.announces = some next ∨ step.announces = none ∧ next = tip)
    (hgranted : ∀ template drawn now, step = .grant template drawn now → template.parent = tip) :
    (book.afterStep step).InStep next where
  announced last hlast := by
    rw [announcedTip_afterStep] at hlast
    rcases hnext with hsome | ⟨hnone, rfl⟩
    · rw [hsome] at hlast
      exact (Option.some.inj hlast).symm
    · rw [hnone] at hlast
      exact h.announced last hlast
  issuedTip lease hmem := by
    rcases mem_afterStep hmem with ⟨old, hold, rfl⟩ | ⟨template, drawn, now, rfl, rfl⟩
    · rw [Lease.issuedTip_hears, Lease.template, Lease.candidate_hears]
      exact h.issuedTip old hold
    · rfl
  status lease hmem := by
    rcases mem_afterStep hmem with ⟨old, hold, rfl⟩ | ⟨template, drawn, now, rfl, rfl⟩
    · rw [Lease.issuedTip_hears]
      rcases hnext with hsome | ⟨hnone, rfl⟩
      · rw [hsome]
        exact Lease.statusOn_eq_current_iff
      · rw [hnone]
        exact h.status old hold
    · have hparent := hgranted template drawn now rfl
      obtain rfl : next = tip := by
        rcases hnext with hsome | ⟨-, hsame⟩
        · cases hsome
        · exact hsame
      exact iff_of_true (h.newLease_status hparent drawn now) hparent

/-- A book that follows a chain is in step with its tip. -/
theorem InStep.follow (h : book.InStep tip) {link : ChainLink} (hup : link.tipDown = false) :
    (book.afterStep (.follow link)).InStep link.chain.tip.hash := by
  refine h.afterStep (.inl ?_) nofun
  show link.readTip.toOption.map Tip.hash = some link.chain.tip.hash
  rw [ChainLink.readTip_eq_ok_iff.2 ⟨hup, rfl⟩]
  rfl

end LeaseBook

namespace Node

variable {config : Config} {node : Node} {op : Op} {hash : Digest} {height : UInt64}

/-! ## One step -/

/-- The leases agree with the tip of the chain. -/
def InStep (node : Node) : Prop :=
  node.leases.InStep node.link.chain.tip.hash

theorem InStep.issue (h : node.InStep) {withCoinbase : Bool} {drawn : CandidateId}
    {now : Instant}
    (hstays : (node.issue withCoinbase drawn now).2.link.chain.tip.hash =
      node.link.chain.tip.hash) : (node.issue withCoinbase drawn now).2.InStep := by
  have hexit := issue_exit node withCoinbase drawn now
  generalize node.issue withCoinbase drawn now = result at hexit hstays ⊢
  cases hexit with
  | tipUnread htip => exact h
  | poolUnread htip hpool => exact h
  | notBuilt htip hpool hbuild => exact h
  | refused htip hpool hbuild htest =>
    obtain ⟨-, -, hleases⟩ := pretest_frame htest
    unfold InStep
    rw [hstays, hleases]
    exact h
  | @issued tip template after htip hpool hbuild htest =>
    obtain ⟨-, -, hleases⟩ := pretest_frame htest
    obtain ⟨chosen, -, hbuilt⟩ := Template.build_spec hbuild
    obtain ⟨-, rfl⟩ := ChainLink.readTip_eq_ok_iff.1 htip
    unfold InStep
    rw [hstays]
    show (after.leases.afterStep (.grant template drawn now)).InStep _
    rw [hleases]
    refine LeaseBook.InStep.afterStep h (.inr ⟨rfl, rfl⟩) fun granted _ _ hstep => ?_
    obtain ⟨rfl, -, -⟩ := LeaseBook.Step.grant.inj hstep
    exact hbuilt.parent

theorem InStep.submit (h : node.InStep) {submission : Submission}
    (hreadable : (node.submit submission).2.link.tipDown = false)
    (hstays : (node.submit submission).2.link.chain.tip.hash = node.link.chain.tip.hash ∨
      ∃ hash height, (node.submit submission).1 = .ok (.accepted hash height)) :
    (node.submit submission).2.InStep := by
  by_cases haccepted : ∃ hash height, (node.submit submission).1 = .ok (.accepted hash height)
  · obtain ⟨hash, height, haccepted⟩ := haccepted
    unfold InStep
    rw [leases_of_accepted haccepted]
    exact LeaseBook.InStep.follow h hreadable
  · unfold InStep
    rw [hstays.resolve_right haccepted, (chain_leases_of_not_accepted haccepted).2]
    exact h

/-! ## Turns -/

/-- Something that happens to a node: an operation, or a move of the tip that is announced at
once. -/
inductive Turn where
  | op (op : Op)
  | moved (move : TipMove)

def Turn.ops : Turn → List Op
  | .op op => [op]
  | .moved move => [.moveTip move, .announce move.hash]

/-- The node after a list of turns. -/
def afterTurns (node : Node) (turns : List Turn) : Node :=
  (node.run (turns.flatMap Turn.ops)).2

/-- An operation moves the tip from outside, or announces one. -/
def Op.isTipNews : Op → Bool
  | .moveTip _ | .announce _ => true
  | _ => false

/-- A turn is orderly when the tip stays readable and only an accepted block moves it, unless the
move is announced at once; nothing else is announced. -/
def Orderly (node : Node) : Turn → Prop
  | .op op => op.isTipNews = false ∧ (node.perform op).2.link.tipDown = false ∧
      ((node.perform op).2.link.chain.tip.hash = node.link.chain.tip.hash ∨
        ∃ hash height, node.acceptedBy op = some (hash, height))
  | .moved _ => True

/-- Every turn of a list is orderly where it is taken. -/
def OrderlyAll (node : Node) : List Turn → Prop
  | [] => True
  | turn :: turns => node.Orderly turn ∧ OrderlyAll (node.afterTurns [turn]) turns

/-- A node that was started under the configuration is in this state after orderly turns. -/
def ReachedInOrder (config : Config) (turns : List Turn) (node : Node) : Prop :=
  ∃ chain clock validator first, Node.start config chain clock validator = .ok first ∧
    first.OrderlyAll turns ∧ node = first.afterTurns turns

theorem afterTurns_nil (node : Node) : node.afterTurns [] = node := rfl

theorem afterTurns_append (node : Node) (turns more : List Turn) :
    node.afterTurns (turns ++ more) = (node.afterTurns turns).afterTurns more := by
  rw [afterTurns, List.flatMap_append, run_append]
  rfl

theorem orderlyAll_append {turns more : List Turn} (h : node.OrderlyAll turns)
    (hmore : (node.afterTurns turns).OrderlyAll more) : node.OrderlyAll (turns ++ more) := by
  induction turns generalizing node with
  | nil => exact hmore
  | cons turn turns ih =>
    refine ⟨h.1, ih h.2 ?_⟩
    rw [← afterTurns_append]
    exact hmore

variable {config : Config} {turns : List Turn}

theorem ReachedInOrder.reachedBy (h : ReachedInOrder config turns node) :
    ReachedBy config (turns.flatMap Turn.ops) node := by
  obtain ⟨chain, clock, validator, first, hstart, -, rfl⟩ := h
  exact ⟨chain, clock, validator, first, hstart, rfl⟩

theorem ReachedInOrder.append (h : ReachedInOrder config turns node) {more : List Turn}
    (hmore : node.OrderlyAll more) :
    ReachedInOrder config (turns ++ more) (node.afterTurns more) := by
  obtain ⟨chain, clock, validator, first, hstart, hturns, rfl⟩ := h
  exact ⟨chain, clock, validator, first, hstart, orderlyAll_append hturns hmore,
    (afterTurns_append first turns more).symm⟩

/-- **One orderly operation** leaves the leases in step with the tip. -/
theorem InStep.perform (h : node.InStep) (horderly : node.Orderly (.op op)) :
    (node.perform op).2.InStep := by
  obtain ⟨hnews, hreadable, hstays⟩ := horderly
  simp only [acceptedBy_eq_some_iff] at hstays
  rcases hasks : op.asks with _ | ⟨withCoinbase, drawn, now⟩
  · cases hbrings : op.brings with
    | some submission =>
      simp only [hbrings, Option.some.injEq, exists_eq_left'] at hstays
      rw [perform_of_brings hbrings] at hreadable hstays ⊢
      exact h.submit hreadable hstays
    | none =>
      cases op with
      | issue => cases hasks
      | submit => cases hbrings
      | call =>
        rw [perform_call_idle hasks hbrings]
        exact h
      | announce => cases hnews
      | moveTip => cases hnews
      | follow => exact LeaseBook.InStep.follow h hreadable
      | remove id =>
        show (node.leases.afterStep (.remove id)).InStep node.link.chain.tip.hash
        exact LeaseBook.InStep.afterStep h (.inr ⟨rfl, rfl⟩) nofun
      | evict now =>
        show (node.leases.afterStep (.evict now)).InStep node.link.chain.tip.hash
        exact LeaseBook.InStep.afterStep h (.inr ⟨rfl, rfl⟩) nofun
      | _ => exact h
  · have hbrings := brings_of_asks hasks
    simp only [hbrings, reduceCtorEq, false_and, exists_false, or_false] at hstays
    rw [perform_of_asks hasks] at hstays ⊢
    exact h.issue hstays

/-! ## Runs -/

theorem InStep.turn (h : node.InStep) {turn : Turn} (horderly : node.Orderly turn) :
    (node.afterTurns [turn]).InStep := by
  cases turn with
  | op op => exact h.perform horderly
  | moved move =>
    -- The tip is announced before anything else happens, whatever was announced before.
    show (node.leases.afterStep (.announce move.hash)).InStep move.hash
    exact LeaseBook.InStep.afterStep h (.inl rfl) nofun

/-- **Orderly turns** leave the leases in step with the tip. -/
theorem InStep.afterTurns (h : node.InStep) (horderly : node.OrderlyAll turns) :
    (node.afterTurns turns).InStep := by
  induction turns generalizing node with
  | nil => exact h
  | cons turn turns ih =>
    rw [← List.singleton_append, afterTurns_append]
    exact ih (h.turn horderly.1) horderly.2

theorem ReachedInOrder.inStep (h : ReachedInOrder config turns node) : node.InStep := by
  obtain ⟨chain, clock, validator, first, hstart, hturns, rfl⟩ := h
  refine InStep.afterTurns ?_ hturns
  obtain ⟨settings, -, rfl⟩ := exists_of_start hstart
  exact LeaseBook.inStep_empty config.lease chain.tip.hash

theorem maxLeases_perform (node : Node) (op : Op) :
    (node.perform op).2.leases.maxLeases = node.leases.maxLeases := by
  rcases leases_perform node op with hsame | ⟨step, hstep⟩
  · rw [hsame]
  · rw [hstep]
    exact (LeaseBook.limits_afterStep node.leases step).2

theorem maxLeases_run (node : Node) (ops : List Op) :
    (node.run ops).2.leases.maxLeases = node.leases.maxLeases := by
  induction ops generalizing node with
  | nil => rfl
  | cons op ops ih => exact (ih (node.perform op).2).trans (maxLeases_perform node op)

/-- A node has room for a lease. -/
theorem ReachedBy.maxLeases_pos {ops : List Op} (h : ReachedBy config ops node) :
    0 < node.leases.maxLeases := by
  obtain ⟨chain, clock, validator, first, hstart, rfl⟩ := h
  rw [maxLeases_run]
  obtain ⟨settings, -, rfl⟩ := exists_of_start hstart
  exact LeaseBook.maxLeases_empty_pos config.lease

/-! ## The next candidate -/

/-- **A candidate that is issued** stands on the tip, one above it, and its lease is current. -/
theorem InStep.issued (h : node.InStep) (hsound : node.leases.Sound)
    (hroom : 0 < node.leases.maxLeases) {candidate : Candidate}
    (hissued : node.issuedBy op = some candidate) :
    candidate.template.parent = node.link.chain.tip.hash ∧
      candidate.template.height.toNat = node.link.chain.tip.height.toNat + 1 ∧
      ∃ lease, (node.perform op).2.leases.find candidate.id = .ok lease ∧
        lease.candidate = candidate ∧ lease.status = .current := by
  have hissues := issues_of_issuedBy hissued
  generalize (node.perform op).2 = last at hissues ⊢
  cases hissues with
  | @intro withCoinbase drawn now tip template after hasks htip hpool hbuild htest =>
    obtain ⟨-, rfl⟩ := ChainLink.readTip_eq_ok_iff.1 htip
    obtain ⟨-, -, hleases⟩ := pretest_frame htest
    obtain ⟨chosen, -, hbuilt⟩ := Template.build_spec hbuild
    refine ⟨hbuilt.parent, hbuilt.height, after.leases.newLease template drawn now, ?_, rfl, ?_⟩
    · rw [← hleases] at hsound hroom
      exact LeaseBook.find_grant hsound hroom template drawn now
    · rw [hleases]
      exact h.newLease_status hbuilt.parent drawn now

/-- **Leases and chain agree.** In every state between orderly turns the leases that are current are
those that were issued on the tip. When an operation had a block accepted, the leases on any other
tip are superseded, and a candidate that is issued while this tip stands is built on the block, one
above it, and held under a current lease. -/
theorem leases_track_tip (h : ReachedInOrder config turns node) :
    (∀ lease ∈ node.leases.leases,
      lease.status = .current ↔ lease.issuedTip = node.link.chain.tip.hash) ∧
    ∀ op hash height, node.acceptedBy op = some (hash, height) → node.Orderly (.op op) →
      let after := (node.perform op).2
      (∀ lease ∈ after.leases.leases, lease.template.parent ≠ hash → lease.status ≠ .current) ∧
        ∀ more again candidate, after.OrderlyAll more →
          let later := after.afterTurns more
          later.link.chain.tip = after.link.chain.tip →
            later.issuedBy again = some candidate →
              candidate.template.parent = hash ∧
                candidate.template.height.toNat = height.toNat + 1 ∧
                ∃ lease, (later.perform again).2.leases.find candidate.id = .ok lease ∧
                  lease.candidate = candidate ∧ lease.status = .current := by
  refine ⟨h.inStep.status, fun op hash height haccepted horderly => ?_⟩
  dsimp only
  obtain ⟨hhash, hheight⟩ := tip_of_acceptedBy haccepted
  have hafter : ReachedInOrder config (turns ++ [.op op]) (node.perform op).2 :=
    h.append ⟨horderly, trivial⟩
  refine ⟨fun lease hheld hother hcurrent => hother ?_, fun more again candidate hmore htip
    hissued => ?_⟩
  · rw [← hafter.inStep.issuedTip lease hheld, ← hhash]
    exact (hafter.inStep.status lease hheld).1 hcurrent
  · have hlater := hafter.append hmore
    have hstands := hlater.inStep.issued hlater.reachedBy.sound.2.leases
      hlater.reachedBy.maxLeases_pos hissued
    rw [htip, hhash, hheight] at hstands
    exact hstands

/-- The sample run, one operation after the other. -/
def sampleTurns : List Turn :=
  sampleOps.map .op

/-- The sample solution is accepted, and the next candidate stands on it. -/
theorem leases_track_tip_sample : ReachedInOrder sampleConfig sampleTurns sampleNode ∧
    ∃ hash height candidate,
      sampleNode.acceptedBy (.submit sampleSubmission) = some (hash, height) ∧
        (sampleNode.perform (.submit sampleSubmission)).2.issuedBy sampleIssue =
          some candidate ∧
        candidate.template.parent = hash ∧
        candidate.template.height.toNat = height.toNat + 1 := by
  have hreached : ReachedInOrder sampleConfig sampleTurns sampleNode := by
    obtain ⟨chain, clock, validator, first, hstart, hfirst⟩ := reachedBy_start
    obtain rfl : first = sampleStart := hfirst.symm
    refine ⟨chain, clock, validator, sampleStart, hstart, ⟨⟨rfl, rfl, .inl rfl⟩, ?_, trivial⟩, rfl⟩
    exact ⟨rfl, by decide +kernel, .inl (by decide +kernel)⟩
  -- One evaluation of the submission for all that is asked of it.
  have hruns : (sampleNode.submit sampleSubmission).1.toOption.any Outcome.isAccepted = true ∧
      (sampleNode.submit sampleSubmission).2.link.tipDown = false ∧
      ((sampleNode.submit sampleSubmission).2.issuedBy sampleIssue).isSome = true := by
    decide +kernel
  rw [← perform_submit] at hruns
  obtain ⟨hsettled, hreadable, hissued⟩ := hruns
  obtain ⟨hash, height, hsettled⟩ := exists_of_isAccepted hsettled
  obtain ⟨candidate, hissued⟩ := Option.isSome_iff_exists.1 hissued
  have haccepted : sampleNode.acceptedBy (.submit sampleSubmission) = some (hash, height) :=
    acceptedBy_eq_some_iff.2 ⟨sampleSubmission, rfl, hsettled⟩
  obtain ⟨-, hnext⟩ := (leases_track_tip hreached).2 _ hash height haccepted
    ⟨rfl, hreadable, .inr ⟨hash, height, haccepted⟩⟩
  have hstands := hnext [] sampleIssue candidate trivial
  rw [afterTurns_nil] at hstands
  obtain ⟨hparent, hheight, -⟩ := hstands rfl hissued
  exact ⟨hreached, hash, height, candidate, haccepted, hissued, hparent, hheight⟩

end Node

end WorkLease
