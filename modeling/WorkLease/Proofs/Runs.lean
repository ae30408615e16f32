import Mathlib.Tactic.Common
import WorkLease.Proofs.Announcements
import WorkLease.Proofs.Exits
import WorkLease.Proofs.Selection

/-!
# What a node keeps over its runs

Whatever is done to a node, its settings stay, its pool holds entries that were offered, and every
template that it holds under a lease was built from entries that were offered: identifiers,
branch, fees and value agree with its transactions.

* `Sound`: this invariant; `Sound.perform` is the step and `Sound.run` the run.
* `ReachedBy.sound`: so it holds in every state that a started node can be in.
* `leases_perform`: an operation does at most one thing to the book of leases.
-/

namespace WorkLease

theorem Config.exists_of_settings {config : Config} {settings : Settings}
    (h : config.settings = .ok settings) :
    ∃ payout powLimit, config.block.powLimit = .ok powLimit ∧
      settings = ⟨config.depth, config.timeoutMillis, payout, powLimit, config.block⟩ := by
  unfold Config.settings at h
  obtain ⟨-, -, h⟩ := bind_eq_ok_iff.1 h
  obtain ⟨powLimit, hlimit, h⟩ := bind_eq_ok_iff.1 h
  obtain ⟨payout, -, h⟩ := bind_eq_ok_iff.1 h
  exact ⟨payout, powLimit, hlimit, (Except.ok.inj h).symm⟩

/-- What a configuration gives a node that it starts. -/
theorem Config.settings_eq_ok {config : Config} {settings : Settings}
    (h : config.settings = .ok settings) :
    settings.block = config.block ∧ config.block.powLimit = .ok settings.powLimit := by
  obtain ⟨payout, powLimit, hlimit, rfl⟩ := exists_of_settings h
  exact ⟨rfl, hlimit⟩

theorem Config.settings_depth {config : Config} {settings : Settings}
    (h : config.settings = .ok settings) : settings.depth = config.depth := by
  obtain ⟨payout, powLimit, -, rfl⟩ := exists_of_settings h
  rfl

/-- The template was built under the policy, on some tip, from entries that were offered. -/
def Template.Built (policy : BlockPolicy) (offered : List PoolEntry) (template : Template) :
    Prop :=
  ∃ tip chosen, chosen.Sublist offered ∧ template.BuiltFrom policy tip chosen

theorem Template.Built.mono {policy : BlockPolicy} {offered more : List PoolEntry}
    {template : Template} (h : template.Built policy offered) (hsub : offered.Sublist more) :
    template.Built policy more := by
  obtain ⟨tip, chosen, hchosen, hbuilt⟩ := h
  exact ⟨tip, chosen, hchosen.trans hsub, hbuilt⟩

namespace Node

/-- The entries that an operation offers to the pool. -/
def Op.offers : Op → List PoolEntry
  | .addToPool entry => [entry]
  | _ => []

/-- The entries that a list of operations offers to the pool, in order. -/
def offeredBy (ops : List Op) : List PoolEntry :=
  ops.flatMap Op.offers

/-! ## The invariant -/

/-- A node with these settings holds only what was built from the entries offered. -/
structure Sound (settings : Settings) (offered : List PoolEntry) (node : Node) : Prop where
  configured : node.settings = settings
  pool : node.pool.entries.Sublist offered
  leases : node.leases.Sound
  built : ∀ candidate ∈ node.leases.candidates, candidate.template.Built settings.block offered

variable {settings : Settings} {offered : List PoolEntry} {node after : Node}

/-- Entries that are offered later take nothing away. -/
theorem Sound.mono {more : List PoolEntry} (h : node.Sound settings offered)
    (hsub : offered.Sublist more) : node.Sound settings more :=
  { h with
    pool := h.pool.trans hsub
    built := fun candidate hmem => (h.built candidate hmem).mono hsub }

/-- A step that drops entries and candidates at most keeps the invariant. -/
theorem Sound.of_sublist (h : node.Sound settings offered)
    (hsettings : after.settings = node.settings)
    (hpool : after.pool.entries.Sublist node.pool.entries) (hleases : after.leases.Sound)
    (hcandidates : after.leases.candidates.Sublist node.leases.candidates) :
    after.Sound settings offered where
  configured := hsettings.trans h.configured
  pool := hpool.trans h.pool
  leases := hleases
  built candidate hmem := h.built candidate (hcandidates.subset hmem)

/-- A step that leaves settings, pool and leases alone keeps the invariant. -/
theorem Sound.of_eq (h : node.Sound settings offered) (hsettings : after.settings = node.settings)
    (hpool : after.pool = node.pool) (hleases : after.leases = node.leases) :
    after.Sound settings offered :=
  h.of_sublist hsettings (hpool ▸ List.Sublist.refl _) (hleases ▸ h.leases)
    (hleases ▸ List.Sublist.refl _)

theorem Sound.evict (h : node.Sound settings offered) (now : Instant) :
    (node.evict now).2.Sound settings offered :=
  h.of_sublist rfl (List.Sublist.refl _) (h.leases.evict now)
    (LeaseBook.candidates_evict node.leases now)

theorem Sound.announce (h : node.Sound settings offered) (tip : Digest) :
    (node.announce tip).2.Sound settings offered :=
  h.of_sublist rfl (List.Sublist.refl _) (h.leases.announce tip)
    (by rw [Node.announce, LeaseBook.candidates_announce])

theorem Sound.remove (h : node.Sound settings offered) (id : CandidateId) :
    (node.remove id).2.Sound settings offered :=
  h.of_sublist rfl (List.Sublist.refl _) (h.leases.remove id)
    (LeaseBook.candidates_remove node.leases id)

theorem Sound.follow (h : node.Sound settings offered) :
    node.follow.2.Sound settings offered := by
  refine h.of_sublist rfl (List.Sublist.refl _) (h.leases.follow node.link) ?_
  show (node.leases.follow node.link).2.candidates.Sublist node.leases.candidates
  unfold LeaseBook.follow
  cases node.link.readTip with
  | ok tip => rw [LeaseBook.candidates_announce]
  | error error => exact List.Sublist.refl _

/-- A template that was built from the pool is held like the others. -/
theorem Sound.grant (h : node.Sound settings offered) {template : Template}
    (hbuilt : template.Built settings.block offered) (drawn : CandidateId) (now : Instant) :
    (node.grant template drawn now).2.Sound settings offered where
  configured := h.configured
  pool := h.pool
  leases := h.leases.grant template drawn now
  built candidate hmem := by
    rcases List.mem_append.1
      ((LeaseBook.candidates_grant node.leases template drawn now).subset hmem) with hold | hnew
    · exact h.built candidate hold
    · rw [List.mem_singleton.1 hnew]
      exact hbuilt

/-! ## One step -/

theorem Sound.issue (h : node.Sound settings offered) (withCoinbase : Bool)
    (drawn : CandidateId) (now : Instant) :
    (node.issue withCoinbase drawn now).2.Sound settings offered := by
  have hexit := issue_exit node withCoinbase drawn now
  generalize node.issue withCoinbase drawn now = result at hexit
  have htested {tip : Tip} {template : Template} {result : Except ProtocolError Unit}
      {after : Node} (htest : (node.noted tip).pretest template = (result, after)) :
      after.Sound settings offered := by
    obtain ⟨hsettings, hpool, hleases⟩ := pretest_frame htest
    exact h.of_eq hsettings hpool hleases
  cases hexit with
  | tipUnread htip => exact h
  | poolUnread htip hpool => exact h
  | notBuilt htip hpool hbuild => exact h.of_eq rfl rfl rfl
  | refused htip hpool hbuild htest => exact htested htest
  | issued htip hpool hbuild htest =>
    obtain ⟨chosen, hchosen, hbuilt⟩ := Template.build_spec hbuild
    rw [h.configured] at hbuilt
    exact (htested htest).grant ⟨_, chosen, hchosen.trans h.pool, hbuilt⟩ drawn now

theorem Sound.submit (h : node.Sound settings offered) (submission : Submission) :
    (node.submit submission).2.Sound settings offered := by
  rw [submit_eq]
  refine Sound.of_eq ?_ (counted_settings _ _) (counted_pool _ _) (counted_leases _ _)
  have hexit := decideSubmission_exit node submission
  generalize node.decideSubmission submission = result at hexit
  cases hexit with
  | screened hscreen => exact h
  | refused hscreen hrefusal => exact h.of_eq rfl rfl rfl
  | chainDown hscreen hvalid hdown => exact h.of_eq rfl rfl rfl
  | stale hscreen hvalid hup hparent => exact h.of_eq rfl rfl rfl
  | overflow hscreen hvalid hup hparent htop => exact h.of_eq rfl rfl rfl
  | accepted hscreen hvalid hup hparent hnext => exact Sound.follow (h.of_eq rfl rfl rfl)

theorem perform_issue_eq (node : Node) (withCoinbase : Bool) (drawn : CandidateId)
    (now : Instant) : node.perform (.issue withCoinbase drawn now) =
      (.candidate (node.issue withCoinbase drawn now).1,
        (node.issue withCoinbase drawn now).2) := rfl

theorem perform_issue (node : Node) (withCoinbase : Bool) (drawn : CandidateId) (now : Instant) :
    (node.perform (.issue withCoinbase drawn now)).2 =
      (node.issue withCoinbase drawn now).2 := by
  rw [perform_issue_eq]

theorem perform_submit_eq (node : Node) (submission : Submission) :
    node.perform (.submit submission) =
      (.settled (node.submit submission).1, (node.submit submission).2) := rfl

theorem perform_submit (node : Node) (submission : Submission) :
    (node.perform (.submit submission)).2 = (node.submit submission).2 := by
  rw [perform_submit_eq]

theorem perform_call (node : Node) (method : String) (params : Json) (drawn : CandidateId)
    (now : Instant) : (node.perform (.call method params drawn now)).2 =
      (Rpc.handle node method params drawn now).2 := by
  unfold perform
  dsimp only

/-- **One operation** keeps the invariant, for the entries offered before and by it. -/
theorem Sound.perform (h : node.Sound settings offered) (op : Op) :
    (node.perform op).2.Sound settings (offered ++ op.offers) := by
  have hmore : offered.Sublist (offered ++ op.offers) := List.sublist_append_left _ _
  cases op with
  | issue withCoinbase drawn now =>
    rw [perform_issue]
    exact (h.issue withCoinbase drawn now).mono hmore
  | submit submission =>
    rw [perform_submit]
    exact (h.submit submission).mono hmore
  | call method params drawn now =>
    rw [perform_call]
    refine Sound.mono ?_ hmore
    rcases handle_node node method params drawn now with
      hnone | ⟨withCoinbase, -, -, hissue⟩ | ⟨submission, -, hsubmit⟩
    · rw [hnone]
      exact h
    · rw [hissue]
      exact h.issue withCoinbase drawn now
    · rw [hsubmit]
      exact h.submit submission
  | announce tip => exact (h.announce tip).mono hmore
  | follow => exact h.follow.mono hmore
  | remove id => exact (h.remove id).mono hmore
  | evict now => exact (h.evict now).mono hmore
  | addToPool entry =>
    exact { h.mono hmore with pool := h.pool.append (List.Sublist.refl [entry]) }
  | clearPool => exact { h.mono hmore with pool := List.nil_sublist _ }
  | setPoolDown down =>
    exact (h.mono hmore).of_sublist rfl (List.Sublist.refl _) h.leases (List.Sublist.refl _)
  | _ => exact (h.mono hmore).of_eq rfl rfl rfl

/-! ## Runs -/

theorem Sound.run (h : node.Sound settings offered) (ops : List Op) :
    (node.run ops).2.Sound settings (offered ++ offeredBy ops) := by
  -- The entries offered grow along the run, so the invariant is taken for any of them.
  induction ops generalizing node offered with
  | nil =>
    rw [offeredBy, List.flatMap_nil, List.append_nil]
    exact h
  | cons op ops ih =>
    rw [offeredBy, List.flatMap_cons, ← List.append_assoc]
    exact ih (h.perform op)

/-- A node that was started under the configuration, on any chain, is in this state after the
operations. -/
def ReachedBy (config : Config) (ops : List Op) (node : Node) : Prop :=
  ∃ chain clock validator first,
    Node.start config chain clock validator = .ok first ∧ node = (first.run ops).2

theorem exists_of_start {config : Config} {chain : Chain} {clock : UInt64} {validator : Validator}
    (h : Node.start config chain clock validator = .ok node) :
    ∃ settings, config.settings = .ok settings ∧ node = {
      settings
      link := ChainLink.sound chain
      pool := {}
      clock
      validator
      leases := LeaseBook.empty config.lease
      counters := {}
      timeFloor := none
      consultations := [] } := by
  unfold Node.start at h
  obtain ⟨settings, hsettings, h⟩ := bind_eq_ok_iff.1 h
  exact ⟨settings, hsettings, (Except.ok.inj h).symm⟩

theorem sound_start {config : Config} {chain : Chain} {clock : UInt64} {validator : Validator}
    (h : Node.start config chain clock validator = .ok node) :
    config.settings = .ok node.settings ∧ node.Sound node.settings [] := by
  obtain ⟨settings, hsettings, rfl⟩ := exists_of_start h
  exact ⟨hsettings, {
    configured := rfl
    pool := List.Sublist.refl []
    leases := LeaseBook.sound_empty config.lease
    built := fun candidate hmem => absurd hmem List.not_mem_nil }⟩

/-- **Every state that can be reached** satisfies the invariant. -/
theorem ReachedBy.sound {config : Config} {ops : List Op} (h : ReachedBy config ops node) :
    config.settings = .ok node.settings ∧ node.Sound node.settings (offeredBy ops) := by
  obtain ⟨chain, clock, validator, first, hstart, rfl⟩ := h
  obtain ⟨hsettings, hfirst⟩ := sound_start hstart
  have hrun := hfirst.run ops
  rw [hrun.configured]
  exact ⟨hsettings, hrun⟩

theorem run_append (node : Node) (ops more : List Op) :
    (node.run (ops ++ more)).2 = ((node.run ops).2.run more).2 := by
  induction ops generalizing node with
  | nil => rfl
  | cons op ops ih => exact ih (node.perform op).2

/-- What is reached from a state that can be reached can be reached. -/
theorem ReachedBy.run {config : Config} {ops : List Op} (h : ReachedBy config ops node)
    (more : List Op) : ReachedBy config (ops ++ more) (node.run more).2 := by
  obtain ⟨chain, clock, validator, first, hstart, rfl⟩ := h
  exact ⟨chain, clock, validator, first, hstart, (run_append first ops more).symm⟩

/-! ## What happens to the leases -/

/-- At most one step was done to a book. -/
def StepsTo (book after : LeaseBook) : Prop :=
  after = book ∨ ∃ step, after = book.afterStep step

theorem leases_issue (node : Node) (withCoinbase : Bool) (drawn : CandidateId) (now : Instant) :
    StepsTo node.leases (node.issue withCoinbase drawn now).2.leases := by
  have hexit := issue_exit node withCoinbase drawn now
  generalize node.issue withCoinbase drawn now = result at hexit
  cases hexit with
  | tipUnread htip => exact .inl rfl
  | poolUnread htip hpool => exact .inl rfl
  | notBuilt htip hpool hbuild => exact .inl rfl
  | refused htip hpool hbuild htest => exact .inl (pretest_frame htest).2.2
  | @issued tip template after htip hpool hbuild htest =>
    refine .inr ⟨.grant template drawn now, ?_⟩
    rw [← (pretest_frame htest).2.2]
    rfl

theorem leases_submit (node : Node) (submission : Submission) :
    StepsTo node.leases (node.submit submission).2.leases := by
  rw [submit_eq, counted_leases]
  have hexit := decideSubmission_exit node submission
  generalize node.decideSubmission submission = result at hexit
  cases hexit with
  | screened hscreen => exact .inl rfl
  | refused hscreen hrefusal => exact .inl rfl
  | chainDown hscreen hvalid hdown => exact .inl rfl
  | stale hscreen hvalid hup hparent => exact .inl rfl
  | overflow hscreen hvalid hup hparent htop => exact .inl rfl
  | accepted hscreen hvalid hup hparent hnext => exact .inr ⟨.follow _, rfl⟩

/-- **One operation** does at most one thing to the book of leases. -/
theorem leases_perform (node : Node) (op : Op) :
    StepsTo node.leases (node.perform op).2.leases := by
  cases op with
  | issue withCoinbase drawn now =>
    rw [perform_issue]
    exact leases_issue node withCoinbase drawn now
  | submit submission =>
    rw [perform_submit]
    exact leases_submit node submission
  | call method params drawn now =>
    rw [perform_call]
    rcases handle_node node method params drawn now with
      hnone | ⟨withCoinbase, -, -, hissue⟩ | ⟨submission, -, hsubmit⟩
    · rw [hnone]
      exact .inl rfl
    · rw [hissue]
      exact leases_issue node withCoinbase drawn now
    · rw [hsubmit]
      exact leases_submit node submission
  | announce tip => exact .inr ⟨.announce tip, rfl⟩
  | follow => exact .inr ⟨.follow node.link, rfl⟩
  | remove id => exact .inr ⟨.remove id, rfl⟩
  | evict now => exact .inr ⟨.evict now, rfl⟩
  | _ => exact .inl rfl

end Node

end WorkLease
