import Mathlib.Tactic.Common
import WorkLease.Proofs.IssueTimes
import WorkLease.Proofs.Pretest
import WorkLease.Proofs.Renaming

/-!
# The depth of validation

Two nodes that differ in their depth alone do different things: the one at full depth asks the
validator about every template before it issues it, and the validator looks at more. When it answers
by the rules of the block alone, and what comes from the pool has inputs, outputs and identifiers of
its own, all that it is asked about is valid, so that a test changes nothing that an answer depends
on.

* `Twins`: a node at full depth has gone the way of one at fast depth; the ids that the two gave out
  side by side stand for each other.
* `Twins.issue` and `Twins.submit` are the steps in which the nodes do different things,
  `Twins.perform` is the step, and `Twins.run` the run.

**Theorem (`depth_changes_nothing`).** Two nodes that are started at the two depths and go through
the same give the same answers, and end in the same state but for the ids.
-/

namespace WorkLease

theorem Template.Built.filled {policy : BlockPolicy} {offered : List PoolEntry}
    {template : Template} (h : template.Built policy offered)
    (hfilled : ∀ entry ∈ offered, entry.tx.Filled) :
    ∀ tx ∈ template.transactions, tx.Filled := by
  obtain ⟨tip, chosen, hchosen, hbuilt⟩ := h
  intro tx htx
  rw [hbuilt.transactions] at htx
  obtain ⟨entry, hentry, rfl⟩ := List.mem_map.1 htx
  exact hfilled entry (hchosen.subset hentry)

namespace Node

variable {settings : Settings} {offered : List PoolEntry} {node fast full : Node}
  {pairs : IdPairs} {withCoinbase : Bool} {now : Instant} {template : Template}

/-! ## The parts of an issue -/

/-- The template that an issue builds. -/
def drafted (node : Node) (withCoinbase : Bool) : Except ProtocolError Template := do
  let tip ← node.link.readTip
  let entries ← node.pool.snapshot
  Template.build node.settings.block node.settings.payout tip entries withCoinbase
    (node.issueTime tip)

/-- The node once the time of an issue is taken up. -/
def timed (node : Node) : Node :=
  { node with timeFloor := node.timing.or node.timeFloor }

theorem issue_eq (node : Node) (withCoinbase : Bool) (drawn : CandidateId) (now : Instant) :
    node.issue withCoinbase drawn now =
      match node.drafted withCoinbase with
      | .error error => (.error error, node.timed)
      | .ok template =>
          match node.timed.pretest template with
          | (.error error, after) => (.error error, after)
          | (.ok (), after) =>
              (.ok (after.grant template drawn now).1, (after.grant template drawn now).2) := by
  unfold issue drafted timed timing
  cases node.link.readTip with
  | error error => rfl
  | ok tip =>
    cases node.pool.snapshot with
    | error error => rfl
    | ok entries => rfl

/-- A template that is built from a pool is valid, if the entries are filled and none has the
identifier of the coinbase. -/
theorem preview_valid (hdrafted : node.drafted withCoinbase = .ok template)
    (hfilled : ∀ entry ∈ node.pool.entries, entry.tx.Filled)
    (hfresh : ∀ entry ∈ node.pool.entries, template.previewCoinbase.txid ≠ entry.tx.txid)
    (depth : ValidationDepth) : Validator.rulesVerdict depth template.preview = .valid := by
  obtain ⟨tip, -, hdrafted⟩ := bind_eq_ok_iff.1 hdrafted
  obtain ⟨entries, hentries, hbuild⟩ := bind_eq_ok_iff.1 hdrafted
  obtain rfl := Pool.snapshot_eq_ok hentries
  obtain ⟨chosen, hchosen, hbuilt⟩ := Template.build_spec hbuild
  have hstandalone : BlockRules.standalone template.preview = .ok () := by
    refine Template.standalone_preview hbuild fun hmem => ?_
    rw [hbuilt.txids, hbuilt.transactions, List.map_map] at hmem
    obtain ⟨entry, hentry, htxid⟩ := List.mem_map.1 hmem
    exact hfresh entry (hchosen.subset hentry) htxid.symm
  rw [Validator.rulesVerdict_of_standalone hstandalone]
  exact Validator.restVerdict_of_filled (Template.Built.filled ⟨tip, chosen, hchosen, hbuilt⟩ hfilled)

/-! ## Twins -/

/-- The node at full depth, with other leases and other consultations. -/
def deepened (node : Node) (leases : LeaseBook)
    (consultations : List (Stage × ValidationDepth)) : Node :=
  { node with settings := { node.settings with depth := .full }, leases, consultations }

/-- A node at fast depth and one at full depth, both of which ask the rules, agree in all that an
answer depends on, up to ids. -/
inductive Twins (pairs : IdPairs) : Node → Node → Prop
  | intro {node : Node} {leases : LeaseBook} {consultations : List (Stage × ValidationDepth)}
      (depth : node.settings.depth = .fast) (rules : node.validator = Validator.byRules)
      (twins : node.leases.Twins pairs leases) :
      Twins pairs node (node.deepened leases consultations)

/-- Consultations are not looked at. -/
theorem Twins.consulted (h : Twins pairs fast full)
    (consultations consultations' : List (Stage × ValidationDepth)) :
    Twins pairs { fast with consultations } { full with consultations := consultations' } := by
  cases h with
  | intro hdepth hrules htwins => exact .intro hdepth hrules htwins

theorem Twins.timed (h : Twins pairs fast full) : Twins pairs fast.timed full.timed := by
  cases h with
  | intro hdepth hrules htwins => exact .intro hdepth hrules htwins

theorem Twins.linked (h : Twins pairs fast full) (link : ChainLink) :
    Twins pairs { fast with link } { full with link } := by
  cases h with
  | intro hdepth hrules htwins => exact .intro hdepth hrules htwins

theorem Twins.link_eq (h : Twins pairs fast full) : full.link = fast.link := by
  cases h with
  | intro hdepth hrules htwins => rfl

theorem Twins.rules (h : Twins pairs fast full) :
    fast.validator = Validator.byRules ∧ full.validator = Validator.byRules := by
  cases h with
  | intro hdepth hrules htwins => exact ⟨hrules, hrules⟩

theorem Twins.counted (h : Twins pairs fast full) (settled : Settled) :
    Twins pairs (fast.counted settled) (full.counted settled) := by
  cases h with
  | intro hdepth hrules htwins => cases settled <;> exact .intro hdepth hrules htwins

/-! ## What is done to the leases -/

theorem Twins.announce (h : Twins pairs fast full) (tip : Digest) :
    (fast.announce tip).1 = (full.announce tip).1 ∧
      Twins pairs (fast.announce tip).2 (full.announce tip).2 := by
  cases h with
  | intro hdepth hrules htwins =>
    obtain ⟨hcount, hannounced⟩ := htwins.announce tip
    exact ⟨hcount, .intro hdepth hrules hannounced⟩

theorem Twins.follow (h : Twins pairs fast full) :
    fast.follow.1 = full.follow.1 ∧ Twins pairs fast.follow.2 full.follow.2 := by
  cases h with
  | intro hdepth hrules htwins =>
    obtain ⟨hresult, hfollowed⟩ := htwins.follow fast.link
    exact ⟨hresult, .intro hdepth hrules hfollowed⟩

theorem Twins.remove (h : Twins pairs fast full) {id id' : CandidateId}
    (hname : ∀ pair ∈ pairs, pair.1 = id ↔ pair.2 = id') :
    (fast.remove id).1 = (full.remove id').1 ∧
      Twins pairs (fast.remove id).2 (full.remove id').2 := by
  cases h with
  | intro hdepth hrules htwins =>
    obtain ⟨hheld, hremoved⟩ := htwins.remove hname
    exact ⟨hheld, .intro hdepth hrules hremoved⟩

/-- As many leases are evicted, and so the counters stay the same. -/
theorem Twins.evict (h : Twins pairs fast full) (hone : pairs.OneToOne) (now : Instant) :
    (fast.evict now).1 = (full.evict now).1 ∧
      Twins pairs (fast.evict now).2 (full.evict now).2 := by
  cases h with
  | @intro leases consultations hdepth hrules htwins =>
    obtain ⟨hcount, hkept⟩ := htwins.evict hone now
    have hafter : ((fast.deepened leases consultations).evict now).2 =
        (fast.evict now).2.deepened (leases.evict now).2 consultations := by
      unfold Node.evict deepened
      dsimp only
      rw [hcount]
    rw [hafter]
    exact ⟨hcount, .intro hdepth hrules hkept⟩

theorem Twins.grant (h : Twins pairs fast full) (template : Template)
    (drawn drawn' : CandidateId) (now : Instant)
    (hone : (pairs ++ [((fast.grant template drawn now).1.id,
      (full.grant template drawn' now).1.id)] : IdPairs).OneToOne) :
    Twins (pairs ++ [((fast.grant template drawn now).1.id, (full.grant template drawn' now).1.id)])
      (fast.grant template drawn now).2 (full.grant template drawn' now).2 := by
  cases h with
  | @intro leases consultations hdepth hrules htwins =>
    obtain ⟨hevicted, hgranted⟩ := htwins.grant template drawn drawn' now hone
    have hafter : ((fast.deepened leases consultations).grant template drawn' now).2 =
        (fast.grant template drawn now).2.deepened (leases.grant template drawn' now).2.2
          consultations := by
      unfold Node.grant deepened
      dsimp only
      rw [hevicted]
    rw [hafter]
    exact .intro hdepth hrules hgranted

theorem Twins.issue (h : Twins pairs fast full)
    (hfilled : ∀ entry ∈ fast.pool.entries, entry.tx.Filled)
    (hfresh : ∀ template, fast.drafted withCoinbase = .ok template →
      ∀ entry ∈ fast.pool.entries, template.previewCoinbase.txid ≠ entry.tx.txid)
    (drawn drawn' : CandidateId) :
    (∃ error after after', fast.issue withCoinbase drawn now = (.error error, after) ∧
      full.issue withCoinbase drawn' now = (.error error, after') ∧ Twins pairs after after') ∨
    ∃ candidate candidate' after after',
      fast.issue withCoinbase drawn now = (.ok candidate, after) ∧
      full.issue withCoinbase drawn' now = (.ok candidate', after') ∧
      candidate.template = candidate'.template ∧
      ((pairs ++ [(candidate.id, candidate'.id)] : IdPairs).OneToOne →
        Twins (pairs ++ [(candidate.id, candidate'.id)]) after after') := by
  have htimed := h.timed
  cases h with
  | @intro leases consultations hdepth hrules htwins =>
    have hdrafted' : (fast.deepened leases consultations).drafted withCoinbase =
        fast.drafted withCoinbase := rfl
    rw [issue_eq, issue_eq, hdrafted']
    cases hdrafted : fast.drafted withCoinbase with
    | error error => exact .inl ⟨error, _, _, rfl, rfl, htimed⟩
    | ok template =>
      have hvalid := preview_valid hdrafted hfilled (hfresh template hdrafted) .full
      have hfast : fast.timed.pretest template = (.ok (), fast.timed) := by
        rw [pretest, show fast.timed.settings.depth = .fast from hdepth]
      have hrules' : (fast.deepened leases consultations).timed.validator = Validator.byRules :=
        hrules
      dsimp only
      rw [hfast, pretest_of_valid hrules' rfl hvalid]
      exact .inr ⟨_, _, _, _, rfl, rfl, rfl,
        (htimed.consulted fast.consultations _).grant template drawn drawn' now⟩

/-! ## Taking solutions -/

/-- Two texts name the same lease in two nodes, or none at all. A text that names leases of different
issues, because an id was given out twice, is the same as no other. -/
def SameName (pairs : IdPairs) (text text' : String) : Prop :=
  ∀ pair ∈ pairs, CandidateId.ofText text = .ok pair.1 ↔ CandidateId.ofText text' = .ok pair.2

/-- A text that is no id finds no lease, like an id under which none is held. -/
theorem leaseOf_eq (node : Node) (submission : Submission) : node.leaseOf submission =
    match node.leases.leases.find? fun lease => CandidateId.ofText submission.id = .ok lease.id with
    | some lease => .ok lease
    | none => .error .unknownCandidate := by
  rw [leaseOf]
  cases hid : CandidateId.ofText submission.id with
  | error error =>
    have hnone : node.leases.leases.find? (fun lease =>
        (Except.error error : Except ProtocolError CandidateId) = .ok lease.id) = none :=
      List.find?_eq_none.2 fun lease _ => by simp
    rw [hnone]
    unfold CandidateId.ofText at hid
    split at hid
    · cases hid
    · exact hid ▸ rfl
  | ok id =>
    simp only [Except.ok.injEq, eq_comm (a := id)]
    rfl

variable {submission : Submission} {text : String}

theorem Twins.rebuild (h : Twins pairs fast full) (hname : SameName pairs submission.id text) :
    fast.rebuild submission = full.rebuild { submission with id := text } := by
  cases h with
  | @intro leases consultations hdepth hrules htwins =>
    have hfound := LeaseBook.rel_find? (p := fun lease => CandidateId.ofText submission.id =
      .ok lease.id) (q := fun lease => CandidateId.ofText text = .ok lease.id) htwins.leases
      fun lease lease' hlease => by simp only [hname _ hlease.ids]
    have hleases : (fast.deepened leases consultations).leases.leases = leases.leases := rfl
    unfold Node.rebuild
    rw [leaseOf_eq, leaseOf_eq, hleases]
    generalize fast.leases.leases.find? _ = found at hfound ⊢
    generalize leases.leases.find? _ = found' at hfound ⊢
    cases hfound with
    | none => rfl
    | some hlease =>
      dsimp only [bind, Except.bind]
      rw [hlease.template]
      rfl

theorem Twins.screen (h : Twins pairs fast full) (hname : SameName pairs submission.id text) :
    fast.screen submission = full.screen { submission with id := text } := by
  unfold Node.screen
  rw [h.rebuild hname]
  cases h with
  | intro hdepth hrules htwins => rfl

theorem Twins.commit (h : Twins pairs fast full) (block : Block) :
    (fast.commit block).1 = (full.commit block).1 ∧
      Twins pairs (fast.commit block).2 (full.commit block).2 := by
  unfold Node.commit
  rw [h.link_eq]
  rcases fast.link.extend block with ⟨error | tip | current | _, link⟩
  · exact ⟨rfl, h.linked link⟩
  · exact ⟨rfl, (h.linked link).follow.2⟩
  · exact ⟨rfl, h.linked link⟩
  · exact ⟨rfl, h.linked link⟩

/-- A block that the rules find valid is handed to the chain. -/
theorem decideSubmission_of_valid {block : Block} (hrules : node.validator = Validator.byRules)
    (hscreen : node.screen submission = .ok block)
    (hvalid : Validator.rulesVerdict node.settings.depth block = .valid) :
    node.decideSubmission submission = Node.commit
      { node with
        consultations := node.consultations ++ [(.submission, node.settings.depth)] }
      block := by
  rw [decideSubmission, hscreen]
  dsimp only
  rw [consult_byRules hrules, hvalid]

theorem Twins.decideSubmission (h : Twins pairs fast full) (hsound : fast.Sound settings offered)
    (hfilled : ∀ entry ∈ offered, entry.tx.Filled)
    (hname : SameName pairs submission.id text) :
    (fast.decideSubmission submission).1 =
        (full.decideSubmission { submission with id := text }).1 ∧
      Twins pairs (fast.decideSubmission submission).2
        (full.decideSubmission { submission with id := text }).2 := by
  have hsame := h.screen hname
  cases hscreen : fast.screen submission with
  | error settled =>
    rw [hscreen] at hsame
    unfold Node.decideSubmission
    rw [hscreen, ← hsame]
    exact ⟨rfl, h⟩
  | ok block =>
    -- Both validators find the block valid, though the one at full depth looks at more.
    have hvalid (depth : ValidationDepth) : Validator.rulesVerdict depth block = .valid := by
      obtain ⟨lease, hheld, hverdict⟩ := exists_lease_of_screen hsound hscreen
      rw [hverdict]
      exact Validator.restVerdict_of_filled
        ((hsound.built _ (List.mem_map_of_mem hheld)).filled hfilled)
    obtain ⟨hfast, hfull⟩ := h.rules
    rw [decideSubmission_of_valid hfast hscreen (hvalid _),
      decideSubmission_of_valid hfull (hsame ▸ hscreen) (hvalid _)]
    exact (h.consulted _ _).commit block

theorem Twins.submit (h : Twins pairs fast full) (hsound : fast.Sound settings offered)
    (hfilled : ∀ entry ∈ offered, entry.tx.Filled)
    (hname : SameName pairs submission.id text) :
    (fast.submit submission).1 = (full.submit { submission with id := text }).1 ∧
      Twins pairs (fast.submit submission).2 (full.submit { submission with id := text }).2 := by
  obtain ⟨hsettled, htwins⟩ := h.decideSubmission hsound hfilled hname
  rw [submit_eq, submit_eq, ← hsettled]
  dsimp only
  exact ⟨rfl, htwins.counted (fast.decideSubmission submission).1⟩

/-! ## Operations -/

/-- Operations that no miner calls, that name no lease and that leave the validator in place. -/
def Op.isPlain : Op → Bool
  | .issue .. | .submit _ | .call .. | .remove _ | .setValidator _ => false
  | _ => true

/-- The same operation on two nodes: what is drawn may differ, and a lease is named by the ids that
it has in each. -/
inductive Op.Same (pairs : IdPairs) : Op → Op → Prop
  | issue (withCoinbase : Bool) (drawn drawn' : CandidateId) (now : Instant) :
      Same pairs (.issue withCoinbase drawn now) (.issue withCoinbase drawn' now)
  | submit {submission : Submission} {text : String} (hname : SameName pairs submission.id text) :
      Same pairs (.submit submission) (.submit { submission with id := text })
  | remove {id id' : CandidateId} (hname : ∀ pair ∈ pairs, pair.1 = id ↔ pair.2 = id') :
      Same pairs (.remove id) (.remove id')
  | plain {op : Op} (hplain : op.isPlain = true) : Same pairs op op

/-- The same answer, but for the id of a candidate. -/
inductive Answer.Same : Answer → Answer → Prop
  | candidate {candidate candidate' : Candidate}
      (htemplate : candidate.template = candidate'.template) :
      Same (.candidate (.ok candidate)) (.candidate (.ok candidate'))
  | equal {answer answer' : Answer} (h : answer = answer') : Same answer answer'

/-- The ids of the candidates that two nodes issue side by side. -/
def issuedPair (node node' : Node) (op op' : Op) : IdPairs :=
  match node.issuedBy op, node'.issuedBy op' with
  | some candidate, some candidate' => [(candidate.id, candidate'.id)]
  | _, _ => []

theorem issuedBy_issue (node : Node) (withCoinbase : Bool) (drawn : CandidateId) (now : Instant) :
    node.issuedBy (.issue withCoinbase drawn now) =
      (node.issue withCoinbase drawn now).1.toOption := rfl

theorem issuedPair_of_asks_none {op op' : Op} (h : op.asks = none) :
    fast.issuedPair full op op' = [] := by
  rw [issuedPair, issuedBy, h]
  rfl

/-- No coinbase of a preview has the identifier of an entry of the pool. -/
def FreshCoinbase (node : Node) : Op → Prop
  | .issue withCoinbase _ _ => ∀ template, node.drafted withCoinbase = .ok template →
      ∀ entry ∈ node.pool.entries, template.previewCoinbase.txid ≠ entry.tx.txid
  | _ => True

/-- **The same operation** on twins gets the same answer and leaves twins. -/
theorem Twins.perform (h : Twins pairs fast full) (hsound : fast.Sound settings offered)
    (hfilled : ∀ entry ∈ offered, entry.tx.Filled) {op op' : Op} (hsame : op.Same pairs op')
    (hone : (pairs ++ fast.issuedPair full op op').OneToOne) (hfresh : fast.FreshCoinbase op) :
    (fast.perform op).1.Same (full.perform op').1 ∧
      Twins (pairs ++ fast.issuedPair full op op') (fast.perform op).2 (full.perform op').2 := by
  cases hsame with
  | issue withCoinbase drawn drawn' now =>
    have hpool : ∀ entry ∈ fast.pool.entries, entry.tx.Filled :=
      fun entry hentry => hfilled entry (hsound.pool.subset hentry)
    rw [issuedPair, issuedBy_issue, issuedBy_issue] at hone ⊢
    rw [perform_issue_eq, perform_issue_eq]
    rcases h.issue hpool hfresh drawn drawn' with
      ⟨error, after, after', hfast, hfull, htwins⟩ |
        ⟨candidate, candidate', after, after', hfast, hfull, htemplate, htwins⟩ <;>
    rw [hfast, hfull] at hone ⊢
    · exact ⟨.equal rfl, (List.append_nil pairs).symm ▸ htwins⟩
    · exact ⟨.candidate htemplate, htwins hone⟩
  | submit hname =>
    rw [issuedPair_of_asks_none rfl, List.append_nil, perform_submit_eq, perform_submit_eq]
    obtain ⟨hsettled, htwins⟩ := h.submit hsound hfilled hname
    exact ⟨.equal (congrArg Answer.settled hsettled), htwins⟩
  | remove hname =>
    rw [issuedPair_of_asks_none rfl, List.append_nil]
    obtain ⟨hheld, htwins⟩ := h.remove hname
    exact ⟨.equal (congrArg Answer.removed hheld), htwins⟩
  | plain hplain =>
    have hasks : op.asks = none := by cases op <;> first | rfl | cases hplain
    rw [issuedPair_of_asks_none hasks, List.append_nil] at hone ⊢
    cases op with
    | announce tip =>
      obtain ⟨hcount, htwins⟩ := h.announce tip
      exact ⟨.equal (congrArg Answer.superseded hcount), htwins⟩
    | follow =>
      obtain ⟨hresult, htwins⟩ := h.follow
      exact ⟨.equal (congrArg Answer.followed hresult), htwins⟩
    | evict now =>
      obtain ⟨hcount, htwins⟩ := h.evict hone now
      exact ⟨.equal (congrArg Answer.evicted hcount), htwins⟩
    | issue | submit | call | remove | setValidator => cases hplain
    | _ =>
      cases h with
      | intro hdepth hrules htwins => exact ⟨.equal rfl, .intro hdepth hrules htwins⟩

/-! ## Runs -/

/-- Two lists of operations are the same on two nodes, whose issues so far gave out these pairs of
ids. -/
def SameOps (pairs : IdPairs) (node node' : Node) : List Op → List Op → Prop
  | [], [] => True
  | op :: ops, op' :: ops' => op.Same pairs op' ∧
      SameOps (pairs ++ node.issuedPair node' op op') (node.perform op).2 (node'.perform op').2
        ops ops'
  | _, _ => False

/-- The ids of the candidates that two nodes issue side by side in their runs. -/
def issuedPairs (node node' : Node) : List Op → List Op → IdPairs
  | op :: ops, op' :: ops' => node.issuedPair node' op op' ++
      issuedPairs (node.perform op).2 (node'.perform op').2 ops ops'
  | _, _ => []

/-- No issue of a run builds a template whose preview has the identifier of an entry of the pool for
its coinbase. -/
def FreshCoinbases (node : Node) : List Op → Prop
  | [] => True
  | op :: ops => node.FreshCoinbase op ∧ FreshCoinbases (node.perform op).2 ops

/-- **The same run** of twins gets the same answers and leaves twins. -/
theorem Twins.run (h : Twins pairs fast full) (hsound : fast.Sound settings offered)
    {ops ops' : List Op} (hfilled : ∀ entry ∈ offered ++ offeredBy ops, entry.tx.Filled)
    (hsame : SameOps pairs fast full ops ops')
    (hone : (pairs ++ fast.issuedPairs full ops ops').OneToOne) (hfresh : fast.FreshCoinbases ops) :
    List.Forall₂ Answer.Same (fast.run ops).1 (full.run ops').1 ∧
      Twins (pairs ++ fast.issuedPairs full ops ops') (fast.run ops).2 (full.run ops').2 := by
  induction ops generalizing pairs fast full offered ops' with
  | nil =>
    cases ops' with
    | nil => exact ⟨.nil, (List.append_nil pairs).symm ▸ h⟩
    | cons op' ops' => cases hsame
  | cons op ops ih =>
    cases ops' with
    | nil => cases hsame
    | cons op' ops' =>
      have hbefore : ∀ entry ∈ offered, entry.tx.Filled :=
        fun entry hentry => hfilled entry (List.mem_append_left _ hentry)
      rw [issuedPairs, ← List.append_assoc] at hone
      obtain ⟨hanswer, hnext⟩ := h.perform hsound hbefore hsame.1
        (hone.mono (List.subset_append_left _ _)) hfresh.1
      rw [offeredBy, List.flatMap_cons, ← List.append_assoc] at hfilled
      obtain ⟨hanswers, hlast⟩ := ih hnext (hsound.perform op) hfilled hsame.2 hone hfresh.2
      rw [List.append_assoc] at hlast
      exact ⟨.cons hanswer hanswers, hlast⟩

variable {config : Config} {chain : Chain} {clock : UInt64} {ops ops' : List Op}

end Node

end WorkLease
