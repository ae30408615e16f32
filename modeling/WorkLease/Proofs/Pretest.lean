import Mathlib.Tactic.Common
import WorkLease.Proofs.Operations
import WorkLease.Proofs.Verdicts

/-!
# The test before the issue

At full depth a node asks the validator about the preview of a template before it issues it, and
about the solved block again before it commits it. The two blocks differ in header and coinbase, and
their roots are found in different ways. By the rules of the block alone they still get the same
verdict: a solved block that passed the checks of the node has its coinbase in place, no
identifier twice and the right root, as the preview has, and beside that only the transactions of the
template are looked at.

* `rulesVerdict_of_standalone`: what is looked at beside that.
* `Tested`: every template that is held passed the test; `Tested.perform` is the step and
  `Tested.run` the run.

**Theorem (`pretest_predicts`).** The verdict on the preview is the verdict on every solved block that
passes the checks. So a node that tests its templates never refuses a submission for the verdict of
the validator.
-/

namespace WorkLease

/-! ## The transactions beside the coinbase -/

/-- A transaction that has inputs and outputs. -/
def Transaction.Filled (tx : Transaction) : Prop :=
  tx.inputs ≠ [] ∧ tx.outputs ≠ []

instance : DecidablePred Transaction.Filled := fun tx => by
  unfold Transaction.Filled
  infer_instance

theorem Transaction.emptinessReason?_eq_none_iff {tx : Transaction} :
    tx.emptinessReason? = none ↔ tx.Filled := by
  unfold emptinessReason? Filled
  simp only [List.isEmpty_iff]
  split_ifs <;> simp [*]

namespace Validator

/-- The verdict on the transactions beside the coinbase. -/
def restVerdict (depth : ValidationDepth) (txs : List Transaction) : Verdict :=
  match depth with
  | .fast => .valid
  | .full =>
      match txs.findSome? Transaction.emptinessReason? with
      | some reason => .invalid reason
      | none => .valid

variable {depth : ValidationDepth} {block : Block} {txs : List Transaction}

theorem rulesVerdict_of_standalone (h : BlockRules.standalone block = .ok ()) :
    rulesVerdict depth block = restVerdict depth block.transactions.tail := by
  unfold rulesVerdict
  rw [h]
  rfl

theorem standalone_of_valid (h : rulesVerdict depth block = .valid) :
    BlockRules.standalone block = .ok () := by
  unfold rulesVerdict at h
  split at h
  · cases h
  · assumption

theorem restVerdict_of_filled (h : ∀ tx ∈ txs, tx.Filled) : restVerdict depth txs = .valid := by
  have hnone : txs.findSome? Transaction.emptinessReason? = none :=
    List.findSome?_eq_none_iff.2 fun tx htx => Transaction.emptinessReason?_eq_none_iff.2 (h tx htx)
  cases depth with
  | fast => rfl
  | full => rw [restVerdict, hnone]

/-- The first transaction that lacks inputs or outputs gives the reason. -/
theorem restVerdict_of_first {before later : List Transaction} {tx : Transaction} {reason : String}
    (hbefore : ∀ earlier ∈ before, earlier.Filled) (htx : tx.emptinessReason? = some reason) :
    restVerdict .full (before ++ tx :: later) = .invalid reason := by
  have hfirst : (before ++ tx :: later).findSome? Transaction.emptinessReason? = some reason :=
    List.findSome?_eq_some_iff.2 ⟨before, tx, later, rfl, htx, fun earlier hearlier =>
      Transaction.emptinessReason?_eq_none_iff.2 (hbefore earlier hearlier)⟩
  rw [restVerdict, hfirst]

/-- What the rules say of the transactions beside a coinbase: nothing at fast depth, and at full
depth the first one that lacks inputs or outputs is refused for it. -/
structure Judges (depth : ValidationDepth) (txs : List Transaction) (verdict : Verdict) : Prop where
  fast : depth = .fast → verdict = .valid
  filled : (∀ tx ∈ txs, tx.Filled) → verdict = .valid
  noInputs : depth = .full → ∀ before tx later, txs = before ++ tx :: later →
    (∀ earlier ∈ before, earlier.Filled) → tx.inputs = [] →
      verdict = .invalid "bad-txns-vin-empty"
  noOutputs : depth = .full → ∀ before tx later, txs = before ++ tx :: later →
    (∀ earlier ∈ before, earlier.Filled) → tx.inputs ≠ [] → tx.outputs = [] →
      verdict = .invalid "bad-txns-vout-empty"

theorem judges_restVerdict (depth : ValidationDepth) (txs : List Transaction) :
    Judges depth txs (restVerdict depth txs) where
  fast := by
    rintro rfl
    rfl
  filled := restVerdict_of_filled
  noInputs := by
    rintro rfl before tx later rfl hbefore hinputs
    refine restVerdict_of_first hbefore ?_
    rw [Transaction.emptinessReason?, hinputs]
    rfl
  noOutputs := by
    rintro rfl before tx later rfl hbefore hinputs houtputs
    refine restVerdict_of_first hbefore ?_
    rw [Transaction.emptinessReason?, houtputs, if_neg (by simpa using hinputs)]
    rfl

end Validator

/-! ## Solved block and preview -/

variable {policy : BlockPolicy} {payout : Bytes} {tip : Tip} {pool : List PoolEntry}
  {withCoinbase : Bool} {now : UInt32} {template : Template} {header : Header}
  {coinbase : Transaction} {limits : BlockLimits}

/-- A block that passes the checks of the node passes by itself. -/
theorem BlockRules.standalone_of_check
    (htxids : template.txids = template.transactions.map Transaction.txid)
    (h : check (template.complete header coinbase) template limits = .ok ()) :
    standalone (template.complete header coinbase) = .ok () := by
  have hkeeps := (check_eq_ok_iff htxids).1 h
  exact standalone_eq_ok_iff.2 ⟨⟨hkeeps .coinbaseMissing, hkeeps .coinbaseMultiple⟩,
    hkeeps .duplicateTransaction, (hkeeps .merkleRoot).symm⟩

/-- A preview passes by itself if its coinbase is none of the transactions. -/
theorem Template.standalone_preview
    (hbuild : build policy payout tip pool withCoinbase now = .ok template)
    (hfresh : template.previewCoinbase.txid ∉ template.txids) :
    BlockRules.standalone template.preview = .ok () := by
  obtain ⟨chosen, -, hbuilt⟩ := build_spec hbuild
  have hshape : template.previewCoinbase.isCoinbase = true := by
    obtain ⟨-, hcoinbase⟩ := build_own hbuild
    rw [previewCoinbase, hcoinbase]
    cases withCoinbase <;> exact Coinbase.isCoinbase_create _ _ _
  have htxids : template.preview.txids = template.previewCoinbase.txid :: template.txids := by
    rw [hbuilt.txids]
    rfl
  refine BlockRules.standalone_eq_ok_iff.2
    ⟨⟨⟨template.previewCoinbase, rfl, hshape⟩, hbuilt.noCoinbase⟩, ?_, ?_⟩
  · rw [htxids]
    exact List.nodup_cons.2 ⟨hfresh, hbuilt.distinct⟩
  · rw [htxids]
    rfl

namespace Node

variable {node : Node} {settings : Settings} {offered : List PoolEntry} {op : Op} {ops : List Op}
  {submission : Submission} {block : Block}

/-! ## Asking by the rules -/

/-- The rules answer at once, and leave the chain alone. -/
theorem consult_byRules (hrules : node.validator = Validator.byRules) (stage : Stage)
    (block : Block) : node.consult stage block =
      (.answered (Validator.rulesVerdict node.settings.depth block),
        { node with consultations := node.consultations ++ [(stage, node.settings.depth)] }) := by
  rw [consult, hrules]
  rfl

theorem pretest_of_valid (hrules : node.validator = Validator.byRules)
    (hfull : node.settings.depth = .full) {template : Template}
    (h : Validator.rulesVerdict .full template.preview = .valid) :
    node.pretest template =
      (.ok (), { node with consultations := node.consultations ++ [(.template, .full)] }) := by
  rw [pretest, hfull]
  dsimp only
  rw [consult_byRules hrules, hfull, h]

theorem valid_of_pretest (hrules : node.validator = Validator.byRules)
    (hfull : node.settings.depth = .full) {template : Template}
    (h : (node.pretest template).1 = .ok ()) :
    Validator.rulesVerdict .full template.preview = .valid := by
  rw [pretest, hfull] at h
  dsimp only at h
  rw [consult_byRules hrules, hfull] at h
  cases hverdict : Validator.rulesVerdict .full template.preview with
  | valid => rfl
  | invalid reason =>
    rw [hverdict] at h
    cases h

/-- A solved block that passed the screen is one of a lease that is held, and the rules look at its
transactions alone. -/
theorem exists_lease_of_screen (hsound : node.Sound settings offered)
    (hscreen : node.screen submission = .ok block) :
    ∃ lease ∈ node.leases.leases, ∀ depth, Validator.rulesVerdict depth block =
      Validator.restVerdict depth lease.template.transactions := by
  obtain ⟨lease, nonce, coinbase, hgives, hexamined, rfl⟩ := screen_eq_ok_iff.1 hscreen
  obtain ⟨-, hheld⟩ := (leaseOf_eq_ok_iff hsound.leases).1 hgives.leaseOf
  obtain ⟨tip, chosen, -, hbuilt⟩ := hsound.built lease.candidate (List.mem_map_of_mem hheld)
  exact ⟨lease, hheld, fun depth => Validator.rulesVerdict_of_standalone
    (BlockRules.standalone_of_check hbuilt.txids hexamined.rules)⟩

/-! ## Templates that passed -/

/-- The node asks the rules, and every template that it holds passed the test. -/
structure Tested (node : Node) : Prop where
  rules : node.validator = Validator.byRules
  passed : ∀ candidate ∈ node.leases.candidates,
    Validator.rulesVerdict .full candidate.template.preview = .valid

/-- Only one operation changes the validator. -/
theorem validator_perform (hkeeps : ∀ validator, op = .setValidator validator →
    validator = node.validator) : (node.perform op).2.validator = node.validator := by
  rcases hasks : op.asks with _ | ⟨withCoinbase, drawn, now⟩
  · cases hbrings : op.brings with
    | some submission =>
      rw [perform_of_brings hbrings, submit_eq, counted_validator]
      have hexit := decideSubmission_exit node submission
      generalize node.decideSubmission submission = result at hexit
      cases hexit <;> rfl
    | none =>
      cases op with
      | issue => cases hasks
      | submit => cases hbrings
      | call => rw [perform_call_idle hasks hbrings]
      | setValidator validator => exact hkeeps validator rfl
      | _ => rfl
  · rw [perform_of_asks hasks]
    have hexit := issue_exit node withCoinbase drawn now
    generalize node.issue withCoinbase drawn now = result at hexit
    cases hexit with
    | refused htip hpool hbuild htest => exact (pretest_validator htest).trans rfl
    | issued htip hpool hbuild htest => exact (pretest_validator htest).trans rfl
    | _ => rfl

/-- A template that is issued at full depth passed the test. -/
theorem passed_of_issuedBy (hrules : node.validator = Validator.byRules)
    (hfull : node.settings.depth = .full) {candidate : Candidate}
    (h : node.issuedBy op = some candidate) :
    Validator.rulesVerdict .full candidate.template.preview = .valid := by
  have hissues := issues_of_issuedBy h
  generalize (node.perform op).2 = last at hissues
  cases hissues with
  | @intro withCoinbase drawn now tip template after hasks htip hpool hbuild htest =>
    have hnoted : (node.noted tip).validator = Validator.byRules := hrules
    exact valid_of_pretest hnoted hfull (congrArg Prod.fst htest)

theorem tested_start {config : Config} {chain : Chain} {clock : UInt64}
    (h : Node.start config chain clock Validator.byRules = .ok node) : node.Tested := by
  obtain ⟨settings, -, rfl⟩ := exists_of_start h
  exact ⟨rfl, fun candidate hmem => absurd hmem List.not_mem_nil⟩

/-- **One operation** that keeps the validator keeps this. -/
theorem Tested.perform (h : node.Tested) (hfull : node.settings.depth = .full)
    (hkeeps : ∀ validator, op = .setValidator validator → validator = Validator.byRules) :
    (node.perform op).2.Tested where
  rules := by
    rw [← h.rules] at hkeeps ⊢
    exact validator_perform hkeeps
  passed candidate hmem := by
    rcases mem_candidates_perform hmem with hold | hissued
    · exact h.passed candidate hold
    · exact passed_of_issuedBy h.rules hfull hissued

theorem Tested.run (h : node.Tested) (hsound : node.Sound settings offered)
    (hfull : settings.depth = .full)
    (hkeeps : ∀ validator, .setValidator validator ∈ ops → validator = Validator.byRules) :
    (node.run ops).2.Tested := by
  induction ops generalizing node offered with
  | nil => exact h
  | cons op ops ih =>
    refine ih (h.perform (hsound.configured ▸ hfull) fun validator hop => ?_)
      (hsound.perform op) fun validator hmem => ?_
    · exact hkeeps validator (hop ▸ List.mem_cons_self)
    · exact hkeeps validator (List.mem_cons_of_mem op hmem)

/-- **A solved block that passed the screen** passes the validator. -/
theorem Tested.consult_of_screen (h : node.Tested) (hsound : node.Sound settings offered)
    (hfull : settings.depth = .full) (hscreen : node.screen submission = .ok block) :
    (node.consult .submission block).1 = .answered .valid := by
  obtain ⟨lease, hheld, hverdict⟩ := exists_lease_of_screen hsound hscreen
  have hpassed := h.passed lease.candidate (List.mem_map_of_mem hheld)
  rw [Validator.rulesVerdict_of_standalone (Validator.standalone_of_valid hpassed)] at hpassed
  rw [consult_byRules h.rules, hsound.configured, hfull, hverdict]
  exact congrArg _ hpassed

/-- An invalid block is found before the validator is asked, if the validator finds none. -/
theorem screen_of_invalid {reason : String}
    (hvalid : ∀ block, node.screen submission = .ok block →
      (node.consult .submission block).1 = .answered .valid)
    (h : (node.submit submission).1 = .ok (.invalid reason)) :
    node.screen submission = .error (.ok (.invalid reason)) := by
  rw [submit_eq] at h
  have hexit := decideSubmission_exit node submission
  generalize node.decideSubmission submission = result at hexit h
  cases hexit with
  | screened hscreen =>
    rw [hscreen]
    exact congrArg _ h
  | refused hscreen hrefusal =>
    rw [hvalid _ hscreen] at hrefusal
    cases hrefusal
  | _ => cases h

end Node

open Node in
/-- **The test predicts the verdict.** -/
theorem pretest_predicts :
    (∀ policy payout tip pool withCoinbase now template,
      Template.build policy payout tip pool withCoinbase now = .ok template →
      template.previewCoinbase.txid ∉ template.txids →
      ∀ depth header coinbase limits,
        BlockRules.check (template.complete header coinbase) template limits = .ok () →
        ∃ verdict, Validator.Judges depth template.transactions verdict ∧
          (Validator.byRules .template depth template.preview).verdict = .ok verdict ∧
          (Validator.byRules .submission depth (template.complete header coinbase)).verdict =
            .ok verdict) ∧
    ∀ config chain clock first ops submission,
      Node.start config chain clock Validator.byRules = .ok first → config.depth = .full →
      (∀ validator, Op.setValidator validator ∈ ops → validator = Validator.byRules) →
      let node := (first.run ops).2
      (∀ block, node.screen submission = .ok block →
        (node.consult .submission block).1 = .answered .valid) ∧
      ∀ reason, (node.submit submission).1 = .ok (.invalid reason) →
        node.screen submission = .error (.ok (.invalid reason)) := by
  refine ⟨?_, ?_⟩
  · intro policy payout tip pool withCoinbase now template hbuild hfresh depth header coinbase
      limits hcheck
    obtain ⟨chosen, -, hbuilt⟩ := Template.build_spec hbuild
    refine ⟨_, Validator.judges_restVerdict depth template.transactions, ?_, ?_⟩
    · exact congrArg Except.ok
        (Validator.rulesVerdict_of_standalone (Template.standalone_preview hbuild hfresh))
    · exact congrArg Except.ok
        (Validator.rulesVerdict_of_standalone (BlockRules.standalone_of_check hbuilt.txids hcheck))
  · intro config chain clock first ops submission hstart hdepth hkeeps
    obtain ⟨hsettings, hsound⟩ := sound_start hstart
    have hfull : first.settings.depth = .full := (Config.settings_depth hsettings).trans hdepth
    have htested := (tested_start hstart).run hsound hfull hkeeps
    have hvalid : ∀ block, (first.run ops).2.screen submission = .ok block →
        ((first.run ops).2.consult .submission block).1 = .answered .valid :=
      fun block hscreen => htested.consult_of_screen (hsound.run ops) hfull hscreen
    exact ⟨hvalid, fun reason hinvalid => screen_of_invalid hvalid hinvalid⟩

open Node in
/-- A solved block gets the verdict of the preview, and the sample solution that of its template. -/
theorem pretest_predicts_sample :
    (∃ template, Template.build {} Coinbase.anyoneCanSpend sampleTip [⟨sampleTx, 100⟩] false
        1700000100 = .ok template ∧
      (Validator.byRules .template .full template.preview).verdict = .ok .valid ∧
      (Validator.byRules .submission .full (template.solved 1)).verdict = .ok .valid) ∧
    ∃ block, ((sampleAt .full).run sampleOps).2.screen sampleSubmission = .ok block ∧
      (((sampleAt .full).run sampleOps).2.consult .submission block).1 = .answered .valid := by
  obtain ⟨hpredicts, hnever⟩ := pretest_predicts
  refine ⟨?_, ?_⟩
  · obtain ⟨template, hbuild, hchecks⟩ := exists_of_any (by decide +kernel :
      (Template.build {} Coinbase.anyoneCanSpend sampleTip [⟨sampleTx, 100⟩] false
        1700000100).toOption.any (fun template =>
          template.previewCoinbase.txid ∉ template.txids ∧
            BlockRules.check (template.solved 1) template
              ⟨0x7fffff * 256 ^ 29, 32000000, 7200, 1700000100⟩ = .ok () ∧
            ∀ tx ∈ template.transactions, tx.Filled) = true)
    obtain ⟨hfresh, hcheck, hfilled⟩ := of_decide_eq_true hchecks
    obtain ⟨verdict, hjudges, hpreview, hsolved⟩ :=
      hpredicts _ _ _ _ _ _ _ hbuild hfresh .full _ _ _ hcheck
    obtain rfl := hjudges.filled hfilled
    exact ⟨template, hbuild, hpreview, hsolved⟩
  · have hkeeps : ∀ validator, Op.setValidator validator ∈ sampleOps →
        validator = Validator.byRules := by
      simp [sampleOps]
    obtain ⟨hvalid, -⟩ := hnever _ _ _ _ sampleOps sampleSubmission
      (start_sampleAt .full) rfl hkeeps
    have hpasses : (((sampleAt .full).run sampleOps).2.screen sampleSubmission).toOption.isSome =
        true := by decide +kernel
    cases hscreen : ((sampleAt .full).run sampleOps).2.screen sampleSubmission with
    | error settled =>
      rw [hscreen] at hpasses
      cases hpasses
    | ok block => exact ⟨block, rfl, hvalid block hscreen⟩

end WorkLease
