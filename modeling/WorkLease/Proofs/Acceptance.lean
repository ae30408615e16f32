import Mathlib.Tactic.Common
import WorkLease.Proofs.Reading
import WorkLease.Proofs.Rules
import WorkLease.Proofs.Runs

/-!
# What is accepted

Acceptance is sound and complete. In every state that a node can reach:

**Theorem (`accepted_sound`).** A submission that is accepted named a held lease, and the block
that became the tip is built from the template of that lease on the tip, meets its target and
keeps every rule.

**Theorem (`submit_complete`).** A solved block on the tip, with a coinbase that the template
admits, is accepted if validator and chain do their part; the branch, the size and the other
transactions are never the reason of a refusal.
-/

namespace WorkLease

/-- A coinbase that a template admits: it has the shape, commits to the height, pays no more
than it may, has a moderate size and a new identifier. -/
structure Template.Admits (template : Template) (coinbase : Transaction) : Prop where
  shape : coinbase.isCoinbase = true
  height : Coinbase.commitsTo coinbase template.height = true
  value : (coinbase.outputs.map (·.value.toNat)).sum ≤ template.coinbaseValue.toNat
  size : coinbase.encode.length ≤ Coinbase.reserve
  fresh : coinbase.txid ∉ template.transactions.map Transaction.txid

/-- A submission brings a coinbase: it writes the wire form in hexadecimal, or leaves the
coinbase of the template as it is. -/
inductive Submission.Brings (submission : Submission) (template : Template)
    (coinbase : Transaction) : Prop
  | written {text : String} (htext : submission.coinbase = some text)
      (hhex : Hex.decode (Text.trim text) = .ok coinbase.encode)
  | own (hnone : submission.coinbase = none) (hown : template.coinbase = some coinbase)

theorem Submission.Brings.coinbaseOn {submission : Submission} {template : Template}
    {coinbase : Transaction} (h : submission.Brings template coinbase)
    (hsize : coinbase.encode.length ≤ Coinbase.reserve) :
    submission.coinbaseOn template = .ok coinbase := by
  unfold Submission.coinbaseOn
  cases h with
  | written htext hhex =>
    have hreadable : coinbase.Readable := by
      refine Transaction.readable_of_size_le (Nat.le_trans ?_ (by decide : Coinbase.reserve ≤ _))
      rwa [Transaction.length_encode] at hsize
    rw [htext]
    dsimp only
    rw [Transaction.ofHex_eq_ok hreadable hhex]
  | own hnone hown =>
    rw [hnone]
    dsimp only
    rw [hown]

theorem exists_of_any {ε α : Type} {x : Except ε α} {p : α → Bool}
    (h : x.toOption.any p = true) : ∃ a, x = .ok a ∧ p a = true := by
  cases x with
  | error error => cases h
  | ok a => exact ⟨a, rfl, h⟩

namespace Node

variable {config : Config} {ops : List Op} {node : Node} {submission : Submission}
  {lease : Lease} {nonce : UInt32} {coinbase : Transaction}

/-! ## Held leases -/

theorem leaseOf_eq_ok_iff (h : node.leases.Sound) : node.leaseOf submission = .ok lease ↔
    CandidateId.ofText submission.id = .ok lease.id ∧ lease ∈ node.leases.leases := by
  rw [leaseOf, bind_eq_ok_iff]
  constructor
  · rintro ⟨id, hid, hfind⟩
    obtain ⟨hmem, rfl⟩ := h.find_eq_ok_iff.1 hfind
    exact ⟨hid, hmem⟩
  · rintro ⟨hid, hmem⟩
    exact ⟨lease.id, hid, h.find_eq_ok_iff.2 ⟨hmem, rfl⟩⟩

/-- Every template held was built from entries that were offered. -/
theorem ReachedBy.built (h : ReachedBy config ops node) (hheld : lease ∈ node.leases.leases) :
    lease.template.Built node.settings.block (offeredBy ops) :=
  h.sound.2.built lease.candidate (List.mem_map_of_mem hheld)

/-! ## A sample run -/

/-- A payment to anyone. -/
def sampleTx : Transaction where
  version := 1
  inputs := [⟨⟨Digest.zero, 0⟩, [], 0xffffffff⟩]
  outputs := [⟨900, Coinbase.anyoneCanSpend⟩]
  lockTime := 0

def sampleConfig : Config where
  depth := .fast

/-- A node on a chain of height seven and of the easiest work. -/
def sampleStart : Node where
  settings := ⟨.fast, 10000, Coinbase.anyoneCanSpend, 0x7fffff * 256 ^ 29, {}⟩
  link := ChainLink.sound (Chain.start Digest.zero 7 1700000000 0x207fffff)
  pool := {}
  clock := 1700000100
  validator := Validator.byRules
  leases := LeaseBook.empty {}
  counters := {}
  timeFloor := none
  consultations := []

/-- A payment is offered, and a candidate is issued. -/
def sampleOps : List Op :=
  [.addToPool ⟨sampleTx, 100⟩, .issue true ⟨1⟩ 0]

def sampleNode : Node := (sampleStart.run sampleOps).2

/-- The sample node, to run at a depth of choice. -/
def sampleAt (depth : ValidationDepth) : Node :=
  { sampleStart with settings := { sampleStart.settings with depth } }

theorem start_sampleAt (depth : ValidationDepth) :
    Node.start { sampleConfig with depth } (Chain.start Digest.zero 7 1700000000 0x207fffff)
      1700000100 Validator.byRules = .ok (sampleAt depth) := by
  have hvalid : ({ sampleConfig with depth } : Config).validate = .ok () := by
    cases depth <;> decide +kernel
  have hlimit : sampleConfig.block.powLimit = .ok (0x7fffff * 256 ^ 29) := by decide +kernel
  have hpayout : ({ sampleConfig with depth } : Config).payout =
      .ok Coinbase.anyoneCanSpend := by
    cases depth <;> decide +kernel
  rw [Node.start, Config.settings, hvalid, hlimit, hpayout]
  rfl

theorem reachedBy_start : ReachedBy sampleConfig [] sampleStart :=
  ⟨_, _, _, sampleStart, start_sampleAt .fast, rfl⟩

theorem reachedBy_sample : ReachedBy sampleConfig sampleOps sampleNode :=
  reachedBy_start.run sampleOps

/-- The lease that the run leaves. -/
def sampleLease : Lease :=
  sampleNode.leases.leases.head (by decide +kernel)

theorem sampleLease_mem : sampleLease ∈ sampleNode.leases.leases :=
  List.head_mem _

/-- The coinbase of its template. -/
def sampleCoinbase : Transaction := sampleLease.template.previewCoinbase

/-- A solution for it, with the coinbase written out. -/
def sampleSubmission : Submission where
  id := "00000000-0000-0000-0000-000000000001"
  nonce := some 1
  coinbase := some sampleCoinbase.toHex

theorem exists_of_isAccepted {settled : Settled}
    (h : settled.toOption.any Outcome.isAccepted = true) :
    ∃ hash height, settled = .ok (.accepted hash height) := by
  obtain ⟨outcome, rfl, haccepted⟩ := exists_of_any h
  cases outcome with
  | accepted hash height => exact ⟨hash, height, rfl⟩
  | _ => cases haccepted

/-! ## Soundness -/

/-- What comes with an accepted submission: `block` is the tip now, and is built from the
template of `lease` and of the entries `chosen` of the pool. -/
structure Accepted (config : Config) (ops : List Op) (node : Node) (submission : Submission)
    (lease : Lease) (chosen : List PoolEntry) (block : Block) (hash : Digest)
    (height : UInt64) : Prop where
  named : CandidateId.ofText submission.id = .ok lease.id
  held : lease ∈ node.leases.leases
  /-- The tip just before was the parent of the template. -/
  parent : (node.chainAsked .submission block).tip.hash = lease.template.parent
  /-- The block is the last one accepted, and its hash the tip. -/
  committed : (node.submit submission).2.link.chain.accepted.getLast? = some block
  tip : (node.submit submission).2.link.chain.tip.hash = hash
  identity : block.hash = hash
  raised : (node.chainAsked .submission block).tip.height.toNat < 2 ^ 64 - 1 →
    height.toNat = (node.chainAsked .submission block).tip.height.toNat + 1
  work : ∃ target powLimit, Target.ofBits lease.template.bits = .ok target ∧
    config.block.powLimit = .ok powLimit ∧ hash.toNat ≤ target ∧ target ≤ powLimit
  /-- The coinbase stands first, and commits to the height of the template. -/
  transactions : ∃ coinbase, block.transactions = coinbase :: lease.template.transactions ∧
    coinbase.isCoinbase = true ∧
    (∃ input ∈ coinbase.inputs.head?,
      Coinbase.heightScript lease.template.height <+: input.script) ∧
    (coinbase.outputs.map (·.value.toNat)).sum ≤
      (Coinbase.subsidy lease.template.height config.block.halvingInterval).toNat +
        (chosen.map (·.fee.toNat)).sum
  coinbaseOnce : ∀ tx ∈ block.transactions.tail, tx.isCoinbase = false
  /-- The transactions of the template are those of entries that were offered to the pool. -/
  chosen : lease.template.transactions = chosen.map (·.tx) ∧ chosen.Sublist (offeredBy ops)
  distinct : (block.transactions.map Transaction.txid).Nodup
  merkleRoot : block.header.merkleRoot = Merkle.root (block.transactions.map Transaction.txid)
  /-- The wire form is within the size. -/
  size : 80 + (CompactSize.encode block.transactions.length).length +
    (block.transactions.map (·.encode.length)).sum ≤ config.block.maxBlockSize
  timeAfter : lease.template.medianTimePast.toNat < block.header.time.toNat
  timeBefore : block.header.time.toNat ≤ node.clock.toNat + config.block.maxFutureSecs

/-- **Acceptance is sound.** -/
theorem accepted_sound (hreached : ReachedBy config ops node) {hash : Digest} {height : UInt64}
    (haccepted : (node.submit submission).1 = .ok (.accepted hash height)) :
    ∃ lease chosen block,
      Accepted config ops node submission lease chosen block hash height := by
  obtain ⟨block, hscreen, hhash, hparent, hheight, -, hchain⟩ := exists_block_of_accepted haccepted
  obtain ⟨lease, nonce, coinbase, hgives, hexamined, rfl⟩ := screen_eq_ok_iff.1 hscreen
  obtain ⟨hsettings, hsound⟩ := hreached.sound
  obtain ⟨hpolicy, hlimit⟩ := Config.settings_eq_ok hsettings
  obtain ⟨hnamed, hheld⟩ := (leaseOf_eq_ok_iff hsound.leases).1 hgives.leaseOf
  obtain ⟨tip, chosen, hchosen, hbuilt⟩ := hreached.built hheld
  have hrules := (BlockRules.check_eq_ok_iff hbuilt.txids).1 hexamined.rules
  obtain ⟨target, htarget, hbelow, hmet⟩ := hexamined.work
  have hvalue := hbuilt.value
  rw [hpolicy, hbuilt.fees] at hvalue
  refine ⟨lease, chosen, _, {
    named := hnamed
    held := hheld
    parent := hparent.symm
    committed := by rw [hchain, Chain.getLast?_extended_accepted]
    tip := by rw [hchain, Chain.extended_tip_hash, hhash]
    identity := hhash
    raised := fun hroom => ?_
    work := ⟨target, _, htarget, hlimit, hhash ▸ hmet, hbelow⟩
    transactions := ?_
    coinbaseOnce := hrules .coinbaseMultiple
    chosen := ⟨hbuilt.transactions, hchosen⟩
    distinct := hrules .duplicateTransaction
    merkleRoot := hrules .merkleRoot
    size := hpolicy ▸ hrules .blockLength
    timeAfter := hrules .timeTooOld
    timeBefore := hpolicy ▸ hrules .timeTooNew }⟩
  · rw [hheight, UInt64.toNat_add, UInt64.toNat_one, Nat.mod_eq_of_lt (by omega)]
  · obtain ⟨first, hfirst, hshape⟩ := hrules .coinbaseMissing
    obtain ⟨first', hfirst', hcommits⟩ := hrules .coinbaseHeight
    obtain ⟨first'', hfirst'', hpaid⟩ := hrules .coinbaseAmount
    obtain rfl := Option.some.inj hfirst
    obtain rfl := Option.some.inj hfirst'
    obtain rfl := Option.some.inj hfirst''
    exact ⟨coinbase, rfl, hshape, hcommits, hvalue ▸ hpaid⟩

/-- The sample solution is accepted, with a block that pays out the fee that was offered. -/
theorem accepted_sound_sample : ∃ hash height,
    (sampleNode.submit sampleSubmission).1 = .ok (.accepted hash height) ∧
      ∃ lease chosen block, Accepted sampleConfig sampleOps sampleNode sampleSubmission lease
        chosen block hash height := by
  obtain ⟨hash, height, h⟩ := exists_of_isAccepted
    (by decide +kernel : (sampleNode.submit sampleSubmission).1.toOption.any _ = true)
  exact ⟨hash, height, h, accepted_sound reachedBy_sample h⟩

/-! ## Completeness -/

/-- A rule that every block keeps that the submission can be rebuilt to is no reason of a
refusal. -/
theorem screen_ne_of_keeps {rule : BrokenRule} (hrule : rule ≠ .badDifficultyBits)
    (h : ∀ lease nonce coinbase, node.Gives submission lease nonce coinbase →
      lease.template.txids = lease.template.transactions.map Transaction.txid ∧
      BlockRules.Keeps (lease.template.complete
          (solvedHeader submission lease.template coinbase nonce) coinbase)
        lease.template node.blockLimits rule) :
    node.screen submission ≠ .error (.ok (.invalid rule.reason)) := by
  intro hscreen
  cases hparts : node.rebuild submission with
  | error error =>
    rw [screen_of_mistake hparts] at hscreen
    cases hscreen
  | ok parts =>
    obtain ⟨lease, nonce, coinbase, hgives, rfl⟩ := rebuild_eq_ok_iff.1 hparts
    obtain ⟨htxids, hkeeps⟩ := h lease nonce coinbase hgives
    have hexit := examine_exit node lease.template coinbase
      (solvedHeader submission lease.template coinbase nonce)
    rw [← screen_of_rebuild hparts, hscreen] at hexit
    -- Two exits carry a reason; the text tells which rule it belongs to.
    generalize hreason : rule.reason = reason at hexit
    cases hexit with
    | badBits hwork => exact hrule (BlockRules.reason_injective hreason)
    | @broken tip other hwork htip hparent hbroken =>
      obtain rfl := BlockRules.reason_injective hreason
      exact BlockRules.check_ne_error_of_keeps htxids hkeeps hbroken

/-- What is there for a block to be accepted: the work is done, the template stands on the tip,
the time is in its window, the chain can be reached, and the validator finds the block valid in
time while the tip stays. -/
structure Ready (node : Node) (template : Template) (block : Block) : Prop where
  work : ∃ target, Target.ofBits template.bits = .ok target ∧
    target ≤ node.settings.powLimit ∧ block.hash.toNat ≤ target
  parent : node.link.chain.tip.hash = template.parent
  height : node.link.chain.tip.height.toNat < 2 ^ 64 - 1
  timeAfter : template.medianTimePast.toNat < block.header.time.toNat
  timeBefore : block.header.time.toNat ≤ node.clock.toNat + node.settings.block.maxFutureSecs
  tipUp : node.link.tipDown = false
  extendUp : node.link.extendDown = false
  verdict : (node.validator .submission node.settings.depth block).verdict = .ok .valid
  inTime : (node.validator .submission node.settings.depth block).elapsedMillis ≤
    node.settings.timeoutMillis
  still : (node.validator .submission node.settings.depth block).tipMoves = []

/-- The block that a submission solves with a coinbase and a nonce. -/
def solvedBlock (submission : Submission) (template : Template) (coinbase : Transaction)
    (nonce : UInt32) : Block :=
  template.complete (solvedHeader submission template coinbase nonce) coinbase

theorem submit_of_screen {block : Block} (hscreen : node.screen submission = .ok block)
    {template : Template} (hready : node.Ready template block)
    (hparent : block.header.parent = template.parent) :
    (node.submit submission).1 =
      .ok (.accepted block.hash (node.link.chain.tip.height + 1)) := by
  have hvalid := refusal?_consult_of_valid hready.verdict hready.inTime
  have hstill := chainAsked_of_still node .submission block hready.still
  rw [submit_eq]
  have hexit := decideSubmission_exit node submission
  generalize node.decideSubmission submission = result at hexit
  cases hexit with
  | screened hother =>
    rw [hscreen] at hother
    cases hother
  | refused hother hrefusal =>
    obtain rfl := Except.ok.inj (hscreen.symm.trans hother)
    rw [hvalid] at hrefusal
    cases hrefusal
  | chainDown _ _ hdown =>
    rw [hready.extendUp] at hdown
    cases hdown
  | stale hother _ _ hne =>
    obtain rfl := Except.ok.inj (hscreen.symm.trans hother)
    rw [hstill, hparent] at hne
    exact absurd hready.parent.symm hne
  | overflow hother _ _ _ htop =>
    obtain rfl := Except.ok.inj (hscreen.symm.trans hother)
    rw [hstill] at htop
    exact absurd (Nat.add_lt_of_lt_sub hready.height) htop
  | accepted hother _ _ _ _ =>
    obtain rfl := Except.ok.inj (hscreen.symm.trans hother)
    rw [hstill]

/-- The rules that depend on the template and the coinbase alone. -/
def admissionRules : List BrokenRule :=
  [.coinbaseMissing, .coinbaseMultiple, .duplicateTransaction, .merkleRoot, .coinbaseHeight,
    .coinbaseAmount, .blockLength]

theorem keeps_of_admits {template : Template} {policy : BlockPolicy} {tip : Tip}
    {chosen : List PoolEntry} {limits : BlockLimits} {header : Header}
    (hbuilt : template.BuiltFrom policy tip chosen)
    (hlimit : limits.maxBlockSize = policy.maxBlockSize)
    (hroom : 80 + 5 + Coinbase.reserve ≤ policy.maxBlockSize)
    (hcount : template.transactions.length < 2 ^ 32 - 1) (hadmits : template.Admits coinbase)
    (hroot : header.merkleRoot = template.rootWith coinbase) :
    ∀ rule ∈ admissionRules,
      BlockRules.Keeps (template.complete header coinbase) template limits rule := by
  intro rule hrule
  have hfresh : coinbase.txid ∉ template.txids := hbuilt.txids ▸ hadmits.fresh
  cases rule with
  | coinbaseMissing => exact ⟨coinbase, rfl, hadmits.shape⟩
  | coinbaseMultiple => exact BlockRules.keeps_coinbaseMultiple hbuilt
  | duplicateTransaction => exact BlockRules.keeps_duplicateTransaction hbuilt hfresh
  | merkleRoot => exact BlockRules.keeps_merkleRoot hbuilt hroot
  | coinbaseHeight => exact ⟨coinbase, rfl, BlockRules.commitsTo_iff.1 hadmits.height⟩
  | coinbaseAmount => exact ⟨coinbase, rfl, hadmits.value⟩
  | blockLength => exact BlockRules.keeps_blockLength hbuilt hlimit hroom hcount hadmits.size
  | badDifficultyBits => exact absurd hrule (by decide)
  | timeTooOld => exact absurd hrule (by decide)
  | timeTooNew => exact absurd hrule (by decide)

/-- A block that is ready keeps every rule if its coinbase is admitted. -/
theorem Ready.examined {template : Template} {tip : Tip} {chosen : List PoolEntry}
    {header : Header} (hready : node.Ready template (template.complete header coinbase))
    (hbuilt : template.BuiltFrom node.settings.block tip chosen)
    (hbits : header.bits = template.bits)
    (hadmitted : ∀ rule ∈ admissionRules,
      BlockRules.Keeps (template.complete header coinbase) template node.blockLimits rule) :
    node.Examined template coinbase header where
  work := hbits ▸ hready.work
  tipUp := hready.tipUp
  parent := hready.parent
  rules := by
    refine (BlockRules.check_eq_ok_iff hbuilt.txids).2 fun rule => ?_
    obtain ⟨target, htarget, hbelow, -⟩ := hready.work
    cases rule with
    | badDifficultyBits =>
      refine ⟨target, ?_, hbelow⟩
      show target ∈ (Target.ofBits header.bits).toOption
      rw [hbits, htarget]
      rfl
    | timeTooOld => exact hready.timeAfter
    | timeTooNew => exact hready.timeBefore
    | _ => exact hadmitted _ (by decide)

theorem Gives.unique {other : Lease} {nonce' : UInt32} {coinbase' : Transaction}
    (h : node.Gives submission lease nonce coinbase)
    (h' : node.Gives submission other nonce' coinbase') :
    other = lease ∧ nonce' = nonce ∧ coinbase' = coinbase := by
  obtain rfl := Except.ok.inj (h.leaseOf.symm.trans h'.leaseOf)
  obtain rfl := Option.some.inj (h.nonce.symm.trans h'.nonce)
  obtain rfl := Except.ok.inj (h.coinbaseOn.symm.trans h'.coinbaseOn)
  exact ⟨rfl, rfl, rfl⟩

/-- Root and place of the coinbase are right in every block that can be rebuilt. -/
theorem ReachedBy.screen_ne (hreached : ReachedBy config ops node)
    (submission : Submission) :
    ∀ rule ∈ [BrokenRule.merkleRoot, .coinbaseMultiple],
      node.screen submission ≠ .error (.ok (.invalid rule.reason)) := by
  intro rule hrule
  refine screen_ne_of_keeps (fun h => absurd hrule (h ▸ by decide)) ?_
  intro lease nonce coinbase hgives
  obtain ⟨-, hheld⟩ := (leaseOf_eq_ok_iff hreached.sound.2.leases).1 hgives.leaseOf
  obtain ⟨tip, chosen, -, hbuilt⟩ := hreached.built hheld
  refine ⟨hbuilt.txids, ?_⟩
  rcases List.mem_pair.1 hrule with rfl | rfl
  · exact BlockRules.keeps_merkleRoot hbuilt rfl
  · exact BlockRules.keeps_coinbaseMultiple hbuilt

/-- **Acceptance is complete.** -/
theorem submit_complete (hreached : ReachedBy config ops node)
    (hroom : 80 + 5 + Coinbase.reserve ≤ config.block.maxBlockSize)
    (hheld : lease ∈ node.leases.leases) (hnamed : CandidateId.ofText submission.id = .ok lease.id)
    (hcount : lease.template.transactions.length < 2 ^ 32 - 1)
    (hnonce : submission.nonce = some nonce) (hbrings : submission.Brings lease.template coinbase)
    (hadmits : lease.template.Admits coinbase) :
    (node.Ready lease.template (solvedBlock submission lease.template coinbase nonce) →
      ∃ height, height.toNat = node.link.chain.tip.height.toNat + 1 ∧
        (node.submit submission).1 = .ok (.accepted
          (solvedBlock submission lease.template coinbase nonce).hash height)) ∧
    (∀ rule ∈ admissionRules, node.screen submission ≠ .error (.ok (.invalid rule.reason))) ∧
    ∀ other, ∀ rule ∈ [BrokenRule.merkleRoot, .coinbaseMultiple],
      node.screen other ≠ .error (.ok (.invalid rule.reason)) := by
  obtain ⟨hsettings, hsound⟩ := hreached.sound
  obtain ⟨hpolicy, -⟩ := Config.settings_eq_ok hsettings
  obtain ⟨tip, chosen, -, hbuilt⟩ := hreached.built hheld
  rw [← hpolicy] at hroom
  have hgives : node.Gives submission lease nonce coinbase :=
    ⟨(leaseOf_eq_ok_iff hsound.leases).2 ⟨hnamed, hheld⟩, hnonce, hbrings.coinbaseOn hadmits.size⟩
  have hadmitted : ∀ rule ∈ admissionRules, BlockRules.Keeps
      (solvedBlock submission lease.template coinbase nonce) lease.template node.blockLimits rule :=
    keeps_of_admits hbuilt rfl hroom hcount hadmits rfl
  refine ⟨fun hready => ?_, fun rule hrule => ?_, hreached.screen_ne⟩
  · have hscreen := screen_eq_ok_iff.2
      ⟨lease, nonce, coinbase, hgives, hready.examined hbuilt rfl hadmitted, rfl⟩
    refine ⟨node.link.chain.tip.height + 1, ?_, submit_of_screen hscreen hready rfl⟩
    have hheight := hready.height
    rw [UInt64.toNat_add, UInt64.toNat_one, Nat.mod_eq_of_lt (by omega)]
  · refine screen_ne_of_keeps (fun h => absurd hrule (h ▸ by decide)) ?_
    intro other nonce' coinbase' hother
    obtain ⟨rfl, rfl, rfl⟩ := hgives.unique hother
    exact ⟨hbuilt.txids, hadmitted rule hrule⟩

/-- The sample solution meets every condition, and is accepted for it. -/
theorem submit_complete_sample :
    sampleLease.template.Admits sampleCoinbase ∧
      sampleNode.Ready sampleLease.template
        (solvedBlock sampleSubmission sampleLease.template sampleCoinbase 1) ∧
      ∃ height, (sampleNode.submit sampleSubmission).1 = .ok (.accepted
        (solvedBlock sampleSubmission sampleLease.template sampleCoinbase 1).hash height) := by
  have hadmits : sampleLease.template.Admits sampleCoinbase :=
    ⟨by decide +kernel, by decide +kernel, by decide +kernel, by decide +kernel,
      by decide +kernel⟩
  have hready : sampleNode.Ready sampleLease.template
      (solvedBlock sampleSubmission sampleLease.template sampleCoinbase 1) := {
    work := ⟨0x7fffff * 256 ^ 29, by decide +kernel, by decide +kernel, by decide +kernel⟩
    parent := by decide +kernel
    height := by decide +kernel
    timeAfter := by decide +kernel
    timeBefore := by decide +kernel
    tipUp := by decide +kernel
    extendUp := by decide +kernel
    verdict := by decide +kernel
    inTime := by decide +kernel
    still := List.isEmpty_iff.1 (by decide +kernel) }
  have hbrings : sampleSubmission.Brings sampleLease.template sampleCoinbase :=
    .written rfl (Transaction.decode_toHex sampleCoinbase)
  have hnamed : CandidateId.ofText sampleSubmission.id = .ok sampleLease.id := by decide +kernel
  have hcount : sampleLease.template.transactions.length < 2 ^ 32 - 1 := by decide +kernel
  have hnonce : sampleSubmission.nonce = some 1 := rfl
  have hroom : 80 + 5 + Coinbase.reserve ≤ sampleConfig.block.maxBlockSize := by decide
  obtain ⟨haccepted, -, -⟩ := submit_complete reachedBy_sample hroom sampleLease_mem hnamed
    hcount hnonce hbrings hadmits
  obtain ⟨height, -, h⟩ := haccepted hready
  exact ⟨hadmits, hready, height, h⟩

end Node

end WorkLease
