import Mathlib.Tactic.Common
import WorkLease.Proofs.Acceptance
import WorkLease.Proofs.Coinbase

/-!
# Verdicts on built templates

**Theorem (`check_decides`).** On a block completed from a built template, `check` decides the
rules of the block itself: it passes the block if they are all kept, and otherwise names the first
one that is broken. The identifiers that the template holds are those of hashing anew.

A template with a coinbase of the node is offered as work that only lacks a nonce. The check of the
configuration does not see to it that there is room for that coinbase: it asks for more bytes than
are held back for a coinbase, but not for those of the header and the count, and it does not look
at the length of the payout script.

**Theorem (`solved_verdict`).** The work is right but for its size. If the block fits, it passes;
it always fits with a payout script of 848 bytes or fewer, and with 924 if a block has room for all
that is held back.

With a longer script the check of the configuration passes and every block is refused
(`solved_refused`), though only settings that the node can run with were meant to pass.
-/

namespace WorkLease

/-! ## The check decides the rules -/

/-- A tip of the easiest work. -/
def sampleTip : Tip := ⟨Digest.zero, 7, 1700000000, 1700000000, 0x207fffff⟩

namespace BlockRules

variable {policy : BlockPolicy} {payout : Bytes} {tip : Tip} {pool : List PoolEntry}
  {withCoinbase : Bool} {now : UInt32} {template : Template}

/-- **The check decides the rules** of every block that is completed from a built template. -/
theorem check_decides
    (hbuild : Template.build policy payout tip pool withCoinbase now = .ok template)
    (header : Header) (coinbase : Transaction) (limits : BlockLimits) :
    let block := template.complete header coinbase
    (check block template limits = .ok () ↔ ∀ rule, Keeps block template limits rule) ∧
      (∀ rule, check block template limits = .error rule ↔
        FirstBroken block template limits rule) ∧
      cachedTxids block template = block.txids ∧
      standaloneWith block (cachedTxids block template) = standalone block := by
  obtain ⟨chosen, -, hbuilt⟩ := Template.build_spec hbuild
  have htxids := cachedTxids_complete template header coinbase hbuilt.txids
  refine ⟨check_eq_ok_iff hbuilt.txids, fun rule => check_eq_error_iff hbuilt.txids, htxids, ?_⟩
  rw [htxids]
  rfl

/-- A payment is no coinbase, and the bits of the tip are those of the limit. -/
theorem check_decides_sample : ∃ template,
    Template.build {} Coinbase.anyoneCanSpend sampleTip [⟨Node.sampleTx, 100⟩] false 1700000100 =
      .ok template ∧
    check (template.complete (template.headerFor Digest.zero 1700000100 1 0) Node.sampleTx) template
      ⟨0x7fffff * 256 ^ 29, 32000000, 7200, 1700000100⟩ = .error .coinbaseMissing := by
  obtain ⟨template, hbuild, hbits⟩ := exists_of_any (by decide +kernel :
    (Template.build {} Coinbase.anyoneCanSpend sampleTip [⟨Node.sampleTx, 100⟩] false
      1700000100).toOption.any (·.bits = 0x207fffff) = true)
  obtain ⟨-, herror, -⟩ := check_decides hbuild (template.headerFor Digest.zero 1700000100 1 0)
    Node.sampleTx ⟨0x7fffff * 256 ^ 29, 32000000, 7200, 1700000100⟩
  refine ⟨template, hbuild, (herror _).2 ⟨[.badDifficultyBits], _, rfl, ?_, ?_⟩⟩
  · rw [List.forall_mem_singleton]
    refine ⟨0x7fffff * 256 ^ 29, ?_, Nat.le_refl _⟩
    show _ ∈ (Target.ofBits template.bits).toOption
    rw [of_decide_eq_true hbits]
    decide
  · rintro ⟨first, hfirst, hshape⟩
    obtain rfl := Option.some.inj hfirst
    exact absurd hshape (by decide)

end BlockRules

namespace Template

/-- The block with the coinbase of the preview and a nonce. -/
def solved (template : Template) (nonce : UInt32) : Block :=
  template.complete
    (template.headerFor (Merkle.root (template.previewCoinbase.txid :: template.txids))
      template.time template.version nonce)
    template.previewCoinbase

theorem preview_eq (template : Template) : template.preview = template.solved 0 := rfl

end Template

namespace Config

/-- What the check of a configuration asks for. -/
theorem validate_eq_ok_iff {config : Config} : config.validate = .ok () ↔
    config.timeoutMillis ≠ 0 ∧ config.lease.maxLeases ≠ 0 ∧
      Coinbase.reserve < config.block.maxBlockSize ∧ (∃ payout, config.payout = .ok payout) ∧
      ∃ powLimit, config.block.powLimit = .ok powLimit := by
  unfold validate
  by_cases htimeout : config.timeoutMillis = 0
  · simp [htimeout, bind, Except.bind]
  by_cases hleases : config.lease.maxLeases = 0
  · simp [htimeout, hleases, bind, Except.bind]
  by_cases hsize : config.block.maxBlockSize ≤ Coinbase.reserve
  · simp [htimeout, hleases, hsize, bind, Except.bind]
  simp only [if_neg htimeout, if_neg hleases, if_neg hsize, bind_eq_ok_iff]
  constructor
  · rintro ⟨payout, hpayout, powLimit, hlimit, -⟩
    exact ⟨htimeout, hleases, Nat.lt_of_not_le hsize, ⟨payout, hpayout⟩, powLimit, hlimit⟩
  · rintro ⟨-, -, -, ⟨payout, hpayout⟩, powLimit, hlimit⟩
    exact ⟨payout, hpayout, powLimit, hlimit, rfl⟩

end Config

/-- The limits on blocks under a configuration. -/
def Config.limitsAt (config : Config) (powLimit : Nat) (now : UInt32) : BlockLimits :=
  ⟨powLimit, config.block.maxBlockSize, config.block.maxFutureSecs, now.toUInt64⟩

/-- A template with a coinbase of the node is built under a configuration that passes its check,
on a tip whose target is within the limit and after which there is time for another block. The
coinbase is none of the transactions. -/
structure Offered (config : Config) (payout : Bytes) (powLimit : Nat) (tip : Tip)
    (pool : List PoolEntry) (now : UInt32) (template : Template) : Prop where
  valid : config.validate = .ok ()
  script : config.payout = .ok payout
  limit : config.block.powLimit = .ok powLimit
  bits : ∃ target, Target.ofBits tip.nextBits = .ok target ∧ target ≤ powLimit
  medianTimePast : tip.medianTimePast.toNat < 2 ^ 32 - 1
  window : tip.medianTimePast.toNat + 1 ≤ now.toNat + config.block.maxFutureSecs
  built : Template.build config.block payout tip pool true now = .ok template
  fresh : template.previewCoinbase.txid ∉ template.txids

namespace Offered

variable {config : Config} {payout : Bytes} {powLimit : Nat} {tip : Tip} {pool : List PoolEntry}
  {now : UInt32} {template : Template}

theorem previewCoinbase_eq (h : Offered config payout powLimit tip pool now template) :
    template.previewCoinbase =
      Coinbase.create template.height template.coinbaseValue payout := by
  obtain ⟨-, hcoinbase⟩ := Template.build_own h.built
  rw [Template.previewCoinbase, hcoinbase]
  rfl

/-- The time is one past the median, or that of the clock if it is later. -/
theorem time_eq (h : Offered config payout powLimit tip pool now template) :
    template.time.toNat = max now.toNat (tip.medianTimePast.toNat + 1) := by
  have hnext : tip.earliestTime.toNat = tip.medianTimePast.toNat + 1 := by
    have hroom := h.medianTimePast
    have hne : tip.medianTimePast ≠ 0xffffffff := by
      intro heq
      rw [heq] at hroom
      exact absurd hroom (by decide)
    rw [Tip.earliestTime, if_neg hne, UInt32.toNat_add, UInt32.toNat_one,
      Nat.mod_eq_of_lt (by omega)]
  obtain ⟨htime, -⟩ := Template.build_own h.built
  rw [htime, UInt32.toNat_max, hnext]

/-- **All rules but the length are kept.** -/
theorem keeps (h : Offered config payout powLimit tip pool now template) (nonce : UInt32)
    {rule : BrokenRule} (hrule : rule ≠ .blockLength) :
    BlockRules.Keeps (template.solved nonce) template (config.limitsAt powLimit now) rule := by
  obtain ⟨chosen, -, hbuilt⟩ := Template.build_spec h.built
  have hcreated := h.previewCoinbase_eq
  have htime := h.time_eq
  cases rule with
  | badDifficultyBits =>
    obtain ⟨target, htarget, hbelow⟩ := h.bits
    refine ⟨target, ?_, hbelow⟩
    show target ∈ (Target.ofBits template.bits).toOption
    rw [hbuilt.bits, htarget]
    rfl
  | coinbaseMissing =>
    refine ⟨template.previewCoinbase, rfl, ?_⟩
    rw [hcreated]
    exact Coinbase.isCoinbase_create _ _ _
  | coinbaseMultiple => exact BlockRules.keeps_coinbaseMultiple hbuilt
  | duplicateTransaction => exact BlockRules.keeps_duplicateTransaction hbuilt h.fresh
  | merkleRoot =>
    show Merkle.root (template.previewCoinbase.txid :: template.txids) =
      Merkle.root ((template.previewCoinbase :: template.transactions).map Transaction.txid)
    rw [List.map_cons, hbuilt.txids]
  | coinbaseHeight =>
    refine ⟨template.previewCoinbase, rfl, ?_⟩
    rw [hcreated]
    exact ⟨_, rfl, Coinbase.heightScript_prefix_created _⟩
  | coinbaseAmount =>
    refine ⟨template.previewCoinbase, rfl, ?_⟩
    rw [hcreated]
    exact Nat.le_refl _
  | blockLength => exact absurd rfl hrule
  | timeTooOld =>
    show template.medianTimePast.toNat < template.time.toNat
    rw [hbuilt.medianTimePast, htime]
    omega
  | timeTooNew =>
    show template.time.toNat ≤ now.toUInt64.toNat + config.block.maxFutureSecs
    have hwindow := h.window
    rw [UInt32.toNat_toUInt64, htime]
    omega

/-- So its length alone decides whether a block passes. -/
theorem check_solved (h : Offered config payout powLimit tip pool now template) (nonce : UInt32) :
    BlockRules.check (template.solved nonce) template (config.limitsAt powLimit now) =
      if (template.solved nonce).size ≤ config.block.maxBlockSize then .ok ()
      else .error .blockLength := by
  obtain ⟨chosen, -, hbuilt⟩ := Template.build_spec h.built
  have hlength := BlockRules.check_of_others hbuilt.txids
    fun other hother => h.keeps nonce hother
  rw [Block.size_eq]
  exact hlength

/-! ## The length of the block -/

/-- No transaction is empty, so there is none without room for it. -/
theorem transactions_eq_nil (h : Offered config payout powLimit tip pool now template)
    (hroom : config.block.maxBlockSize ≤ Template.baseSize) : template.transactions = [] := by
  obtain ⟨chosen, -, hbuilt⟩ := Template.build_spec h.built
  have hnone := hbuilt.room
  rw [Nat.sub_eq_zero_of_le hroom] at hnone
  apply List.eq_nil_iff_forall_not_mem.2
  intro tx htx
  have hle : tx.size ≤ (template.transactions.map (·.size)).sum := le_sum_of_mem _ htx
  rw [Transaction.size_eq] at hle
  omega

theorem size_solved (h : Offered config payout powLimit tip pool now template) (nonce : UInt32) :
    (template.solved nonce).size =
      80 + CompactSize.width (template.transactions.length + 1) +
        (Coinbase.create template.height template.coinbaseValue payout).size +
        (template.transactions.map Transaction.size).sum := by
  rw [← h.previewCoinbase_eq]
  show Header.size + CompactSize.width (template.previewCoinbase :: template.transactions).length +
    (template.previewCoinbase :: template.transactions).foldr (·.size + ·) 0 = _
  rw [foldr_size_add, List.length_cons, List.map_cons, List.sum_cons, Header.size]
  omega

/-- A short script leaves the coinbase within what is held back. -/
theorem size_solved_le (h : Offered config payout powLimit tip pool now template) (nonce : UInt32)
    (hscript : payout.length ≤ 848 ∨
      payout.length ≤ 924 ∧ Template.baseSize ≤ config.block.maxBlockSize) :
    (template.solved nonce).size ≤ config.block.maxBlockSize := by
  obtain ⟨chosen, -, hbuilt⟩ := Template.build_spec h.built
  have hroom : (template.transactions.map Transaction.size).sum ≤
      config.block.maxBlockSize - Template.baseSize := hbuilt.room
  obtain ⟨-, -, hmin, -, -⟩ := Config.validate_eq_ok_iff.1 h.valid
  have hcoinbase := Coinbase.size_create_le template.height template.coinbaseValue payout
  have hwidth : CompactSize.width payout.length ≤ 3 := by
    unfold CompactSize.width
    split_ifs <;> omega
  have hcount : CompactSize.width (template.transactions.length + 1) ≤ 9 := by
    unfold CompactSize.width
    split_ifs <;> omega
  have hbase : Template.baseSize = 80 + 5 + Coinbase.reserve := rfl
  have hreserve : Coinbase.reserve = 1000 := rfl
  rw [h.size_solved nonce]
  rw [scriptSize] at hcoinbase
  by_cases hbig : Template.baseSize ≤ config.block.maxBlockSize
  · omega
  · -- No transaction fits, and the count takes one byte.
    have hnil := h.transactions_eq_nil (Nat.le_of_not_le hbig)
    have hone : CompactSize.width 1 = 1 := rfl
    rw [hnil, List.length_nil, Nat.zero_add, hone, List.map_nil, List.sum_nil]
    omega

end Offered

/-! ## Work that is offered -/

/-- **Work that is offered is right but for its size**, and a short payout script keeps it
small. The preview is the block with nonce zero. -/
theorem solved_verdict {config : Config} {payout : Bytes} {powLimit : Nat} {tip : Tip}
    {pool : List PoolEntry} {now : UInt32} {template : Template}
    (h : Offered config payout powLimit tip pool now template) (nonce : UInt32) :
    let verdict := BlockRules.check (template.solved nonce) template (config.limitsAt powLimit now)
    (verdict = if (template.solved nonce).size ≤ config.block.maxBlockSize then .ok ()
      else .error .blockLength) ∧
    (payout.length ≤ 848 ∨
        payout.length ≤ 924 ∧ Template.baseSize ≤ config.block.maxBlockSize →
      verdict = .ok ()) ∧
    template.preview = template.solved 0 := by
  refine ⟨h.check_solved nonce, fun hscript => ?_, template.preview_eq⟩
  rw [h.check_solved nonce]
  exact if_pos (h.size_solved_le nonce hscript)

/-- The preview of a template with one payment passes under the settings of a new node. -/
theorem solved_verdict_sample : ∃ template,
    Offered Node.sampleConfig Coinbase.anyoneCanSpend (0x7fffff * 256 ^ 29) sampleTip
      [⟨Node.sampleTx, 100⟩] 1700000100 template ∧
    BlockRules.check template.preview template
      (Node.sampleConfig.limitsAt (0x7fffff * 256 ^ 29) 1700000100) = .ok () := by
  obtain ⟨template, hbuild, hfresh⟩ := exists_of_any (by decide +kernel :
    (Template.build Node.sampleConfig.block Coinbase.anyoneCanSpend sampleTip
      [⟨Node.sampleTx, 100⟩] true 1700000100).toOption.any
        (fun template => template.previewCoinbase.txid ∉ template.txids) = true)
  have hoffered : Offered Node.sampleConfig Coinbase.anyoneCanSpend (0x7fffff * 256 ^ 29)
      sampleTip [⟨Node.sampleTx, 100⟩] 1700000100 template := {
    valid := by decide +kernel
    script := by decide +kernel
    limit := by decide +kernel
    bits := ⟨0x7fffff * 256 ^ 29, by decide +kernel, Nat.le_refl _⟩
    medianTimePast := by decide
    window := by decide
    built := hbuild
    fresh := of_decide_eq_true hfresh }
  obtain ⟨-, hverdict, hpreview⟩ := solved_verdict hoffered 0
  rw [← hpreview] at hverdict
  exact ⟨template, hoffered, hverdict (.inl (by decide))⟩

/-- A payout script of nine hundred bytes. -/
def longScript : Bytes := List.replicate 900 0x51

/-- A block has one byte more than is held back for the coinbase. -/
def longConfig : Config where
  payoutScript := Hex.encode longScript
  block := { maxBlockSize := 1001 }

theorem longConfig_payout : longConfig.payout = .ok longScript := by
  have htext : longConfig.payoutScript = Hex.encode longScript := by rw [longConfig]
  rw [Config.payout, htext, Hex.decode_encode]

/-- **All work is refused** under a configuration that passes its check. -/
theorem solved_refused : ∃ template,
    Offered longConfig longScript (0x7fffff * 256 ^ 29) sampleTip [] 1700000100
      template ∧
    ∀ nonce, BlockRules.check (template.solved nonce) template
      (longConfig.limitsAt (0x7fffff * 256 ^ 29) 1700000100) = .error .blockLength := by
  have hlimit : longConfig.block.powLimit = .ok (0x7fffff * 256 ^ 29) := by decide +kernel
  have hvalid : longConfig.validate = .ok () :=
    Config.validate_eq_ok_iff.2 ⟨by decide, by decide, by decide, ⟨_, longConfig_payout⟩, _, hlimit⟩
  obtain ⟨template, hbuild, -⟩ := exists_of_any (by decide +kernel :
    (Template.build longConfig.block longScript sampleTip [] true
      1700000100).toOption.any (fun _ => true) = true)
  obtain ⟨chosen, hchosen, hbuilt⟩ := Template.build_spec hbuild
  have hnone : template.transactions = [] := by
    rw [hbuilt.transactions, List.sublist_nil.1 hchosen, List.map_nil]
  have hoffered : Offered longConfig longScript (0x7fffff * 256 ^ 29) sampleTip []
      1700000100 template := {
    valid := hvalid
    script := longConfig_payout
    limit := hlimit
    bits := ⟨0x7fffff * 256 ^ 29, by decide +kernel, Nat.le_refl _⟩
    medianTimePast := by decide
    window := by decide
    built := hbuild
    fresh := by
      rw [hbuilt.txids, hnone]
      exact List.not_mem_nil }
  refine ⟨template, hoffered, fun nonce => ?_⟩
  have hscript : scriptSize longScript = 903 := by decide +kernel
  have hmax : longConfig.block.maxBlockSize = 1001 := rfl
  rw [hoffered.check_solved nonce, hoffered.size_solved nonce, Coinbase.size_create, hscript, hmax]
  exact if_neg (by omega)

end WorkLease
