import Mathlib.Tactic.Common
import WorkLease.Proofs.Amount
import WorkLease.Proofs.Commits
import WorkLease.Proofs.Selection

/-!
# The height of the tip

The next height is computed twice: the builder adds one and refuses the tip when the sum does not
fit in 64 bits, and the gate of the chain adds one and is broken off when it does not. A tip from
outside may have any height, so the gate can be at the greatest one, also with a block whose
template was built below it.

* `height_extended`: a block that becomes the tip is one higher than the tip before it.
* `height_after_blocks`: so blocks alone raise the height by as many as become the tip.
* `build_eq_heightOverflow_iff`: the builder refuses a tip that has no next height, and no other tip
  for its height.

**Theorem (`climbs_start`).** Over every run whatever extends the tip is exactly one higher than it,
and the gate and the builder agree on the next height wherever there is one. Where there is none the
builder has a refusal and the gate has no answer (`no_answer_on_topChain`).
-/

namespace WorkLease

/-- **The builder refuses a tip for its height** exactly if there is none after it. -/
theorem Template.build_eq_heightOverflow_iff {policy : BlockPolicy} {payout : Bytes} {tip : Tip}
    {pool : List PoolEntry} {withCoinbase : Bool} {now : UInt32} :
    build policy payout tip pool withCoinbase now = .error .heightOverflow ↔ ¬ tip.HasNext := by
  rw [Tip.HasNext, Nat.not_lt, ← UInt64.toNat_one, ← Amount.add?_eq_none_iff]
  constructor
  · intro h
    unfold build at h
    split at h
    · assumption
    -- Any other refusal is for an amount.
    dsimp only at h
    split at h
    · cases h
    split at h
    · cases h
    · cases h
  · intro h
    rw [build, h]

namespace Chain

variable {chain : Chain}

/-! ## The gate -/

/-- **One block** is one higher than the tip that it extends. -/
theorem height_extended (h : chain.tip.HasNext) (block : Block) :
    (chain.extended block).tip.height.toNat = chain.tip.height.toNat + 1 := by
  show (chain.tip.height + 1).toNat = _
  rw [UInt64.toNat_add, UInt64.toNat_one, Nat.mod_eq_of_lt h]

/-- **A run of blocks** raises the height by the number of those that become the tip. -/
theorem height_after_blocks (chain : Chain) (blocks : List Block) :
    (chain.after (blocks.map .extend)).tip.height.toNat =
      chain.tip.height.toNat + (chain.commits (blocks.map .extend)).length := by
  induction blocks generalizing chain with
  | nil => rfl
  | cons block blocks ih =>
    have hmove : chain.after ((block :: blocks).map .extend) =
        (chain.extend block).2.after (blocks.map .extend) := rfl
    rw [hmove, List.map_cons, commits, ih]
    rcases extend_cases chain block with ⟨-, hnext, heq⟩ | ⟨-, -, heq⟩ | ⟨-, heq⟩ <;> rw [heq]
    · dsimp only
      rw [height_extended hnext block, List.length_cons]
      omega

/-! ## The gate and the builder -/

/-- What holds of the height of the tip over every run from a chain. -/
structure Climbs (origin : Chain) : Prop where
  /-- Whatever extends the tip is one higher than it, and is the new tip. -/
  exact : ∀ moves block tip, ((origin.after moves).extend block).1 = .extended tip →
    ((origin.after moves).extend block).2.tip = tip ∧
      tip.height.toNat = (origin.after moves).tip.height.toNat + 1
  /-- A block on the tip extends it, if there is a next height. -/
  raised : ∀ moves block, block.header.parent = (origin.after moves).tip.hash →
    (origin.after moves).tip.HasNext →
    ∃ tip, ((origin.after moves).extend block).1 = .extended tip
  /-- If there is none, the attempt is broken off and nothing is done. -/
  brokenOff : ∀ moves block, block.header.parent = (origin.after moves).tip.hash →
    ¬ (origin.after moves).tip.HasNext →
    (origin.after moves).extend block = (.overflow, origin.after moves)
  /-- The builder refuses a tip for its height exactly if there is no next one. -/
  refused : ∀ moves policy payout pool withCoinbase now,
    Template.build policy payout (origin.after moves).tip pool withCoinbase now =
      .error .heightOverflow ↔ ¬ (origin.after moves).tip.HasNext
  /-- A block for a template of the tip gets the height of the template, one above the tip. -/
  agreed : ∀ moves policy payout pool withCoinbase now template,
    Template.build policy payout (origin.after moves).tip pool withCoinbase now = .ok template →
    template.height.toNat = (origin.after moves).tip.height.toNat + 1 ∧
      ∀ block, block.header.parent = template.parent →
        ∃ tip, ((origin.after moves).extend block).1 = .extended tip ∧ tip.height = template.height
  /-- Until the tip is replaced from outside again, the height counts the blocks above it. -/
  counted : ∀ moves (blocks : List Block),
    (origin.after (moves ++ blocks.map .extend)).tip.height.toNat =
      (origin.after moves).tip.height.toNat +
        ((origin.after moves).commits (blocks.map .extend)).length

/-- **The height climbs by one with every block**, and never otherwise than from outside. -/
theorem climbs_start (hash : Digest) (height : UInt64) (time nextBits : UInt32) :
    (start hash height time nextBits).Climbs where
  exact moves block tip h := by
    obtain ⟨hparent, hnext, rfl⟩ := extend_fst_eq_extended_iff.1 h
    rw [extend_of_parent_eq hparent hnext]
    exact ⟨rfl, height_extended hnext block⟩
  raised moves block hparent hnext :=
    ⟨_, extend_fst_eq_extended_iff.2 ⟨hparent, hnext, rfl⟩⟩
  brokenOff moves block hparent htop := extend_of_not_hasNext hparent htop
  refused _ _ _ _ _ _ := Template.build_eq_heightOverflow_iff
  agreed moves policy payout pool withCoinbase now template hbuild := by
    obtain ⟨chosen, -, hbuilt⟩ := Template.build_spec hbuild
    -- The height of the template is a 64-bit number, so the tip has a next one.
    have hnext : ((start hash height time nextBits).after moves).tip.HasNext := by
      rw [Tip.HasNext, ← hbuilt.height]
      exact template.height.toNat_lt
    refine ⟨hbuilt.height, fun block hparent => ?_⟩
    refine ⟨_, extend_fst_eq_extended_iff.2 ⟨hparent.trans hbuilt.parent, hnext, rfl⟩, ?_⟩
    rw [← UInt64.toNat_inj, height_extended hnext block, hbuilt.height]
  counted moves blocks := by
    rw [after_append, height_after_blocks]

/-- **No answer at the top**: a block on the tip of the greatest height is neither told that it
extends the tip nor that it is stale, where the builder refuses the tip with an error of its own. -/
theorem no_answer_on_topChain : topBlock.header.parent = topChain.tip.hash ∧
    topChain.extend topBlock = (.overflow, topChain) ∧
    topChain.tip.height.toNat = 2 ^ 64 - 1 ∧
    Template.build {} [0x51] topChain.tip [] true 1700000100 = .error .heightOverflow := by
  have hparent : topBlock.header.parent = topChain.tip.hash := rfl
  have hheight : topChain.tip.height = 0xffffffffffffffff := rfl
  refine ⟨hparent, extend_of_not_hasNext hparent topChain_not_hasNext, ?_,
    Template.build_eq_heightOverflow_iff.2 topChain_not_hasNext⟩
  rw [hheight]
  rfl

end Chain

end WorkLease
