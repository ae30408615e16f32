import Mathlib.Tactic.Common
import WorkLease.BlockRules
import WorkLease.Proofs.Selection

/-!
# The rules, stated on the block itself

`check` trusts the identifiers that a template holds and the sizes computed without encoding.
`Keeps` says what each rule asks of the block alone: identifiers are hashed again, sizes are
lengths of wire forms, and sums are sums of natural numbers.

**Theorem (`check_eq`).** For a block completed from a template whose identifiers are those of
its transactions, `check` asks for these rules, in the order `ruleOrder`, and for nothing else.

On a block that is completed from a built template some of the rules cannot be broken at all:
the merkle root that the branch gives, the place of the coinbase, and, for a coinbase of moderate
size and new identifier, the length of the block and the absence of duplicates.
-/

namespace WorkLease.BlockRules

/-- What each rule asks of a block that was completed from the template. -/
def Keeps (block : Block) (template : Template) (limits : BlockLimits) : BrokenRule → Prop
  | .badDifficultyBits =>
    ∃ target ∈ (Target.ofBits block.header.bits).toOption, target ≤ limits.powLimit
  | .coinbaseMissing => ∃ first ∈ block.transactions.head?, first.isCoinbase = true
  | .coinbaseMultiple => ∀ tx ∈ block.transactions.tail, tx.isCoinbase = false
  | .duplicateTransaction => (block.transactions.map Transaction.txid).Nodup
  | .merkleRoot =>
    block.header.merkleRoot = Merkle.root (block.transactions.map Transaction.txid)
  | .coinbaseHeight => ∃ first ∈ block.transactions.head?, ∃ input ∈ first.inputs.head?,
    Coinbase.heightScript template.height <+: input.script
  | .coinbaseAmount => ∃ first ∈ block.transactions.head?,
    (first.outputs.map (·.value.toNat)).sum ≤ template.coinbaseValue.toNat
  | .blockLength => 80 + (CompactSize.encode block.transactions.length).length +
    (block.transactions.map (·.encode.length)).sum ≤ limits.maxBlockSize
  | .timeTooOld => template.medianTimePast.toNat < block.header.time.toNat
  | .timeTooNew => block.header.time.toNat ≤ limits.now.toNat + limits.maxFutureSecs

instance (block : Block) (template : Template) (limits : BlockLimits) :
    DecidablePred (Keeps block template limits) := fun rule => by
  cases rule <;> unfold Keeps <;> infer_instance

/-- The order in which broken rules are reported. -/
def ruleOrder : List BrokenRule :=
  [.badDifficultyBits, .coinbaseMissing, .coinbaseMultiple, .duplicateTransaction, .merkleRoot,
    .coinbaseHeight, .coinbaseAmount, .blockLength, .timeTooOld, .timeTooNew]

/-- A rule is broken, and every rule before it is kept. -/
def FirstBroken (block : Block) (template : Template) (limits : BlockLimits)
    (broken : BrokenRule) : Prop :=
  ∃ before later, ruleOrder = before ++ broken :: later ∧
    (∀ rule ∈ before, Keeps block template limits rule) ∧ ¬ Keeps block template limits broken

theorem mem_ruleOrder (rule : BrokenRule) : rule ∈ ruleOrder := by
  cases rule <;> decide

/-- No two rules have the same reason. -/
theorem reason_injective : Function.Injective BrokenRule.reason := by
  intro rule other h
  cases rule <;> cases other <;> first | rfl | exact absurd h (by decide)

/-! ## Sequences of conditions -/

theorem ensure_congr {p q : Prop} [Decidable p] [Decidable q] (h : p ↔ q) (rule : BrokenRule) :
    ensure p rule = ensure q rule := by
  unfold ensure
  simp only [h]

theorem ensure_eq_ok_iff {p : Prop} [Decidable p] {rule : BrokenRule} :
    ensure p rule = .ok () ↔ p := by
  unfold ensure
  split_ifs with h <;> simp [h]

/-- Two checks in sequence pass if both do. -/
theorem sequence_eq_ok_iff {first second : Check} :
    (do first; second) = .ok () ↔ first = .ok () ∧ second = .ok () := by
  cases first with
  | error rule => exact ⟨nofun, fun h => nomatch h.1⟩
  | ok _ => exact ⟨fun h => ⟨rfl, h⟩, fun h => h.2⟩

section Sequence

variable (keeps : BrokenRule → Prop) [DecidablePred keeps]

/-- The check that one rule is kept. -/
def require (rule : BrokenRule) : Check :=
  ensure (keeps rule) rule

/-- The check that every rule of a list is kept, in order. -/
def requireAll : List BrokenRule → Check
  | [] => .ok ()
  | rule :: rules => do
    require keeps rule
    requireAll rules

variable {keeps} {rules : List BrokenRule}

theorem requireAll_eq_ok_iff : requireAll keeps rules = .ok () ↔ ∀ rule ∈ rules, keeps rule := by
  induction rules with
  | nil => simp [requireAll]
  | cons rule rules ih =>
    rw [requireAll, List.forall_mem_cons, ← ih, require, ensure]
    split_ifs with h <;> simp [h, bind, Except.bind]

/-- **The rule that is reported** is broken, and those before it are kept. -/
theorem requireAll_eq_error_iff {broken : BrokenRule} :
    requireAll keeps rules = .error broken ↔ ∃ before later, rules = before ++ broken :: later ∧
      (∀ rule ∈ before, keeps rule) ∧ ¬ keeps broken := by
  induction rules with
  | nil => simp [requireAll]
  | cons first rules ih =>
    rw [requireAll, require, ensure]
    by_cases hfirst : keeps first
    · rw [if_pos hfirst]
      refine ih.trans ⟨?_, ?_⟩
      · rintro ⟨before, later, rfl, hkept, hbroken⟩
        exact ⟨first :: before, later, rfl, List.forall_mem_cons.2 ⟨hfirst, hkept⟩, hbroken⟩
      · rintro ⟨_ | ⟨other, before⟩, later, hrules, hkept, hbroken⟩
        · obtain ⟨rfl, -⟩ := List.cons.inj hrules
          exact absurd hfirst hbroken
        · obtain ⟨rfl, rfl⟩ := List.cons.inj hrules
          exact ⟨before, later, rfl, (List.forall_mem_cons.1 hkept).2, hbroken⟩
    · rw [if_neg hfirst]
      constructor
      · intro h
        obtain rfl := Except.error.inj h
        exact ⟨[], rules, rfl, List.forall_mem_nil _, hfirst⟩
      · rintro ⟨_ | ⟨other, before⟩, later, hrules, hkept, -⟩
        · obtain ⟨rfl, -⟩ := List.cons.inj hrules
          rfl
        · obtain ⟨rfl, -⟩ := List.cons.inj hrules
          exact absurd (List.forall_mem_cons.1 hkept).1 hfirst

end Sequence

/-! ## The parts of the check -/

theorem difficulty_eq (bits : UInt32) (powLimit : Nat) :
    difficulty bits powLimit =
      ensure (∃ target ∈ (Target.ofBits bits).toOption, target ≤ powLimit) .badDifficultyBits := by
  unfold difficulty
  cases Target.ofBits bits with
  | ok target => exact ensure_congr (by simp [Except.toOption]) _
  | error fault => simp [Except.toOption, ensure]

theorem commitsTo_iff {tx : Transaction} {height : UInt64} :
    Coinbase.commitsTo tx height = true ↔
      ∃ input ∈ tx.inputs.head?, Coinbase.heightScript height <+: input.script := by
  unfold Coinbase.commitsTo
  cases tx.inputs <;> simp

theorem outputValue?_eq_some_iff {tx : Transaction} {paid : UInt64} :
    tx.outputValue? = some paid ↔ paid.toNat = (tx.outputs.map (·.value.toNat)).sum := by
  rw [Transaction.outputValue?, Amount.sum?_eq_some_iff, List.map_map]
  rfl

theorem coinbaseAmount_eq (tx : Transaction) (most : UInt64) :
    (match tx.outputValue? with
      | some paid => ensure (paid ≤ most) .coinbaseAmount
      | none => .error .coinbaseAmount) =
      ensure ((tx.outputs.map (·.value.toNat)).sum ≤ most.toNat) .coinbaseAmount := by
  cases hpaid : tx.outputValue? with
  | some paid =>
    rw [← outputValue?_eq_some_iff.1 hpaid]
    exact ensure_congr UInt64.le_iff_toNat_le _
  | none =>
    -- A sum that does not fit in 64 bits is above every amount.
    have habove : ¬ (tx.outputs.map (·.value.toNat)).sum ≤ most.toNat := by
      intro hle
      have hfits := lt_of_le_of_lt hle most.toNat_lt
      have hsome := outputValue?_eq_some_iff.2 (UInt64.toNat_ofNat_of_lt' hfits)
      rw [hsome] at hpaid
      cases hpaid
    rw [ensure, if_neg habove]

/-! ## The rules on the block alone -/

theorem coinbasePlacement_eq_ok_iff {block : Block} : coinbasePlacement block = .ok () ↔
    (∃ first ∈ block.transactions.head?, first.isCoinbase = true) ∧
      ∀ tx ∈ block.transactions.tail, tx.isCoinbase = false := by
  unfold coinbasePlacement
  cases block.transactions with
  | nil => simp
  | cons first rest =>
    dsimp only
    rw [sequence_eq_ok_iff, ensure_eq_ok_iff, ensure_eq_ok_iff]
    simp

/-- A block passes by itself if its coinbase stands first and alone, no identifier is repeated and
the header commits to the identifiers. -/
theorem standalone_eq_ok_iff {block : Block} : standalone block = .ok () ↔
    ((∃ first ∈ block.transactions.head?, first.isCoinbase = true) ∧
      ∀ tx ∈ block.transactions.tail, tx.isCoinbase = false) ∧
    block.txids.Nodup ∧ Merkle.root block.txids = block.header.merkleRoot := by
  rw [standalone, standaloneWith, sequence_eq_ok_iff, sequence_eq_ok_iff,
    coinbasePlacement_eq_ok_iff, distinctTxids, committedRoot, ensure_eq_ok_iff, ensure_eq_ok_iff]

/-! ## The check on cached identifiers -/

section Completed

variable (template : Template) (header : Header) (coinbase : Transaction) (limits : BlockLimits)

theorem coinbasePlacement_complete :
    coinbasePlacement (template.complete header coinbase) = (do
      require (Keeps (template.complete header coinbase) template limits) .coinbaseMissing
      require (Keeps (template.complete header coinbase) template limits) .coinbaseMultiple) := by
  have hfirst : coinbase.isCoinbase = true ↔
      Keeps (template.complete header coinbase) template limits .coinbaseMissing := by
    simp [Keeps, Template.complete]
  have hothers : template.transactions.any Transaction.isCoinbase = false ↔
      Keeps (template.complete header coinbase) template limits .coinbaseMultiple := by
    simp [Keeps, Template.complete]
  rw [require, require, ← ensure_congr hfirst, ← ensure_congr hothers]
  rfl

theorem cachedTxids_complete (h : template.txids = template.transactions.map Transaction.txid) :
    cachedTxids (template.complete header coinbase) template =
      (template.complete header coinbase).transactions.map Transaction.txid := by
  simp [cachedTxids, Template.complete, Block.coinbase?, h]

theorem standaloneWith_complete
    (h : template.txids = template.transactions.map Transaction.txid) :
    standaloneWith (template.complete header coinbase)
        (cachedTxids (template.complete header coinbase) template) = (do
      require (Keeps (template.complete header coinbase) template limits) .coinbaseMissing
      require (Keeps (template.complete header coinbase) template limits) .coinbaseMultiple
      require (Keeps (template.complete header coinbase) template limits) .duplicateTransaction
      require (Keeps (template.complete header coinbase) template limits) .merkleRoot) := by
  have hroot : Merkle.root ((template.complete header coinbase).transactions.map
      Transaction.txid) = header.merkleRoot ↔
      Keeps (template.complete header coinbase) template limits .merkleRoot := eq_comm
  rw [standaloneWith, cachedTxids_complete template header coinbase h,
    coinbasePlacement_complete template header coinbase limits, bind_assoc]
  refine congrArg _ (funext fun _ => congrArg _ (funext fun _ => ?_))
  rw [distinctTxids, committedRoot, require, require, ← ensure_congr hroot]
  rfl

theorem coinbaseTerms_complete :
    coinbaseTerms (template.complete header coinbase) template = (do
      require (Keeps (template.complete header coinbase) template limits) .coinbaseHeight
      require (Keeps (template.complete header coinbase) template limits) .coinbaseAmount) := by
  have hheight : Coinbase.commitsTo coinbase template.height = true ↔
      Keeps (template.complete header coinbase) template limits .coinbaseHeight := by
    rw [commitsTo_iff]
    simp [Keeps, Template.complete]
  have hamount : (coinbase.outputs.map (·.value.toNat)).sum ≤ template.coinbaseValue.toNat ↔
      Keeps (template.complete header coinbase) template limits .coinbaseAmount := by
    simp [Keeps, Template.complete]
  rw [require, require, ← ensure_congr hheight, ← ensure_congr hamount, ← coinbaseAmount_eq]
  rfl

theorem timeWindow_complete :
    timeWindow header.time template.medianTimePast limits = (do
      require (Keeps (template.complete header coinbase) template limits) .timeTooOld
      require (Keeps (template.complete header coinbase) template limits) .timeTooNew) := by
  have hold : template.medianTimePast < header.time ↔
      Keeps (template.complete header coinbase) template limits .timeTooOld :=
    UInt32.lt_iff_toNat_lt
  rw [timeWindow, require, require, ensure_congr hold]
  rfl

/-- **The check asks for the rules**, in their order, of the block itself. -/
theorem check_eq (h : template.txids = template.transactions.map Transaction.txid) :
    check (template.complete header coinbase) template limits =
      requireAll (Keeps (template.complete header coinbase) template limits) ruleOrder := by
  have hsize : (template.complete header coinbase).size ≤ limits.maxBlockSize ↔
      Keeps (template.complete header coinbase) template limits .blockLength := by
    rw [Block.size_eq]
    rfl
  have hdone (x : Check) : (x >>= fun _ => .ok ()) = x := by cases x <;> rfl
  rw [check, difficulty_eq, standaloneWith_complete template header coinbase limits h,
    coinbaseTerms_complete template header coinbase limits, ensure_congr hsize]
  rw [show (template.complete header coinbase).header.time = header.time from rfl,
    timeWindow_complete template header coinbase limits]
  simp only [ruleOrder, requireAll, bind_assoc, hdone]
  rfl

variable {template header coinbase limits}

theorem check_eq_ok_iff (h : template.txids = template.transactions.map Transaction.txid) :
    check (template.complete header coinbase) template limits = .ok () ↔
      ∀ rule, Keeps (template.complete header coinbase) template limits rule := by
  rw [check_eq template header coinbase limits h, requireAll_eq_ok_iff]
  exact forall_congr' fun rule => forall_prop_of_true (mem_ruleOrder rule)

theorem check_eq_error_iff (h : template.txids = template.transactions.map Transaction.txid)
    {broken : BrokenRule} :
    check (template.complete header coinbase) template limits = .error broken ↔
      FirstBroken (template.complete header coinbase) template limits broken := by
  rw [check_eq template header coinbase limits h]
  exact requireAll_eq_error_iff

/-- A rule that is kept is not reported. -/
theorem check_ne_error_of_keeps (h : template.txids = template.transactions.map Transaction.txid)
    {rule : BrokenRule} (hrule : Keeps (template.complete header coinbase) template limits rule) :
    check (template.complete header coinbase) template limits ≠ .error rule := by
  intro herror
  obtain ⟨before, later, -, -, hbroken⟩ := (check_eq_error_iff h).1 herror
  exact hbroken hrule

/-- If only one rule can be broken, it alone decides. -/
theorem check_of_others (h : template.txids = template.transactions.map Transaction.txid)
    {rule : BrokenRule} (hothers : ∀ other, other ≠ rule →
      Keeps (template.complete header coinbase) template limits other) :
    check (template.complete header coinbase) template limits =
      if Keeps (template.complete header coinbase) template limits rule then .ok ()
      else .error rule := by
  split_ifs with hrule
  · refine (check_eq_ok_iff h).2 fun other => ?_
    by_cases hother : other = rule
    · exact hother ▸ hrule
    · exact hothers other hother
  · cases hcheck : check (template.complete header coinbase) template limits with
    | ok _ => exact absurd ((check_eq_ok_iff h).1 hcheck rule) hrule
    | error broken =>
      obtain ⟨before, later, -, -, hbroken⟩ := (check_eq_error_iff h).1 hcheck
      by_contra hne
      exact hbroken (hothers broken fun heq => hne (congrArg Except.error heq))

/-! ## Rules that a built template keeps -/

variable {policy : BlockPolicy} {tip : Tip} {chosen : List PoolEntry}

theorem keeps_coinbaseMultiple (hbuilt : template.BuiltFrom policy tip chosen) :
    Keeps (template.complete header coinbase) template limits .coinbaseMultiple :=
  hbuilt.noCoinbase

/-- The root folded from the branch is the root over the transactions. -/
theorem keeps_merkleRoot (hbuilt : template.BuiltFrom policy tip chosen)
    (hroot : header.merkleRoot = template.rootWith coinbase) :
    Keeps (template.complete header coinbase) template limits .merkleRoot := by
  show header.merkleRoot = Merkle.root ((coinbase :: template.transactions).map Transaction.txid)
  rw [hroot, Template.rootWith, hbuilt.branch, Merkle.fold_branch, List.map_cons, ← hbuilt.txids]

theorem keeps_duplicateTransaction (hbuilt : template.BuiltFrom policy tip chosen)
    (hfresh : coinbase.txid ∉ template.txids) :
    Keeps (template.complete header coinbase) template limits .duplicateTransaction := by
  show ((coinbase :: template.transactions).map Transaction.txid).Nodup
  rw [List.map_cons, ← hbuilt.txids]
  exact List.nodup_cons.2 ⟨hfresh, hbuilt.distinct⟩

/-- The room held back is enough for the header, the count and a coinbase of moderate size. -/
theorem keeps_blockLength (hbuilt : template.BuiltFrom policy tip chosen)
    (hlimit : limits.maxBlockSize = policy.maxBlockSize)
    (hroom : 80 + 5 + Coinbase.reserve ≤ policy.maxBlockSize)
    (hcount : template.transactions.length < 2 ^ 32 - 1)
    (hcoinbase : coinbase.encode.length ≤ Coinbase.reserve) :
    Keeps (template.complete header coinbase) template limits .blockLength := by
  have htotal := hbuilt.room
  have hbase : Template.baseSize = 80 + 5 + Coinbase.reserve := rfl
  have hwidth : CompactSize.width (coinbase :: template.transactions).length ≤ 5 := by
    rw [List.length_cons, CompactSize.width]
    split_ifs <;> omega
  show 80 + (CompactSize.encode (coinbase :: template.transactions).length).length +
    ((coinbase :: template.transactions).map (·.encode.length)).sum ≤ limits.maxBlockSize
  simp only [CompactSize.length_encode, List.map_cons, List.sum_cons,
    Transaction.length_encode] at hcoinbase ⊢
  omega

end Completed

end WorkLease.BlockRules
