import Mathlib.Data.List.DropRight
import Mathlib.Tactic.Common
import WorkLease.Proofs.Amount
import WorkLease.Validator

/-!
# One commit per tip

`extend` compares the parent of a block with the tip and, if they agree, makes the block the
tip. Whatever else races for that tip finds it moved. On a tip of the greatest height there is none
that can win: the height of the next tip does not fit, and every attempt is broken off.

* `extend_cases`: the three ends of an attempt.
* `exists_makes_of_tip_ne`: a tip that was not there at first was made by a move of the run.
* `accepted_after`: the chain holds the last blocks that it accepted, in the order of their
  acceptance.

**Theorem (`exclusive_start`).** Over every run of extensions and moves from outside, two blocks
with one parent extend the tip only if something in between made that parent the tip again. Of the
blocks that race for a tip that has a next height the first wins alone; for one that has none nobody
wins (`race_without_winner`).
-/

namespace WorkLease

/-! ## The last elements of a list -/

section KeepLast

variable {α : Type} (n : Nat) (xs ys : List α)

theorem keepLast_eq : keepLast n xs = (xs.reverse.take n).reverse :=
  List.rtake_eq_reverse_take_reverse xs n

theorem length_keepLast : (keepLast n xs).length = min n xs.length := by
  rw [keepLast_eq, List.length_reverse, List.length_take, List.length_reverse]

theorem keepLast_suffix : keepLast n xs <:+ xs :=
  List.drop_suffix _ xs

/-- What is dropped early would be dropped later. -/
theorem keepLast_keepLast_append : keepLast n (keepLast n xs ++ ys) = keepLast n (xs ++ ys) := by
  rw [keepLast_eq n xs, keepLast_eq, keepLast_eq, List.reverse_append, List.reverse_append,
    List.reverse_reverse, List.take_append, List.take_append, List.take_take]
  rw [Nat.min_eq_left (Nat.sub_le n _)]

theorem getLast?_keepLast_append (hn : 0 < n) (x : α) :
    (keepLast n (xs ++ [x])).getLast? = some x := by
  obtain ⟨m, rfl⟩ := Nat.exists_eq_succ_of_ne_zero (Nat.ne_of_gt hn)
  rw [show keepLast (m + 1) (xs ++ [x]) = keepLast m xs ++ [x] from List.rtake_concat_succ xs m x,
    List.getLast?_append]
  rfl

end KeepLast

/-- There is a height after that of the tip. -/
def Tip.HasNext (tip : Tip) : Prop :=
  tip.height.toNat + 1 < 2 ^ 64

instance (tip : Tip) : Decidable tip.HasNext := by
  unfold Tip.HasNext
  infer_instance

theorem Tip.HasNext.add? {tip : Tip} (h : tip.HasNext) :
    Amount.add? tip.height 1 = some (tip.height + 1) := by
  rw [Amount.add?_eq_some_iff, UInt64.toNat_add, UInt64.toNat_one, Nat.mod_eq_of_lt h]

theorem Tip.add?_eq_none_iff {tip : Tip} : Amount.add? tip.height 1 = none ↔ ¬ tip.HasNext := by
  rw [Amount.add?_eq_none_iff, Tip.HasNext, Nat.not_lt, UInt64.toNat_one]

namespace Chain

/-! ## The gate -/

/-- The chain once a block has become its tip. -/
def extended (chain : Chain) (block : Block) : Chain :=
  { chain.advance block.hash (chain.tip.height + 1) block.header.time with
    accepted := keepLast acceptedHistory (chain.accepted ++ [block]) }

@[simp] theorem extended_tip_hash (chain : Chain) (block : Block) :
    (chain.extended block).tip.hash = block.hash := rfl

theorem extended_tip_ne (chain : Chain) (block : Block) :
    (chain.extended block).tip ≠ chain.tip := by
  intro h
  have hheight : chain.tip.height + 1 = chain.tip.height := congrArg Tip.height h
  have hnat := congrArg UInt64.toNat hheight
  have hlt := chain.tip.height.toNat_lt
  rw [UInt64.toNat_add, UInt64.toNat_one] at hnat
  omega

theorem extended_ne (chain : Chain) (block : Block) : chain.extended block ≠ chain :=
  fun h => extended_tip_ne chain block (congrArg Chain.tip h)

@[simp] theorem getLast?_extended_accepted (chain : Chain) (block : Block) :
    (chain.extended block).accepted.getLast? = some block :=
  getLast?_keepLast_append acceptedHistory chain.accepted (by decide) block

variable {chain : Chain} {block : Block}

theorem extend_of_parent_eq (h : block.header.parent = chain.tip.hash) (hnext : chain.tip.HasNext) :
    chain.extend block = (.extended (chain.extended block).tip, chain.extended block) := by
  rw [extend, if_pos h, hnext.add?]
  rfl

theorem extend_of_not_hasNext (h : block.header.parent = chain.tip.hash)
    (htop : ¬ chain.tip.HasNext) : chain.extend block = (.overflow, chain) := by
  rw [extend, if_pos h, Tip.add?_eq_none_iff.2 htop]

theorem extend_of_parent_ne (h : block.header.parent ≠ chain.tip.hash) :
    chain.extend block = (.stale chain.tip, chain) :=
  if_neg h

/-- **The ends of an attempt**, each with what decides for it. -/
theorem extend_cases (chain : Chain) (block : Block) :
    (block.header.parent = chain.tip.hash ∧ chain.tip.HasNext ∧
      chain.extend block = (.extended (chain.extended block).tip, chain.extended block)) ∨
    (block.header.parent = chain.tip.hash ∧ ¬ chain.tip.HasNext ∧
      chain.extend block = (.overflow, chain)) ∨
    (block.header.parent ≠ chain.tip.hash ∧ chain.extend block = (.stale chain.tip, chain)) := by
  by_cases h : block.header.parent = chain.tip.hash
  · by_cases hnext : chain.tip.HasNext
    · exact .inl ⟨h, hnext, extend_of_parent_eq h hnext⟩
    · exact .inr (.inl ⟨h, hnext, extend_of_not_hasNext h hnext⟩)
  · exact .inr (.inr ⟨h, extend_of_parent_ne h⟩)

theorem extend_fst_eq_extended_iff {tip : Tip} : (chain.extend block).1 = .extended tip ↔
    block.header.parent = chain.tip.hash ∧ chain.tip.HasNext ∧
      tip = (chain.extended block).tip := by
  rcases extend_cases chain block with ⟨h, hnext, heq⟩ | ⟨h, htop, heq⟩ | ⟨h, heq⟩ <;> rw [heq]
  · simp [h, hnext, eq_comm]
  · simp [htop]
  · simp [h]

theorem extend_fst_eq_overflow_iff : (chain.extend block).1 = .overflow ↔
    block.header.parent = chain.tip.hash ∧ ¬ chain.tip.HasNext := by
  rcases extend_cases chain block with ⟨h, hnext, heq⟩ | ⟨h, htop, heq⟩ | ⟨h, heq⟩ <;> rw [heq]
  · simp [hnext]
  · simp [h, htop]
  · simp [h]

theorem extend_fst_eq_stale_iff {tip : Tip} : (chain.extend block).1 = .stale tip ↔
    block.header.parent ≠ chain.tip.hash ∧ tip = chain.tip := by
  rcases extend_cases chain block with ⟨h, hnext, heq⟩ | ⟨h, htop, heq⟩ | ⟨h, heq⟩ <;> rw [heq]
  · simp [h]
  · simp [h]
  · simp [h, eq_comm]

/-- The chain is changed by a block that becomes its tip and by no other. -/
theorem extend_snd (chain : Chain) (block : Block) :
    ((∃ tip, (chain.extend block).1 = .extended tip) ∧
      (chain.extend block).2 = chain.extended block) ∨
    ((∀ tip, (chain.extend block).1 ≠ .extended tip) ∧ (chain.extend block).2 = chain) := by
  rcases extend_cases chain block with ⟨-, -, heq⟩ | ⟨-, -, heq⟩ | ⟨-, heq⟩ <;> rw [heq]
  · exact .inl ⟨⟨_, rfl⟩, rfl⟩
  · exact .inr ⟨nofun, rfl⟩
  · exact .inr ⟨nofun, rfl⟩

/-! ## Runs -/

/-- Something that happens to a chain. -/
inductive Move where
  /-- A block is offered to the gate. -/
  | extend (block : Block)
  /-- The tip is replaced from outside. -/
  | moveTo (move : TipMove)

/-- The chain after a move. -/
def afterMove (chain : Chain) : Move → Chain
  | .extend block => (chain.extend block).2
  | .moveTo move => chain.moveTo move.hash move.height move.time

/-- The chain after a list of moves. -/
def after (chain : Chain) (moves : List Move) : Chain :=
  moves.foldl afterMove chain

/-- What the offered blocks of a list of moves are answered, in order. -/
def answers (chain : Chain) : List Move → List Extension
  | [] => []
  | .extend block :: moves =>
      (chain.extend block).1 :: answers (chain.afterMove (.extend block)) moves
  | .moveTo move :: moves => answers (chain.afterMove (.moveTo move)) moves

/-- The blocks that became the tip, in order. -/
def commits (chain : Chain) : List Move → List Block
  | [] => []
  | .extend block :: moves =>
      match chain.extend block with
      | (.extended _, next) => block :: commits next moves
      | (_, next) => commits next moves
  | .moveTo move :: moves => commits (chain.afterMove (.moveTo move)) moves

/-- A move makes `hash` the tip. -/
def Makes (chain : Chain) (hash : Digest) : Move → Prop
  | .extend block => (∃ tip, (chain.extend block).1 = .extended tip) ∧ block.hash = hash
  | .moveTo move => move.hash = hash

/-- A move that makes no tip of `hash` leaves or brings another tip. -/
theorem makes_of_afterMove_tip {hash : Digest} {move : Move} (hne : chain.tip.hash ≠ hash)
    (h : (chain.afterMove move).tip.hash = hash) : chain.Makes hash move := by
  cases move with
  | moveTo move => exact h
  | extend block =>
    rw [afterMove] at h
    rcases extend_snd chain block with ⟨hwon, hafter⟩ | ⟨-, hafter⟩ <;> rw [hafter] at h
    · exact ⟨hwon, h⟩
    · exact absurd h hne

/-- **A tip that was not there at first was made** by a move of the run. -/
theorem exists_makes_of_tip_ne {hash : Digest} {moves : List Move} (hne : chain.tip.hash ≠ hash)
    (h : (chain.after moves).tip.hash = hash) :
    ∃ before move later, moves = before ++ move :: later ∧
      (chain.after before).Makes hash move := by
  induction moves generalizing chain with
  | nil => exact absurd h hne
  | cons move moves ih =>
    by_cases hmove : (chain.afterMove move).tip.hash = hash
    · exact ⟨[], move, moves, rfl, makes_of_afterMove_tip hne hmove⟩
    · obtain ⟨before, made, later, rfl, hmade⟩ := ih hmove h
      exact ⟨move :: before, made, later, rfl, hmade⟩

/-- **The chain holds the last blocks that became its tip.** -/
theorem accepted_after (blocks : List Block) (moves : List Move)
    (h : chain.accepted = keepLast acceptedHistory blocks) :
    (chain.after moves).accepted = keepLast acceptedHistory (blocks ++ chain.commits moves) := by
  -- What was accepted before is arbitrary, so that the induction can move past a commit.
  induction moves generalizing chain blocks with
  | nil =>
    rw [commits, List.append_nil]
    exact h
  | cons move moves ih =>
    cases move with
    | moveTo move => exact ih blocks h
    | extend block =>
      have hmove : chain.after (.extend block :: moves) = (chain.extend block).2.after moves := rfl
      rw [hmove, commits]
      rcases extend_cases chain block with ⟨-, -, heq⟩ | ⟨-, -, heq⟩ | ⟨-, heq⟩ <;> rw [heq]
      · have hheld : (chain.extended block).accepted =
            keepLast acceptedHistory (blocks ++ [block]) := by
          show keepLast acceptedHistory (chain.accepted ++ [block]) = _
          rw [h, keepLast_keepLast_append]
        rw [List.append_cons]
        exact ih (blocks ++ [block]) hheld
      · exact ih blocks h
      · exact ih blocks h

/-- Blocks that race for a tip that has moved are all stale. -/
theorem answers_stale {parent : Digest} (hne : parent ≠ chain.tip.hash) {racers : List Block}
    (hracers : ∀ block ∈ racers, block.header.parent = parent) :
    chain.answers (racers.map .extend) = List.replicate racers.length (.stale chain.tip) := by
  induction racers with
  | nil => rfl
  | cons block racers ih =>
    obtain ⟨hblock, hrest⟩ := List.forall_mem_cons.1 hracers
    have hstale := extend_of_parent_ne (hblock ▸ hne)
    rw [List.map_cons, answers, afterMove, hstale, ih hrest]
    rfl

/-- The first of the blocks that race for a tip wins, and the others find its tip. -/
theorem answers_race {first : Block} {others : List Block} (hnext : chain.tip.HasNext)
    (hfirst : first.header.parent = chain.tip.hash) (hne : first.hash ≠ chain.tip.hash)
    (hothers : ∀ block ∈ others, block.header.parent = chain.tip.hash) :
    chain.answers ((first :: others).map .extend) = .extended (chain.extended first).tip ::
      List.replicate others.length (.stale (chain.extended first).tip) := by
  rw [List.map_cons, answers, afterMove, extend_of_parent_eq hfirst hnext]
  rw [answers_stale (Ne.symm hne) hothers]

/-- Where there is no next height, none of the blocks that race for the tip wins. -/
theorem answers_of_not_hasNext (htop : ¬ chain.tip.HasNext) {racers : List Block}
    (hracers : ∀ block ∈ racers, block.header.parent = chain.tip.hash) :
    chain.answers (racers.map .extend) = List.replicate racers.length .overflow := by
  induction racers with
  | nil => rfl
  | cons block racers ih =>
    obtain ⟨hblock, hrest⟩ := List.forall_mem_cons.1 hracers
    rw [List.map_cons, answers, afterMove, extend_of_not_hasNext hblock htop, ih hrest]
    rfl

/-- Since the commit before it, some move made the parent of a commit the tip. -/
theorem exists_makes_of_commits {first second : Block} {moves : List Move} {won again : Tip}
    (hfirst : (chain.extend first).1 = .extended won)
    (hsecond : ((chain.after (.extend first :: moves)).extend second).1 = .extended again) :
    ∃ before move later, .extend first :: moves = before ++ move :: later ∧
      (chain.after before).Makes second.header.parent move := by
  obtain ⟨hold, hnext, rfl⟩ := extend_fst_eq_extended_iff.1 hfirst
  obtain ⟨hnow, -⟩ := extend_fst_eq_extended_iff.1 hsecond
  by_cases hhash : first.hash = second.header.parent
  · exact ⟨[], .extend first, moves, rfl, ⟨_, hfirst⟩, hhash⟩
  · have hmoved : (chain.afterMove (.extend first)).tip.hash ≠ second.header.parent := by
      rw [afterMove, extend_of_parent_eq hold hnext]
      exact hhash
    obtain ⟨before, move, later, rfl, hmade⟩ := exists_makes_of_tip_ne hmoved hnow.symm
    exact ⟨.extend first :: before, move, later, rfl, hmade⟩

/-! ## One commit per tip -/

theorem after_append (chain : Chain) (before later : List Move) :
    chain.after (before ++ later) = (chain.after before).after later :=
  List.foldl_append

/-- What the gate promises over every run from a chain. -/
structure Exclusive (origin : Chain) : Prop where
  /-- A block extends the tip only if the tip is its parent, and it becomes the tip. -/
  extended : ∀ moves block tip, ((origin.after moves).extend block).1 = .extended tip →
    block.header.parent = (origin.after moves).tip.hash ∧ tip.hash = block.hash ∧
      ((origin.after moves).extend block).2.tip = tip
  /-- A block that is too late is told the tip and changes nothing. -/
  stale : ∀ moves block tip, ((origin.after moves).extend block).1 = .stale tip →
    block.header.parent ≠ (origin.after moves).tip.hash ∧ tip = (origin.after moves).tip ∧
      ((origin.after moves).extend block).2 = origin.after moves
  /-- An attempt that is broken off was made on the tip, and changes nothing. -/
  overflow : ∀ moves block, ((origin.after moves).extend block).1 = .overflow →
    block.header.parent = (origin.after moves).tip.hash ∧ ¬ (origin.after moves).tip.HasNext ∧
      ((origin.after moves).extend block).2 = origin.after moves
  /-- Between two commits, on one parent or not, some move made the parent of the second the tip;
  it can be the first commit itself. -/
  remade : ∀ moves first between second won again,
    ((origin.after moves).extend first).1 = .extended won →
    ((origin.after (moves ++ .extend first :: between)).extend second).1 = .extended again →
    ∃ before move later, .extend first :: between = before ++ move :: later ∧
      (origin.after (moves ++ before)).Makes second.header.parent move
  /-- Of the blocks that race for a tip that has a next height, in any order, the first one extends
  it and all others find the tip that it made. -/
  race : ∀ moves first others, (origin.after moves).tip.HasNext →
    (∀ block ∈ first :: others, block.header.parent = (origin.after moves).tip.hash ∧
      block.hash ≠ (origin.after moves).tip.hash) →
    ∃ won, won.hash = first.hash ∧
      (origin.after moves).answers ((first :: others).map .extend) =
        .extended won :: List.replicate others.length (.stale won)
  /-- For a tip that has none, none of them is answered. -/
  unwon : ∀ moves (racers : List Block), ¬ (origin.after moves).tip.HasNext →
    (∀ block ∈ racers, block.header.parent = (origin.after moves).tip.hash) →
    (origin.after moves).answers (racers.map .extend) = List.replicate racers.length .overflow
  /-- The last blocks that became the tip are held, in the order in which they did. -/
  accepted : ∀ moves, (origin.after moves).accepted <:+ origin.commits moves ∧
    (origin.after moves).accepted.length = min acceptedHistory (origin.commits moves).length

/-- **One commit per tip**, on every chain that starts at a block. -/
theorem exclusive_start (hash : Digest) (height : UInt64) (time nextBits : UInt32) :
    (start hash height time nextBits).Exclusive where
  extended moves block tip h := by
    obtain ⟨hparent, hnext, rfl⟩ := extend_fst_eq_extended_iff.1 h
    rw [extend_of_parent_eq hparent hnext]
    exact ⟨hparent, rfl, rfl⟩
  stale moves block tip h := by
    obtain ⟨hparent, rfl⟩ := extend_fst_eq_stale_iff.1 h
    rw [extend_of_parent_ne hparent]
    exact ⟨hparent, rfl, rfl⟩
  overflow moves block h := by
    obtain ⟨hparent, htop⟩ := extend_fst_eq_overflow_iff.1 h
    rw [extend_of_not_hasNext hparent htop]
    exact ⟨hparent, htop, rfl⟩
  remade moves first between second won again hfirst hsecond := by
    rw [after_append] at hsecond
    obtain ⟨before, move, later, hsplit, hmade⟩ := exists_makes_of_commits hfirst hsecond
    refine ⟨before, move, later, hsplit, ?_⟩
    rwa [after_append]
  race moves first others hnext hracers := by
    obtain ⟨hfirst, hothers⟩ := List.forall_mem_cons.1 hracers
    exact ⟨(extended _ first).tip, rfl,
      answers_race hnext hfirst.1 hfirst.2 fun block hblock => (hothers block hblock).1⟩
  unwon moves racers htop hracers := answers_of_not_hasNext htop hracers
  accepted moves := by
    rw [show ((start hash height time nextBits).after moves).accepted = _ from
      accepted_after [] moves rfl, List.nil_append]
    exact ⟨keepLast_suffix _ _, length_keepLast _ _⟩

/-- A chain from outside whose tip has the greatest height. -/
def topChain : Chain := start Digest.zero 0xffffffffffffffff 1700000000 0x207fffff

/-- A block on it. -/
def topBlock : Block := ⟨⟨1, Digest.zero, Digest.zero, 1700000001, 0x207fffff, 0⟩, []⟩

theorem topChain_not_hasNext : ¬ topChain.tip.HasNext := by
  decide +kernel

/-- **A race without a winner**: two blocks on the tip of the greatest height, neither with its
hash, and neither extends it. -/
theorem race_without_winner :
    (∀ block ∈ [topBlock, topBlock], block.header.parent = topChain.tip.hash ∧
      block.hash ≠ topChain.tip.hash) ∧
    topChain.answers ([topBlock, topBlock].map .extend) = [.overflow, .overflow] := by
  have hhash : topBlock.hash ≠ topChain.tip.hash := by decide +kernel
  have hracers : ∀ block ∈ [topBlock, topBlock], block.header.parent = topChain.tip.hash ∧
      block.hash ≠ topChain.tip.hash := by
    simpa using ⟨rfl, hhash⟩
  exact ⟨hracers, answers_of_not_hasNext topChain_not_hasNext fun block hblock =>
    (hracers block hblock).1⟩

end Chain

end WorkLease
