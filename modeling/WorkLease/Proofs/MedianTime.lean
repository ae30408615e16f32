import Mathlib.Tactic.Common
import WorkLease.Proofs.Commits

/-!
# The median time past

The median time past of a tip is taken over the last block times, the own one included. The times
are in no order: a tip may be older than the one before it, and what leaves the window may be any
of its times. A time is compared with the median by counting, not by sorting: it is not after
the median when at most half of the times are before it (`IsMedian.le_iff`).

* `Remembers`: the chain remembers the last times and their median; `Remembers.afterMove` is the
  step and `Remembers.after` the run.
* `median_le_of_push`: a time that is not before the median brings none before it to the count, so
  the median does not go back, whatever time leaves the window.

**Theorem (`median_past_start`).** Over every run the median time past is the median of the window,
and it does not go back while every tip is later than the median before it.
-/

namespace WorkLease

/-! ## Medians -/

/-- The element in the middle of some times once they are sorted, the upper one of two. -/
def IsMedian (times : List UInt32) (median : UInt32) : Prop :=
  ∃ sorted : List UInt32, sorted.Perm times ∧ sorted.Pairwise (· ≤ ·) ∧
    sorted[times.length / 2]? = some median

theorem isMedian_medianTime {times : List UInt32} (hne : times ≠ []) :
    IsMedian times (medianTime times) := by
  refine ⟨times.mergeSort (· ≤ ·), List.mergeSort_perm times _, ?_, ?_⟩
  · have htrans (a b c : UInt32) (hab : decide (a ≤ b) = true) (hbc : decide (b ≤ c) = true) :
        decide (a ≤ c) = true := by
      simp only [decide_eq_true_eq] at hab hbc ⊢
      exact UInt32.le_trans hab hbc
    have htotal (a b : UInt32) : (decide (a ≤ b) || decide (b ≤ a)) = true := by
      simpa using UInt32.le_total a b
    have hsorted := List.pairwise_mergeSort htrans htotal times
    simpa using hsorted
  · have hlt : times.length / 2 < (times.mergeSort (· ≤ ·)).length := by
      rw [List.length_mergeSort]
      have := List.length_pos_iff.2 hne
      omega
    rw [medianTime, List.getD_eq_getElem?_getD, List.getElem?_eq_getElem hlt]
    rfl

/-- In a sorted list a time is not after the element at an index if no more than so many elements
are before it. -/
theorem le_getElem_iff {sorted : List UInt32} (hsorted : sorted.Pairwise (· ≤ ·)) {i : Nat}
    {element : UInt32} (hi : sorted[i]? = some element) (time : UInt32) :
    time ≤ element ↔ sorted.countP (· < time) ≤ i := by
  induction sorted generalizing i with
  | nil => cases hi
  | cons first rest ih =>
    obtain ⟨hfirst, hrest⟩ := List.pairwise_cons.1 hsorted
    by_cases hbefore : first < time
    · rw [List.countP_cons_of_pos (by simpa using hbefore)]
      cases i with
      | zero =>
        obtain rfl := Option.some.inj hi
        simpa using hbefore
      | succ i =>
        rw [ih hrest hi, Nat.add_le_add_iff_right]
    · -- Nothing is before a time that is not after the first element.
      have hle : time ≤ first := UInt32.not_lt.1 hbefore
      have hall : ∀ other ∈ first :: rest, time ≤ other := by
        intro other hother
        rcases List.mem_cons.1 hother with rfl | hmem
        · exact hle
        · exact UInt32.le_trans hle (hfirst other hmem)
      have hnone : (first :: rest).countP (· < time) = 0 := by
        rw [List.countP_eq_zero]
        intro other hother
        simpa using hall other hother
      rw [hnone]
      exact iff_of_true (hall element (List.mem_of_getElem? hi)) (Nat.zero_le i)

/-- **A time is not after the median** if at most half of the times are before it. -/
theorem IsMedian.le_iff {times : List UInt32} {median : UInt32} (h : IsMedian times median)
    (time : UInt32) : time ≤ median ↔ times.countP (· < time) ≤ times.length / 2 := by
  obtain ⟨sorted, hperm, hsorted, hmiddle⟩ := h
  rw [le_getElem_iff hsorted hmiddle time, hperm.countP_eq]

/-- **The median does not go back** when a time enters that is not before it. -/
theorem median_le_of_push {span : Nat} {times : List UInt32} {median time next : UInt32}
    (hspan : times.length ≤ span) (hmedian : IsMedian times median)
    (hnext : IsMedian (keepLast span (times ++ [time])) next) (hlater : median ≤ time) :
    median ≤ next := by
  have hcount : (keepLast span (times ++ [time])).countP (· < median) ≤
      times.countP (· < median) := by
    have hall := (keepLast_suffix span (times ++ [time])).sublist.countP_le (p := (· < median))
    rw [List.countP_append, List.countP_singleton, if_neg (by simpa using hlater)] at hall
    exact hall
  have hhalf := (hmedian.le_iff median).1 (UInt32.le_refl median)
  rw [hnext.le_iff, length_keepLast, List.length_append, List.length_singleton]
  omega

namespace Chain

variable {chain : Chain} {times : List UInt32}

/-! ## The window -/

/-- The time of the tip that a move makes, if it makes one. -/
def timeOf (chain : Chain) : Move → Option UInt32
  | .extend block =>
      match (chain.extend block).1 with
      | .extended _ => some block.header.time
      | _ => none
  | .moveTo move => some move.time

/-- The times of the tips that moves make, in order. -/
def tipTimes (chain : Chain) : List Move → List UInt32
  | [] => []
  | move :: moves => (chain.timeOf move).toList ++ tipTimes (chain.afterMove move) moves

/-- The chain remembers the last of these times, and its tip has their median. -/
structure Remembers (chain : Chain) (times : List UInt32) : Prop where
  recent : chain.recentTimes = keepLast medianSpan times
  median : IsMedian chain.recentTimes chain.tip.medianTimePast

theorem isMedian_advance (chain : Chain) (hash : Digest) (height : UInt64) (time : UInt32) :
    IsMedian (chain.advance hash height time).recentTimes
      (chain.advance hash height time).tip.medianTimePast := by
  apply isMedian_medianTime
  have hlast := getLast?_keepLast_append medianSpan chain.recentTimes (by decide) time
  intro hnil
  rw [show keepLast _ _ = [] from hnil] at hlast
  cases hlast

theorem remembers_start (hash : Digest) (height : UInt64) (time nextBits : UInt32) :
    (start hash height time nextBits).Remembers [time] :=
  ⟨rfl, isMedian_advance _ hash height time⟩

/-- A move leaves the chain as it is, or its tip and its times are those of an advance. -/
theorem afterMove_cases (chain : Chain) (move : Move) :
    chain.timeOf move = none ∧ chain.afterMove move = chain ∨
      ∃ hash height time, chain.timeOf move = some time ∧
        (chain.afterMove move).tip = (chain.advance hash height time).tip ∧
        (chain.afterMove move).recentTimes = (chain.advance hash height time).recentTimes := by
  cases move with
  | moveTo move => exact .inr ⟨move.hash, move.height, move.time, rfl, rfl, rfl⟩
  | extend block =>
    rw [timeOf, afterMove]
    rcases extend_cases chain block with ⟨-, -, heq⟩ | ⟨-, -, heq⟩ | ⟨-, heq⟩ <;> rw [heq]
    · exact .inr ⟨block.hash, chain.tip.height + 1, block.header.time, rfl, rfl, rfl⟩
    · exact .inl ⟨rfl, rfl⟩
    · exact .inl ⟨rfl, rfl⟩

/-- **One move** is remembered with the times before it. -/
theorem Remembers.afterMove (h : chain.Remembers times) (move : Move) :
    (chain.afterMove move).Remembers (times ++ (chain.timeOf move).toList) := by
  rcases afterMove_cases chain move with ⟨htime, hsame⟩ | ⟨hash, height, time, htime, htip, hrecent⟩
  · rw [htime, hsame, Option.toList_none, List.append_nil]
    exact h
  · constructor
    · rw [hrecent, htime, Option.toList_some]
      show keepLast medianSpan (chain.recentTimes ++ [time]) = _
      rw [h.recent, keepLast_keepLast_append]
    · rw [hrecent, htip]
      exact isMedian_advance chain hash height time

/-- **A run** is remembered up to the span of the window. -/
theorem Remembers.after (h : chain.Remembers times) (moves : List Move) :
    (chain.after moves).Remembers (times ++ chain.tipTimes moves) := by
  induction moves generalizing chain times with
  | nil =>
    rw [tipTimes, List.append_nil]
    exact h
  | cons move moves ih =>
    rw [tipTimes, ← List.append_assoc]
    exact ih (h.afterMove move)

/-! ## The median does not go back -/

/-- **One move** to a tip that is not before the median does not take the median back. -/
theorem Remembers.median_le_afterMove (h : chain.Remembers times) {move : Move}
    (hlater : ∀ time ∈ chain.timeOf move, chain.tip.medianTimePast ≤ time) :
    chain.tip.medianTimePast ≤ (chain.afterMove move).tip.medianTimePast := by
  rcases afterMove_cases chain move with ⟨-, hsame⟩ | ⟨hash, height, time, htime, htip, -⟩
  · rw [hsame]
    exact UInt32.le_refl _
  · have hspan : chain.recentTimes.length ≤ medianSpan := by
      rw [h.recent, length_keepLast]
      exact Nat.min_le_left _ _
    rw [htip]
    exact median_le_of_push hspan h.median (isMedian_advance chain hash height time)
      (hlater time htime)

/-- Every tip that the moves make is later than the median time past of the tip before it. -/
def Later (chain : Chain) : List Move → Prop
  | [] => True
  | move :: moves => (∀ time ∈ chain.timeOf move, chain.tip.medianTimePast < time) ∧
      Later (chain.afterMove move) moves

/-- The median times past before, between and after the moves. -/
def medians (chain : Chain) : List Move → List UInt32
  | [] => [chain.tip.medianTimePast]
  | move :: moves => chain.tip.medianTimePast :: medians (chain.afterMove move) moves

/-- **A run** of later tips does not take the median back. -/
theorem Remembers.pairwise_medians (h : chain.Remembers times) {moves : List Move}
    (hlater : chain.Later moves) : (chain.medians moves).Pairwise (· ≤ ·) ∧
      ∀ median ∈ chain.medians moves, chain.tip.medianTimePast ≤ median := by
  induction moves generalizing chain times with
  | nil => simp [medians]
  | cons move moves ih =>
    obtain ⟨hmove, hmoves⟩ := hlater
    have hstep := h.median_le_afterMove fun time htime => UInt32.le_of_lt (hmove time htime)
    obtain ⟨hpairwise, hbound⟩ := ih (h.afterMove move) hmoves
    have hall : ∀ median ∈ (chain.afterMove move).medians moves,
        chain.tip.medianTimePast ≤ median :=
      fun median hmem => UInt32.le_trans hstep (hbound median hmem)
    refine ⟨List.pairwise_cons.2 ⟨hall, hpairwise⟩, ?_⟩
    intro median hmem
    rcases List.mem_cons.1 hmem with rfl | hmem
    · exact UInt32.le_refl _
    · exact hall median hmem

/-- What holds of the median time past over every run from a chain whose tip has the time
`first`. -/
structure MedianPast (origin : Chain) (first : UInt32) : Prop where
  /-- It is the median of the last times, as many as the window spans or as there are. -/
  window : ∀ moves, ∃ times, times <:+ first :: origin.tipTimes moves ∧
    times.length = min 11 (first :: origin.tipTimes moves).length ∧
    IsMedian times (origin.after moves).tip.medianTimePast
  /-- It does not go back in a step to a later tip. -/
  step : ∀ moves move time, (origin.after moves).timeOf move = some time →
    (origin.after moves).tip.medianTimePast < time →
    (origin.after moves).tip.medianTimePast ≤ (origin.after (moves ++ [move])).tip.medianTimePast
  /-- It does not go back from any tip on while every tip is later than the median before it. -/
  sorted : ∀ moves more, (origin.after moves).Later more →
    ((origin.after moves).medians more).Pairwise (· ≤ ·)

/-- **The median time past** is that of a window, and it does not go back on later tips. -/
theorem median_past_start (hash : Digest) (height : UInt64) (time nextBits : UInt32) :
    (start hash height time nextBits).MedianPast time := by
  have hrun := (remembers_start hash height time nextBits).after
  refine {
    window := fun moves => ?_
    step := fun moves move later htime hlater => ?_
    sorted := fun moves more hlater => ((hrun moves).pairwise_medians hlater).1 }
  · have hmedian := (hrun moves).median
    rw [(hrun moves).recent] at hmedian
    exact ⟨_, keepLast_suffix _ _, length_keepLast _ _, hmedian⟩
  · rw [after_append]
    apply (hrun moves).median_le_afterMove
    intro found hfound
    rw [htime] at hfound
    obtain rfl := Option.some.inj hfound
    exact UInt32.le_of_lt hlater

end Chain

end WorkLease
