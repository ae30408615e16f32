import Mathlib.Data.UInt
import WorkLease.Proofs.Amount
import WorkLease.Proofs.Merkle
import WorkLease.Proofs.Size
import WorkLease.Template.Build

/-!
# What the builder keeps to

The entries taken from the pool stand in their order, are no coinbases, have different
identifiers and fit the slots and the room (`select_spec`). A template that is built agrees with
the entries it took in everything it holds beside them: identifiers, fees, value and branch
(`build_spec`).
-/

namespace WorkLease

/-- What the entries taken from a pool keep to. -/
structure Selection (slots room : Nat) (taken : List Digest) (pool : List PoolEntry)
    (chosen : List Selected) : Prop where
  sublist : (chosen.map (·.entry)).Sublist pool
  count : chosen.length ≤ slots
  room : (chosen.map (·.entry.tx.size)).sum ≤ room
  txid : ∀ s ∈ chosen, s.txid = s.entry.tx.txid
  noCoinbase : ∀ s ∈ chosen, s.entry.tx.isCoinbase = false
  distinct : (chosen.map (·.txid)).Nodup
  fresh : ∀ s ∈ chosen, s.txid ∉ taken

namespace Selection

theorem nil (slots room : Nat) (taken : List Digest) (pool : List PoolEntry) :
    Selection slots room taken pool [] :=
  ⟨List.nil_sublist pool, Nat.zero_le _, Nat.zero_le _, by simp, by simp, List.nodup_nil, by simp⟩

variable {slots room : Nat} {taken : List Digest} {entry : PoolEntry} {pool : List PoolEntry}
  {chosen : List Selected}

/-- Passing over an entry. -/
theorem skip (h : Selection slots room taken pool chosen) :
    Selection slots room taken (entry :: pool) chosen :=
  { h with sublist := h.sublist.cons entry }

/-- Taking an entry. -/
theorem take (hslots : slots ≠ 0) (hcoinbase : entry.tx.isCoinbase = false)
    (hroom : entry.tx.size ≤ room) (htaken : entry.tx.txid ∉ taken)
    (h : Selection (slots - 1) (room - entry.tx.size) (entry.tx.txid :: taken) pool chosen) :
    Selection slots room taken (entry :: pool) (⟨entry, entry.tx.txid⟩ :: chosen) where
  sublist := h.sublist.cons_cons entry
  count := by
    have := h.count
    rw [List.length_cons]
    omega
  room := by
    have := h.room
    simp only [List.map_cons, List.sum_cons]
    omega
  txid := List.forall_mem_cons.2 ⟨rfl, h.txid⟩
  noCoinbase := List.forall_mem_cons.2 ⟨hcoinbase, h.noCoinbase⟩
  distinct := by
    refine List.nodup_cons.2 ⟨fun hmem => ?_, h.distinct⟩
    obtain ⟨s, hs, hid⟩ := List.mem_map.1 hmem
    exact h.fresh s hs (hid ▸ List.mem_cons_self)
  fresh := List.forall_mem_cons.2
    ⟨htaken, fun s hs hmem => h.fresh s hs (List.mem_cons_of_mem _ hmem)⟩

end Selection

namespace Template

theorem select_spec (slots room : Nat) (taken : List Digest) (pool : List PoolEntry) :
    Selection slots room taken pool (select slots room taken pool) := by
  induction pool generalizing slots room taken with
  | nil => exact Selection.nil slots room taken []
  | cons entry pool ih =>
    unfold select
    dsimp only
    split_ifs with hslots hskip htaken
    · exact Selection.nil slots room taken (entry :: pool)
    · exact (ih slots room taken).skip
    · exact (ih slots room taken).skip
    · simp only [Bool.or_eq_true, decide_eq_true_eq, not_or, Bool.not_eq_true, Nat.not_lt] at hskip
      exact Selection.take hslots hskip.1 hskip.2 htaken
        (ih (slots - 1) (room - entry.tx.size) (entry.tx.txid :: taken))

/-! ## Templates -/

/-- The template was built under the policy on `tip` with the entries `chosen`. -/
structure BuiltFrom (policy : BlockPolicy) (tip : Tip) (chosen : List PoolEntry)
    (template : Template) : Prop where
  parent : template.parent = tip.hash
  height : template.height.toNat = tip.height.toNat + 1
  bits : template.bits = tip.nextBits
  medianTimePast : template.medianTimePast = tip.medianTimePast
  transactions : template.transactions = chosen.map (·.tx)
  txids : template.txids = template.transactions.map Transaction.txid
  distinct : template.txids.Nodup
  noCoinbase : ∀ tx ∈ template.transactions, tx.isCoinbase = false
  room : (template.transactions.map (·.size)).sum ≤ policy.maxBlockSize - baseSize
  fees : template.totalFees.toNat = (chosen.map (·.fee.toNat)).sum
  value : template.coinbaseValue.toNat =
    (Coinbase.subsidy template.height policy.halvingInterval).toNat + template.totalFees.toNat
  branch : template.branch = (Merkle.branch Digest.zero template.txids).1

variable {policy : BlockPolicy} {payout : Bytes} {tip : Tip} {pool : List PoolEntry}
  {withCoinbase : Bool} {now : UInt32} {template : Template}

/-- A template is built with the entries that are selected. -/
theorem builtFrom_select (h : build policy payout tip pool withCoinbase now = .ok template) :
    BuiltFrom policy tip
      ((select policy.maxTransactions (policy.maxBlockSize - baseSize) [] pool).map (·.entry))
      template := by
  have hsel := select_spec policy.maxTransactions (policy.maxBlockSize - baseSize) [] pool
  unfold build at h
  split at h
  · cases h
  rename_i height hheight
  dsimp only at h
  generalize select policy.maxTransactions (policy.maxBlockSize - baseSize) [] pool = chosen
    at h hsel ⊢
  split at h
  · cases h
  rename_i totalFees hfees
  split at h
  · cases h
  rename_i value hvalue
  obtain rfl := Except.ok.inj h
  have hmap {β : Type} (f : PoolEntry → β) :
      (chosen.map (·.entry)).map f = chosen.map (f ·.entry) := List.map_map
  refine {
    parent := rfl
    height := Amount.add?_eq_some_iff.1 hheight
    bits := rfl
    medianTimePast := rfl
    transactions := (hmap (·.tx)).symm
    txids := ?_
    distinct := hsel.distinct
    noCoinbase := ?_
    room := ?_
    fees := ?_
    value := Amount.add?_eq_some_iff.1 hvalue
    branch := rfl }
  · show chosen.map (·.txid) = (chosen.map (·.entry.tx)).map Transaction.txid
    rw [List.map_map]
    exact List.map_congr_left hsel.txid
  · intro tx htx
    obtain ⟨s, hs, rfl⟩ := List.mem_map.1 htx
    exact hsel.noCoinbase s hs
  · rw [List.map_map]
    exact hsel.room
  · rw [hmap, Amount.sum?_eq_some_iff.1 hfees, List.map_map]
    rfl

theorem build_spec (h : build policy payout tip pool withCoinbase now = .ok template) :
    ∃ chosen, chosen.Sublist pool ∧ BuiltFrom policy tip chosen template :=
  ⟨_, (select_spec _ _ [] pool).sublist, builtFrom_select h⟩

/-- What the builder adds of its own: the time and, when it is asked for, the coinbase. -/
theorem build_own (h : build policy payout tip pool withCoinbase now = .ok template) :
    template.time = max now tip.earliestTime ∧ template.coinbase =
      if withCoinbase then some (Coinbase.create template.height template.coinbaseValue payout)
      else none := by
  unfold build at h
  split at h
  · cases h
  dsimp only at h
  split at h
  · cases h
  split at h
  · cases h
  obtain rfl := Except.ok.inj h
  exact ⟨rfl, rfl⟩

end Template

end WorkLease
