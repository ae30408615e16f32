import Mathlib.Tactic.Common
import WorkLease.Proofs.Selection

/-!
# The greedy rule

Whether an entry of the pool is taken depends on it and on the entries that were taken before it
(`Takes`), and on nothing that comes after. The builder keeps a number of free slots, a number of
free bytes and a list of identifiers instead of the entries themselves; these say the same as long
as they are kept in step (`foldl_takeNext`).

* `greedy`: the entries that the rule takes, one after the other.
* `greedy_prefix`, `of_skipped`: what is taken stays taken, and what is passed over has a reason.
* `greedy_congr`: two keys that tell the same entries apart take the same entries.
* `entries_select`: the builder takes the entries of the rule.

**Theorem (`build_greedy`).** A template is built unless the next height, the fees that the rule
collects or the value of the coinbase is no 64-bit number, and it holds exactly what the rule takes.
-/

namespace WorkLease

/-! ## The rule -/

/-- The bytes that the transactions of some entries take. -/
def wireSize (entries : List PoolEntry) : Nat :=
  (entries.map (·.tx.encode.length)).sum

/-- The fees that some entries pay. -/
def feesOf (entries : List PoolEntry) : Nat :=
  (entries.map (·.fee.toNat)).sum

/-- The next entry may be taken beside the entries `chosen` before it: a slot is free, it is no
coinbase, the block stays within its size with room for a header, a count and a coinbase, and it is
none of those chosen, as far as `key` tells transactions apart. -/
structure Takes {κ : Type} (key : Transaction → κ) (policy : BlockPolicy)
    (chosen : List PoolEntry) (entry : PoolEntry) : Prop where
  slot : chosen.length < policy.maxTransactions
  shape : entry.tx.isCoinbase = false
  room : 1085 + wireSize chosen + entry.tx.encode.length ≤ policy.maxBlockSize
  fresh : key entry.tx ∉ chosen.map (key ·.tx)

/-- A key counts only by what it tells apart. -/
theorem takes_congr {κ κ' : Type} {key : Transaction → κ} {key' : Transaction → κ'}
    {policy : BlockPolicy} {chosen all : List PoolEntry} {entry : PoolEntry}
    (hchosen : chosen ⊆ all) (hentry : entry ∈ all)
    (hkeys : ∀ a ∈ all, ∀ b ∈ all, key a.tx = key b.tx ↔ key' a.tx = key' b.tx) :
    Takes key policy chosen entry ↔ Takes key' policy chosen entry := by
  have hfresh : key entry.tx ∉ chosen.map (key ·.tx) ↔
      key' entry.tx ∉ chosen.map (key' ·.tx) := by
    simp only [List.mem_map, not_exists, not_and]
    exact forall₂_congr fun earlier hearlier =>
      not_congr (hkeys earlier (hchosen hearlier) entry hentry)
  exact ⟨fun h => ⟨h.slot, h.shape, h.room, hfresh.1 h.fresh⟩,
    fun h => ⟨h.slot, h.shape, h.room, hfresh.2 h.fresh⟩⟩

section Rule

variable {κ : Type} [DecidableEq κ]

instance (key : Transaction → κ) (policy : BlockPolicy) (chosen : List PoolEntry)
    (entry : PoolEntry) : Decidable (Takes key policy chosen entry) :=
  decidable_of_iff (chosen.length < policy.maxTransactions ∧ entry.tx.isCoinbase = false ∧
      1085 + wireSize chosen + entry.tx.encode.length ≤ policy.maxBlockSize ∧
      key entry.tx ∉ chosen.map (key ·.tx))
    ⟨fun ⟨hslot, hshape, hroom, hfresh⟩ => ⟨hslot, hshape, hroom, hfresh⟩,
      fun h => ⟨h.slot, h.shape, h.room, h.fresh⟩⟩

/-- The entries chosen once the rule has come to the next entry. -/
def takeNext (key : Transaction → κ) (policy : BlockPolicy) (chosen : List PoolEntry)
    (entry : PoolEntry) : List PoolEntry :=
  if Takes key policy chosen entry then chosen ++ [entry] else chosen

/-- The entries of a pool that are taken when every one is that may be, in order. -/
def greedy (key : Transaction → κ) (policy : BlockPolicy) (pool : List PoolEntry) :
    List PoolEntry :=
  pool.foldl (takeNext key policy) []

variable {key : Transaction → κ} {policy : BlockPolicy} {chosen pool before after : List PoolEntry}
  {entry : PoolEntry}

theorem takeNext_of_takes (h : Takes key policy chosen entry) :
    takeNext key policy chosen entry = chosen ++ [entry] :=
  if_pos h

theorem takeNext_of_not_takes (h : ¬ Takes key policy chosen entry) :
    takeNext key policy chosen entry = chosen :=
  if_neg h

theorem greedy_append : greedy key policy (before ++ after) =
    after.foldl (takeNext key policy) (greedy key policy before) :=
  List.foldl_append

/-- What is chosen stays chosen. -/
theorem prefix_foldl_takeNext : chosen <+: pool.foldl (takeNext key policy) chosen := by
  induction pool generalizing chosen with
  | nil => exact List.prefix_rfl
  | cons entry pool ih =>
    have hnext : chosen <+: takeNext key policy chosen entry := by
      unfold takeNext
      split_ifs
      · exact List.prefix_append _ _
      · exact List.prefix_rfl
    exact hnext.trans ih

/-- **What the rule takes of the first entries** comes first in what it takes of all. -/
theorem greedy_prefix : greedy key policy before <+: greedy key policy (before ++ after) := by
  rw [greedy_append]
  exact prefix_foldl_takeNext

/-- **An entry that is passed over** while a slot is free has the shape of a coinbase, is one of
those chosen, or does not fit. -/
theorem of_skipped (hskipped : greedy key policy (before ++ [entry]) = greedy key policy before)
    (hslot : (greedy key policy before).length < policy.maxTransactions) :
    entry.tx.isCoinbase = true ∨
      (∃ earlier ∈ greedy key policy before, key earlier.tx = key entry.tx) ∨
      policy.maxBlockSize <
        1085 + wireSize (greedy key policy before) + entry.tx.encode.length := by
  by_contra hno
  simp only [not_or, Bool.not_eq_true, Nat.not_lt] at hno
  obtain ⟨hshape, hfresh, hroom⟩ := hno
  have htakes : Takes key policy (greedy key policy before) entry := by
    refine ⟨hslot, hshape, hroom, fun hmem => ?_⟩
    obtain ⟨earlier, hearlier, hkey⟩ := List.mem_map.1 hmem
    exact hfresh ⟨earlier, hearlier, hkey⟩
  rw [greedy_append, List.foldl_cons, List.foldl_nil, takeNext_of_takes htakes] at hskipped
  exact absurd (congrArg List.length hskipped) (by simp)

section Keys

variable {κ' : Type} [DecidableEq κ'] {key' : Transaction → κ'} {all : List PoolEntry}

theorem foldl_takeNext_congr (hchosen : chosen ⊆ all) (hpool : pool ⊆ all)
    (hkeys : ∀ a ∈ all, ∀ b ∈ all, key a.tx = key b.tx ↔ key' a.tx = key' b.tx) :
    pool.foldl (takeNext key policy) chosen = pool.foldl (takeNext key' policy) chosen := by
  induction pool generalizing chosen with
  | nil => rfl
  | cons entry pool ih =>
    obtain ⟨hentry, hpool⟩ := List.cons_subset.1 hpool
    have hsame : takeNext key policy chosen entry = takeNext key' policy chosen entry :=
      if_congr (takes_congr hchosen hentry hkeys) rfl rfl
    have hnext : takeNext key policy chosen entry ⊆ all := by
      unfold takeNext
      split_ifs
      · exact List.append_subset.2 ⟨hchosen, List.cons_subset.2 ⟨hentry, List.nil_subset _⟩⟩
      · exact hchosen
    rw [List.foldl_cons, List.foldl_cons, ← hsame, ih hnext hpool]

/-- **Keys that tell the same entries apart** take the same entries. -/
theorem greedy_congr
    (hkeys : ∀ a ∈ pool, ∀ b ∈ pool, key a.tx = key b.tx ↔ key' a.tx = key' b.tx) :
    greedy key policy pool = greedy key' policy pool :=
  foldl_takeNext_congr (List.nil_subset _) (List.Subset.refl _) hkeys

end Keys

end Rule

/-! ## The builder follows the rule -/

namespace Template

variable {policy : BlockPolicy} {payout : Bytes} {tip : Tip} {chosen pool : List PoolEntry}
  {entry : PoolEntry} {taken : List Digest} {withCoinbase : Bool} {now : UInt32}

theorem select_zero (room : Nat) (taken : List Digest) (pool : List PoolEntry) :
    select 0 room taken pool = [] := by
  cases pool with
  | nil => rfl
  | cons entry pool => rw [select, if_pos rfl]

/-- The builder takes an entry or passes over it. -/
theorem select_cons (slots room : Nat) (taken : List Digest) (entry : PoolEntry)
    (pool : List PoolEntry) : select slots room taken (entry :: pool) =
      if slots ≠ 0 ∧ entry.tx.isCoinbase = false ∧ entry.tx.size ≤ room ∧ entry.tx.txid ∉ taken then
        ⟨entry, entry.tx.txid⟩ ::
          select (slots - 1) (room - entry.tx.size) (entry.tx.txid :: taken) pool
      else select slots room taken pool := by
  by_cases hslots : slots = 0
  · rw [hslots, select_zero, if_neg fun h => h.1 rfl, select_zero]
  · rw [select, if_neg hslots]
    by_cases hcoinbase : entry.tx.isCoinbase <;> by_cases hroom : room < entry.tx.size <;>
      by_cases htaken : entry.tx.txid ∈ taken <;>
      simp [hslots, hcoinbase, hroom, htaken, Nat.not_le.2, Nat.not_lt.1]

/-- Slots, room and identifiers decide as the rule does, when they are those that the chosen
entries leave. -/
theorem takes_iff (htaken : ∀ id, id ∈ taken ↔ id ∈ chosen.map (·.tx.txid)) :
    Takes Transaction.txid policy chosen entry ↔
      policy.maxTransactions - chosen.length ≠ 0 ∧ entry.tx.isCoinbase = false ∧
        entry.tx.size ≤ policy.maxBlockSize - baseSize - wireSize chosen ∧
        entry.tx.txid ∉ taken := by
  have hbase : baseSize = 1085 := rfl
  -- An entry is never empty, so none fits where nothing is left.
  have hpos := entry.tx.size_pos
  have hroom : 1085 + wireSize chosen + entry.tx.encode.length ≤ policy.maxBlockSize ↔
      entry.tx.size ≤ policy.maxBlockSize - baseSize - wireSize chosen := by
    rw [Transaction.length_encode]
    omega
  constructor
  · intro h
    exact ⟨Nat.sub_ne_zero_of_lt h.slot, h.shape, hroom.1 h.room, fun hmem =>
      h.fresh ((htaken _).1 hmem)⟩
  · rintro ⟨hslot, hshape, hfits, hfresh⟩
    exact ⟨Nat.lt_of_sub_ne_zero hslot, hshape, hroom.2 hfits, fun hmem =>
      hfresh ((htaken _).2 hmem)⟩

/-- **The builder is in step with the rule**, from any entries that are chosen already. -/
theorem foldl_takeNext (htaken : ∀ id, id ∈ taken ↔ id ∈ chosen.map (·.tx.txid)) :
    pool.foldl (takeNext Transaction.txid policy) chosen = chosen ++
      (select (policy.maxTransactions - chosen.length)
        (policy.maxBlockSize - baseSize - wireSize chosen) taken pool).map (·.entry) := by
  induction pool generalizing chosen taken with
  | nil => rw [select, List.map_nil, List.append_nil, List.foldl_nil]
  | cons entry pool ih =>
    rw [List.foldl_cons, select_cons]
    by_cases htakes : Takes Transaction.txid policy chosen entry
    · have hnext : ∀ id, id ∈ entry.tx.txid :: taken ↔
          id ∈ (chosen ++ [entry]).map (·.tx.txid) := by
        intro id
        simp [htaken id, or_comm]
      have hslots : policy.maxTransactions - chosen.length - 1 =
          policy.maxTransactions - (chosen ++ [entry]).length := by
        rw [List.length_append, List.length_singleton, Nat.sub_sub]
      have hroom : policy.maxBlockSize - baseSize - wireSize chosen - entry.tx.size =
          policy.maxBlockSize - baseSize - wireSize (chosen ++ [entry]) := by
        simp [wireSize, Nat.sub_sub, Nat.add_assoc]
      rw [takeNext_of_takes htakes, if_pos ((takes_iff htaken).1 htakes), hslots, hroom,
        ih hnext, List.map_cons, List.append_assoc, List.singleton_append]
    · rw [takeNext_of_not_takes htakes, if_neg fun h => htakes ((takes_iff htaken).2 h), ih htaken]

/-- **The builder takes the entries of the rule.** -/
theorem entries_select (policy : BlockPolicy) (pool : List PoolEntry) :
    (select policy.maxTransactions (policy.maxBlockSize - baseSize) [] pool).map (·.entry) =
      greedy Transaction.txid policy pool := by
  have hstart := @foldl_takeNext policy [] pool [] (by simp)
  have hnothing : wireSize [] = 0 := rfl
  rw [List.nil_append, List.length_nil, hnothing, Nat.sub_zero, Nat.sub_zero] at hstart
  exact hstart.symm

/-! ## What is built -/

/-- A template that holds what the rule takes of the pool, and no more. -/
structure GreedyOn (policy : BlockPolicy) (tip : Tip) (pool : List PoolEntry) (now : UInt32)
    (template : Template) : Prop
    extends template.BuiltFrom policy tip (greedy Transaction.txid policy pool) where
  subsequence : (greedy Transaction.txid policy pool).Sublist pool
  count : template.transactions.length ≤ policy.maxTransactions
  /-- The wire forms leave room for a header, a count and a coinbase. -/
  size : template.transactions ≠ [] →
    1085 + (template.transactions.map (·.encode.length)).sum ≤ policy.maxBlockSize
  /-- What the rule takes of the first entries of the pool stands first in the template. -/
  inOrder : ∀ before after, pool = before ++ after →
    (greedy Transaction.txid policy before).map (·.tx) <+: template.transactions
  /-- An entry that is passed over while a slot is free has the shape of a coinbase, the identifier
  of an entry taken before it, or no room left. -/
  skipped : ∀ before entry after, pool = before ++ entry :: after →
    greedy Transaction.txid policy (before ++ [entry]) = greedy Transaction.txid policy before →
    (greedy Transaction.txid policy before).length < policy.maxTransactions →
      entry.tx.isCoinbase = true ∨
      (∃ earlier ∈ greedy Transaction.txid policy before, earlier.tx.txid = entry.tx.txid) ∨
      policy.maxBlockSize <
        1085 + wireSize (greedy Transaction.txid policy before) + entry.tx.encode.length
  time : template.time.toNat =
    max now.toNat (min (tip.medianTimePast.toNat + 1) (2 ^ 32 - 1))

theorem toNat_earliestTime (tip : Tip) :
    tip.earliestTime.toNat = min (tip.medianTimePast.toNat + 1) (2 ^ 32 - 1) := by
  have hlt := tip.medianTimePast.toNat_lt
  unfold Tip.earliestTime
  split_ifs with hlast
  · rw [hlast]
    rfl
  · have hne : tip.medianTimePast.toNat ≠ 2 ^ 32 - 1 := fun h => hlast (UInt32.toNat_inj.1 h)
    rw [UInt32.toNat_add, UInt32.toNat_one, Nat.mod_eq_of_lt (by omega)]
    omega

theorem greedyOn_of_build {template : Template}
    (h : build policy payout tip pool withCoinbase now = .ok template) :
    GreedyOn policy tip pool now template := by
  have hselection := select_spec policy.maxTransactions (policy.maxBlockSize - baseSize) [] pool
  have hbuilt := builtFrom_select h
  obtain ⟨htime, -⟩ := build_own h
  have hcount := hselection.count
  rw [← List.length_map, entries_select] at hcount
  have hsublist := hselection.sublist
  rw [entries_select] at hsublist hbuilt
  exact {
    hbuilt with
    subsequence := hsublist
    count := by
      rw [hbuilt.transactions, List.length_map]
      exact hcount
    size := fun hne => by
      obtain ⟨tx, htx⟩ := List.exists_mem_of_ne_nil _ hne
      have hbase : baseSize = 1085 := rfl
      have hroom := hbuilt.room
      have hpos := tx.size_pos
      have hle := le_sum_of_mem (·.size) htx
      simp only [Transaction.length_encode]
      omega
    inOrder := by
      rintro before after rfl
      rw [hbuilt.transactions]
      exact greedy_prefix.map _
    skipped := fun before entry after _ hskipped hslot => of_skipped hskipped hslot
    time := by
      rw [htime, UInt32.toNat_max, toNat_earliestTime] }

/-- **When no template is built.** -/
theorem build_eq_error_iff :
    (∃ error, build policy payout tip pool withCoinbase now = .error error) ↔
      tip.height.toNat = 2 ^ 64 - 1 ∨
      2 ^ 64 ≤ feesOf (greedy Transaction.txid policy pool) ∨
      2 ^ 64 ≤ (Coinbase.subsidy (tip.height + 1) policy.halvingInterval).toNat +
        feesOf (greedy Transaction.txid policy pool) := by
  have hlt := tip.height.toNat_lt
  have hentries := entries_select policy pool
  have hone : (1 : UInt64).toNat = 1 := rfl
  unfold build
  cases hheight : Amount.add? tip.height 1 with
  | none =>
    have hfull := Amount.add?_eq_none_iff.1 hheight
    exact ⟨fun _ => .inl (by omega), fun _ => ⟨_, rfl⟩⟩
  | some height =>
    have hnext := Amount.add?_eq_some_iff.1 hheight
    have hbelow := height.toNat_lt
    obtain rfl : height = tip.height + 1 := by
      rw [← UInt64.toNat_inj, UInt64.toNat_add, hnext, Nat.mod_eq_of_lt (by omega)]
    dsimp only
    generalize select policy.maxTransactions (policy.maxBlockSize - baseSize) [] pool = chosen
      at hentries ⊢
    have hfees : ((chosen.map (·.entry.fee)).map UInt64.toNat).sum =
        feesOf (greedy Transaction.txid policy pool) := by
      rw [← hentries, feesOf, List.map_map, List.map_map]
      rfl
    cases htotal : Amount.sum? (chosen.map (·.entry.fee)) with
    | none =>
      have hlarge := Amount.sum?_eq_none_iff.1 htotal
      rw [hfees] at hlarge
      exact ⟨fun _ => .inr (.inl hlarge), fun _ => ⟨_, rfl⟩⟩
    | some total =>
      have hsum := Amount.sum?_eq_some_iff.1 htotal
      rw [hfees] at hsum
      have hfits := total.toNat_lt
      dsimp only
      cases hvalue : Amount.add? (Coinbase.subsidy (tip.height + 1) policy.halvingInterval)
          total with
      | none =>
        have hlarge := Amount.add?_eq_none_iff.1 hvalue
        rw [hsum] at hlarge
        exact ⟨fun _ => .inr (.inr hlarge), fun _ => ⟨_, rfl⟩⟩
      | some value =>
        have hpaid := Amount.add?_eq_some_iff.1 hvalue
        have hvalueLt := value.toNat_lt
        constructor
        · rintro ⟨error, herror⟩
          cases herror
        · intro hoverflow
          omega

/-- **Selection is greedy and exact.** -/
theorem build_greedy (policy : BlockPolicy) (payout : Bytes) (tip : Tip) (pool : List PoolEntry)
    (withCoinbase : Bool) (now : UInt32) :
    ((∃ error, build policy payout tip pool withCoinbase now = .error error) ↔
      tip.height.toNat = 2 ^ 64 - 1 ∨
      2 ^ 64 ≤ feesOf (greedy Transaction.txid policy pool) ∨
      2 ^ 64 ≤ (Coinbase.subsidy (tip.height + 1) policy.halvingInterval).toNat +
        feesOf (greedy Transaction.txid policy pool)) ∧
    ∀ template, build policy payout tip pool withCoinbase now = .ok template →
      GreedyOn policy tip pool now template :=
  ⟨build_eq_error_iff, fun _ => greedyOn_of_build⟩

/-- A payment is offered, then again for another fee, then a transaction in the shape of a
coinbase. -/
def offeredTwice : List PoolEntry :=
  [⟨⟨1, [⟨⟨Digest.zero, 0⟩, [], 0⟩], [⟨900, [0x51]⟩], 0⟩, 100⟩,
    ⟨⟨1, [⟨⟨Digest.zero, 0⟩, [], 0⟩], [⟨900, [0x51]⟩], 0⟩, 70⟩,
    ⟨⟨1, [⟨OutPoint.null, [], 0⟩], [], 0⟩, 5⟩]

/-- The tip of the template for them. -/
def offeredTip : Tip := ⟨Digest.zero, 7, 1700000000, 1700000000, 0x207fffff⟩

/-- The first of them alone is taken. -/
theorem build_greedy_sample : ∃ template,
    build {} [0x51] offeredTip offeredTwice true 1700000100 = .ok template ∧
      template.totalFees = 100 ∧ GreedyOn {} offeredTip offeredTwice 1700000100 template := by
  have hfees : (build {} [0x51] offeredTip offeredTwice true 1700000100).toOption.any
      (fun template => template.totalFees = 100) = true := by decide +kernel
  cases hbuild : build {} [0x51] offeredTip offeredTwice true 1700000100 with
  | error error =>
    rw [hbuild] at hfees
    cases hfees
  | ok template =>
    rw [hbuild] at hfees
    obtain ⟨-, hgreedy⟩ := build_greedy {} [0x51] offeredTip offeredTwice true 1700000100
    exact ⟨template, rfl, of_decide_eq_true hfees, hgreedy template hbuild⟩

end Template

end WorkLease
