import Mathlib.Data.List.Nodup
import Mathlib.Tactic.Common
import WorkLease.Proofs.Greedy
import WorkLease.Proofs.Reading
import WorkLease.Proofs.Rules

/-!
# What is written tells where it ends

Reading refuses long scripts, so it cannot tell that writing is injective on every transaction;
the pool may hold transactions that no reader accepts. Here the boundaries of the fields are found
from the bytes alone: a kind of values is *delimited* when two of them, each followed by some bytes,
come to the same bytes only if they are the same and so is what follows.

* `Writable`: the lists and scripts of a transaction have lengths below 2 ^ 64, the only ones that a
  compact size can tell. No list in memory is longer.
* `delimits_transaction`: transactions are delimited, whatever a reader thinks of their scripts.
* `eq_or_collides`: one identifier stands for one transaction, or two wire forms collide.

**Theorem (`identified_by_txid`).** So the builder takes what it would take if it compared the
transactions themselves, and a block is refused for a repeated identifier exactly when it repeats a
transaction, unless two of the transactions at hand exhibit a collision of the double hash.
-/

namespace WorkLease

/-- Values of a kind are told apart by their wire forms, wherever these end. -/
def Delimits {α : Type} (encode : α → Bytes) (admitted : α → Prop) : Prop :=
  ∀ ⦃a b : α⦄, admitted a → admitted b → ∀ ⦃x y : Bytes⦄,
    encode a ++ x = encode b ++ y → a = b ∧ x = y

section Delimits

variable {α : Type} {encode : α → Bytes} {admitted : α → Prop}

/-- What can be read back is delimited. -/
theorem Delimits.of_reads {reader : Reader α}
    (h : ∀ a, admitted a → Reads reader (encode a) a) : Delimits encode admitted := by
  intro a b ha hb x y hbytes
  have hread := h a ha 0 x
  rw [hbytes, h b hb 0 y] at hread
  cases hread
  exact ⟨rfl, rfl⟩

theorem delimits_nat (width : Nat) : Delimits (Bytes.ofNatLE width) (· < 256 ^ width) :=
  .of_reads fun _ hn => Cursor.reads_nat hn

theorem delimits_digest : Delimits Digest.bytes fun _ => True :=
  .of_reads fun value _ => Cursor.reads_digest value

theorem delimits_compactSize : Delimits CompactSize.encode (· < 2 ^ 64) :=
  .of_reads fun _ hn => Cursor.reads_compactSize hn

/-- A script of any length ends where its compact size says. -/
theorem delimits_script : Delimits encodeScript (·.length < 2 ^ 64) := by
  intro a b ha hb x y hbytes
  rw [encodeScript, encodeScript, List.append_assoc, List.append_assoc] at hbytes
  obtain ⟨hlength, hbytes⟩ := delimits_compactSize ha hb hbytes
  exact List.append_inj hbytes hlength

/-! ## Lists -/

/-- Of equally many values, each tells where the next one starts. -/
theorem Delimits.flatMap (h : Delimits encode admitted) {items others : List α}
    (hlength : items.length = others.length) (hitems : ∀ a ∈ items, admitted a)
    (hothers : ∀ a ∈ others, admitted a) {x y : Bytes}
    (hbytes : items.flatMap encode ++ x = others.flatMap encode ++ y) :
    items = others ∧ x = y := by
  induction items generalizing others with
  | nil =>
    obtain rfl := List.length_eq_zero_iff.1 hlength.symm
    exact ⟨rfl, hbytes⟩
  | cons a items ih =>
    cases others with
    | nil => cases hlength
    | cons b others =>
      rw [List.forall_mem_cons] at hitems hothers
      rw [List.flatMap_cons, List.flatMap_cons, List.append_assoc, List.append_assoc] at hbytes
      obtain ⟨rfl, hrest⟩ := h hitems.1 hothers.1 hbytes
      obtain ⟨rfl, hxy⟩ := ih (Nat.succ.inj hlength) hitems.2 hothers.2 hrest
      exact ⟨rfl, hxy⟩

/-- A list after its length. -/
theorem Delimits.counted (h : Delimits encode admitted) :
    Delimits (fun items : List α => CompactSize.encode items.length ++ items.flatMap encode)
      fun items => items.length < 2 ^ 64 ∧ ∀ a ∈ items, admitted a := by
  intro items others hitems hothers x y hbytes
  rw [List.append_assoc, List.append_assoc] at hbytes
  obtain ⟨hlength, hbytes⟩ := delimits_compactSize hitems.1 hothers.1 hbytes
  exact h.flatMap hlength hitems.2 hothers.2 hbytes

end Delimits

/-! ## Transactions -/

theorem delimits_input : Delimits TxInput.encode (·.script.length < 2 ^ 64) := by
  intro a b ha hb x y hbytes
  simp only [TxInput.encode, List.append_assoc] at hbytes
  obtain ⟨htxid, hbytes⟩ := delimits_digest trivial trivial hbytes
  obtain ⟨hindex, hbytes⟩ := delimits_nat 4 a.spent.index.toNat_lt b.spent.index.toNat_lt hbytes
  obtain ⟨hscript, hbytes⟩ := delimits_script ha hb hbytes
  obtain ⟨hsequence, hxy⟩ := delimits_nat 4 a.sequence.toNat_lt b.sequence.toNat_lt hbytes
  obtain ⟨⟨txid, index⟩, script, sequence⟩ := a
  obtain ⟨⟨txid', index'⟩, script', sequence'⟩ := b
  obtain rfl : txid = txid' := htxid
  obtain rfl : index = index' := UInt32.toNat_inj.1 hindex
  obtain rfl : script = script' := hscript
  obtain rfl : sequence = sequence' := UInt32.toNat_inj.1 hsequence
  exact ⟨rfl, hxy⟩

theorem delimits_output : Delimits TxOutput.encode (·.script.length < 2 ^ 64) := by
  intro a b ha hb x y hbytes
  simp only [TxOutput.encode, List.append_assoc] at hbytes
  obtain ⟨hvalue, hbytes⟩ := delimits_nat 8 a.value.toNat_lt b.value.toNat_lt hbytes
  obtain ⟨hscript, hxy⟩ := delimits_script ha hb hbytes
  obtain ⟨value, script⟩ := a
  obtain ⟨value', script'⟩ := b
  obtain rfl : value = value' := UInt64.toNat_inj.1 hvalue
  obtain rfl : script = script' := hscript
  exact ⟨rfl, hxy⟩

namespace Transaction

/-- The lists and the scripts of a transaction have 64-bit lengths. -/
structure Writable (tx : Transaction) : Prop where
  inputs : tx.inputs.length < 2 ^ 64
  outputs : tx.outputs.length < 2 ^ 64
  inputScripts : ∀ input ∈ tx.inputs, input.script.length < 2 ^ 64
  outputScripts : ∀ output ∈ tx.outputs, output.script.length < 2 ^ 64

/-- **A transaction tells where it ends**, with scripts of any length. -/
theorem delimits_transaction : Delimits encode Writable := by
  intro a b ha hb x y hbytes
  simp only [encode, List.append_assoc] at hbytes
  obtain ⟨hversion, hbytes⟩ := delimits_nat 4 a.version.toUInt32.toNat_lt
    b.version.toUInt32.toNat_lt hbytes
  rw [← List.append_assoc, ← List.append_assoc (CompactSize.encode b.inputs.length)] at hbytes
  obtain ⟨hinputs, hbytes⟩ := delimits_input.counted ⟨ha.inputs, ha.inputScripts⟩
    ⟨hb.inputs, hb.inputScripts⟩ hbytes
  rw [← List.append_assoc, ← List.append_assoc (CompactSize.encode b.outputs.length)] at hbytes
  obtain ⟨houtputs, hbytes⟩ := delimits_output.counted ⟨ha.outputs, ha.outputScripts⟩
    ⟨hb.outputs, hb.outputScripts⟩ hbytes
  obtain ⟨hlockTime, hxy⟩ := delimits_nat 4 a.lockTime.toNat_lt b.lockTime.toNat_lt hbytes
  obtain ⟨version, inputs, outputs, lockTime⟩ := a
  obtain ⟨version', inputs', outputs', lockTime'⟩ := b
  obtain rfl : version = version' := congrArg Int32.ofUInt32 (UInt32.toNat_inj.1 hversion)
  obtain rfl : inputs = inputs' := hinputs
  obtain rfl : outputs = outputs' := houtputs
  obtain rfl : lockTime = lockTime' := UInt32.toNat_inj.1 hlockTime
  exact ⟨rfl, hxy⟩

/-! ## Identifiers -/

/-- Two transactions have different wire forms with the same double hash. -/
def Collides (a b : Transaction) : Prop :=
  a.encode ≠ b.encode ∧ Sha256.double a.encode = Sha256.double b.encode

/-- Two of the transactions collide. -/
def CollisionIn (txs : List Transaction) : Prop :=
  ∃ a ∈ txs, ∃ b ∈ txs, a.Collides b

/-- **An identifier stands for one transaction**, or two wire forms collide. -/
theorem eq_or_collides {a b : Transaction} (ha : a.Writable) (hb : b.Writable)
    (h : a.txid = b.txid) : a = b ∨ a.Collides b := by
  refine or_iff_not_imp_left.2 fun hne => ⟨fun hbytes => hne ?_, h⟩
  exact (delimits_transaction ha hb (congrArg (· ++ []) hbytes)).1

theorem txid_inj_of_apart {txs : List Transaction} (hwritable : ∀ tx ∈ txs, tx.Writable)
    (hapart : ¬ CollisionIn txs) {a b : Transaction} (ha : a ∈ txs) (hb : b ∈ txs)
    (h : a.txid = b.txid) : a = b :=
  (eq_or_collides (hwritable a ha) (hwritable b hb) h).resolve_right
    fun hcollides => hapart ⟨a, ha, b, hb, hcollides⟩

/-- The builder takes what it would take if it compared transactions, unless two collide. -/
theorem greedy_txid_eq_or_collision (policy : BlockPolicy) {pool : List PoolEntry}
    (hwritable : ∀ tx ∈ pool.map (·.tx), tx.Writable) :
    greedy txid policy pool = greedy id policy pool ∨ CollisionIn (pool.map (·.tx)) := by
  refine or_iff_not_imp_right.2 fun hapart => greedy_congr fun a ha b hb => ?_
  exact ⟨txid_inj_of_apart hwritable hapart (List.mem_map_of_mem ha) (List.mem_map_of_mem hb),
    congrArg txid⟩

/-- Identifiers repeat exactly when transactions do, unless two collide. -/
theorem distinctTxids_iff_or_collision {txs : List Transaction}
    (hwritable : ∀ tx ∈ txs, tx.Writable) :
    (BlockRules.distinctTxids (txs.map txid) = .ok () ↔ txs.Nodup) ∨ CollisionIn txs := by
  refine or_iff_not_imp_right.2 fun hapart => ?_
  rw [BlockRules.distinctTxids, BlockRules.ensure_eq_ok_iff]
  exact ⟨List.Nodup.of_map txid, fun hnodup => hnodup.map_on fun a ha b hb =>
    txid_inj_of_apart hwritable hapart ha hb⟩

/-- **Transactions are told apart by their wire forms, and so by their identifiers** as far as the
double hash tells wire forms apart. -/
theorem identified_by_txid :
    (∀ a b : Transaction, a.Writable → b.Writable → ∀ x y : Bytes,
      a.encode ++ x = b.encode ++ y → a = b ∧ x = y) ∧
    (∀ a b : Transaction, a.Writable → b.Writable → a ≠ b → a.txid = b.txid → a.Collides b) ∧
    (∀ (policy : BlockPolicy) (pool : List PoolEntry), (∀ tx ∈ pool.map (·.tx), tx.Writable) →
      (greedy txid policy pool = greedy id policy pool ∧
        ∀ payout tip withCoinbase now template,
          Template.build policy payout tip pool withCoinbase now = .ok template →
            template.transactions = (greedy id policy pool).map (·.tx)) ∨
      CollisionIn (pool.map (·.tx))) ∧
    ∀ txs : List Transaction, (∀ tx ∈ txs, tx.Writable) →
      (BlockRules.distinctTxids (txs.map txid) = .ok () ↔ txs.Nodup) ∨ CollisionIn txs := by
  refine ⟨fun a b ha hb x y => (delimits_transaction ha hb ·), fun a b ha hb hne htxid => ?_,
    fun policy pool hwritable => ?_, fun txs => distinctTxids_iff_or_collision⟩
  · exact (eq_or_collides ha hb htxid).resolve_left hne
  · rcases greedy_txid_eq_or_collision policy hwritable with hsame | hcollision
    · refine .inl ⟨hsame, fun payout tip withCoinbase now template hbuild => ?_⟩
      rw [(Template.greedyOn_of_build hbuild).transactions, hsame]
    · exact .inr hcollision

/-- A transaction with a script that is one byte longer than what is read. -/
def oversized (filling : UInt8) : Transaction :=
  ⟨1, [⟨⟨Digest.zero, 0⟩, List.replicate (maxScriptSize + 1) filling, 0⟩], [], 0⟩

theorem length_of_mem_oversized {filling : UInt8} {input : TxInput}
    (h : input ∈ (oversized filling).inputs) : input.script.length = maxScriptSize + 1 := by
  obtain rfl := List.mem_singleton.1 h
  exact List.length_replicate

theorem writable_oversized (filling : UInt8) : (oversized filling).Writable where
  inputs := (by decide : 1 < 2 ^ 64)
  outputs := (by decide : 0 < 2 ^ 64)
  inputScripts _ hinput := by
    rw [length_of_mem_oversized hinput]
    decide
  outputScripts := nofun

theorem identified_by_txid_oversized :
    (∀ filling, (oversized filling).Writable ∧ ¬ (oversized filling).Readable) ∧
      oversized 0 ≠ oversized 1 ∧
      ((oversized 0).txid = (oversized 1).txid → (oversized 0).Collides (oversized 1)) := by
  have hunread : ∀ filling, ¬ (oversized filling).Readable := fun filling h =>
    absurd (h.inputScripts _ (List.mem_singleton_self _))
      (by rw [length_of_mem_oversized (List.mem_singleton_self _)]; exact Nat.not_succ_le_self _)
  have hne : oversized 0 ≠ oversized 1 := by
    intro h
    have hscripts := congrArg (fun tx => tx.inputs.map (·.script.head?)) h
    rw [oversized, oversized, List.replicate_succ, List.replicate_succ] at hscripts
    cases hscripts
  obtain ⟨-, hcollides, -⟩ := identified_by_txid
  exact ⟨fun filling => ⟨writable_oversized filling, hunread filling⟩, hne,
    hcollides _ _ (writable_oversized 0) (writable_oversized 1) hne⟩

end Transaction

end WorkLease
