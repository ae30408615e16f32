import Mathlib.Algebra.Order.BigOperators.Group.List
import Mathlib.Algebra.Order.Ring.Nat
import WorkLease.Block

/-!
# Sizes are lengths

The size of a transaction or of a block is computed from list lengths alone. It is the number
of bytes of the wire form (`Transaction.length_encode`, `Block.size_eq`), however long the lists
and scripts are.

**Theorem (`sizes_are_lengths`).** This is so of every transaction, of every count, whatever stands
before it, and of every block: header, count and transactions one after the other.
-/

namespace WorkLease

@[simp] theorem CompactSize.length_encode (n : Nat) : (encode n).length = width n := by
  unfold encode width
  split
  · rfl
  · split
    · simp
    · split <;> simp

@[simp] theorem length_encodeScript (script : Bytes) :
    (encodeScript script).length = scriptSize script := by
  simp [encodeScript, scriptSize]

@[simp] theorem TxInput.length_encode (input : TxInput) : input.encode.length = input.size := by
  simp only [encode, size, List.length_append, Digest.size_eq, Bytes.length_ofNatLE,
    length_encodeScript]

@[simp] theorem TxOutput.length_encode (output : TxOutput) :
    output.encode.length = output.size := by
  simp [encode, size]

/-! ## Totals over a list -/

section Totals

variable {α : Type} (size : α → Nat) {items : List α}

theorem foldr_size_add (items : List α) :
    items.foldr (size · + ·) 0 = (items.map size).sum := by
  rw [List.sum, List.foldr_map]

theorem le_sum_of_mem {x : α} (hx : x ∈ items) : size x ≤ (items.map size).sum :=
  List.single_le_sum (fun _ _ => Nat.zero_le _) _ (List.mem_map_of_mem hx)

theorem mul_length_le_sum {size : α → Nat} {least : Nat} (h : ∀ x ∈ items, least ≤ size x) :
    least * items.length ≤ (items.map size).sum := by
  induction items with
  | nil => simp
  | cons x items ih =>
    have hx := h x (by simp)
    have hitems := ih fun y hy => h y (by simp [hy])
    rw [List.map_cons, List.sum_cons, List.length_cons, Nat.mul_succ]
    omega

end Totals

/-! ## Transactions and blocks -/

theorem Transaction.size_eq (tx : Transaction) :
    tx.size = 4 + CompactSize.width tx.inputs.length + (tx.inputs.map (·.size)).sum +
      CompactSize.width tx.outputs.length + (tx.outputs.map (·.size)).sum + 4 := by
  rw [size, foldr_size_add, foldr_size_add]

@[simp] theorem Transaction.length_encode (tx : Transaction) : tx.encode.length = tx.size := by
  rw [size_eq]
  simp only [encode, List.length_append, Bytes.length_ofNatLE, CompactSize.length_encode,
    List.length_flatMap, TxInput.length_encode, TxOutput.length_encode]
  omega

theorem Transaction.size_pos (tx : Transaction) : 0 < tx.size :=
  Nat.lt_of_lt_of_le (by decide : 0 < 4) (Nat.le_add_left 4 _)

/-- The size of a block is that of its header, of the count and of every wire form. -/
theorem Block.size_eq (block : Block) :
    block.size = 80 + (CompactSize.encode block.transactions.length).length +
      (block.transactions.map fun tx => tx.encode.length).sum := by
  simp only [size, foldr_size_add, Header.size, CompactSize.length_encode,
    Transaction.length_encode]

/-- **Sizes are the lengths of what is written**: for a transaction, for a count behind bytes that
are there already and stay as they are, and for a block with its parts one after the other. -/
theorem sizes_are_lengths :
    (∀ tx : Transaction, tx.size = tx.encode.length) ∧
    (∀ (buffer : Bytes) (n : UInt64),
      (buffer ++ CompactSize.encode n.toNat).take buffer.length = buffer ∧
      (buffer ++ CompactSize.encode n.toNat).length =
        buffer.length + CompactSize.width n.toNat) ∧
    ∀ block : Block,
      block.size = 80 + CompactSize.width block.transactions.length +
        (block.transactions.map fun tx => tx.encode.length).sum ∧
      block.size = (block.header.encode ++ CompactSize.encode block.transactions.length ++
        block.transactions.flatMap Transaction.encode).length := by
  refine ⟨fun tx => tx.length_encode.symm, fun buffer n => ⟨List.take_left, ?_⟩, fun block => ?_⟩
  · rw [List.length_append, CompactSize.length_encode]
  · have hsize := block.size_eq
    have hwritten : (block.header.encode ++ CompactSize.encode block.transactions.length ++
        block.transactions.flatMap Transaction.encode).length = block.size := by
      rw [List.length_append, List.length_append, Header.length_encode, List.length_flatMap, hsize]
      rfl
    rw [CompactSize.length_encode] at hsize
    exact ⟨hsize, hwritten.symm⟩

end WorkLease
