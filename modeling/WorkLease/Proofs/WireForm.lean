import Mathlib.Tactic.Common
import WorkLease.Proofs.Reading

/-!
# One wire form for each transaction

What a reader gives, it has read from the bytes that are written for it, and from no other: the
opposite of `Reads`. It holds of every part of a transaction, because a compact size is refused
unless it is in its shortest form.

**Theorem (`decode_exact`).** Reading is the exact inverse of writing, on all byte strings and on
all transactions whose scripts are within what is read.
-/

namespace WorkLease

/-- Whatever the reader gives is `admitted`, and the bytes that it took are those that `encode`
writes for it. -/
def ReadsOnly {α : Type} (reader : Reader α) (encode : α → Bytes) (admitted : α → Prop) : Prop :=
  ∀ ⦃c : Cursor⦄ ⦃value : α⦄ ⦃next : Cursor⦄, reader c = .ok (value, next) →
    admitted value ∧ c.rest = encode value ++ next.rest

namespace Cursor

/-! ## Fixed widths -/

theorem readsOnly_take (n : Nat) : ReadsOnly (take n) Subtype.val (fun _ => True) := by
  intro c value next h
  unfold take at h
  split_ifs at h with hlength
  cases h
  exact ⟨trivial, (List.take_append_drop n c.rest).symm⟩

theorem readsOnly_nat (width : Nat) :
    ReadsOnly (nat width) (Bytes.ofNatLE width) (· < 256 ^ width) := by
  intro c value next h
  obtain ⟨⟨⟨bytes, hlength⟩, c'⟩, htake, h⟩ := bind_eq_ok_iff.1 h
  cases h
  obtain ⟨-, hrest⟩ := readsOnly_take width htake
  subst hlength
  rw [Bytes.ofNatLE_toNatLE]
  exact ⟨Bytes.toNatLE_lt bytes, hrest⟩

theorem readsOnly_digest : ReadsOnly digest Digest.bytes (fun _ => True) := by
  intro c value next h
  obtain ⟨⟨⟨bytes, hlength⟩, c'⟩, htake, h⟩ := bind_eq_ok_iff.1 h
  cases h
  exact readsOnly_take 32 htake

/-! ## Compact sizes -/

theorem readsOnly_natFrom (least width : Nat) :
    ReadsOnly (natFrom least width) (Bytes.ofNatLE width)
      (fun n => least ≤ n ∧ n < 256 ^ width) := by
  intro c value next h
  obtain ⟨⟨n, c'⟩, hnat, h⟩ := bind_eq_ok_iff.1 h
  dsimp only at h
  split_ifs at h with hleast
  cases h
  obtain ⟨hlt, hrest⟩ := readsOnly_nat width hnat
  exact ⟨⟨Nat.le_of_not_lt hleast, hlt⟩, hrest⟩

/-- A longer form was needed for the number that it gives, so it is the one that is written. -/
theorem encode_of_marked {marker : UInt8} {least width n : Nat} {c after next : Cursor}
    (hencode : least ≤ n → n < 256 ^ width →
      CompactSize.encode n = marker :: Bytes.ofNatLE width n)
    (hwidth : 256 ^ width ≤ 2 ^ 64) (hmarker : c.rest = marker :: after.rest)
    (h : natFrom least width after = .ok (n, next)) :
    n < 2 ^ 64 ∧ c.rest = CompactSize.encode n ++ next.rest := by
  obtain ⟨⟨hleast, hlt⟩, hrest⟩ := readsOnly_natFrom least width h
  refine ⟨Nat.lt_of_lt_of_le hlt hwidth, ?_⟩
  rw [hmarker, hrest, hencode hleast hlt, List.cons_append]

theorem readsOnly_compactSize : ReadsOnly compactSize CompactSize.encode (· < 2 ^ 64) := by
  intro c value next h
  obtain ⟨⟨marker, c'⟩, hmarker, h⟩ := bind_eq_ok_iff.1 h
  obtain ⟨hbyte, hrest⟩ := readsOnly_nat 1 hmarker
  dsimp only at h
  split_ifs at h with h1 h2 h3
  · subst h1
    refine encode_of_marked (fun hleast hlt => ?_) (by decide) hrest h
    rw [CompactSize.encode, if_neg (by omega), if_pos (by omega)]
    rfl
  · subst h2
    refine encode_of_marked (fun hleast hlt => ?_) (by decide) hrest h
    rw [CompactSize.encode, if_neg (by omega), if_neg (by omega), if_pos (by omega)]
    rfl
  · subst h3
    refine encode_of_marked (fun hleast hlt => ?_) (by decide) hrest h
    rw [CompactSize.encode, if_neg (by omega), if_neg (by omega), if_neg (by omega)]
    rfl
  · cases h
    -- A byte that is no marker is the number itself.
    have hshort : value < 0xfd := by omega
    refine ⟨Nat.lt_trans hshort (by decide), ?_⟩
    rw [CompactSize.encode, if_pos hshort]
    exact hrest

theorem readsOnly_length (limit : Nat) :
    ReadsOnly (length limit) CompactSize.encode (fun n => n ≤ limit ∧ n < 2 ^ 64) := by
  intro c value next h
  obtain ⟨⟨n, c'⟩, hsize, h⟩ := bind_eq_ok_iff.1 h
  dsimp only at h
  split_ifs at h with hbound
  cases h
  obtain ⟨hlt, hrest⟩ := readsOnly_compactSize hsize
  exact ⟨⟨Nat.le_of_not_lt fun hlimit => hbound (.inl hlimit), hlt⟩, hrest⟩

/-! ## Scripts, inputs and outputs -/

theorem readsOnly_script : ReadsOnly script encodeScript (·.length ≤ maxScriptSize) := by
  intro c value next h
  obtain ⟨⟨n, c₁⟩, hlength, h⟩ := bind_eq_ok_iff.1 h
  obtain ⟨⟨⟨bytes, hn⟩, c₂⟩, htake, h⟩ := bind_eq_ok_iff.1 h
  cases h
  obtain ⟨⟨hlimit, -⟩, hrest₁⟩ := readsOnly_length maxScriptSize hlength
  obtain ⟨-, hrest₂⟩ := readsOnly_take n htake
  subst hn
  refine ⟨hlimit, ?_⟩
  rw [hrest₁, hrest₂, encodeScript, List.append_assoc]

theorem readsOnly_input :
    ReadsOnly input TxInput.encode (·.script.length ≤ maxScriptSize) := by
  intro c value next h
  obtain ⟨⟨txid, c₁⟩, htxid, h⟩ := bind_eq_ok_iff.1 h
  obtain ⟨⟨index, c₂⟩, hindex, h⟩ := bind_eq_ok_iff.1 h
  obtain ⟨⟨bytes, c₃⟩, hscript, h⟩ := bind_eq_ok_iff.1 h
  obtain ⟨⟨sequence, c₄⟩, hsequence, h⟩ := bind_eq_ok_iff.1 h
  cases h
  obtain ⟨-, hrest₁⟩ := readsOnly_digest htxid
  obtain ⟨hindexLt, hrest₂⟩ := readsOnly_nat 4 hindex
  obtain ⟨hbytes, hrest₃⟩ := readsOnly_script hscript
  obtain ⟨hsequenceLt, hrest₄⟩ := readsOnly_nat 4 hsequence
  refine ⟨hbytes, ?_⟩
  rw [hrest₁, hrest₂, hrest₃, hrest₄, TxInput.encode, UInt32.toNat_ofNat_of_lt' hindexLt,
    UInt32.toNat_ofNat_of_lt' hsequenceLt]
  simp only [List.append_assoc]

theorem readsOnly_output :
    ReadsOnly output TxOutput.encode (·.script.length ≤ maxScriptSize) := by
  intro c value next h
  obtain ⟨⟨amount, c₁⟩, hamount, h⟩ := bind_eq_ok_iff.1 h
  obtain ⟨⟨bytes, c₂⟩, hscript, h⟩ := bind_eq_ok_iff.1 h
  cases h
  obtain ⟨hamountLt, hrest₁⟩ := readsOnly_nat 8 hamount
  obtain ⟨hbytes, hrest₂⟩ := readsOnly_script hscript
  refine ⟨hbytes, ?_⟩
  rw [hrest₁, hrest₂, TxOutput.encode, UInt64.toNat_ofNat_of_lt' hamountLt, List.append_assoc]

/-! ## Lists -/

section Lists

variable {α : Type} {item : Reader α} {encode : α → Bytes} {admitted : α → Prop}

theorem readsOnly_many (h : ReadsOnly item encode admitted) (n : Nat) :
    ReadsOnly (many item n) (·.flatMap encode)
      (fun items => items.length = n ∧ ∀ x ∈ items, admitted x) := by
  induction n with
  | zero =>
    intro c value next hread
    cases hread
    exact ⟨⟨rfl, fun x hx => absurd hx List.not_mem_nil⟩, rfl⟩
  | succ n ih =>
    intro c value next hread
    obtain ⟨⟨x, c₁⟩, hitem, hread⟩ := bind_eq_ok_iff.1 hread
    obtain ⟨⟨items, c₂⟩, hitems, hread⟩ := bind_eq_ok_iff.1 hread
    cases hread
    obtain ⟨hx, hrest₁⟩ := h hitem
    obtain ⟨⟨hlength, hadmitted⟩, hrest₂⟩ := ih hitems
    refine ⟨⟨congrArg (· + 1) hlength, List.forall_mem_cons.2 ⟨hx, hadmitted⟩⟩, ?_⟩
    rw [hrest₁, hrest₂]
    simp only [List.flatMap_cons, List.append_assoc]

theorem readsOnly_counted (least : Nat) (h : ReadsOnly item encode admitted) :
    ReadsOnly (counted least item)
      (fun items => CompactSize.encode items.length ++ items.flatMap encode)
      (fun items => items.length < 2 ^ 64 ∧ ∀ x ∈ items, admitted x) := by
  intro c value next hread
  obtain ⟨⟨n, c₁⟩, hcount, hread⟩ := bind_eq_ok_iff.1 hread
  obtain ⟨⟨-, hlt⟩, hrest₁⟩ := readsOnly_length _ hcount
  obtain ⟨⟨hlength, hadmitted⟩, hrest₂⟩ := readsOnly_many h n hread
  subst hlength
  refine ⟨⟨hlt, hadmitted⟩, ?_⟩
  rw [hrest₁, hrest₂, List.append_assoc]

end Lists

end Cursor

/-! ## Transactions -/

namespace Transaction

theorem readsOnly_transaction : ReadsOnly Cursor.transaction encode Readable := by
  intro c value next h
  obtain ⟨⟨version, c₁⟩, hversion, h⟩ := bind_eq_ok_iff.1 h
  obtain ⟨⟨inputs, c₂⟩, hinputs, h⟩ := bind_eq_ok_iff.1 h
  obtain ⟨⟨outputs, c₃⟩, houtputs, h⟩ := bind_eq_ok_iff.1 h
  obtain ⟨⟨lockTime, c₄⟩, hlockTime, h⟩ := bind_eq_ok_iff.1 h
  cases h
  obtain ⟨hversionLt, hrest₁⟩ := Cursor.readsOnly_nat 4 hversion
  obtain ⟨⟨hcountIn, hscriptsIn⟩, hrest₂⟩ :=
    Cursor.readsOnly_counted minInputSize Cursor.readsOnly_input hinputs
  obtain ⟨⟨hcountOut, hscriptsOut⟩, hrest₃⟩ :=
    Cursor.readsOnly_counted minOutputSize Cursor.readsOnly_output houtputs
  obtain ⟨hlockTimeLt, hrest₄⟩ := Cursor.readsOnly_nat 4 hlockTime
  refine ⟨⟨hcountIn, hcountOut, hscriptsIn, hscriptsOut⟩, ?_⟩
  rw [hrest₁, hrest₂, hrest₃, hrest₄, encode, UInt32.toUInt32_toInt32,
    UInt32.toNat_ofNat_of_lt' hversionLt, UInt32.toNat_ofNat_of_lt' hlockTimeLt]
  simp only [List.append_assoc]

/-- A byte string that is read is the wire form of what was read. -/
theorem encode_of_decode {bytes : Bytes} {tx : Transaction} (h : decode bytes = .ok tx) :
    tx.encode = bytes ∧ tx.Readable := by
  obtain ⟨⟨value, c⟩, hread, h⟩ := bind_eq_ok_iff.1 h
  dsimp only at h
  split_ifs at h with hend
  cases h
  obtain ⟨hreadable, hrest⟩ := readsOnly_transaction hread
  rw [List.length_eq_zero_iff.1 hend, List.append_nil] at hrest
  exact ⟨hrest.symm, hreadable⟩

/-- **Reading is the exact inverse of writing.** What is read is readable and was written as these
bytes, every readable transaction is read back from its wire form, and no other byte string is read
as the same transaction. -/
theorem decode_exact (bytes : Bytes) (tx : Transaction) :
    (decode bytes = .ok tx ↔ tx.encode = bytes ∧ tx.Readable) ∧
      (tx.Readable → decode tx.encode = .ok tx) ∧
      ∀ other, decode bytes = .ok tx → decode other = .ok tx → other = bytes := by
  refine ⟨⟨encode_of_decode, ?_⟩, decode_encode, fun other h hother => ?_⟩
  · rintro ⟨rfl, hreadable⟩
    exact decode_encode hreadable
  · rw [← (encode_of_decode h).1, ← (encode_of_decode hother).1]

/-- A count in a longer form than it needs is no second wire form. -/
example : (decode [1, 0, 0, 0, 0, 0, 0, 0, 0, 0]).toOption = some ⟨1, [], [], 0⟩ ∧
    (decode [1, 0, 0, 0, 0xfd, 0, 0, 0, 0, 0, 0, 0]).toOption = none := by
  decide

end Transaction

end WorkLease
