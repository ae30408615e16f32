import WorkLease.Bytes.Lemmas
import WorkLease.Proofs.HexText
import WorkLease.Proofs.Size
import WorkLease.Transaction.Decoding

/-!
# Reading what was written

A reader *reads* a byte string as a value when, wherever those bytes come next, it gives that
value and stops right after them. Readers are composed, so the statement for a transaction is
put together from one for each of its parts.

* `Readable`: the lists and scripts of a transaction are within what is read.
* `Transaction.decode_encode`: a readable transaction is read back from its wire form.
* `Transaction.ofHex_eq_ok`: the same for every hexadecimal text of its wire form.

The bounds on declared lengths never refuse such a transaction, because every element of a list
is at least as long as the bound supposes.
-/

namespace WorkLease

/-- Wherever `bytes` come next, the reader gives `value` and stops right after them. -/
def Reads {α : Type} (reader : Reader α) (bytes : Bytes) (value : α) : Prop :=
  ∀ (offset : Nat) (rest : Bytes),
    reader ⟨offset, bytes ++ rest⟩ = .ok (value, ⟨offset + bytes.length, rest⟩)

/-- Reading on after a part that is read. -/
theorem Reads.bind {α β : Type} {reader : Reader α} {bytes : Bytes} {value : α}
    (h : Reads reader bytes value) (next : α × Cursor → Except WireError β) (offset : Nat)
    (rest : Bytes) :
    (reader ⟨offset, bytes ++ rest⟩ >>= next) = next (value, ⟨offset + bytes.length, rest⟩) := by
  rw [h]
  rfl

namespace Cursor

/-! ## Fixed widths -/

theorem reads_take {n : Nat} {bytes : Bytes} (h : bytes.length = n) :
    Reads (take n) bytes ⟨bytes, h⟩ := by
  subst h
  intro offset rest
  simp [take]

theorem reads_nat {width n : Nat} (h : n < 256 ^ width) :
    Reads (nat width) (Bytes.ofNatLE width n) n := by
  intro offset rest
  rw [nat, (reads_take (Bytes.length_ofNatLE width n)).bind]
  simp only [Bytes.toNatLE_ofNatLE, Nat.mod_eq_of_lt h]
  rfl

theorem reads_digest (value : Digest) : Reads digest value.bytes value := by
  intro offset rest
  rw [digest, (reads_take value.size_eq).bind]
  rfl

/-! ## Compact sizes -/

theorem reads_natFrom {least width n : Nat} (hleast : least ≤ n) (h : n < 256 ^ width) :
    Reads (natFrom least width) (Bytes.ofNatLE width n) n := by
  intro offset rest
  rw [natFrom, (reads_nat h).bind]
  simp only [Nat.not_lt.2 hleast, if_false]
  rfl

/-- The marker byte of a longer form leads to the reader of that form. -/
theorem reads_marked {marker : UInt8} {least width n : Nat}
    (hmarker : ∀ offset rest, compactSize ⟨offset, marker :: rest⟩ =
      natFrom least width ⟨offset + 1, rest⟩)
    (hleast : least ≤ n) (h : n < 256 ^ width) :
    Reads compactSize (marker :: Bytes.ofNatLE width n) n := by
  intro offset rest
  rw [List.cons_append, hmarker, reads_natFrom hleast h, List.length_cons, Nat.add_assoc,
    Nat.add_comm 1]

theorem reads_compactSize {n : Nat} (h : n < 2 ^ 64) :
    Reads compactSize (CompactSize.encode n) n := by
  unfold CompactSize.encode
  split_ifs with h1 h2 h3
  · intro offset rest
    have hone : [UInt8.ofNat n] = Bytes.ofNatLE 1 n := rfl
    rw [hone, compactSize, (reads_nat (by omega)).bind]
    simp only [show n ≠ 0xfd by omega, show n ≠ 0xfe by omega, show n ≠ 0xff by omega, if_false]
    rfl
  · exact reads_marked (fun _ _ => rfl) (by omega) (by omega)
  · exact reads_marked (fun _ _ => rfl) (by omega) (by omega)
  · exact reads_marked (fun _ _ => rfl) (by omega) (by omega)

/-- A declared length within both bounds is read. -/
theorem length_encode_append {limit n : Nat} {rest : Bytes} (h : n < 2 ^ 64) (hlimit : n ≤ limit)
    (hrest : n ≤ rest.length) (offset : Nat) :
    Cursor.length limit ⟨offset, CompactSize.encode n ++ rest⟩ =
      .ok (n, ⟨offset + CompactSize.width n, rest⟩) := by
  rw [Cursor.length, (reads_compactSize h).bind]
  simp only [Nat.not_lt.2 hlimit, Nat.not_lt.2 hrest, or_self, if_false, CompactSize.length_encode]
  rfl

/-! ## Scripts, inputs and outputs -/

theorem reads_script {bytes : Bytes} (h : bytes.length ≤ maxScriptSize) :
    Reads script (encodeScript bytes) bytes := by
  intro offset rest
  have hlt : bytes.length < 2 ^ 64 := lt_of_le_of_lt h (by decide)
  have hrest : bytes.length ≤ (bytes ++ rest).length := by simp
  rw [script, encodeScript, List.append_assoc, length_encode_append hlt h hrest]
  simp only [bind, Except.bind]
  rw [reads_take (rfl : bytes.length = bytes.length), List.length_append, CompactSize.length_encode,
    ← Nat.add_assoc]
  rfl

theorem reads_input {value : TxInput} (h : value.script.length ≤ maxScriptSize) :
    Reads input value.encode value := by
  intro offset rest
  have hindex : value.spent.index.toNat < 256 ^ 4 := value.spent.index.toNat_lt
  have hsequence : value.sequence.toNat < 256 ^ 4 := value.sequence.toNat_lt
  rw [input, TxInput.encode]
  simp only [List.append_assoc, (reads_digest _).bind, (reads_nat hindex).bind,
    (reads_script h).bind, (reads_nat hsequence).bind, UInt32.ofNat_toNat,
    List.length_append, Nat.add_assoc]
  rfl

theorem reads_output {value : TxOutput} (h : value.script.length ≤ maxScriptSize) :
    Reads output value.encode value := by
  intro offset rest
  have hvalue : value.value.toNat < 256 ^ 8 := value.value.toNat_lt
  rw [output, TxOutput.encode]
  simp only [List.append_assoc, (reads_nat hvalue).bind, (reads_script h).bind,
    UInt64.ofNat_toNat, List.length_append, Nat.add_assoc]
  rfl

/-! ## Lists -/

theorem reads_many {α : Type} {item : Reader α} {encode : α → Bytes} {items : List α}
    (h : ∀ x ∈ items, Reads item (encode x) x) :
    Reads (many item items.length) (items.flatMap encode) items := by
  induction items with
  | nil => exact fun _ _ => rfl
  | cons x items ih =>
    intro offset rest
    rw [List.length_cons, many, List.flatMap_cons, List.append_assoc, (h x (by simp)).bind]
    simp only [(ih fun y hy => h y (by simp [hy])).bind, List.length_append, Nat.add_assoc]
    rfl

/-- A list is as long as its count says: the bound that is taken from the bytes left admits it. -/
theorem counted_append {α : Type} (item : Reader α) {encode : α → Bytes} {least : Nat}
    {items : List α} (hleast : 0 < least) (hcount : items.length < 2 ^ 64)
    (hsize : ∀ x ∈ items, least ≤ (encode x).length) (offset : Nat) (rest : Bytes) :
    counted least item
        ⟨offset, CompactSize.encode items.length ++ items.flatMap encode ++ rest⟩ =
      many item items.length
        ⟨offset + CompactSize.width items.length, items.flatMap encode ++ rest⟩ := by
  have hbytes : least * items.length ≤ (items.flatMap encode).length :=
    List.length_flatMap ▸ mul_length_le_sum hsize
  have hitems : items.length ≤ (items.flatMap encode).length :=
    (Nat.le_mul_of_pos_left _ hleast).trans hbytes
  have hlimit : items.length ≤
      (CompactSize.encode items.length ++ (items.flatMap encode ++ rest)).length / least := by
    rw [Nat.le_div_iff_mul_le hleast, Nat.mul_comm]
    simp only [List.length_append]
    omega
  have hrest : items.length ≤ (items.flatMap encode ++ rest).length := by
    rw [List.length_append]
    omega
  rw [counted, List.append_assoc]
  simp only [length_encode_append hcount hlimit hrest, bind, Except.bind]

theorem reads_counted {α : Type} {item : Reader α} {encode : α → Bytes} {least : Nat}
    {items : List α} (hleast : 0 < least) (hcount : items.length < 2 ^ 64)
    (hsize : ∀ x ∈ items, least ≤ (encode x).length)
    (h : ∀ x ∈ items, Reads item (encode x) x) :
    Reads (counted least item) (CompactSize.encode items.length ++ items.flatMap encode) items := by
  intro offset rest
  rw [counted_append item hleast hcount hsize, reads_many h, List.length_append,
    CompactSize.length_encode, Nat.add_assoc]

end Cursor

/-! ## Transactions -/

theorem TxInput.minInputSize_le (value : TxInput) : minInputSize ≤ value.encode.length := by
  rw [length_encode, size, scriptSize, CompactSize.width, minInputSize]
  split_ifs <;> omega

theorem TxOutput.minOutputSize_le (value : TxOutput) : minOutputSize ≤ value.encode.length := by
  rw [length_encode, size, scriptSize, CompactSize.width, minOutputSize]
  split_ifs <;> omega

namespace Transaction

/-- The lists of a transaction have 64-bit lengths and its scripts are within what is read. -/
structure Readable (tx : Transaction) : Prop where
  inputs : tx.inputs.length < 2 ^ 64
  outputs : tx.outputs.length < 2 ^ 64
  inputScripts : ∀ input ∈ tx.inputs, input.script.length ≤ maxScriptSize
  outputScripts : ∀ output ∈ tx.outputs, output.script.length ≤ maxScriptSize

theorem reads_transaction {tx : Transaction} (h : tx.Readable) :
    Reads Cursor.transaction tx.encode tx := by
  intro offset rest
  have hversion : tx.version.toUInt32.toNat < 256 ^ 4 := tx.version.toUInt32.toNat_lt
  have hlockTime : tx.lockTime.toNat < 256 ^ 4 := tx.lockTime.toNat_lt
  have hin := Cursor.reads_counted (by decide) h.inputs
    (fun input _ => input.minInputSize_le) fun input hi =>
      Cursor.reads_input (h.inputScripts input hi)
  have hout := Cursor.reads_counted (by decide) h.outputs
    (fun output _ => output.minOutputSize_le) fun output ho =>
      Cursor.reads_output (h.outputScripts output ho)
  rw [Cursor.transaction, encode]
  generalize CompactSize.encode tx.inputs.length ++ tx.inputs.flatMap TxInput.encode = inputBytes
    at hin ⊢
  generalize CompactSize.encode tx.outputs.length ++ tx.outputs.flatMap TxOutput.encode =
    outputBytes at hout ⊢
  simp only [List.append_assoc, (Cursor.reads_nat hversion).bind, hin.bind, hout.bind,
    (Cursor.reads_nat hlockTime).bind, UInt32.ofNat_toNat, List.length_append,
    Nat.add_assoc]
  rfl

/-- **A readable transaction is read back from its wire form.** -/
theorem decode_encode {tx : Transaction} (h : tx.Readable) : decode tx.encode = .ok tx := by
  have hreads := (reads_transaction h).bind (fun r : Transaction × Cursor =>
    if r.2.rest.length = 0 then pure r.1 else .error (.trailingBytes r.2.rest.length)) 0 []
  rw [List.append_nil] at hreads
  exact hreads

/-- **A readable transaction is read back from every hexadecimal text of its wire form.** -/
theorem ofHex_eq_ok {tx : Transaction} (h : tx.Readable) {text : String}
    (htext : Hex.decode (Text.trim text) = .ok tx.encode) : ofHex text = .ok tx := by
  rw [ofHex, htext]
  exact decode_encode h

theorem decode_toHex (tx : Transaction) : Hex.decode (Text.trim tx.toHex) = .ok tx.encode := by
  rw [toHex, Hex.trim_encode, Hex.decode_encode]

/-- A transaction no larger than a script may be is readable. -/
theorem readable_of_size_le {tx : Transaction} (h : tx.size ≤ maxScriptSize) : tx.Readable := by
  rw [size_eq] at h
  have hbound : maxScriptSize < 2 ^ 64 := by decide
  have hinputs : 1 * tx.inputs.length ≤ (tx.inputs.map (·.size)).sum :=
    mul_length_le_sum fun input _ => by rw [TxInput.size]; omega
  have houtputs : 1 * tx.outputs.length ≤ (tx.outputs.map (·.size)).sum :=
    mul_length_le_sum fun output _ => by rw [TxOutput.size]; omega
  refine ⟨by omega, by omega, fun input hinput => ?_, fun output houtput => ?_⟩
  · have hle := le_sum_of_mem (·.size) hinput
    rw [TxInput.size, scriptSize] at hle
    omega
  · have hle := le_sum_of_mem (·.size) houtput
    rw [TxOutput.size, scriptSize] at hle
    omega

end Transaction

end WorkLease
