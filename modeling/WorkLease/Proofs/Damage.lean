import Mathlib.Tactic.Common
import WorkLease.Proofs.Delimiting

/-!
# Damaged wire forms

The bounds on declared lengths are taken from the bytes that are left. So a cut moves all of them,
wherever it is made, and a reader may stop long before it comes to the cut. It may only stop for one
reason.

* `Foretells`, `Steady`: with more bytes behind those that are there a reader does the same, unless
  it complained that bytes are missing. This is true of a declared length because more bytes can
  only raise its bounds, and of all else because a reader composed of steady ones is steady.
* `Steady.shortage_of_cut`: so a complaint that bytes are missing is all that is left for bytes that
  would be read if they were complete.
* `refuses_transaction`: a script that is too long is refused for its own length, because all that
  is written before it is read and the bounds on the lists admit it.

**Theorem (`damaged_refused`).** Bytes after a transaction are counted, a transaction that was cut
is refused for missing bytes, and one with long scripts is refused for the first of them.
-/

namespace WorkLease

/-- The complaints that bytes are missing: in a field, or for a declared length. -/
inductive WireError.Shortage : WireError → Prop
  | truncated (offset : Nat) : Shortage (.truncated offset)
  | oversized (length : Nat) : Shortage (.oversized length)

section Results

variable {α β : Type} {more : Bytes}

/-- What a result says about the one with `more` bytes behind those that were there. -/
inductive Foretells (more : Bytes) :
    Except WireError (α × Cursor) → Except WireError (α × Cursor) → Prop
  | read (value : α) (offset : Nat) (rest : Bytes) :
      Foretells more (.ok (value, ⟨offset, rest⟩)) (.ok (value, ⟨offset, rest ++ more⟩))
  | refused (error : WireError) : Foretells more (.error error) (.error error)
  | short {error : WireError} (h : error.Shortage) (result : Except WireError (α × Cursor)) :
      Foretells more (.error error) result

/-- More bytes behind those that are there change nothing but a complaint that bytes are missing. -/
def Steady (reader : Reader α) : Prop :=
  ∀ (offset : Nat) (bytes more : Bytes),
    Foretells more (reader ⟨offset, bytes⟩) (reader ⟨offset, bytes ++ more⟩)

theorem Steady.pure (value : α) : Steady fun c => .ok (value, c) :=
  fun offset bytes _ => .read value offset bytes

theorem Foretells.bind {first all : Except WireError (α × Cursor)} (h : Foretells more first all)
    {next : α × Cursor → Except WireError (β × Cursor)}
    (hnext : ∀ value, Steady fun c => next (value, c)) :
    Foretells more (first >>= next) (all >>= next) := by
  cases h with
  | read value offset rest => exact hnext value offset rest more
  | refused error => exact .refused error
  | short h => exact .short h _

/-- A reader that is composed of steady ones is steady. -/
theorem Steady.bind {reader : Reader α} (h : Steady reader)
    {next : α × Cursor → Except WireError (β × Cursor)}
    (hnext : ∀ value, Steady fun c => next (value, c)) : Steady fun c => reader c >>= next :=
  fun offset bytes more => (h offset bytes more).bind hnext

theorem Foretells.of_ok {first : Except WireError (α × Cursor)} {value : α} {c : Cursor}
    (h : Foretells more first (.ok (value, c))) :
    (∃ error, first = .error error ∧ error.Shortage) ∨ ∃ rest, c.rest = rest ++ more := by
  generalize hall : Except.ok (value, c) = all at h
  cases h with
  | read value offset rest =>
    cases hall
    exact .inr ⟨rest, rfl⟩
  | refused error => cases hall
  | short h => exact .inl ⟨_, rfl, h⟩

/-- **Bytes that were cut are refused as too few**, if they would have been read to their end. -/
theorem Steady.shortage_of_cut {reader : Reader α} (h : Steady reader) {bytes : Bytes} {value : α}
    (hreads : Reads reader bytes value) {part : Bytes} (hpart : part <+: bytes)
    (hcut : part ≠ bytes) (offset : Nat) :
    ∃ error, reader ⟨offset, part⟩ = .error error ∧ error.Shortage := by
  obtain ⟨missing, rfl⟩ := hpart
  have hforetells := h offset part missing
  have hall := hreads offset []
  rw [List.append_nil] at hall
  rw [hall] at hforetells
  rcases hforetells.of_ok with hshort | ⟨rest, hrest⟩
  · exact hshort
  · -- A part that is read leaves what is missing behind it, and nothing was left.
    have hnone : missing = [] := (List.append_eq_nil_iff.1 hrest.symm).2
    exact absurd (by rw [hnone, List.append_nil]) hcut

end Results

namespace Cursor

/-! ## Steady readers -/

theorem steady_take (n : Nat) : Steady (take n) := by
  intro offset bytes more
  by_cases hlength : n ≤ bytes.length
  · have hfront : (bytes.take n).length = n := List.length_take_of_le hlength
    rw [← List.take_append_drop n bytes, List.append_assoc, reads_take hfront, reads_take hfront]
    exact .read _ _ _
  · have hshort : (bytes.take n).length ≠ n := by
      rw [List.length_take]
      omega
    rw [take, dif_neg hshort]
    exact .short (.truncated offset) _

theorem steady_nat (width : Nat) : Steady (nat width) :=
  (steady_take width).bind fun _ => .pure _

theorem steady_digest : Steady digest :=
  (steady_take 32).bind fun _ => .pure _

theorem steady_natFrom (least width : Nat) : Steady (natFrom least width) := by
  refine (steady_nat width).bind fun n offset bytes more => ?_
  dsimp only
  split_ifs with hless
  · exact .refused _
  · exact .read _ _ _

theorem steady_compactSize : Steady compactSize := by
  refine (steady_nat 1).bind fun marker => ?_
  dsimp only
  split_ifs
  · exact steady_natFrom _ _
  · exact steady_natFrom _ _
  · exact steady_natFrom _ _
  · exact .pure marker

/-- More bytes raise the bounds on a declared length and lower none. -/
theorem foretells_length {limit higher : Nat} (h : limit ≤ higher) (offset : Nat)
    (bytes more : Bytes) :
    Foretells more (length limit ⟨offset, bytes⟩) (length higher ⟨offset, bytes ++ more⟩) := by
  have hsize := steady_compactSize offset bytes more
  rw [length, length]
  generalize compactSize ⟨offset, bytes⟩ = first, compactSize ⟨offset, bytes ++ more⟩ = all at hsize
  cases hsize with
  | read n next rest =>
    simp only [bind, Except.bind]
    by_cases hbound : limit < n ∨ rest.length < n
    · rw [if_pos hbound]
      exact .short (.oversized n) _
    · have hhigher : ¬(higher < n ∨ (rest ++ more).length < n) := by
        rw [List.length_append]
        omega
      rw [if_neg hbound, if_neg hhigher]
      exact .read n next rest
  | refused error => exact .refused error
  | short h => exact .short h _

theorem steady_script : Steady script :=
  Steady.bind (fun offset bytes more => foretells_length (Nat.le_refl _) offset bytes more)
    fun n => (steady_take n).bind fun _ => .pure _

theorem steady_input : Steady input :=
  steady_digest.bind fun _ => (steady_nat 4).bind fun _ => steady_script.bind fun _ =>
    (steady_nat 4).bind fun _ => .pure _

theorem steady_output : Steady output :=
  (steady_nat 8).bind fun _ => steady_script.bind fun _ => .pure _

section Lists

variable {α : Type} {item : Reader α}

theorem steady_many (h : Steady item) (n : Nat) : Steady (many item n) := by
  induction n with
  | zero => exact .pure []
  | succ n ih => exact h.bind fun _ => ih.bind fun _ => .pure _

theorem steady_counted (least : Nat) (h : Steady item) : Steady (counted least item) := by
  refine Steady.bind (fun offset bytes more => ?_) fun n => steady_many h n
  refine foretells_length (Nat.div_le_div_right ?_) offset bytes more
  rw [List.length_append]
  exact Nat.le_add_right _ _

end Lists

theorem steady_transaction : Steady transaction :=
  (steady_nat 4).bind fun _ => (steady_counted minInputSize steady_input).bind fun _ =>
    (steady_counted minOutputSize steady_output).bind fun _ => (steady_nat 4).bind fun _ => .pure _

end Cursor

/-! ## Long scripts -/

/-- Wherever `bytes` come next, the reader refuses them with `error`. -/
def Refuses {α : Type} (reader : Reader α) (bytes : Bytes) (error : WireError) : Prop :=
  ∀ (offset : Nat) (rest : Bytes), reader ⟨offset, bytes ++ rest⟩ = .error error

theorem Refuses.bind {α β : Type} {reader : Reader α} {bytes : Bytes} {error : WireError}
    (h : Refuses reader bytes error) (next : α × Cursor → Except WireError β) (offset : Nat)
    (rest : Bytes) : (reader ⟨offset, bytes ++ rest⟩ >>= next) = .error error := by
  rw [h]
  rfl

/-- Whether a script is longer than what is read. -/
def isLong (script : Bytes) : Bool :=
  maxScriptSize < script.length

theorem length_le_of_not_isLong {script : Bytes} (h : isLong script = false) :
    script.length ≤ maxScriptSize :=
  Nat.not_lt.1 (of_decide_eq_false h)

namespace Cursor

theorem refuses_script {bytes : Bytes} (hlong : isLong bytes = true)
    (hlt : bytes.length < 2 ^ 64) :
    Refuses script (encodeScript bytes) (.oversized bytes.length) := by
  intro offset rest
  have hbound : maxScriptSize < bytes.length ∨ (bytes ++ rest).length < bytes.length :=
    .inl (of_decide_eq_true hlong)
  rw [script, length, encodeScript, List.append_assoc, (reads_compactSize hlt).bind]
  simp only [if_pos hbound, bind, Except.bind]

theorem refuses_input {value : TxInput} (hlong : isLong value.script = true)
    (hlt : value.script.length < 2 ^ 64) :
    Refuses input value.encode (.oversized value.script.length) := by
  intro offset rest
  have hindex : value.spent.index.toNat < 256 ^ 4 := value.spent.index.toNat_lt
  rw [input, TxInput.encode]
  simp only [List.append_assoc, (reads_digest _).bind, (reads_nat hindex).bind,
    (refuses_script hlong hlt).bind]

theorem refuses_output {value : TxOutput} (hlong : isLong value.script = true)
    (hlt : value.script.length < 2 ^ 64) :
    Refuses output value.encode (.oversized value.script.length) := by
  intro offset rest
  have hvalue : value.value.toNat < 256 ^ 8 := value.value.toNat_lt
  rw [output, TxOutput.encode]
  simp only [List.append_assoc, (reads_nat hvalue).bind, (refuses_script hlong hlt).bind]

section Lists

variable {α : Type} {item : Reader α} {encode : α → Bytes} {error : WireError}

/-- The first element that is refused decides. -/
theorem refuses_many {before after : List α} {bad : α}
    (hbefore : ∀ x ∈ before, Reads item (encode x) x) (hbad : Refuses item (encode bad) error) :
    Refuses (many item (before ++ bad :: after).length) ((before ++ bad :: after).flatMap encode)
      error := by
  induction before with
  | nil =>
    intro offset rest
    rw [List.nil_append, List.length_cons, many, List.flatMap_cons, List.append_assoc, hbad.bind]
  | cons x before ih =>
    intro offset rest
    rw [List.forall_mem_cons] at hbefore
    rw [List.cons_append, List.length_cons, many, List.flatMap_cons, List.append_assoc,
      hbefore.1.bind]
    simp only [(ih hbefore.2).bind]

/-- A list is refused for the first element with a long script. -/
theorem refuses_counted {least : Nat} {items : List α} {bad : α} {script : α → Bytes}
    (hleast : 0 < least) (hcount : items.length < 2 ^ 64)
    (hsize : ∀ x ∈ items, least ≤ (encode x).length)
    (hreads : ∀ x, (script x).length ≤ maxScriptSize → Reads item (encode x) x)
    (hfirst : items.find? (isLong ∘ script) = some bad) (hbad : Refuses item (encode bad) error) :
    Refuses (counted least item) (CompactSize.encode items.length ++ items.flatMap encode)
      error := by
  intro offset rest
  rw [counted_append item hleast hcount hsize]
  obtain ⟨-, before, after, rfl, hbefore⟩ := List.find?_eq_some_iff_append.1 hfirst
  refine refuses_many (fun x hx => hreads x ?_) hbad _ rest
  exact length_le_of_not_isLong (by simpa using hbefore x hx)

end Lists

end Cursor

namespace Transaction

/-- The scripts of a transaction in the order in which they are written. -/
def scripts (tx : Transaction) : List Bytes :=
  tx.inputs.map TxInput.script ++ tx.outputs.map TxOutput.script

/-- **A transaction is refused for its first long script.** -/
theorem refuses_transaction {tx : Transaction} (h : tx.Writable) {script : Bytes}
    (hfirst : tx.scripts.find? isLong = some script) :
    Refuses Cursor.transaction tx.encode (.oversized script.length) := by
  intro offset rest
  have hversion : tx.version.toUInt32.toNat < 256 ^ 4 := tx.version.toUInt32.toNat_lt
  rw [Cursor.transaction, encode]
  rw [scripts, List.find?_append, List.find?_map, List.find?_map] at hfirst
  cases hinput : tx.inputs.find? (isLong ∘ TxInput.script) with
  | some bad =>
    rw [hinput, Option.map_some, Option.some_or] at hfirst
    obtain rfl := Option.some.inj hfirst
    have hlong := List.find?_some hinput
    have hbad := Cursor.refuses_input hlong
      (h.inputScripts bad (List.mem_of_find?_eq_some hinput))
    have hin := Cursor.refuses_counted (by decide) h.inputs
      (fun input _ => input.minInputSize_le) (fun _ => Cursor.reads_input) hinput hbad
    simp only [List.append_assoc, (Cursor.reads_nat hversion).bind]
    rw [← List.append_assoc (CompactSize.encode tx.inputs.length), hin.bind]
  | none =>
    rw [hinput, Option.map_none, Option.none_or, Option.map_eq_some_iff] at hfirst
    obtain ⟨bad, houtput, rfl⟩ := hfirst
    have hshort : ∀ input ∈ tx.inputs, input.script.length ≤ maxScriptSize := fun input hi =>
      length_le_of_not_isLong (by simpa using List.find?_eq_none.1 hinput input hi)
    have hin := Cursor.reads_counted (by decide) h.inputs (fun input _ => input.minInputSize_le)
      fun input hi => Cursor.reads_input (hshort input hi)
    have hlong := List.find?_some houtput
    have hbad := Cursor.refuses_output hlong
      (h.outputScripts bad (List.mem_of_find?_eq_some houtput))
    have hout := Cursor.refuses_counted (by decide) h.outputs
      (fun output _ => output.minOutputSize_le) (fun _ => Cursor.reads_output) houtput hbad
    simp only [List.append_assoc, (Cursor.reads_nat hversion).bind]
    rw [← List.append_assoc (CompactSize.encode tx.inputs.length), hin.bind]
    rw [← List.append_assoc (CompactSize.encode tx.outputs.length)]
    simp only [hout.bind]

/-- **Damaged wire forms are refused for what was done to them.** -/
theorem damaged_refused :
    (∀ tx : Transaction, tx.Readable →
      (∀ more : Bytes, more ≠ [] →
        decode (tx.encode ++ more) = .error (.trailingBytes more.length)) ∧
      ∀ part, part <+: tx.encode → part ≠ tx.encode →
        ∃ error, decode part = .error error ∧ error.Shortage) ∧
    ∀ tx : Transaction, tx.Writable → (∃ script ∈ tx.scripts, maxScriptSize < script.length) →
      ∃ first, tx.scripts.find? (maxScriptSize < ·.length) = some first ∧
        decode tx.encode = .error (.oversized first.length) := by
  refine ⟨fun tx hreadable => ⟨fun more hmore => ?_, fun part hpart hcut => ?_⟩,
    fun tx hwritable hlong => ?_⟩
  · have hread := reads_transaction hreadable 0 more
    rw [decode, Cursor.start, hread]
    simp only [bind, Except.bind, List.length_eq_zero_iff, if_neg hmore]
  · obtain ⟨error, hrefused, hshortage⟩ := Cursor.steady_transaction.shortage_of_cut
      (reads_transaction hreadable) hpart hcut 0
    refine ⟨error, ?_, hshortage⟩
    rw [decode, Cursor.start, hrefused]
    rfl
  · obtain ⟨script, hscript, hsize⟩ := hlong
    have hsome : (tx.scripts.find? isLong).isSome :=
      List.find?_isSome.2 ⟨script, hscript, decide_eq_true hsize⟩
    obtain ⟨first, hfirst⟩ := Option.isSome_iff_exists.1 hsome
    refine ⟨first, hfirst, ?_⟩
    have hrefused := refuses_transaction hwritable hfirst 0 []
    rw [List.append_nil] at hrefused
    rw [decode, Cursor.start, hrefused]
    rfl

/-- A transaction with one input and one output. -/
def lone : Transaction :=
  ⟨1, [⟨⟨Digest.zero, 0⟩, [0x51], 0⟩], [⟨7, [0x51, 0x51]⟩], 0⟩

theorem damaged_refused_lone :
    lone.Readable ∧ decode (lone.encode ++ [0, 0]) = .error (.trailingBytes 2) ∧
      lone.encode.take 40 <+: lone.encode ∧ lone.encode.take 40 ≠ lone.encode ∧
      (∃ error, decode (lone.encode.take 40) = .error error ∧ error.Shortage) ∧
      ∃ first, (oversized 0).scripts.find? (maxScriptSize < ·.length) = some first ∧
        decode (oversized 0).encode = .error (.oversized first.length) := by
  have hreadable : lone.Readable := readable_of_size_le (by decide)
  have hpart : lone.encode.take 40 <+: lone.encode := List.take_prefix 40 lone.encode
  have hcut : lone.encode.take 40 ≠ lone.encode := by decide
  have hlong : ∃ script ∈ (oversized 0).scripts, maxScriptSize < script.length :=
    ⟨_, List.mem_cons_self, by rw [List.length_replicate]; exact Nat.lt_succ_self _⟩
  obtain ⟨hdamaged, hoversized⟩ := damaged_refused
  obtain ⟨htrailing, hcuts⟩ := hdamaged lone hreadable
  exact ⟨hreadable, htrailing [0, 0] (by decide), hpart, hcut, hcuts _ hpart hcut,
    hoversized (oversized 0) (writable_oversized 0) hlong⟩

/-- The bytes end in the input, and the complaint is about the number of inputs before it. -/
example : decode (lone.encode.take 40) = .error (.oversized 1) := by
  rfl

end Transaction

end WorkLease
