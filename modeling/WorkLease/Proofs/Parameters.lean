import Mathlib.Tactic.Common
import WorkLease.Proofs.JsonValues
import WorkLease.Rpc

/-!
# The parameters of a solution

The parameters are an object, alone or first in an array, and only five of its fields are read. A
field takes texts or the integers of a range, and any but the id may be left out or null.

* `Judged`, `Judges.bind`: a step that reads a field complains exactly if the field is bad, so steps
  in sequence complain about the first bad field.
* `ofParams_object_eq_ok_iff`: the submission that is read is the one that the fields show.
* `shownBy_toFields`: what a submission is written as shows it, in any order of the fields.

**Theorem (`ofParams_exact`).** Parameters are read exactly: what is good is read as it stands, and
else the complaint is about the first bad field.
-/

namespace WorkLease.Submission

/-! ## Fields -/

/-- The fields of a solution. -/
inductive Field where
  | id
  | coinbase
  | version
  | nonce
  | time
  deriving DecidableEq

namespace Field

def name : Field → String
  | id => "id"
  | coinbase => "coinbase"
  | version => "version"
  | nonce => "nonce"
  | time => "time"

/-- The order in which bad fields are reported. -/
def order : List Field := [id, coinbase, version, nonce, time]

theorem mem_order (field : Field) : field ∈ order := by
  cases field <;> decide

theorem name_injective : Function.Injective name := by
  intro field other h
  cases field <;> cases other <;> first | rfl | exact absurd h (by decide)

/-- The values of a field. -/
def Takes : Field → Json → Prop
  | id, json | coinbase, json => ∃ text, json = .text text
  | version, json => ∃ n, json = .int n ∧ -0x80000000 ≤ n ∧ n < 0x80000000
  | nonce, json | time, json => ∃ n, json = .int n ∧ 0 ≤ n ∧ n < 0x100000000

/-- A field is good with one of its values. Any but the id may also be left out or null. -/
def Good (field : Field) (shown : Option Json) : Prop :=
  (∃ json, shown = some json ∧ field.Takes json) ∨
    field ≠ id ∧ (shown = none ∨ shown = some .null)

/-- The complaint about a bad field. -/
def complaint : Field → Option Json → ProtocolError
  | id, none | id, some .null => .missingInput "id"
  | id, some _ => .invalidArgument .idNotText
  | coinbase, _ => .invalidCoinbase
  | version, _ => .invalidArgument .versionNotSigned32
  | nonce, _ => .invalidArgument (.notUnsigned32 "nonce")
  | time, _ => .invalidArgument (.notUnsigned32 "time")

end Field

/-- The value that a submission has in a field. -/
def valueOf (submission : Submission) : Field → Option Json
  | .id => some (.text submission.id)
  | .coinbase => submission.coinbase.map .text
  | .version => submission.version.map fun n => .int n.toInt
  | .nonce => submission.nonce.map fun n => .int n.toNat
  | .time => submission.time.map fun n => .int n.toNat

/-- The fields show a submission. -/
def ShownBy (submission : Submission) (fields : List (String × Json)) : Prop :=
  ∀ field : Field, Json.Shows (fields.lookup field.name) (submission.valueOf field)

/-- The parameters have these fields, by name or by position. -/
def HasFields (params : Json) (fields : List (String × Json)) : Prop :=
  params = .object fields ∨ ∃ rest, params = .array (.object fields :: rest)

theorem fieldsOf?_eq_some_iff {params : Json} {fields : List (String × Json)} :
    fieldsOf? params = some fields ↔ HasFields params fields := by
  constructor
  · intro h
    unfold fieldsOf? at h
    split at h
    · cases h
      exact .inl rfl
    · cases h
      exact .inr ⟨_, rfl⟩
    · cases h
  · rintro (rfl | ⟨rest, rfl⟩) <;> rfl

/-! ## Reading one field -/

section Fields

variable {shown : Option Json}

theorem readId_eq_ok_iff {id : String} : readId shown = .ok id ↔ shown = some (.text id) := by
  cases shown with
  | none => simp [readId]
  | some json => cases json <;> simp [readId]

/-- A step succeeds if the field is good, and else it complains about it. -/
inductive Judged {α : Type} (field : Field) (shown : Option Json) :
    Except ProtocolError α → Prop
  | good (h : field.Good shown) (value : α) : Judged field shown (.ok value)
  | bad (h : ¬ field.Good shown) : Judged field shown (.error (field.complaint shown))

theorem judged_of_ok_iff {α : Type} {field : Field} {step : Except ProtocolError α}
    (hok : field.Good shown ↔ ∃ value, step = .ok value)
    (herror : ∀ error, step = .error error → error = field.complaint shown) :
    Judged field shown step := by
  cases step with
  | ok value => exact .good (hok.2 ⟨value, rfl⟩) value
  | error error =>
    obtain rfl := herror error rfl
    refine .bad fun hgood => ?_
    obtain ⟨value, hvalue⟩ := hok.1 hgood
    cases hvalue

/-- An optional field is good if it shows a value of its type, or none. -/
theorem good_iff_shows {α : Type} {write : α → Json} {field : Field} (hne : field ≠ .id)
    (htakes : ∀ json, field.Takes json ↔ ∃ a, json = write a) :
    field.Good shown ↔ ∃ result : Option α, Json.Shows shown (result.map write) := by
  constructor
  · rintro (⟨json, rfl, hjson⟩ | ⟨-, rfl | rfl⟩)
    · obtain ⟨a, rfl⟩ := (htakes json).1 hjson
      exact ⟨some a, .inl rfl⟩
    · exact ⟨none, .inl rfl⟩
    · exact ⟨none, .inr ⟨rfl, rfl⟩⟩
  · rintro ⟨_ | a, hshown | ⟨hnone, hnull⟩⟩
    · exact .inr ⟨hne, .inl hshown⟩
    · exact .inr ⟨hne, .inr hnull⟩
    · exact .inl ⟨write a, hshown, (htakes _).2 ⟨a, rfl⟩⟩
    · cases hnone

theorem judged_id : Judged .id shown (readId shown) := by
  refine judged_of_ok_iff ?_ ?_
  · simp only [readId_eq_ok_iff]
    constructor
    · rintro (⟨json, rfl, text, rfl⟩ | ⟨hne, -⟩)
      · exact ⟨text, rfl⟩
      · exact absurd rfl hne
    · rintro ⟨text, rfl⟩
      exact .inl ⟨.text text, rfl, text, rfl⟩
  · intro error h
    cases shown with
    | none =>
      cases h
      rfl
    | some json => cases json <;> cases h <;> rfl

end Fields

/-! ## Reading an optional field -/

section Optional

variable {α : Type} {shown : Option Json}

/-- Reads an optional field, or reports an error that does not depend on what it shows. -/
def readOptional (read : Json → Option α) (error : ProtocolError) (shown : Option Json) :
    Except ProtocolError (Option α) :=
  (Json.optional read shown).elim (.error error) .ok

section Values

variable {read : Json → Option α} {write : α → Json} {error : ProtocolError}
  (hread : ∀ json a, read json = some a ↔ json = write a) (hnull : ∀ a, write a ≠ .null)

include hread hnull

theorem readOptional_eq_ok_iff {result : Option α} :
    readOptional read error shown = .ok result ↔ Json.Shows shown (result.map write) := by
  rw [← Json.optional_eq_some_iff hread hnull, readOptional]
  cases Json.optional read shown <;> simp

theorem judged_readOptional {field : Field} (hne : field ≠ .id)
    (htakes : ∀ json, field.Takes json ↔ ∃ a, json = write a)
    (hcomplaint : error = field.complaint shown) :
    Judged field shown (readOptional read error shown) := by
  refine judged_of_ok_iff ?_ ?_
  · simp only [readOptional_eq_ok_iff hread hnull]
    exact good_iff_shows hne htakes
  · intro found h
    rw [readOptional] at h
    cases hoptional : Json.optional read shown with
    | none =>
      rw [hoptional] at h
      cases h
      exact hcomplaint
    | some result =>
      rw [hoptional] at h
      cases h

end Values

theorem readCoinbase_eq : readCoinbase shown = readOptional Json.text? .invalidCoinbase shown := by
  rw [readCoinbase, readOptional]
  cases Json.optional Json.text? shown <;> rfl

theorem readVersion_eq : readVersion shown =
    readOptional Json.int32? (.invalidArgument .versionNotSigned32) shown := by
  rw [readVersion, readOptional]
  cases Json.optional Json.int32? shown <;> rfl

theorem optionalUInt32_eq (name : String) : optionalUInt32 name shown =
    readOptional Json.uint32? (.invalidArgument (.notUnsigned32 name)) shown := by
  rw [optionalUInt32, readOptional]
  cases Json.optional Json.uint32? shown <;> rfl

theorem readCoinbase_eq_ok_iff {coinbase : Option String} :
    readCoinbase shown = .ok coinbase ↔ Json.Shows shown (coinbase.map .text) := by
  rw [readCoinbase_eq]
  exact readOptional_eq_ok_iff (fun _ _ => Json.text?_eq_some_iff) nofun

theorem readVersion_eq_ok_iff {version : Option Int32} : readVersion shown = .ok version ↔
    Json.Shows shown (version.map fun n => .int n.toInt) := by
  rw [readVersion_eq]
  exact readOptional_eq_ok_iff (fun _ _ => Json.int32?_eq_some_iff) nofun

theorem optionalUInt32_eq_ok_iff {name : String} {result : Option UInt32} :
    optionalUInt32 name shown = .ok result ↔
      Json.Shows shown (result.map fun n => .int n.toNat) := by
  rw [optionalUInt32_eq]
  exact readOptional_eq_ok_iff (fun _ _ => Json.uint32?_eq_some_iff) nofun

theorem judged_coinbase : Judged .coinbase shown (readCoinbase shown) := by
  rw [readCoinbase_eq]
  exact judged_readOptional (fun _ _ => Json.text?_eq_some_iff) nofun (by decide)
    (fun _ => Iff.rfl) rfl

theorem judged_version : Judged .version shown (readVersion shown) := by
  rw [readVersion_eq]
  exact judged_readOptional (fun _ _ => Json.int32?_eq_some_iff) nofun (by decide)
    (fun _ => Json.spans_int32.exists_iff) rfl

/-- Each of the unsigned fields. -/
theorem judged_unsigned {field : Field} (hfield : field = .nonce ∨ field = .time) :
    Judged field shown (optionalUInt32 field.name shown) := by
  rw [optionalUInt32_eq]
  rcases hfield with rfl | rfl <;>
    exact judged_readOptional (fun _ _ => Json.uint32?_eq_some_iff) nofun (by decide)
      (fun _ => Json.spans_uint32.exists_iff) rfl

end Optional

/-! ## The first bad field -/

section Order

variable {fields : List (String × Json)} {first field : Field} {rest : List Field}

/-- A field is bad, and every field before it is good. -/
def FirstBad (fields : List (String × Json)) (order : List Field) (bad : Field) : Prop :=
  ∃ before later, order = before ++ bad :: later ∧
    (∀ field ∈ before, field.Good (fields.lookup field.name)) ∧
    ¬ bad.Good (fields.lookup bad.name)

theorem firstBad_cons_of_bad (h : ¬ first.Good (fields.lookup first.name)) :
    FirstBad fields (first :: rest) field ↔ field = first := by
  constructor
  · rintro ⟨_ | ⟨other, before⟩, later, horder, hgood, -⟩
    · exact (List.cons.inj horder).1.symm
    · obtain ⟨rfl, -⟩ := List.cons.inj horder
      exact absurd (List.forall_mem_cons.1 hgood).1 h
  · rintro rfl
    exact ⟨[], rest, rfl, List.forall_mem_nil _, h⟩

theorem firstBad_cons_of_good (h : first.Good (fields.lookup first.name)) :
    FirstBad fields (first :: rest) field ↔ FirstBad fields rest field := by
  constructor
  · rintro ⟨_ | ⟨other, before⟩, later, horder, hgood, hbad⟩
    · obtain ⟨rfl, -⟩ := List.cons.inj horder
      exact absurd h hbad
    · obtain ⟨-, rfl⟩ := List.cons.inj horder
      exact ⟨before, later, rfl, (List.forall_mem_cons.1 hgood).2, hbad⟩
  · rintro ⟨before, later, rfl, hgood, hbad⟩
    exact ⟨first :: before, later, rfl, List.forall_mem_cons.2 ⟨h, hgood⟩, hbad⟩

/-- Where some field is bad there is a first one. -/
theorem exists_firstBad {order : List Field} (hmem : field ∈ order)
    (hbad : ¬ field.Good (fields.lookup field.name)) : ∃ bad, FirstBad fields order bad := by
  induction order with
  | nil => cases hmem
  | cons first rest ih =>
    by_cases hfirst : first.Good (fields.lookup first.name)
    · simp only [firstBad_cons_of_good hfirst]
      rcases List.mem_cons.1 hmem with rfl | hrest
      · exact absurd hfirst hbad
      · exact ih hrest
    · exact ⟨first, (firstBad_cons_of_bad hfirst).2 rfl⟩

/-- A result complains about the first bad field of a list, and about nothing else. -/
def Judges {α : Type} (fields : List (String × Json)) (order : List Field)
    (result : Except ProtocolError α) : Prop :=
  ∀ error, result = .error error ↔ ∃ bad, FirstBad fields order bad ∧
    error = bad.complaint (fields.lookup bad.name)

theorem judges_nil {α : Type} (value : α) : Judges fields [] (.ok value) := by
  intro error
  simp [FirstBad]

/-- **Steps in sequence** complain about the first bad field of theirs. -/
theorem Judges.bind {α β : Type} {step : Except ProtocolError α}
    {next : α → Except ProtocolError β} (hstep : Judged first (fields.lookup first.name) step)
    (hnext : ∀ value, Judges fields rest (next value)) :
    Judges fields (first :: rest) (step >>= next) := by
  intro error
  cases hstep with
  | good h value =>
    simp only [firstBad_cons_of_good h]
    exact hnext value error
  | bad h =>
    simp only [firstBad_cons_of_bad h, exists_eq_left]
    exact ⟨fun herror => (Except.error.inj herror).symm, fun herror => herror ▸ rfl⟩

end Order

/-! ## Reading all of them -/

section Params

variable {params : Json} {fields : List (String × Json)} {submission : Submission}

theorem HasFields.unique {others : List (String × Json)} (h : HasFields params fields)
    (hothers : HasFields params others) : fields = others := by
  rw [← fieldsOf?_eq_some_iff] at h hothers
  exact Option.some.inj (h.symm.trans hothers)

theorem ofParams_of_hasFields (h : HasFields params fields) :
    ofParams params = ofParams (.object fields) := by
  rcases h with rfl | ⟨rest, rfl⟩ <;> rfl

theorem ofParams_of_none (h : ¬ ∃ fields, HasFields params fields) :
    ofParams params = .error (.invalidArgument .notSolutionObject) := by
  cases hfields : fieldsOf? params with
  | none => rw [ofParams, hfields]
  | some fields => exact absurd ⟨fields, fieldsOf?_eq_some_iff.1 hfields⟩ h

/-- Two objects with the same five fields are read alike. -/
theorem ofParams_congr {others : List (String × Json)}
    (h : ∀ field : Field, fields.lookup field.name = others.lookup field.name) :
    ofParams (.object fields) = ofParams (.object others) := by
  have hid : fields.lookup "id" = others.lookup "id" := h .id
  have hcoinbase : fields.lookup "coinbase" = others.lookup "coinbase" := h .coinbase
  have hversion : fields.lookup "version" = others.lookup "version" := h .version
  have hnonce : fields.lookup "nonce" = others.lookup "nonce" := h .nonce
  have htime : fields.lookup "time" = others.lookup "time" := h .time
  simp only [ofParams, fieldsOf?, hid, hcoinbase, hversion, hnonce, htime]

/-- **What is read is what the fields show.** -/
theorem ofParams_object_eq_ok_iff :
    ofParams (.object fields) = .ok submission ↔ submission.ShownBy fields := by
  simp only [ofParams, fieldsOf?, bind_eq_ok_iff, readId_eq_ok_iff, readCoinbase_eq_ok_iff,
    readVersion_eq_ok_iff, optionalUInt32_eq_ok_iff]
  constructor
  · rintro ⟨id, hid, coinbase, hcoinbase, version, hversion, nonce, hnonce, time, htime, hread⟩
    cases hread
    intro field
    cases field with
    | id => exact .inl hid
    | coinbase => exact hcoinbase
    | version => exact hversion
    | nonce => exact hnonce
    | time => exact htime
  · intro h
    refine ⟨submission.id, ?_, submission.coinbase, h .coinbase, submission.version, h .version,
      submission.nonce, h .nonce, submission.time, h .time, rfl⟩
    rcases h .id with hid | ⟨hnone, -⟩
    · exact hid
    · cases hnone

/-- **The first bad field is complained about.** -/
theorem judges_ofParams : Judges fields Field.order (ofParams (.object fields)) :=
  .bind judged_id fun _ => .bind judged_coinbase fun _ => .bind judged_version fun _ =>
    .bind (judged_unsigned (.inl rfl)) fun _ => .bind (judged_unsigned (.inr rfl)) fun _ =>
      judges_nil _

theorem ofParams_eq_ok_iff : ofParams params = .ok submission ↔
    ∃ fields, HasFields params fields ∧ submission.ShownBy fields := by
  constructor
  · intro hread
    by_cases h : ∃ fields, HasFields params fields
    · obtain ⟨fields, hfields⟩ := h
      rw [ofParams_of_hasFields hfields, ofParams_object_eq_ok_iff] at hread
      exact ⟨fields, hfields, hread⟩
    · rw [ofParams_of_none h] at hread
      cases hread
  · rintro ⟨fields, hfields, hshown⟩
    rw [ofParams_of_hasFields hfields, ofParams_object_eq_ok_iff]
    exact hshown

theorem ofParams_eq_error_iff {error : ProtocolError} : ofParams params = .error error ↔
    (¬ ∃ fields, HasFields params fields) ∧ error = .invalidArgument .notSolutionObject ∨
      ∃ fields, HasFields params fields ∧
        ∃ bad, FirstBad fields Field.order bad ∧ error = bad.complaint (fields.lookup bad.name) := by
  by_cases h : ∃ fields, HasFields params fields
  · obtain ⟨fields, hfields⟩ := h
    rw [ofParams_of_hasFields hfields, judges_ofParams error]
    constructor
    · exact fun hbad => .inr ⟨fields, hfields, hbad⟩
    · rintro (⟨hnone, -⟩ | ⟨others, hothers, hbad⟩)
      · exact absurd ⟨fields, hfields⟩ hnone
      · obtain rfl := hfields.unique hothers
        exact hbad
  · rw [ofParams_of_none h]
    constructor
    · exact fun herror => .inl ⟨h, (Except.error.inj herror).symm⟩
    · rintro (⟨-, rfl⟩ | ⟨fields, hfields, -⟩)
      · rfl
      · exact absurd ⟨fields, hfields⟩ h

/-- **An object is read** if all of its fields are good. -/
theorem exists_ofParams_object_iff : (∃ submission, ofParams (.object fields) = .ok submission) ↔
    ∀ field : Field, field.Good (fields.lookup field.name) := by
  constructor
  · rintro ⟨submission, hread⟩ field
    by_contra hbad
    obtain ⟨bad, hfirst⟩ := exists_firstBad field.mem_order hbad
    have herror := (judges_ofParams _).2 ⟨bad, hfirst, rfl⟩
    rw [hread] at herror
    cases herror
  · intro hgood
    cases hread : ofParams (.object fields) with
    | ok submission => exact ⟨submission, rfl⟩
    | error error =>
      obtain ⟨bad, ⟨_, _, -, -, hbad⟩, -⟩ := (judges_ofParams error).1 hread
      exact absurd (hgood bad) hbad

end Params

/-! ## Writing a submission -/

/-- What a field is written as: its value, or null or nothing where the value is missing. -/
def written (submission : Submission) (asNull : Field → Bool) (field : Field) : Option Json :=
  (submission.valueOf field).or (if asNull field then some .null else none)

/-- The fields of an object for a submission, in the given order. -/
def toFields (submission : Submission) (asNull : Field → Bool) (order : List Field) :
    List (String × Json) :=
  order.filterMap fun field => (submission.written asNull field).map fun json => (field.name, json)

theorem lookup_toFields (submission : Submission) (asNull : Field → Bool) (order : List Field)
    (field : Field) : (submission.toFields asNull order).lookup field.name =
      if field ∈ order then submission.written asNull field else none := by
  induction order with
  | nil => rfl
  | cons first rest ih =>
    rw [toFields, List.filterMap_cons]
    by_cases hfirst : field = first
    · subst hfirst
      rw [if_pos List.mem_cons_self]
      cases hwritten : submission.written asNull field with
      | none =>
        refine ih.trans ?_
        rw [hwritten, ite_self]
      | some json => exact List.lookup_cons_self
    · have hname : (field.name == first.name) = false :=
        beq_eq_false_iff_ne.2 fun h => hfirst (Field.name_injective h)
      simp only [List.mem_cons, hfirst, false_or]
      rw [← ih]
      cases submission.written asNull first with
      | none => rfl
      | some json =>
        rw [Option.map_some, List.lookup_cons, hname]
        rfl

/-- **What a submission is written as shows it.** -/
theorem shownBy_toFields (submission : Submission) (asNull : Field → Bool) {order : List Field}
    (hall : ∀ field, field ∈ order) : submission.ShownBy (submission.toFields asNull order) := by
  intro field
  rw [lookup_toFields, if_pos (hall field), written]
  cases submission.valueOf field with
  | some json => exact .inl rfl
  | none =>
    cases asNull field with
    | true => exact .inr ⟨rfl, rfl⟩
    | false => exact .inl rfl

/-! ## Exact reading -/

/-- What it means for a reader of parameters to be exact. -/
structure ReadsExactly (read : Json → Except ProtocolError Submission) : Prop where
  /-- Parameters are read exactly if they have fields and all of them are good. -/
  accepts : ∀ params, (∃ submission, read params = .ok submission) ↔
    ∃ fields, HasFields params fields ∧ ∀ field : Field, field.Good (fields.lookup field.name)
  /-- The submission that is read has exactly the values that the fields show. -/
  values : ∀ params submission, read params = .ok submission ↔
    ∃ fields, HasFields params fields ∧ submission.ShownBy fields
  /-- Otherwise there are no fields, or the complaint is about the first bad one. -/
  refuses : ∀ params error, read params = .error error ↔
    (¬ ∃ fields, HasFields params fields) ∧ error = .invalidArgument .notSolutionObject ∨
      ∃ fields, HasFields params fields ∧
        ∃ bad, FirstBad fields Field.order bad ∧ error = bad.complaint (fields.lookup bad.name)
  /-- An object alone is read as it is first in an array, whatever follows it there. -/
  positional : ∀ fields rest, read (.array (.object fields :: rest)) = read (.object fields)
  /-- Other fields do not matter, nor does the order of the fields. -/
  unknown : ∀ fields others,
    (∀ field : Field, fields.lookup field.name = others.lookup field.name) →
    read (.object fields) = read (.object others)
  /-- What a submission is written as is read back to it, in any order of the fields and with
  missing values left out or null. -/
  returns : ∀ (submission : Submission) asNull order, (∀ field, field ∈ order) →
    read (.object (submission.toFields asNull order)) = .ok submission

/-- **The parameters of a solution are read exactly.** -/
theorem ofParams_exact : ReadsExactly ofParams where
  accepts params := by
    constructor
    · rintro ⟨submission, hread⟩
      obtain ⟨fields, hfields, -⟩ := ofParams_eq_ok_iff.1 hread
      rw [ofParams_of_hasFields hfields] at hread
      exact ⟨fields, hfields, exists_ofParams_object_iff.1 ⟨submission, hread⟩⟩
    · rintro ⟨fields, hfields, hgood⟩
      rw [ofParams_of_hasFields hfields]
      exact exists_ofParams_object_iff.2 hgood
  values params submission := ofParams_eq_ok_iff
  refuses params error := ofParams_eq_error_iff
  positional fields rest := rfl
  unknown fields others h := ofParams_congr h
  returns submission asNull order hall :=
    ofParams_object_eq_ok_iff.2 (shownBy_toFields submission asNull hall)

end WorkLease.Submission
