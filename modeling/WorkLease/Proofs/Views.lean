import Mathlib.Tactic.Common
import WorkLease.Proofs.Acceptance
import WorkLease.Proofs.Coinbase
import WorkLease.Proofs.DisplayText
import WorkLease.Proofs.Operations
import WorkLease.Proofs.Reading
import WorkLease.WorkUnit

/-!
# What a miner makes of a view

A view shows digests, bits, an id and a coinbase as texts. Each of these texts is read back to what
it was written for, so that a miner who has nothing but the view assembles the header that the node
hashes, and may send the coinbase of the view along or leave it out.

* `ofDisplay_display`, `uint32?_ofNat`, `ofText_toText`: the texts of a view are read back.
* `header?_ofCandidate`: the header from the view is the header from the template.
* `readable_create`: the coinbase of a template is readable unless its payout script is too long.
* `submit_congr`: a submission counts by the block that it rebuilds.

**Theorem (`view_rebuilds`).** For every candidate that is issued with a payout script that can be
read, its view gives the header that is hashed and the coinbase of the template; a submission that
names the candidate comes to the same, in every state, with that coinbase or without one.

An id that is no longer held may be issued again, for another candidate. So that a submission is
about this candidate, whatever lease it names must be the one of this candidate; that is so in every
state after the issue while no other candidate is issued under the id (`namesOnly_run`).
-/

namespace WorkLease

/-! ## Texts of a view -/

/-- The 32-bit number that hexadecimal digits of either case write. -/
def Hex.uint32? (text : String) : Option UInt32 :=
  (toNat? text.toList).bind fun n => if n < 2 ^ 32 then some (UInt32.ofNat n) else none

theorem Hex.uint32?_ofNat (bits : UInt32) : uint32? (ofNat 8 bits.toNat) = some bits := by
  have hlt : bits.toNat < 16 ^ 8 := bits.toNat_lt
  rw [uint32?, ofNat, String.toList_ofList, toNat?_digitsOfNat, Nat.mod_eq_of_lt hlt,
    Option.bind_some, if_pos bits.toNat_lt, UInt32.ofNat_toNat]

namespace CandidateId

variable {lengths : List Nat} {digits : List Char}

/-- Groups with hyphens between are read as the digits they were made of. -/
theorem ungroup_group (hlengths : lengths ≠ []) (hdigits : digits.length = lengths.sum) :
    ungroup lengths (group lengths digits) = some digits := by
  induction lengths generalizing digits with
  | nil => exact absurd rfl hlengths
  | cons n lengths ih =>
    cases lengths with
    | nil =>
      have hall : digits.take n = digits := List.take_of_length_le (by simp [hdigits])
      rw [group, hall, ungroup, if_pos (by simpa using hdigits)]
    | cons m lengths =>
      rw [List.sum_cons] at hdigits
      have htake : (digits.take n).length = n := by
        rw [List.length_take]
        omega
      have hrest : (digits.drop n).length = (m :: lengths).sum := by
        rw [List.length_drop]
        omega
      simp only [group, ungroup, List.drop_left' htake, List.take_left' htake,
        ih (List.cons_ne_nil m lengths) hrest, Option.map_some, List.take_append_drop]

theorem length_group (hlengths : lengths ≠ []) (hdigits : digits.length = lengths.sum) :
    (group lengths digits).length + 1 = digits.length + lengths.length := by
  induction lengths generalizing digits with
  | nil => exact absurd rfl hlengths
  | cons n lengths ih =>
    cases lengths with
    | nil => simp [group, hdigits]
    | cons m lengths =>
      rw [List.sum_cons] at hdigits
      have hsum : (digits.drop n).length = (m :: lengths).sum := by
        rw [List.length_drop]
        omega
      have hrest := ih (List.cons_ne_nil m lengths) hsum
      rw [List.length_drop] at hrest
      simp only [group, List.length_append, List.length_cons, List.length_take] at hrest ⊢
      omega

theorem mem_group {c : Char} (h : c ∈ group lengths digits) : c ∈ digits ∨ c = '-' := by
  induction lengths generalizing digits with
  | nil => cases h
  | cons n lengths ih =>
    cases lengths with
    | nil => exact .inl (List.mem_of_mem_take h)
    | cons m lengths =>
      rcases List.mem_append.1 h with hhere | hrest
      · exact .inl (List.mem_of_mem_take hhere)
      · rcases List.mem_cons.1 hrest with rfl | hrest
        · exact .inr rfl
        · exact (ih hrest).imp_left List.mem_of_mem_drop

/-- **The text of an id is read back to it.** -/
theorem ofText_toText (id : CandidateId) : ofText id.toText = .ok id := by
  have hdigits : (Hex.digitsOfNat 32 id.bits.toNat).length = groupLengths.sum :=
    Hex.length_digitsOfNat 32 _
  have hlengths : groupLengths ≠ [] := by decide
  have hlength : (group groupLengths (Hex.digitsOfNat 32 id.bits.toNat)).length = 36 :=
    Nat.succ.inj ((length_group hlengths hdigits).trans (by rw [Hex.length_digitsOfNat]; rfl))
  have hvisible : ∀ c ∈ group groupLengths (Hex.digitsOfNat 32 id.bits.toNat),
      Text.isBlank c = false := by
    intro c hc
    rcases mem_group hc with hc | rfl
    · exact Hex.isBlank_of_mem_digitsOfNat c hc
    · rfl
  have hbits : id.bits.toNat < 16 ^ 32 := id.bits.isLt
  have hread : ofChars? (group groupLengths (Hex.digitsOfNat 32 id.bits.toNat)) = some id := by
    rw [ofChars?, hlength, if_neg (by decide), if_pos rfl, ofGroups?,
      ungroup_group hlengths hdigits, Option.bind_some, ofDigits?,
      if_pos (Hex.length_digitsOfNat 32 _), Hex.toNat?_digitsOfNat, Nat.mod_eq_of_lt hbits,
      Option.map_some, BitVec.ofNat_toNat, BitVec.setWidth_eq]
  rw [ofText, toText, String.toList_ofList, Text.trimChars_eq_self hvisible, hread]

end CandidateId

/-! ## The header -/

/-- The header that a miner assembles from what a view shows. -/
def WorkUnit.header? (view : WorkUnit) (coinbase : Transaction) (time : UInt32)
    (version : Int32) (nonce : UInt32) : Option Header := do
  let parent ← (Digest.ofDisplay view.parent).toOption
  let branch ← view.branch.mapM fun text => (Digest.ofDisplay text).toOption
  let bits ← Hex.uint32? view.bits
  return ⟨version, parent, Merkle.fold coinbase.txid branch, time, bits, nonce⟩

theorem Digest.mapM_ofDisplay_display (branch : List Digest) :
    (branch.map display).mapM (fun text => (ofDisplay text).toOption) = some branch := by
  induction branch with
  | nil => rfl
  | cons digest branch ih =>
    rw [List.map_cons, List.mapM_cons, ih, ofDisplay_display]
    rfl

/-- **The header from the view is the header from the template.** -/
theorem header?_ofCandidate (candidate : Candidate) (coinbase : Transaction) (time : UInt32)
    (version : Int32) (nonce : UInt32) :
    (WorkUnit.ofCandidate candidate).header? coinbase time version nonce =
      some (candidate.template.headerFor (candidate.template.rootWith coinbase) time version
        nonce) := by
  simp only [WorkUnit.header?, WorkUnit.ofCandidate, Digest.ofDisplay_display,
    Digest.mapM_ofDisplay_display, Hex.uint32?_ofNat]
  rfl

/-! ## The coinbase -/

/-- A built coinbase is readable unless its payout script is too long. -/
theorem Coinbase.readable_create (height value : UInt64) {payout : Bytes}
    (hpayout : payout.length ≤ maxScriptSize) : (create height value payout).Readable := by
  rw [create_eq]
  have hone : 1 < 2 ^ 64 := by decide
  refine ⟨hone, hone, fun input hinput => ?_, fun output houtput => ?_⟩
  · obtain rfl := List.mem_singleton.1 hinput
    exact (length_createdScript_le height).trans (by decide)
  · obtain rfl := List.mem_singleton.1 houtput
    exact hpayout

theorem Transaction.ofHex_toHex {tx : Transaction} (h : tx.Readable) : ofHex tx.toHex = .ok tx :=
  ofHex_eq_ok h (decode_toHex tx)

namespace Node

variable {node later : Node} {op : Op} {candidate : Candidate} {submission other : Submission}

/-- The coinbase of an issued candidate is read back from its text. -/
theorem readable_of_issuedBy (hissued : node.issuedBy op = some candidate)
    (hpayout : node.settings.payout.length ≤ maxScriptSize) {tx : Transaction}
    (htx : candidate.template.coinbase = some tx) : tx.Readable := by
  have hissues := issues_of_issuedBy hissued
  generalize (node.perform op).2 = after at hissues
  obtain ⟨-, -, -, hbuild, -⟩ := hissues
  have hcoinbase := (Template.build_own hbuild).2.symm.trans htx
  split_ifs at hcoinbase
  obtain rfl := Option.some.inj hcoinbase
  exact Coinbase.readable_create _ _ hpayout

/-! ## The submission -/

/-- A submission counts by the block that it rebuilds. -/
theorem submit_congr (h : later.rebuild submission = later.rebuild other) :
    later.submit submission = later.submit other := by
  have hscreen : later.screen submission = later.screen other := by rw [screen, screen, h]
  have hdecide : later.decideSubmission submission = later.decideSubmission other := by
    rw [decideSubmission, decideSubmission, hscreen]
  rw [submit, submit, hdecide]

/-- Whatever lease the submission names is the lease of the candidate. -/
def NamesOnly (node : Node) (submission : Submission) (candidate : Candidate) : Prop :=
  ∀ lease, node.leaseOf submission = .ok lease → lease.candidate = candidate

/-- The coinbase of the template may be sent along or left out. -/
theorem submit_with_coinbase {text : String} {tx : Transaction}
    (hnames : later.NamesOnly submission candidate) (homitted : submission.coinbase = none)
    (htext : Transaction.ofHex text = .ok tx) (htx : candidate.template.coinbase = some tx) :
    later.submit { submission with coinbase := some text } = later.submit submission := by
  have hcoinbase : ∀ lease, later.leaseOf submission = .ok lease →
      ({ submission with coinbase := some text } : Submission).coinbaseOn lease.template =
        submission.coinbaseOn lease.template := by
    intro lease hlease
    have htemplate : lease.template.coinbase = some tx := by
      rw [Lease.template, hnames lease hlease, htx]
    simp only [Submission.coinbaseOn, htext, homitted, htemplate]
  have hsame : later.leaseOf { submission with coinbase := some text } =
      later.leaseOf submission := rfl
  refine submit_congr ?_
  rw [rebuild, rebuild, hsame]
  cases hlease : later.leaseOf submission with
  | error error => simp only [bind, Except.bind]
  | ok lease => simp only [bind, Except.bind, hcoinbase lease hlease, Submission.headerOn]

/-! ## Which candidate an id names -/

/-- No lease but the one of the candidate is held under its id. -/
def HoldsOnly (node : Node) (candidate : Candidate) : Prop :=
  ∀ held ∈ node.leases.candidates, held.id = candidate.id → held = candidate

/-- The id of an issued candidate is new. -/
theorem holdsOnly_issued {settings : Settings} {offered : List PoolEntry}
    (hsound : node.Sound settings offered) (hissued : node.issuedBy op = some candidate) :
    (node.perform op).2.HoldsOnly candidate := by
  intro held hheld hid
  rcases mem_candidates_perform hheld with hold | hnew
  · have hfresh := id_not_mem_of_issuedBy hsound.leases hissued
    rw [LeaseBook.ids_eq] at hfresh
    exact absurd (List.mem_map.2 ⟨held, hold, hid⟩) hfresh
  · exact Option.some.inj (hnew.symm.trans hissued)

/-- It stays with the candidate while no other candidate is issued under it. -/
theorem HoldsOnly.run (h : node.HoldsOnly candidate) {more : List Op}
    (halone : ∀ issued ∈ node.issuedOver more, issued.id = candidate.id → issued = candidate) :
    (node.run more).2.HoldsOnly candidate := by
  induction more generalizing node with
  | nil => exact h
  | cons op more ih =>
    refine ih (fun held hheld hid => ?_) fun issued hissued =>
      halone issued (List.mem_append_right _ hissued)
    rcases mem_candidates_perform hheld with hold | hnew
    · exact h held hold hid
    · exact halone held (List.mem_append_left _ (Option.mem_toList.2 hnew)) hid

/-- **A submission with the id of a view** is about the candidate of the view, in every state after
its issue while no other candidate is issued under the id. -/
theorem namesOnly_run {config : Config} {ops more : List Op} (hreached : ReachedBy config ops node)
    (hissued : node.issuedBy op = some candidate)
    (halone : ∀ issued ∈ (node.perform op).2.issuedOver more,
      issued.id = candidate.id → issued = candidate)
    (hid : submission.id = (WorkUnit.ofCandidate candidate).id) :
    ((node.perform op).2.run more).2.NamesOnly submission candidate := by
  intro lease hlease
  have hlater := (hreached.run (op :: more)).sound.2.leases
  obtain ⟨hnamed, hheld⟩ := (leaseOf_eq_ok_iff hlater).1 hlease
  rw [hid, WorkUnit.ofCandidate, CandidateId.ofText_toText] at hnamed
  exact (holdsOnly_issued hreached.sound.2 hissued).run halone lease.candidate
    (List.mem_map_of_mem hheld) (Except.ok.inj hnamed).symm

/-! ## The view of a candidate -/

/-- What a miner makes of a view is what the node makes of the candidate. -/
structure Rebuilds (candidate : Candidate) (view : WorkUnit) : Prop where
  header : ∀ coinbase time version nonce, view.header? coinbase time version nonce =
    some (candidate.template.headerFor (candidate.template.rootWith coinbase) time version nonce)
  /-- It is the header that is examined when a submission gives the same values. -/
  hashed : ∀ (later : Node) submission lease nonce coinbase,
    later.Gives submission lease nonce coinbase → lease.candidate = candidate →
    ∃ header, view.header? coinbase (submission.time.getD view.time)
        (submission.version.getD view.version) nonce = some header ∧
      later.rebuild submission = .ok (candidate.template, coinbase, header) ∧
      later.screen submission = later.examine candidate.template coinbase header
  coinbase : ∀ text, view.coinbase = some text →
    ∃ tx, Transaction.ofHex text = .ok tx ∧ candidate.template.coinbase = some tx
  /-- Result and node are the same with the coinbase of the view and without one. -/
  attached : ∀ text, view.coinbase = some text → ∀ (later : Node) submission,
    submission.coinbase = none → later.NamesOnly submission candidate →
      later.submit { submission with coinbase := some text } = later.submit submission

theorem rebuild_header {lease : Lease} {nonce : UInt32} {coinbase : Transaction}
    (hgives : later.Gives submission lease nonce coinbase) (hlease : lease.candidate = candidate) :
    ∃ header, (WorkUnit.ofCandidate candidate).header? coinbase
        (submission.time.getD candidate.template.time)
        (submission.version.getD candidate.template.version) nonce = some header ∧
      later.rebuild submission = .ok (candidate.template, coinbase, header) ∧
      later.screen submission = later.examine candidate.template coinbase header := by
  subst hlease
  have hrebuild := rebuild_eq_ok_iff.2 ⟨lease, nonce, coinbase, hgives, rfl⟩
  exact ⟨_, header?_ofCandidate _ _ _ _ _, hrebuild, screen_of_rebuild hrebuild⟩

/-- **A view is enough** to assemble the header, and shows the coinbase that is taken when none is
sent. -/
theorem view_rebuilds {config : Config} {ops : List Op} (hreached : ReachedBy config ops node)
    (hpayout : node.settings.payout.length ≤ maxScriptSize)
    (hissued : node.issuedBy op = some candidate) :
    Rebuilds candidate (WorkUnit.ofCandidate candidate) ∧
      ∀ more, (∀ issued ∈ (node.perform op).2.issuedOver more,
          issued.id = candidate.id → issued = candidate) →
        ∀ submission, submission.id = (WorkUnit.ofCandidate candidate).id →
          ((node.perform op).2.run more).2.NamesOnly submission candidate := by
  have hcoinbase : ∀ text, (WorkUnit.ofCandidate candidate).coinbase = some text →
      ∃ tx, Transaction.ofHex text = .ok tx ∧ candidate.template.coinbase = some tx := by
    intro text htext
    obtain ⟨tx, htx, rfl⟩ := Option.map_eq_some_iff.1 htext
    exact ⟨tx, Transaction.ofHex_toHex (readable_of_issuedBy hissued hpayout htx), htx⟩
  refine ⟨{
    header := header?_ofCandidate candidate
    hashed := fun _ _ _ _ _ => rebuild_header
    coinbase := hcoinbase
    attached := fun text htext later submission homitted hnames => ?_ }, fun more halone
      submission hid => namesOnly_run hreached hissued halone hid⟩
  obtain ⟨tx, hread, htx⟩ := hcoinbase text htext
  exact submit_with_coinbase hnames homitted hread htx

/-- The sample node before its candidate is issued. -/
def sampleOffered : Node := (sampleStart.perform (.addToPool ⟨sampleTx, 100⟩)).2

/-- A solution for the sample lease that leaves the coinbase out. -/
def sampleAnswer : Submission where
  id := "00000000-0000-0000-0000-000000000001"
  nonce := some 1

theorem view_rebuilds_sample : ∃ candidate text,
    sampleOffered.issuedBy (.issue true ⟨1⟩ 0) = some candidate ∧
      (WorkUnit.ofCandidate candidate).coinbase = some text ∧
      Rebuilds candidate (WorkUnit.ofCandidate candidate) ∧
      sampleNode.submit { sampleAnswer with coinbase := some text } =
        sampleNode.submit sampleAnswer := by
  have hreached : ReachedBy sampleConfig [.addToPool ⟨sampleTx, 100⟩] sampleOffered :=
    reachedBy_start.run _
  have hview : (sampleOffered.issuedBy (.issue true ⟨1⟩ 0)).any
      (fun candidate => candidate.template.coinbase.isSome &&
        ((WorkUnit.ofCandidate candidate).id = sampleAnswer.id)) = true := by
    decide +kernel
  obtain ⟨candidate, hissued, hparts⟩ := (Option.any_eq_true _ _).1 hview
  rw [Bool.and_eq_true, decide_eq_true_eq] at hparts
  obtain ⟨tx, htx⟩ := Option.isSome_iff_exists.1 hparts.1
  have htext : (WorkUnit.ofCandidate candidate).coinbase = some tx.toHex :=
    congrArg (Option.map Transaction.toHex) htx
  obtain ⟨hrebuilds, hnames⟩ := view_rebuilds hreached (by decide) hissued
  exact ⟨candidate, tx.toHex, hissued, htext, hrebuilds,
    hrebuilds.attached _ htext _ _ rfl (hnames [] nofun _ hparts.2.symm)⟩

end Node

end WorkLease
