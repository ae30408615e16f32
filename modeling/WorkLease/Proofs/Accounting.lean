import Mathlib.Data.List.Nodup
import Mathlib.Tactic.Common
import WorkLease.Proofs.IssueQueue
import WorkLease.Proofs.IssueTimes
import WorkLease.Proofs.Operations

/-!
# The accounts of a node

The counters of a node are compared with what can be seen from outside: the answers that were given,
the candidates that were issued, those that are held before and after an operation, and the tip of
the chain. What an operation does is read off the states around it, never off the counters.

* `lostBy`, `perm_perform`: what is held and issued is held afterwards or lost.
* `addedBy`: the block by which a submission moves the tip.
* `booked_perform` is one operation: it changes the counters by what it does. `books_run`,
  `perm_run` and `accepted_run` are the run.
* `length_collect`: the answers of a run tell how much it did.

**Theorem (`accounts_balance`).** In every state that a node comes to, each candidate that was
issued is held, was evicted or was removed, once; each submission that was settled has one outcome,
and each block that was accepted was added to the chain. The counters agree with all of it modulo
2 ^ 64.
-/

namespace WorkLease

/-! ## Parts of a list -/

/-- Where keys are distinct, a list is a part of it and what has no key of the part. -/
theorem perm_append_filter {α κ : Type} [DecidableEq κ] {key : α → κ} {part all : List α}
    (hsub : part.Sublist all) (hdistinct : (all.map key).Nodup) :
    all.Perm (part ++ all.filter (key · ∉ part.map key)) := by
  induction hsub with
  | slnil => exact List.Perm.refl _
  | @cons part all a hsub ih =>
    obtain ⟨hnew, hdistinct⟩ := List.nodup_cons.1 hdistinct
    have hout : key a ∉ part.map key := fun hmem => hnew ((hsub.map key).subset hmem)
    rw [List.filter_cons_of_pos (by simpa using hout)]
    exact ((ih hdistinct).cons a).trans List.perm_middle.symm
  | @cons_cons part all a hsub ih =>
    obtain ⟨hnew, hdistinct⟩ := List.nodup_cons.1 hdistinct
    have hsame : all.filter (key · ∉ (a :: part).map key) =
        all.filter (key · ∉ part.map key) := by
      refine List.filter_congr fun b hb => ?_
      have hne : key b ≠ key a := fun h => hnew (h ▸ List.mem_map_of_mem hb)
      simp [hne]
    rw [List.filter_cons_of_neg (by simp), hsame, List.cons_append]
    exact (ih hdistinct).cons a

/-- What was lost early and what was lost late is all that was lost. -/
theorem perm_of_fates {α : Type} {first issued later meanwhile last lost rest : List α}
    (h : (first ++ issued).Perm (meanwhile ++ lost))
    (hlater : (meanwhile ++ later).Perm (last ++ rest)) :
    (first ++ (issued ++ later)).Perm (last ++ (rest ++ lost)) := by
  have hswap : (meanwhile ++ lost ++ later).Perm (meanwhile ++ later ++ lost) := by
    rw [List.append_assoc, List.append_assoc]
    exact List.perm_append_comm.append_left meanwhile
  rw [← List.append_assoc, ← List.append_assoc]
  exact ((h.append_right later).trans hswap).trans (hlater.append_right lost)

/-- Evicted and removed candidates stand in different places of what was issued. -/
theorem apart_of_perm {α κ : Type} {key : α → κ} {all held evicted removed : List α}
    (hperm : all.Perm (held ++ (evicted ++ removed))) (hdistinct : (all.map key).Nodup) :
    ∀ a ∈ evicted, ∀ b ∈ removed, key a ≠ key b := by
  have hparts := (hperm.map key).nodup_iff.1 hdistinct
  rw [List.map_append, List.map_append] at hparts
  have hlost := (List.nodup_append.1 hparts).2.1
  exact fun a ha b hb => (List.nodup_append.1 hlost).2.2 _ (List.mem_map_of_mem ha) _
    (List.mem_map_of_mem hb)

/-! ## Counters -/

namespace Counters

/-- The submissions by how they were settled, all kinds together. -/
def settled (c : Counters) : UInt64 :=
  c.blocksAccepted + c.highHash + c.staleSubmissions + c.validationFailures +
    c.validationTimeouts

theorem settled_countOutcome (c : Counters) (outcome : Outcome) :
    (c.countOutcome outcome).settled = c.settled + 1 := by
  cases outcome <;> simp only [settled, countOutcome] <;> ac_rfl

/-- Between two states of the counters so many candidates were issued, leases evicted, submissions
settled and blocks accepted. -/
structure Books (before after : Counters) (issued evicted settled accepted : Nat) : Prop where
  issued : after.candidatesIssued = before.candidatesIssued + UInt64.ofNat issued
  evicted : after.leasesEvicted = before.leasesEvicted + UInt64.ofNat evicted
  submissions : after.submissions = before.submissions + UInt64.ofNat settled
  settled : after.settled = before.settled + UInt64.ofNat settled
  accepted : after.blocksAccepted = before.blocksAccepted + UInt64.ofNat accepted

variable {before meanwhile after : Counters}

/-- A refused template is none of this. -/
theorem books_rejected (c : Counters) (rejected : UInt64) :
    Books c { c with templatesRejected := rejected } 0 0 0 0 := by
  constructor <;> exact (UInt64.add_zero _).symm

theorem Books.refl (c : Counters) : Books c c 0 0 0 0 :=
  books_rejected c c.templatesRejected

theorem Books.trans {issued evicted settled accepted issued' evicted' settled' accepted' : Nat}
    (h : Books before meanwhile issued evicted settled accepted)
    (h' : Books meanwhile after issued' evicted' settled' accepted') :
    Books before after (issued + issued') (evicted + evicted') (settled + settled')
      (accepted + accepted') where
  issued := by rw [h'.issued, h.issued, UInt64.ofNat_add, UInt64.add_assoc]
  evicted := by rw [h'.evicted, h.evicted, UInt64.ofNat_add, UInt64.add_assoc]
  submissions := by rw [h'.submissions, h.submissions, UInt64.ofNat_add, UInt64.add_assoc]
  settled := by rw [h'.settled, h.settled, UInt64.ofNat_add, UInt64.add_assoc]
  accepted := by rw [h'.accepted, h.accepted, UInt64.ofNat_add, UInt64.add_assoc]

theorem books_countEvicted (c : Counters) (count : Nat) :
    Books c (c.countEvicted count) 0 count 0 0 where
  issued := (UInt64.add_zero _).symm
  evicted := rfl
  submissions := (UInt64.add_zero _).symm
  settled := (UInt64.add_zero _).symm
  accepted := (UInt64.add_zero _).symm

/-- A candidate is counted together with the leases that are evicted for it. -/
theorem books_granted (c : Counters) (count : Nat) :
    Books c (c.countEvicted count).countIssued 1 count 0 0 where
  issued := rfl
  evicted := rfl
  submissions := (UInt64.add_zero _).symm
  settled := (UInt64.add_zero _).symm
  accepted := (UInt64.add_zero _).symm

theorem books_countOutcome (c : Counters) (outcome : Outcome) :
    Books c (c.countOutcome outcome) 0 0 1 outcome.isAccepted.toNat where
  issued := by cases outcome <;> exact (UInt64.add_zero _).symm
  evicted := by cases outcome <;> exact (UInt64.add_zero _).symm
  submissions := by cases outcome <;> rfl
  settled := settled_countOutcome c outcome
  accepted := by
    cases outcome with
    | accepted => rfl
    | _ => exact (UInt64.add_zero _).symm

end Counters

/-! ## Leases -/

namespace LeaseBook

/-- What an eviction counts is what is missing afterwards. -/
theorem size_evict {book : LeaseBook} (hdistinct : book.ids.Nodup) (now : Instant) :
    (book.evict now).2.size + (book.evict now).1 = book.size :=
  scan_counts book.maxAge book.maxLeases now book.queue hdistinct

theorem Sound.size_grant {book : LeaseBook} (h : book.Sound) (template : Template)
    (drawn : CandidateId) (now : Instant) :
    (book.grant template drawn now).2.2.size + (book.grant template drawn now).2.1 =
      book.size + 1 := by
  have hcount := size_evict (h.nodup_ids_push (h.newLease_id_not_mem template drawn now)) now
  rwa [show (book.push (book.newLease template drawn now)).size = book.size + 1 from
    List.length_append] at hcount

end LeaseBook

namespace Node

variable {node : Node} {op : Op} {submission : Submission}

/-- No move from outside adds to the blocks that were accepted. -/
theorem chainAsked_accepted (node : Node) (stage : Stage) (block : Block) :
    (node.chainAsked stage block).accepted = node.link.chain.accepted := by
  unfold chainAsked
  generalize (node.validator stage node.settings.depth block).tipMoves = moves
  generalize node.link.chain = chain
  induction moves generalizing chain with
  | nil => rfl
  | cons move moves ih => exact ih (chain.moveTo move.hash move.height move.time)

theorem chainMeanwhile_accepted (node : Node) (submission : Submission) :
    (node.chainMeanwhile submission).accepted = node.link.chain.accepted := by
  unfold chainMeanwhile
  cases node.screen submission with
  | error settled => rfl
  | ok block => exact chainAsked_accepted node .submission block

/-- The test of a template counts a refusal at most, and adds no block. -/
theorem pretest_accounts (node : Node) (template : Template) : ∃ rejected,
    (node.pretest template).2.counters = { node.counters with templatesRejected := rejected } ∧
      (node.pretest template).2.link.chain.accepted = node.link.chain.accepted := by
  unfold pretest
  cases node.settings.depth with
  | fast => exact ⟨_, rfl, rfl⟩
  | full =>
    rcases hasked : node.consult .template template.preview with ⟨result, after⟩
    obtain rfl : node.asked .template template.preview = after := congrArg Prod.snd hasked
    rcases result with (_ | reason) | error | _ <;>
      exact ⟨_, rfl, chainAsked_accepted node .template template.preview⟩

/-! ## What an operation does, as seen from outside -/

/-- The candidates held before an operation or issued by it under whose ids nothing is held after
it. -/
def lostBy (node : Node) (op : Op) : List Candidate :=
  (node.leases.candidates ++ (node.issuedBy op).toList).filter
    (·.id ∉ (node.perform op).2.leases.ids)

def Op.isRemoval : Op → Bool
  | .remove _ => true
  | _ => false

/-- The candidates that an operation removes on request. -/
def removedBy (node : Node) (op : Op) : List Candidate :=
  if op.isRemoval then node.lostBy op else []

/-- The candidates that are lost in any other way. -/
def evictedBy (node : Node) (op : Op) : List Candidate :=
  if op.isRemoval then [] else node.lostBy op

/-- The outcome of the solution that an operation brings. -/
def settledBy (node : Node) (op : Op) : Option Outcome :=
  op.brings.bind fun submission => (node.submit submission).1.toOption

/-- The block that a solution adds to the chain: it is recorded last, where the tip is not the one
that was left by the validator. -/
def addedBy (node : Node) (op : Op) : Option Block :=
  op.brings.bind fun submission =>
    if (node.perform op).2.link.chain.tip = (node.chainMeanwhile submission).tip then none
    else (node.perform op).2.link.chain.accepted.getLast?

/-- **No candidate disappears**: what was held or issued is held or lost, and each once. -/
theorem perm_perform (hsound : node.leases.Sound) (op : Op) :
    (node.leases.candidates ++ (node.issuedBy op).toList).Perm
      ((node.perform op).2.leases.candidates ++ node.lostBy op) := by
  have hdistinct : ((node.leases.candidates ++ (node.issuedBy op).toList).map
      Candidate.id).Nodup := by
    have hheld := hsound.distinct
    rw [LeaseBook.ids_eq] at hheld
    rw [List.map_append]
    cases hissued : node.issuedBy op with
    | none => simpa using hheld
    | some candidate =>
      have hnew := id_not_mem_of_issuedBy hsound hissued
      rw [LeaseBook.ids_eq] at hnew
      exact List.nodup_append.2 ⟨hheld, List.nodup_singleton _, fun a ha b hb hab =>
        hnew (List.mem_singleton.1 hb ▸ hab ▸ ha)⟩
  have hperm := perm_append_filter (candidates_perform node op) hdistinct
  rwa [← LeaseBook.ids_eq] at hperm

theorem length_lostBy (hsound : node.leases.Sound) (op : Op) :
    node.leases.size + (node.issuedBy op).toList.length =
      (node.perform op).2.leases.size + (node.lostBy op).length := by
  have hlength := (perm_perform hsound op).length_eq
  rwa [List.length_append, List.length_append, LeaseBook.candidates, LeaseBook.candidates,
    List.length_map, List.length_map] at hlength

/-- Nothing is lost where as many are held as before, with those that were issued. -/
theorem evictedBy_length (hsound : node.leases.Sound) (hkind : op.isRemoval = false) {evicted : Nat}
    (hsize : (node.perform op).2.leases.size + evicted =
      node.leases.size + (node.issuedBy op).toList.length) :
    (node.evictedBy op).length = evicted := by
  have hlost := length_lostBy hsound op
  rw [evictedBy, hkind]
  simp only [Bool.false_eq_true, if_false]
  omega

theorem evictedBy_of_drops (hsound : node.leases.Sound) (hasks : op.asks = none)
    (hdrops : op.drops = false) : (node.evictedBy op).length = 0 := by
  have hkind : op.isRemoval = false := by
    cases op with
    | remove => cases hdrops
    | _ => rfl
  have hcandidates := congrArg List.length (@candidates_perform_of_asks_none node op hasks hdrops)
  rw [LeaseBook.candidates, LeaseBook.candidates, List.length_map, List.length_map] at hcandidates
  refine evictedBy_length hsound hkind ?_
  rw [issuedBy, hasks]
  exact hcandidates

/-! ## Issues -/

/-- An issue counts the candidate and what it evicts, and adds no block. -/
theorem issue_accounts (hsound : node.leases.Sound) (withCoinbase : Bool) (drawn : CandidateId)
    (now : Instant) : ∃ evicted,
      Counters.Books node.counters (node.issue withCoinbase drawn now).2.counters
        (node.issue withCoinbase drawn now).1.toOption.toList.length evicted 0 0 ∧
      (node.issue withCoinbase drawn now).2.leases.size + evicted =
        node.leases.size + (node.issue withCoinbase drawn now).1.toOption.toList.length ∧
      (node.issue withCoinbase drawn now).2.link.chain.accepted = node.link.chain.accepted := by
  have hexit := issue_exit node withCoinbase drawn now
  generalize node.issue withCoinbase drawn now = result at hexit
  cases hexit with
  | tipUnread | poolUnread | notBuilt => exact ⟨0, Counters.Books.refl _, rfl, rfl⟩
  | @refused tip template error after htip hpool hbuild htest =>
    obtain ⟨rejected, hcounters, haccepted⟩ := pretest_accounts (node.noted tip) template
    rw [htest] at hcounters haccepted
    refine ⟨0, ?_, congrArg LeaseBook.size (pretest_frame htest).2.2, haccepted⟩
    show Counters.Books node.counters after.counters 0 0 0 0
    rw [hcounters]
    exact Counters.books_rejected _ rejected
  | @issued tip template after htip hpool hbuild htest =>
    obtain ⟨rejected, hcounters, haccepted⟩ := pretest_accounts (node.noted tip) template
    rw [htest] at hcounters haccepted
    refine ⟨(after.leases.grant template drawn now).2.1, ?_, ?_, haccepted⟩
    · show Counters.Books node.counters (after.counters.countEvicted
        (after.leases.grant template drawn now).2.1).countIssued 1 _ 0 0
      rw [hcounters]
      have hbooks := (Counters.books_rejected node.counters rejected).trans
        (Counters.books_granted _ (after.leases.grant template drawn now).2.1)
      simp only [Nat.zero_add] at hbooks
      exact hbooks
    · rw [← (pretest_frame htest).2.2] at hsound ⊢
      exact hsound.size_grant template drawn now

/-! ## Submissions -/

/-- A submission makes its block the tip and is told so, or leaves the chain to the validator. -/
theorem chain_submit (node : Node) (submission : Submission) :
    (∃ hash height block, (node.submit submission).1 = .ok (.accepted hash height) ∧
      (node.submit submission).2.link.chain = (node.chainMeanwhile submission).extended block) ∨
    ((∀ hash height, (node.submit submission).1 ≠ .ok (.accepted hash height)) ∧
      (node.submit submission).2.link.chain = node.chainMeanwhile submission) := by
  by_cases haccepted : ∃ hash height, (node.submit submission).1 = .ok (.accepted hash height)
  · obtain ⟨hash, height, haccepted⟩ := haccepted
    obtain ⟨block, hscreen, -, -, -, -, hchain⟩ := exists_block_of_accepted haccepted
    rw [← chainMeanwhile_of_screen hscreen] at hchain
    exact .inl ⟨hash, height, block, haccepted, hchain⟩
  · exact .inr ⟨fun hash height h => haccepted ⟨hash, height, h⟩,
      (chain_leases_of_not_accepted haccepted).1⟩

/-- The block that is added is told to be accepted, and comes last among those recorded. -/
theorem addedBy_of_brings (hbrings : op.brings = some submission) :
    (node.addedBy op).toList.length =
        ((node.submit submission).1.toOption.any Outcome.isAccepted).toNat ∧
      (node.perform op).2.link.chain.accepted = (node.addedBy op).elim node.link.chain.accepted
        fun block => keepLast Chain.acceptedHistory (node.link.chain.accepted ++ [block]) := by
  have hadded : node.addedBy op =
      if (node.submit submission).2.link.chain.tip = (node.chainMeanwhile submission).tip then none
      else (node.submit submission).2.link.chain.accepted.getLast? := by
    rw [addedBy, hbrings, perform_of_brings hbrings]
    rfl
  rw [perform_of_brings hbrings, hadded]
  rcases chain_submit node submission with ⟨hash, height, block, haccepted, hchain⟩ | ⟨hno, hchain⟩
  · rw [haccepted, hchain, if_neg (Chain.extended_tip_ne _ block),
      Chain.getLast?_extended_accepted]
    refine ⟨rfl, ?_⟩
    show keepLast _ ((node.chainMeanwhile submission).accepted ++ [block]) = _
    rw [chainMeanwhile_accepted]
    rfl
  · rw [hchain, if_pos rfl]
    refine ⟨?_, chainMeanwhile_accepted node submission⟩
    cases houtcome : (node.submit submission).1 with
    | error error => rfl
    | ok outcome =>
      cases outcome with
      | accepted hash height => exact absurd houtcome (hno hash height)
      | _ => rfl

/-! ## One operation -/

/-- What an operation does to counters and chain is what it is seen to do. -/
structure Booked (node : Node) (op : Op) : Prop where
  counters : Counters.Books node.counters (node.perform op).2.counters
    (node.issuedBy op).toList.length (node.evictedBy op).length (node.settledBy op).toList.length
    (node.addedBy op).toList.length
  accepted : (node.perform op).2.link.chain.accepted =
    (node.addedBy op).elim node.link.chain.accepted fun block =>
      keepLast Chain.acceptedHistory (node.link.chain.accepted ++ [block])

theorem booked_of_asks {withCoinbase : Bool} {drawn : CandidateId} {now : Instant}
    (hsound : node.leases.Sound) (hasks : op.asks = some (withCoinbase, drawn, now)) :
    node.Booked op := by
  obtain ⟨evicted, hbooks, hsize, haccepted⟩ := issue_accounts hsound withCoinbase drawn now
  have hissued : node.issuedBy op = (node.issue withCoinbase drawn now).1.toOption := by
    rw [issuedBy, hasks]
    rfl
  have hkind : op.isRemoval = false := by
    cases op with
    | remove => cases hasks
    | _ => rfl
  have hsettled : node.settledBy op = none := by rw [settledBy, brings_of_asks hasks]; rfl
  have hadded : node.addedBy op = none := by rw [addedBy, brings_of_asks hasks]; rfl
  rw [← hissued, ← perform_of_asks hasks] at hbooks hsize
  rw [← perform_of_asks hasks] at haccepted
  refine ⟨?_, ?_⟩
  · rw [evictedBy_length hsound hkind hsize, hsettled, hadded]
    exact hbooks
  · rw [hadded]
    exact haccepted

theorem booked_of_brings (hsound : node.leases.Sound) (hbrings : op.brings = some submission) :
    node.Booked op := by
  have hasks : op.asks = none := by
    cases hasks : op.asks with
    | none => rfl
    | some request => exact absurd (brings_of_asks hasks) (by rw [hbrings]; exact nofun)
  have hissued : node.issuedBy op = none := by rw [issuedBy, hasks]; rfl
  have hdrops : op.drops = false := by
    cases op with
    | remove | evict => cases hbrings
    | _ => rfl
  have hsettled : node.settledBy op = (node.submit submission).1.toOption := by
    rw [settledBy, hbrings]
    rfl
  obtain ⟨hadded, haccepted⟩ := @addedBy_of_brings node op submission hbrings
  refine ⟨?_, haccepted⟩
  rw [hissued, evictedBy_of_drops hsound hasks hdrops, hsettled, hadded, perform_of_brings hbrings,
    counters_submit]
  cases (node.submit submission).1.toOption with
  | none => exact Counters.Books.refl _
  | some outcome => exact Counters.books_countOutcome _ outcome

/-- **One operation** changes the counters by what it does. -/
theorem booked_perform (hsound : node.leases.Sound) (op : Op) : node.Booked op := by
  rcases hasks : op.asks with _ | ⟨withCoinbase, drawn, now⟩
  · cases hbrings : op.brings with
    | some submission => exact booked_of_brings hsound hbrings
    | none =>
      have hissued : node.issuedBy op = none := by rw [issuedBy, hasks]; rfl
      have hsettled : node.settledBy op = none := by rw [settledBy, hbrings]; rfl
      have hadded : node.addedBy op = none := by rw [addedBy, hbrings]; rfl
      have hidle (hdrops : op.drops = false)
          (hcounters : (node.perform op).2.counters = node.counters) :
          Counters.Books node.counters (node.perform op).2.counters
            (node.issuedBy op).toList.length (node.evictedBy op).length
            (node.settledBy op).toList.length (node.addedBy op).toList.length := by
        rw [hissued, hsettled, hadded, hcounters, evictedBy_of_drops hsound hasks hdrops]
        exact Counters.Books.refl _
      cases op with
      | issue => cases hasks
      | submit => cases hbrings
      | call method params drawn now =>
        have hnode := @perform_call_idle node method params drawn now hasks hbrings
        refine ⟨hidle rfl (by rw [hnode]), ?_⟩
        rw [hadded, hnode]
        rfl
      | evict now =>
        refine ⟨?_, by rw [hadded]; rfl⟩
        have hsize : (node.perform (.evict now)).2.leases.size + (node.leases.evict now).1 =
            node.leases.size + (node.issuedBy (.evict now)).toList.length := by
          rw [hissued]
          exact LeaseBook.size_evict hsound.distinct now
        rw [hissued, hsettled, hadded, evictedBy_length hsound rfl hsize]
        exact Counters.books_countEvicted _ _
      | remove id =>
        refine ⟨?_, by rw [hadded]; rfl⟩
        rw [hissued, hsettled, hadded]
        exact Counters.Books.refl _
      | _ => exact ⟨hidle rfl rfl, by rw [hadded]; rfl⟩
  · exact booked_of_asks hsound hasks

/-! ## Answers -/

/-- A call that was answered with a candidate, be it from within or a remote one. -/
def handsOut : Op × Answer → Bool
  | (_, .candidate (.ok _)) => true
  | (.call method _ _ _, .called (.ok _)) => method = "getminingcandidate"
  | _ => false

/-- A call that was answered with the outcome of a solution. -/
def settles : Op × Answer → Bool
  | (_, .settled (.ok _)) => true
  | (.call method _ _ _, .called (.ok _)) => method = "submitminingsolution"
  | _ => false

/-- A removal that was answered with `true`. -/
def takesOut : Op × Answer → Bool
  | (_, .removed held) => held
  | _ => false

theorem length_issuedBy (node : Node) (op : Op) :
    (node.issuedBy op).toList.length = (handsOut (op, (node.perform op).1)).toNat := by
  cases op with
  | issue withCoinbase drawn now =>
    show (node.issue withCoinbase drawn now).1.toOption.toList.length =
      (handsOut (_, .candidate (node.issue withCoinbase drawn now).1)).toNat
    cases (node.issue withCoinbase drawn now).1 <;> rfl
  | call method params drawn now =>
    show _ = (handsOut (_, .called (Rpc.handle node method params drawn now).1)).toNat
    by_cases hmethod : method = "getminingcandidate"
    · rw [issuedBy, Op.asks, Rpc.handle, if_pos hmethod, if_pos hmethod]
      cases Rpc.wantsCoinbase params with
      | error error => rfl
      | ok withCoinbase =>
        show (node.issue withCoinbase drawn now).1.toOption.toList.length = _
        dsimp only
        rcases node.issue withCoinbase drawn now with ⟨error | candidate, after⟩
        · rfl
        · simp [handsOut, hmethod, Except.toOption]
    · rw [issuedBy, Op.asks, if_neg hmethod]
      rcases (Rpc.handle node method params drawn now).1 with fault | json
      · rfl
      · simp [handsOut, hmethod]
  | _ => rfl

theorem length_settledBy (node : Node) (op : Op) :
    (node.settledBy op).toList.length = (settles (op, (node.perform op).1)).toNat := by
  cases op with
  | submit submission =>
    show (node.submit submission).1.toOption.toList.length =
      (settles (_, .settled (node.submit submission).1)).toNat
    cases (node.submit submission).1 <;> rfl
  | call method params drawn now =>
    show _ = (settles (_, .called (Rpc.handle node method params drawn now).1)).toNat
    by_cases hmethod : method = "submitminingsolution"
    · have hother : method ≠ "getminingcandidate" := by rw [hmethod]; decide
      rw [settledBy, Op.brings, Rpc.handle, if_pos hmethod, if_neg hother, if_pos hmethod]
      cases Submission.ofParams params with
      | error error => rfl
      | ok submission =>
        show (node.submit submission).1.toOption.toList.length = _
        dsimp only
        rcases node.submit submission with ⟨error | outcome, after⟩
        · rfl
        · simp [settles, hmethod, Except.toOption]
    · rw [settledBy, Op.brings, if_neg hmethod]
      rcases (Rpc.handle node method params drawn now).1 with fault | json
      · rfl
      · simp [settles, hmethod]
  | _ => rfl

theorem length_removedBy (hsound : node.leases.Sound) (op : Op) :
    (node.removedBy op).length = (takesOut (op, (node.perform op).1)).toNat := by
  cases op with
  | remove id =>
    have hlost := length_lostBy hsound (.remove id)
    have hsize := hsound.size_remove id
    show (node.lostBy (.remove id)).length = (node.leases.remove id).1.toNat
    have hissued : (node.issuedBy (.remove id)).toList.length = 0 := rfl
    have hleft : (node.perform (.remove id)).2.leases.size = (node.leases.remove id).2.size := rfl
    omega
  | _ => rfl

/-! ## Runs -/

/-- The operations of a run with their answers. -/
def calls (node : Node) (ops : List Op) : List (Op × Answer) :=
  ops.zip (node.run ops).1

/-- The candidates that a run removes on request. -/
def removedOver (node : Node) (ops : List Op) : List Candidate :=
  node.collect removedBy ops

/-- The candidates that a run loses in any other way. -/
def evictedOver (node : Node) (ops : List Op) : List Candidate :=
  node.collect evictedBy ops

/-- The outcomes of the solutions that a run brings. -/
def settledOver (node : Node) (ops : List Op) : List Outcome :=
  node.collect (fun node op => (node.settledBy op).toList) ops

/-- The blocks that the solutions of a run add to the chain. -/
def addedOver (node : Node) (ops : List Op) : List Block :=
  node.collect (fun node op => (node.addedBy op).toList) ops

theorem sound_leases_perform (hsound : node.leases.Sound) (op : Op) :
    (node.perform op).2.leases.Sound := by
  rcases leases_perform node op with hsame | ⟨step, hstep⟩
  · rwa [hsame]
  · rw [hstep]
    exact hsound.afterStep step

theorem sound_run (hsound : node.leases.Sound) (ops : List Op) :
    (node.run ops).2.leases.Sound := by
  induction ops generalizing node with
  | nil => exact hsound
  | cons op ops ih => exact ih (sound_leases_perform hsound op)

/-- The answers of a run tell how much its operations yield, if each answer does. -/
theorem length_collect {α : Type} {yields : Node → Op → List α} {told : Op × Answer → Bool}
    (htold : ∀ {node : Node}, node.leases.Sound → ∀ op,
      (yields node op).length = (told (op, (node.perform op).1)).toNat)
    (hsound : node.leases.Sound) (ops : List Op) :
    (node.collect yields ops).length = (node.calls ops).countP told := by
  induction ops generalizing node with
  | nil => rfl
  | cons op ops ih =>
    have hcalls : node.calls (op :: ops) =
        (op, (node.perform op).1) :: (node.perform op).2.calls ops := rfl
    rw [collect, List.length_append, htold hsound, ih (sound_leases_perform hsound op), hcalls,
      List.countP_cons, Nat.add_comm]
    cases told (op, (node.perform op).1) <;> rfl

/-- **A run** changes the counters by what its operations do. -/
theorem books_run (hsound : node.leases.Sound) (ops : List Op) :
    Counters.Books node.counters (node.run ops).2.counters (node.issuedOver ops).length
      (node.evictedOver ops).length (node.settledOver ops).length (node.addedOver ops).length := by
  induction ops generalizing node with
  | nil => exact Counters.Books.refl _
  | cons op ops ih =>
    have hrun := (booked_perform hsound op).counters.trans (ih (sound_leases_perform hsound op))
    simp only [← List.length_append] at hrun
    exact hrun

/-- **The chain records** what a run adds to it. -/
theorem accepted_run (hsound : node.leases.Sound) {blocks : List Block}
    (h : node.link.chain.accepted = keepLast Chain.acceptedHistory blocks) (ops : List Op) :
    (node.run ops).2.link.chain.accepted =
      keepLast Chain.acceptedHistory (blocks ++ node.addedOver ops) := by
  induction ops generalizing node blocks with
  | nil =>
    rw [addedOver, collect, List.append_nil]
    exact h
  | cons op ops ih =>
    have hstep : (node.perform op).2.link.chain.accepted =
        keepLast Chain.acceptedHistory (blocks ++ (node.addedBy op).toList) := by
      rw [(booked_perform hsound op).accepted]
      cases node.addedBy op with
      | none => rw [Option.toList_none, List.append_nil]; exact h
      | some block => rw [Option.elim_some, h, keepLast_keepLast_append]; rfl
    have hrun := ih (sound_leases_perform hsound op) hstep
    rwa [List.append_assoc] at hrun

/-- **Every candidate has one fate**: what was held or issued is held, was evicted or was removed,
once. -/
theorem perm_run (hsound : node.leases.Sound) (ops : List Op) :
    (node.leases.candidates ++ node.issuedOver ops).Perm ((node.run ops).2.leases.candidates ++
      (node.evictedOver ops ++ node.removedOver ops)) := by
  induction ops generalizing node with
  | nil => exact List.Perm.refl _
  | cons op ops ih =>
    have hsplit : (node.evictedOver (op :: ops) ++ node.removedOver (op :: ops)).Perm
        (((node.perform op).2.evictedOver ops ++ (node.perform op).2.removedOver ops) ++
          node.lostBy op) := by
      rw [evictedOver, removedOver, collect, collect, evictedBy, removedBy]
      cases op.isRemoval with
      | true =>
        simp only [if_true, List.nil_append, List.append_assoc]
        exact List.perm_append_comm.append_left _
      | false =>
        simp only [Bool.false_eq_true, if_false, List.nil_append, List.append_assoc]
        exact List.perm_append_comm.trans (by rw [List.append_assoc]; exact List.Perm.refl _)
    have hrun := perm_of_fates (perm_perform hsound op) (ih (sound_leases_perform hsound op))
    exact hrun.trans (hsplit.symm.append_left _)

/-! ## The balance -/

/-- The accounts of a run from its start, on what was answered and on what became of everything. -/
structure Balanced (first : Node) (ops : List Op) : Prop where
  issued : (first.run ops).2.counters.candidatesIssued =
    UInt64.ofNat ((first.calls ops).countP handsOut)
  leases : (first.run ops).2.counters.candidatesIssued =
    UInt64.ofNat (first.run ops).2.leases.size + (first.run ops).2.counters.leasesEvicted +
      UInt64.ofNat ((first.calls ops).countP takesOut)
  submissions : (first.run ops).2.counters.submissions =
    UInt64.ofNat ((first.calls ops).countP settles)
  outcomes : (first.run ops).2.counters.submissions =
    (first.run ops).2.counters.blocksAccepted + (first.run ops).2.counters.highHash +
      (first.run ops).2.counters.staleSubmissions +
      (first.run ops).2.counters.validationFailures +
      (first.run ops).2.counters.validationTimeouts
  blocks : (first.run ops).2.counters.blocksAccepted = UInt64.ofNat (first.addedOver ops).length
  /-- The blocks that are counted are those that the chain records. -/
  recorded : ∀ blocks, first.link.chain.accepted = keepLast Chain.acceptedHistory blocks →
    (first.run ops).2.link.chain.accepted =
      keepLast Chain.acceptedHistory (blocks ++ first.addedOver ops)
  /-- Every candidate that was issued is held, was evicted or was removed, once. -/
  fates : (first.issuedOver ops).Perm ((first.run ops).2.leases.candidates ++
    (first.evictedOver ops ++ first.removedOver ops))
  evicted : (first.run ops).2.counters.leasesEvicted =
    UInt64.ofNat (first.evictedOver ops).length
  removed : (first.calls ops).countP takesOut = (first.removedOver ops).length
  /-- Unless an id is issued again, none is among those evicted and among those removed. -/
  apart : ((first.issuedOver ops).map Candidate.id).Nodup →
    ∀ evicted ∈ first.evictedOver ops, ∀ removed ∈ first.removedOver ops,
      evicted.id ≠ removed.id
  /-- Whatever is held waits in the queue, in which an id may also be left of a lease that was
  removed, and an id that is issued again stands twice. -/
  waiting : (first.run ops).2.leases.ids ⊆ (first.run ops).2.leases.queue
  /-- It is the same along any other queue of ids. -/
  queued : ∀ maxAge maxLeases now order,
    (LeaseBook.scan maxAge maxLeases now order (first.run ops).2.leases.leases).2.2.Sublist
        (first.run ops).2.leases.leases ∧
      (LeaseBook.scan maxAge maxLeases now order (first.run ops).2.leases.leases).2.2.length +
        (LeaseBook.scan maxAge maxLeases now order (first.run ops).2.leases.leases).1 =
          (first.run ops).2.leases.size

/-- **The accounts of a node balance**, in every state that it comes to. -/
theorem accounts_balance {config : Config} {chain : Chain} {clock : UInt64}
    {validator : Validator} {first : Node}
    (hstart : Node.start config chain clock validator = .ok first) (ops : List Op) :
    Balanced first ops := by
  have hsound : first.leases.Sound := (sound_start hstart).2.leases
  have hempty : first.leases.candidates = [] ∧ first.counters = {} := by
    obtain ⟨settings, -, rfl⟩ := exists_of_start hstart
    exact ⟨rfl, rfl⟩
  have hbooks := books_run hsound ops
  have hfates := perm_run hsound ops
  rw [hempty.2] at hbooks
  rw [hempty.1, List.nil_append] at hfates
  have hissued : (first.issuedOver ops).length = (first.calls ops).countP handsOut :=
    length_collect (fun _ op => length_issuedBy _ op) hsound ops
  have hsettled : (first.settledOver ops).length = (first.calls ops).countP settles :=
    length_collect (fun _ op => length_settledBy _ op) hsound ops
  have hremoved : (first.removedOver ops).length = (first.calls ops).countP takesOut :=
    length_collect (fun hsound op => length_removedBy hsound op) hsound ops
  have hlength : (first.issuedOver ops).length = (first.run ops).2.leases.size +
      ((first.evictedOver ops).length + (first.removedOver ops).length) := by
    rw [hfates.length_eq, List.length_append, List.length_append, LeaseBook.candidates,
      List.length_map]
    rfl
  have hcount {counter : UInt64} {n : Nat} (h : counter = 0 + UInt64.ofNat n) :
      counter = UInt64.ofNat n := h.trans (UInt64.zero_add _)
  exact {
    issued := hissued ▸ hcount hbooks.issued
    leases := by
      rw [hcount hbooks.issued, hcount hbooks.evicted, hlength, hremoved, UInt64.ofNat_add,
        UInt64.ofNat_add, UInt64.add_assoc]
    submissions := hsettled ▸ hcount hbooks.submissions
    outcomes := (hcount hbooks.submissions).trans (hcount hbooks.settled).symm
    blocks := hcount hbooks.accepted
    recorded := fun blocks hblocks => accepted_run hsound hblocks ops
    fates := hfates
    evicted := hcount hbooks.evicted
    removed := hremoved.symm
    apart := apart_of_perm hfates
    waiting := (sound_run hsound ops).waiting
    queued := fun maxAge maxLeases now order =>
      ⟨LeaseBook.scan_sublist maxAge maxLeases now order _,
        LeaseBook.scan_counts maxAge maxLeases now order (sound_run hsound ops).distinct⟩ }

/-- A candidate is issued and removed, and another one is issued and evicted an age later. -/
def accountedOps : List Op :=
  [sampleIssue, .remove ⟨1⟩, sampleIssue, .evict (10 ^ 15)]

theorem accounts_balance_sample : Balanced sampleStart accountedOps ∧
    (sampleStart.calls accountedOps).countP handsOut = 2 ∧
    (sampleStart.calls accountedOps).countP takesOut = 1 ∧
    (sampleStart.run accountedOps).2.counters.leasesEvicted = 1 :=
  ⟨accounts_balance (start_sampleAt .fast) accountedOps, by decide +kernel, by decide +kernel,
    by decide +kernel⟩

end Node

end WorkLease
