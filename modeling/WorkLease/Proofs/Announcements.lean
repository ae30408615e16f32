import Mathlib.Tactic.Common
import WorkLease.Proofs.Leases

/-!
# What decides the status of a lease

A status is given twice: to a lease when it is granted, and to all leases when a tip is announced,
which can make a superseded lease current again. Over every history of a book the two agree: the
last announcement alone decides.

* `mem_afterStep`: what a step can do to a lease. All else is read off it.
* `Sound.mem_candidates_afterStep`: so a candidate keeps its template while its id is held.
* `Remembers`: what a book keeps about its past; `Remembers.afterStep` is the step and
  `Remembers.after` the run.

**Theorem (`status_decided`).** In every state of a book, every lease that is granted is held at
first, and every lease that is held has the template that it was granted for and the status that the
last announced tip gives it. Each announcement counts the leases that it supersedes, each once.
-/

namespace WorkLease

namespace Lease

/-- A lease after a tip was announced, or none was. -/
def hears (news : Option Digest) (lease : Lease) : Lease :=
  match news with
  | some tip => lease.announced tip
  | none => lease

theorem statusOn_eq_current_iff {issuedTip tip : Digest} :
    statusOn issuedTip tip = .current ↔ issuedTip = tip := by
  unfold statusOn
  split_ifs with h <;> simp [h]

theorem statusOn_eq_superseded_iff {issuedTip tip : Digest} :
    statusOn issuedTip tip = .superseded ↔ issuedTip ≠ tip := by
  unfold statusOn
  split_ifs with h <;> simp [h]

@[simp] theorem candidate_hears (news : Option Digest) (lease : Lease) :
    (lease.hears news).candidate = lease.candidate := by
  cases news <;> rfl

@[simp] theorem issuedTip_hears (news : Option Digest) (lease : Lease) :
    (lease.hears news).issuedTip = lease.issuedTip := by
  cases news <;> rfl

/-- Hearing the news keeps a status in step with the last announcement. -/
theorem status_hears {lease : Lease} {last : Option Digest}
    (h : lease.status = statusAfter last lease.issuedTip) (news : Option Digest) :
    (lease.hears news).status = statusAfter (news.or last) lease.issuedTip := by
  cases news with
  | none => exact h
  | some tip => rfl

end Lease

namespace LeaseBook

/-! ## Steps -/

/-- Something that is done to a book. -/
inductive Step where
  | grant (template : Template) (drawn : CandidateId) (now : Instant)
  | announce (tip : Digest)
  | follow (link : ChainLink)
  | evict (now : Instant)
  | remove (id : CandidateId)
  | find (id : CandidateId)

/-- The tip that a step announces. -/
def Step.announces : Step → Option Digest
  | .announce tip => some tip
  | .follow link => link.readTip.toOption.map Tip.hash
  | _ => none

/-- The book after a step. -/
def afterStep (book : LeaseBook) : Step → LeaseBook
  | .grant template drawn now => (book.grant template drawn now).2.2
  | .announce tip => (book.announce tip).2
  | .follow link => (book.follow link).2
  | .evict now => (book.evict now).2
  | .remove id => (book.remove id).2
  | .find _ => book

/-- The book after a list of steps. -/
def after (book : LeaseBook) (steps : List Step) : LeaseBook :=
  steps.foldl afterStep book

/-- The tip that a list of steps announces last. -/
def lastAnnounced (steps : List Step) : Option Digest :=
  steps.reverse.findSome? Step.announces

/-- The candidate that a step grants: the template that it is given, under the id that it gives
out. -/
def grantedBy (book : LeaseBook) : Step → Option Candidate
  | .grant template drawn now => some ⟨(book.grant template drawn now).1.id, template⟩
  | _ => none

/-- The candidates that a list of steps grants, in order. -/
def granted (book : LeaseBook) : List Step → List Candidate
  | [] => []
  | step :: steps => (book.grantedBy step).toList ++ granted (book.afterStep step) steps

theorem lastAnnounced_cons (step : Step) (steps : List Step) :
    lastAnnounced (step :: steps) = (lastAnnounced steps).or step.announces := by
  rw [lastAnnounced, List.reverse_cons, List.findSome?_append, List.findSome?_singleton]
  rfl

theorem mem_grant {book : LeaseBook} {template : Template} {drawn : CandidateId} {now : Instant}
    {lease : Lease} (h : lease ∈ (book.grant template drawn now).2.2.leases) :
    lease ∈ book.leases ∨ lease = book.newLease template drawn now := by
  rcases List.mem_append.1 ((scan_sublist book.maxAge book.maxLeases now _ _).subset h) with
    hold | hnew
  · exact .inl hold
  · exact .inr (List.mem_singleton.1 hnew)

/-- A lease that is granted is found, where there is room for one. -/
theorem find_grant {book : LeaseBook} (hsound : book.Sound) (hroom : 0 < book.maxLeases)
    (template : Template) (drawn : CandidateId) (now : Instant) :
    (book.grant template drawn now).2.2.find (book.grant template drawn now).1.id =
      .ok (book.newLease template drawn now) :=
  (hsound.grant template drawn now).find_eq_ok_iff.2
    ⟨hsound.newest_mem_evict hroom (hsound.newLease_id_not_mem template drawn now), rfl⟩

/-- **What a step can do to a lease**: it hears what the step announces, unless it is new. -/
theorem mem_afterStep {book : LeaseBook} {step : Step} {lease : Lease}
    (h : lease ∈ (book.afterStep step).leases) :
    (∃ old ∈ book.leases, lease = old.hears step.announces) ∨
      ∃ template drawn now, step = .grant template drawn now ∧
        lease = book.newLease template drawn now := by
  cases step with
  | grant template drawn now =>
    rcases mem_grant h with hold | hnew
    · exact .inl ⟨lease, hold, rfl⟩
    · exact .inr ⟨template, drawn, now, rfl, hnew⟩
  | announce tip =>
    obtain ⟨old, hold, rfl⟩ := List.mem_map.1 h
    exact .inl ⟨old, hold, rfl⟩
  | follow link =>
    rw [afterStep, follow] at h
    rw [Step.announces]
    cases hread : link.readTip with
    | error error =>
      rw [hread] at h
      exact .inl ⟨lease, h, rfl⟩
    | ok tip =>
      rw [hread] at h
      obtain ⟨old, hold, rfl⟩ := List.mem_map.1 h
      exact .inl ⟨old, hold, rfl⟩
  | evict now =>
    exact .inl ⟨lease, (scan_sublist _ _ now book.queue book.leases).subset h, rfl⟩
  | remove id => exact .inl ⟨lease, (List.mem_filter.1 h).1, rfl⟩
  | find id => exact .inl ⟨lease, h, rfl⟩

theorem announcedTip_afterStep (book : LeaseBook) (step : Step) :
    (book.afterStep step).announcedTip = step.announces.or book.announcedTip := by
  cases step with
  | follow link =>
    rw [afterStep, follow, Step.announces]
    cases link.readTip <;> rfl
  | _ => rfl

theorem Sound.afterStep {book : LeaseBook} (h : book.Sound) (step : Step) :
    (book.afterStep step).Sound := by
  cases step with
  | grant template drawn now => exact h.grant template drawn now
  | announce tip => exact h.announce tip
  | follow link => exact h.follow link
  | evict now => exact h.evict now
  | remove id => exact h.remove id
  | find id => exact h

theorem limits_afterStep (book : LeaseBook) (step : Step) :
    (book.afterStep step).maxAge = book.maxAge ∧
      (book.afterStep step).maxLeases = book.maxLeases := by
  cases step with
  | follow link =>
    show (book.follow link).2.maxAge = _ ∧ (book.follow link).2.maxLeases = _
    unfold follow
    cases link.readTip <;> exact ⟨rfl, rfl⟩
  | _ => exact ⟨rfl, rfl⟩

theorem limits_after (book : LeaseBook) (steps : List Step) :
    (book.after steps).maxAge = book.maxAge ∧ (book.after steps).maxLeases = book.maxLeases := by
  induction steps generalizing book with
  | nil => exact ⟨rfl, rfl⟩
  | cons step steps ih =>
    obtain ⟨hage, hleases⟩ := limits_afterStep book step
    exact ⟨(ih (book.afterStep step)).1.trans hage, (ih (book.afterStep step)).2.trans hleases⟩

/-- Every policy leaves room for a lease. -/
theorem maxLeases_empty_pos (policy : LeasePolicy) : 0 < (empty policy).maxLeases :=
  Nat.lt_of_lt_of_le Nat.one_pos (Nat.le_max_right _ 1)

theorem maxLeases_after_pos (policy : LeasePolicy) (steps : List Step) :
    0 < ((empty policy).after steps).maxLeases := by
  rw [(limits_after (empty policy) steps).2]
  exact maxLeases_empty_pos policy

/-- **A candidate that is held keeps its template**: as long as its id is held, it is. -/
theorem Sound.mem_candidates_afterStep {book : LeaseBook} (h : book.Sound) {step : Step}
    {candidate : Candidate} (hmem : candidate ∈ book.candidates)
    (hid : candidate.id ∈ (book.afterStep step).ids) :
    candidate ∈ (book.afterStep step).candidates := by
  obtain ⟨lease, hlease, hleaseId⟩ := List.mem_map.1 hid
  obtain ⟨held, hheld, rfl⟩ := List.mem_map.1 hmem
  rcases mem_afterStep hlease with ⟨old, hold, rfl⟩ | ⟨template, drawn, now, rfl, rfl⟩
  · rw [Lease.id, Lease.candidate_hears] at hleaseId
    obtain rfl := List.inj_on_of_nodup_map h.distinct hold hheld hleaseId
    exact List.mem_map.2 ⟨_, hlease, Lease.candidate_hears _ _⟩
  · -- A new lease has an id that was not held.
    have hheldId : (book.newLease template drawn now).id ∈ book.ids := by
      rw [hleaseId]
      exact List.mem_map_of_mem hheld
    exact absurd hheldId (h.newLease_id_not_mem template drawn now)

/-! ## What is kept -/

/-- What a book keeps about its past, when `past` are the candidates granted so far, in order, and
`last` is the tip announced last. -/
structure Remembers (book : LeaseBook) (past : List Candidate) (last : Option Digest) : Prop where
  sound : book.Sound
  announcedTip : book.announcedTip = last
  /-- A lease is the last that was granted under its id. -/
  granted : ∀ lease ∈ book.leases, past.reverse.find? (·.id = lease.id) = some lease.candidate
  issuedTip : ∀ lease ∈ book.leases, lease.issuedTip = lease.template.parent
  status : ∀ lease ∈ book.leases, lease.status = Lease.statusAfter last lease.issuedTip

variable {book : LeaseBook} {past : List Candidate} {last : Option Digest}

theorem remembers_empty (policy : LeasePolicy) : (empty policy).Remembers [] none where
  sound := sound_empty policy
  announcedTip := rfl
  granted _ hmem := absurd hmem List.not_mem_nil
  issuedTip _ hmem := absurd hmem List.not_mem_nil
  status _ hmem := absurd hmem List.not_mem_nil

/-- What is granted under another id does not hide an earlier grant. -/
theorem find?_reverse_append_grantedBy {step : Step} {id : CandidateId}
    (h : ∀ candidate ∈ book.grantedBy step, candidate.id ≠ id) :
    (past ++ (book.grantedBy step).toList).reverse.find? (·.id = id) =
      past.reverse.find? (·.id = id) := by
  cases hgranted : book.grantedBy step with
  | none => rw [Option.toList_none, List.append_nil]
  | some candidate =>
    rw [Option.toList_some, List.reverse_append, List.reverse_singleton, List.singleton_append,
      List.find?_cons_of_neg]
    simpa using h candidate hgranted

/-- The id of a candidate that a step grants is not held before. -/
theorem Sound.grantedBy_id_not_mem (h : book.Sound) {step : Step} {candidate : Candidate}
    (hgranted : candidate ∈ book.grantedBy step) : candidate.id ∉ book.ids := by
  cases step with
  | grant template drawn now =>
    obtain rfl := Option.some.inj hgranted
    exact h.newLease_id_not_mem template drawn now
  | _ => cases hgranted

/-- **One step** keeps it. -/
theorem Remembers.afterStep (h : book.Remembers past last) (step : Step) :
    (book.afterStep step).Remembers (past ++ (book.grantedBy step).toList)
      (step.announces.or last) where
  sound := h.sound.afterStep step
  announcedTip := by rw [announcedTip_afterStep, h.announcedTip]
  granted lease hmem := by
    rcases mem_afterStep hmem with ⟨old, hold, rfl⟩ | ⟨template, drawn, now, rfl, rfl⟩
    · have hfind := h.granted old hold
      rw [Lease.id, Lease.candidate_hears, find?_reverse_append_grantedBy]
      · exact hfind
      · -- The id of the new candidate is not held, and this one is.
        rintro candidate hcandidate hid
        exact h.sound.grantedBy_id_not_mem hcandidate (hid ▸ List.mem_map_of_mem hold)
    · rw [grantedBy, Option.toList_some, List.reverse_append, List.reverse_singleton,
        List.singleton_append]
      exact List.find?_cons_of_pos (decide_eq_true rfl)
  issuedTip lease hmem := by
    rcases mem_afterStep hmem with ⟨old, hold, rfl⟩ | ⟨template, drawn, now, rfl, rfl⟩
    · rw [Lease.issuedTip_hears, Lease.template, Lease.candidate_hears]
      exact h.issuedTip old hold
    · rfl
  status lease hmem := by
    rcases mem_afterStep hmem with ⟨old, hold, rfl⟩ | ⟨template, drawn, now, rfl, rfl⟩
    · rw [Lease.issuedTip_hears]
      exact Lease.status_hears (h.status old hold) step.announces
    · rw [← h.announcedTip]
      rfl

/-- **Every run** keeps it. -/
theorem Remembers.after (h : book.Remembers past last) (steps : List Step) :
    (book.after steps).Remembers (past ++ book.granted steps) ((lastAnnounced steps).or last) := by
  -- What happened before is arbitrary, so that the induction can move past a step.
  induction steps generalizing book past last with
  | nil =>
    rw [LeaseBook.granted, List.append_nil]
    exact h
  | cons step steps ih =>
    rw [LeaseBook.granted, lastAnnounced_cons, Option.or_assoc, ← List.append_assoc]
    exact ih (h.afterStep step)

/-! ## Counting announcements -/

/-- How many leases are current in a book and superseded in a later one. -/
def lapsed (book later : LeaseBook) : Nat :=
  book.leases.countP fun lease =>
    lease.status = .current ∧
      (later.find lease.id).toOption.map Lease.status = some .superseded

/-- The leases that an announcement counts are those that it supersedes. -/
theorem Sound.announce_fst (h : book.Sound) (tip : Digest) :
    (book.announce tip).1 = book.lapsed (book.announce tip).2 := by
  refine List.countP_congr fun lease hmem => ?_
  have hfind : (book.announce tip).2.find lease.id = .ok (lease.announced tip) :=
    (h.announce tip).find_eq_ok_iff.2 ⟨List.mem_map_of_mem hmem, rfl⟩
  have hstatus : (lease.announced tip).status = .superseded ↔ lease.issuedTip ≠ tip :=
    Lease.statusOn_eq_superseded_iff
  rw [decide_eq_true_iff, decide_eq_true_iff, hfind, ← hstatus]
  simp [Except.toOption]

/-- Announcing a tip again supersedes no lease and changes nothing. -/
theorem announce_announce (book : LeaseBook) (tip : Digest) :
    (book.announce tip).2.announce tip = (0, (book.announce tip).2) := by
  have hcount : ((book.announce tip).2.announce tip).1 = 0 := by
    refine List.countP_eq_zero.2 fun lease hmem => ?_
    obtain ⟨old, -, rfl⟩ := List.mem_map.1 hmem
    have hstatus : (old.announced tip).status = .current ↔ old.issuedTip = tip :=
      Lease.statusOn_eq_current_iff
    rw [decide_eq_true_iff, hstatus]
    exact fun hboth => hboth.2 hboth.1
  have hbook : ((book.announce tip).2.announce tip).2 = (book.announce tip).2 := by
    show { book with
      leases := (book.leases.map (Lease.announced tip)).map (Lease.announced tip)
      announcedTip := some tip } = _
    rw [List.map_map]
    rfl
  exact Prod.ext hcount hbook

/-! ## The last announcement decides -/

/-- What holds of every history of a book. -/
structure Decided (origin : LeaseBook) : Prop where
  /-- A lease that is granted is found right after, and holds the template. -/
  found : ∀ steps template drawn now,
    ((origin.after steps).grant template drawn now).2.2.find
        ((origin.after steps).grant template drawn now).1.id =
      .ok ((origin.after steps).newLease template drawn now) ∧
    ((origin.after steps).newLease template drawn now).template = template
  /-- A lease that is held is found under its id. It holds the template that was granted last
  under that id, and the parent of this template is the tip that it was issued on. -/
  resolves : ∀ steps, ∀ lease ∈ (origin.after steps).leases,
    (origin.after steps).find lease.id = .ok lease ∧
      (origin.granted steps).reverse.find? (·.id = lease.id) = some lease.candidate ∧
      lease.issuedTip = lease.template.parent
  unannounced : ∀ steps, lastAnnounced steps = none →
    ∀ lease ∈ (origin.after steps).leases, lease.status = .current
  announced : ∀ steps tip, lastAnnounced steps = some tip →
    ∀ lease ∈ (origin.after steps).leases, lease.status = .current ↔ lease.issuedTip = tip
  /-- An announcement answers with the number of leases that were current before and are
  superseded after. -/
  counted : ∀ steps tip, ((origin.after steps).announce tip).1 =
    (origin.after steps).lapsed ((origin.after steps).announce tip).2
  /-- Following a chain announces its tip. -/
  followed : ∀ steps link tip, link.readTip = .ok tip →
    (origin.after steps).follow link =
      (.ok ((origin.after steps).announce tip.hash).1,
        ((origin.after steps).announce tip.hash).2)
  unread : ∀ steps link error, link.readTip = .error error →
    (origin.after steps).follow link = (.error error, origin.after steps)
  repeated : ∀ steps tip, ((origin.after steps).announce tip).2.announce tip =
    (0, ((origin.after steps).announce tip).2)

/-- **The last announcement decides**, in every history that starts with an empty book. -/
theorem status_decided (policy : LeasePolicy) : (empty policy).Decided := by
  have hkept : ∀ steps, ((empty policy).after steps).Remembers ((empty policy).granted steps)
      (lastAnnounced steps) := by
    intro steps
    have h := (remembers_empty policy).after steps
    rwa [List.nil_append, Option.or_none] at h
  exact {
    found := fun steps template drawn now =>
      ⟨find_grant (hkept steps).sound (maxLeases_after_pos policy steps) template drawn now, rfl⟩
    resolves := fun steps lease hmem =>
      ⟨(hkept steps).sound.find_eq_ok_iff.2 ⟨hmem, rfl⟩, (hkept steps).granted lease hmem,
        (hkept steps).issuedTip lease hmem⟩
    unannounced := fun steps hnone lease hmem => by
      rw [(hkept steps).status lease hmem, hnone, Lease.statusAfter]
    announced := fun steps tip hsome lease hmem => by
      rw [(hkept steps).status lease hmem, hsome, Lease.statusAfter]
      exact Lease.statusOn_eq_current_iff
    counted := fun steps tip => (hkept steps).sound.announce_fst tip
    followed := fun steps link tip hread => by rw [follow, hread]
    unread := fun steps link error hread => by rw [follow, hread]
    repeated := fun steps tip => announce_announce _ tip }

end LeaseBook

end WorkLease
