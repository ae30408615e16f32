import WorkLease.CandidateId
import WorkLease.Chain
import WorkLease.Config
import WorkLease.Template.Basic

/-!
# Leases

A lease is a template that was issued under an id. A lease is current while the tip announced
last is the one it was built on, and superseded otherwise. Leases beyond an age or beyond a number
are evicted, the oldest first: their ids wait in a queue from their issue on. A removal by hand
takes the lease and leaves its id in the queue, where eviction comes upon it and passes it over.
-/

namespace WorkLease

/-- An instant, in nanoseconds. -/
abbrev Instant := Nat

/-- Whether a lease still stands on the tip announced last. -/
inductive LeaseStatus where
  | current
  | superseded
  deriving DecidableEq

/-- A template under the id that it was issued by. -/
structure Candidate where
  id : CandidateId
  template : Template

structure Lease where
  candidate : Candidate
  /-- The tip that it was issued on. -/
  issuedTip : Digest
  status : LeaseStatus
  issuedAt : Instant

namespace Lease

def id (lease : Lease) : CandidateId := lease.candidate.id

def template (lease : Lease) : Template := lease.candidate.template

/-- The status of a lease on `issuedTip` once `tip` is announced. -/
def statusOn (issuedTip tip : Digest) : LeaseStatus :=
  if issuedTip = tip then .current else .superseded

/-- The status of a lease on `issuedTip` when `last` is the tip announced last, if there is one. -/
def statusAfter (last : Option Digest) (issuedTip : Digest) : LeaseStatus :=
  match last with
  | some tip => statusOn issuedTip tip
  | none => .current

def announced (tip : Digest) (lease : Lease) : Lease :=
  { lease with status := statusOn lease.issuedTip tip }

end Lease

/-- The leases that are held, and the limits on them. -/
structure LeaseBook where
  /-- The greatest age of a lease, in nanoseconds. -/
  maxAge : Nat
  maxLeases : Nat
  leases : List Lease
  /-- Ids in the order of their issue, oldest first; some may belong to leases already removed. -/
  queue : List CandidateId
  announcedTip : Option Digest

namespace LeaseBook

/-- The empty book under a policy; at least one lease may be held. -/
def empty (policy : LeasePolicy) : LeaseBook :=
  ⟨policy.maxAgeSecs.toNat * 1000000000, max policy.maxLeases.toNat 1, [], [], none⟩

def ids (book : LeaseBook) : List CandidateId :=
  book.leases.map Lease.id

def size (book : LeaseBook) : Nat :=
  book.leases.length

def currentCount (book : LeaseBook) : Nat :=
  book.leases.countP (·.status = .current)

/-- The first id that is not held, of `tries` from the drawn one on. -/
def freeId (held : List CandidateId) : Nat → CandidateId → CandidateId
  | 0, id => id
  | tries + 1, id => if id ∈ held then freeId held tries id.next else id

/-- Evicts along a queue of ids, until the id in front is that of a lease that is neither too old
at `now` nor one too many; an id under which nothing is held is passed over. The answer is the
number of leases evicted, what is left of the queue, and the leases that are left. -/
def scan (maxAge maxLeases : Nat) (now : Instant) :
    List CandidateId → List Lease → Nat × List CandidateId × List Lease
  | [], leases => (0, [], leases)
  | oldest :: queue, leases =>
      match leases.find? (·.id = oldest) with
      | none => scan maxAge maxLeases now queue leases
      | some lease =>
          if now - lease.issuedAt ≤ maxAge ∧ leases.length ≤ maxLeases then
            (0, oldest :: queue, leases)
          else
            let rest := scan maxAge maxLeases now queue (leases.filter (·.id ≠ oldest))
            (rest.1 + 1, rest.2)

/-- Evicts the leases that are too old or too many at an instant, and counts them. -/
def evict (book : LeaseBook) (now : Instant) : Nat × LeaseBook :=
  let swept := scan book.maxAge book.maxLeases now book.queue book.leases
  (swept.1, { book with queue := swept.2.1, leases := swept.2.2 })

/-- The lease under which a template is granted. Its id is the drawn one, or the next after it that
is not held. -/
def newLease (book : LeaseBook) (template : Template) (drawn : CandidateId) (now : Instant) :
    Lease where
  candidate := ⟨freeId book.ids book.size drawn, template⟩
  issuedTip := template.parent
  status := Lease.statusAfter book.announcedTip template.parent
  issuedAt := now

/-- The book with a lease at the end of the queue. -/
def push (book : LeaseBook) (lease : Lease) : LeaseBook :=
  { book with leases := book.leases ++ [lease], queue := book.queue ++ [lease.id] }

/-- Holds a template under a fresh id, then evicts. The answer is the candidate and the number of
leases evicted. -/
def grant (book : LeaseBook) (template : Template) (drawn : CandidateId) (now : Instant) :
    Candidate × Nat × LeaseBook :=
  let lease := book.newLease template drawn now
  (lease.candidate, (book.push lease).evict now)

def find (book : LeaseBook) (id : CandidateId) : Except ProtocolError Lease :=
  match book.leases.find? (·.id = id) with
  | some lease => .ok lease
  | none => .error .unknownCandidate

/-- Announces a tip, and counts the leases that it supersedes. -/
def announce (book : LeaseBook) (tip : Digest) : Nat × LeaseBook :=
  (book.leases.countP fun lease => lease.status = .current ∧ lease.issuedTip ≠ tip,
    { book with
      leases := book.leases.map (Lease.announced tip)
      announcedTip := some tip })

/-- Announces the tip of a chain, if it can be read. -/
def follow (book : LeaseBook) (link : ChainLink) : Except ProtocolError Nat × LeaseBook :=
  match link.readTip with
  | .ok tip =>
      let announced := book.announce tip.hash
      (.ok announced.1, announced.2)
  | .error error => (.error error, book)

/-- Drops the lease held under an id, and tells whether there was one. The id stays in the queue. -/
def remove (book : LeaseBook) (id : CandidateId) : Bool × LeaseBook :=
  (book.leases.any (·.id = id),
    { book with leases := book.leases.filter (·.id ≠ id) })

end LeaseBook

end WorkLease
