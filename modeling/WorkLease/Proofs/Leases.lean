import Mathlib.Algebra.Order.Ring.Nat
import Mathlib.Data.List.Basic
import Mathlib.Data.List.Nodup
import Mathlib.Logic.Function.Iterate
import WorkLease.LeaseBook

/-!
# The book of leases

The candidates held are what the operations of the book move about: announcing a tip changes no
candidate, evicting and removing drop some, and granting adds one under an id that is free. The id
that is given out may still wait in the queue, if the lease that had it was removed, and then it
stands there twice. Eviction comes upon the new lease in the place of the old one, but not at once:
a removal leaves room for a lease, so the pass of the grant itself ends before.

* `freeId_not_mem`: the id given out is not held, while fewer than `2 ^ 128` leases are.
* `scan_sublist`, `scan_counts`, `length_scan_le`: what a pass leaves, whatever the queue.
* `mem_scan_of_young`, `mem_scan_cons_of_young`: a young lease stays where there is room for it.
* `Sound`: ids are distinct, all of them wait, and the book is within its bound; every operation
  keeps this.
* `Sound.newest_mem_evict`: so a lease is held after its grant.
* `find_eq_ok_iff`: and an id finds exactly the lease that is held under it.
-/

namespace WorkLease

/-! ## Free ids -/

theorem CandidateId.bits_iterate_next (id : CandidateId) (n : Nat) :
    (CandidateId.next^[n] id).bits = id.bits + BitVec.ofNat 128 n := by
  induction n with
  | zero => simp
  | succ n ih =>
    rw [Function.iterate_succ_apply', CandidateId.next, ih, BitVec.add_assoc]
    congr 1
    rw [BitVec.ofNat_add]
    rfl

theorem CandidateId.iterate_next_inj {id : CandidateId} {m n : Nat} (hm : m < 2 ^ 128)
    (hn : n < 2 ^ 128) (h : CandidateId.next^[m] id = CandidateId.next^[n] id) : m = n := by
  have hbits := congrArg CandidateId.bits h
  rw [bits_iterate_next, bits_iterate_next, BitVec.add_right_inj] at hbits
  have hnat := congrArg BitVec.toNat hbits
  rwa [BitVec.toNat_ofNat, BitVec.toNat_ofNat, Nat.mod_eq_of_lt hm, Nat.mod_eq_of_lt hn] at hnat

namespace LeaseBook

/-- If the search ends at an id that is held, every id it tried is held. -/
theorem iterate_mem_of_freeId_mem {held : List CandidateId} {tries : Nat} {id : CandidateId}
    (h : freeId held tries id ∈ held) : ∀ n ≤ tries, CandidateId.next^[n] id ∈ held := by
  induction tries generalizing id with
  | zero =>
    intro n hn
    obtain rfl := Nat.le_zero.1 hn
    exact h
  | succ tries ih =>
    intro n hn
    unfold freeId at h
    split_ifs at h with hid
    · cases n with
      | zero => exact hid
      | succ n => exact ih h n (Nat.le_of_succ_le_succ hn)
    · exact absurd h hid

/-- **The id given out is free.** -/
theorem freeId_not_mem {held : List CandidateId} (hheld : held.length < 2 ^ 128)
    (id : CandidateId) : freeId held held.length id ∉ held := by
  intro hmem
  -- One more id was tried than are held, and all of them are different.
  have hnodup : ((List.range (held.length + 1)).map fun n => CandidateId.next^[n] id).Nodup := by
    refine List.Nodup.map_on (fun m hm n hn h => ?_) List.nodup_range
    rw [List.mem_range] at hm hn
    exact CandidateId.iterate_next_inj (by omega) (by omega) h
  have hsub : ((List.range (held.length + 1)).map fun n => CandidateId.next^[n] id) ⊆ held := by
    intro tried htried
    obtain ⟨n, hn, rfl⟩ := List.mem_map.1 htried
    exact iterate_mem_of_freeId_mem hmem n (Nat.le_of_lt_succ (List.mem_range.1 hn))
  have hle := hnodup.length_le_of_subset hsub
  rw [List.length_map, List.length_range] at hle
  omega

/-! ## Candidates -/

/-- The candidates held, in the order of their issue. -/
def candidates (book : LeaseBook) : List Candidate :=
  book.leases.map Lease.candidate

theorem ids_eq (book : LeaseBook) : book.ids = book.candidates.map Candidate.id := by
  rw [ids, candidates, List.map_map]
  rfl

/-! ## Eviction -/

section Scan

variable {maxAge maxLeases : Nat} {now : Instant} {queue : List CandidateId} {leases : List Lease}

variable (maxAge maxLeases now queue leases) in
theorem scan_sublist : (scan maxAge maxLeases now queue leases).2.2.Sublist leases := by
  fun_induction scan maxAge maxLeases now queue leases with
  | case1 leases => exact List.Sublist.refl _
  | case2 oldest queue leases hnone ih => exact ih
  | case3 oldest queue leases lease hfound hstays => exact List.Sublist.refl _
  | case4 oldest queue leases lease hfound hgoes rest ih => exact ih.trans List.filter_sublist

variable (maxAge maxLeases now queue leases) in
theorem scan_suffix : (scan maxAge maxLeases now queue leases).2.1 <:+ queue := by
  fun_induction scan maxAge maxLeases now queue leases with
  | case1 leases => exact List.suffix_rfl
  | case2 oldest queue leases hnone ih => exact ih.trans (List.suffix_cons oldest queue)
  | case3 oldest queue leases lease hfound hstays => exact List.suffix_rfl
  | case4 oldest queue leases lease hfound hgoes rest ih =>
    exact ih.trans (List.suffix_cons oldest queue)

theorem mem_ids_of_find? {id : CandidateId} {lease : Lease}
    (h : leases.find? (·.id = id) = some lease) : lease ∈ leases ∧ lease.id = id :=
  ⟨List.mem_of_find?_eq_some h, by simpa using List.find?_some h⟩

theorem not_mem_ids_of_find? {id : CandidateId} (h : leases.find? (·.id = id) = none) :
    id ∉ leases.map Lease.id := by
  intro hmem
  obtain ⟨lease, hlease, hid⟩ := List.mem_map.1 hmem
  have hne := List.find?_eq_none.1 h lease hlease
  simp [hid] at hne

/-- Under an id there is one lease at most. -/
theorem length_filter_ne (hdistinct : (leases.map Lease.id).Nodup) (id : CandidateId) :
    (leases.filter fun lease => lease.id ≠ id).length +
      (leases.any fun lease => lease.id = id).toNat = leases.length := by
  have hheld : (leases.any fun lease => lease.id = id) = decide (id ∈ leases.map Lease.id) := by
    rw [Bool.eq_iff_iff]
    simp
  have hcount : (leases.filter fun lease => !decide (lease.id ≠ id)).length =
      (leases.map Lease.id).count id := by
    rw [← List.countP_eq_length_filter, List.count, List.countP_map]
    exact List.countP_congr fun lease _ => by simp
  have hparts := @List.length_eq_length_filter_add _ leases fun lease => lease.id ≠ id
  rw [hcount, hdistinct.count] at hparts
  rw [hheld, hparts]
  split_ifs with hmem <;> simp [hmem]

/-- A pass takes a lease from under the id that it found in front. -/
theorem length_filter_of_find? (hdistinct : (leases.map Lease.id).Nodup) {id : CandidateId}
    {lease : Lease} (hfound : leases.find? (·.id = id) = some lease) :
    (leases.filter fun lease => lease.id ≠ id).length + 1 = leases.length := by
  obtain ⟨hmem, hid⟩ := mem_ids_of_find? hfound
  have hany : (leases.any fun lease => lease.id = id) = true :=
    List.any_eq_true.2 ⟨lease, hmem, by simpa using hid⟩
  have hparts := length_filter_ne hdistinct id
  rwa [hany, Bool.toNat_true] at hparts

variable (maxAge maxLeases now queue) in
/-- **Eviction counts what it drops**: an id in the queue under which nothing is held is passed
over, and counts for nothing. -/
theorem scan_counts (hdistinct : (leases.map Lease.id).Nodup) :
    (scan maxAge maxLeases now queue leases).2.2.length +
      (scan maxAge maxLeases now queue leases).1 = leases.length := by
  fun_induction scan maxAge maxLeases now queue leases with
  | case1 leases => rfl
  | case2 oldest queue leases hnone ih => exact ih hdistinct
  | case3 oldest queue leases lease hfound hstays => rfl
  | case4 oldest queue leases lease hfound hgoes rest ih =>
    rw [← length_filter_of_find? hdistinct hfound,
      ← ih (hdistinct.sublist (List.filter_sublist.map Lease.id))]
    rfl

/-- What does not stand under the id in front waits behind it. -/
theorem waiting_filter {oldest : CandidateId}
    (hwaiting : leases.map Lease.id ⊆ oldest :: queue) :
    (leases.filter (·.id ≠ oldest)).map Lease.id ⊆ queue := by
  intro id hid
  obtain ⟨lease, hlease, rfl⟩ := List.mem_map.1 hid
  obtain ⟨hmem, hne⟩ := List.mem_filter.1 hlease
  exact (List.mem_cons.1 (hwaiting (List.mem_map_of_mem hmem))).resolve_left (of_decide_eq_true hne)

theorem waiting_of_find?_eq_none {oldest : CandidateId}
    (hnone : leases.find? (·.id = oldest) = none)
    (hwaiting : leases.map Lease.id ⊆ oldest :: queue) : leases.map Lease.id ⊆ queue := by
  intro id hid
  rcases List.mem_cons.1 (hwaiting hid) with rfl | hlater
  · exact absurd hid (not_mem_ids_of_find? hnone)
  · exact hlater

variable (maxAge maxLeases now) in
/-- What is left by a pass still waits in the queue, if all did before. -/
theorem scan_waiting (hwaiting : leases.map Lease.id ⊆ queue) :
    (scan maxAge maxLeases now queue leases).2.2.map Lease.id ⊆
      (scan maxAge maxLeases now queue leases).2.1 := by
  fun_induction scan maxAge maxLeases now queue leases with
  | case1 leases => exact hwaiting
  | case2 oldest queue leases hnone ih => exact ih (waiting_of_find?_eq_none hnone hwaiting)
  | case3 oldest queue leases lease hfound hstays => exact hwaiting
  | case4 oldest queue leases lease hfound hgoes rest ih => exact ih (waiting_filter hwaiting)

variable (maxAge maxLeases now queue leases) in
/-- A pass ends at the end of the queue or at a lease that may stay. -/
theorem scan_front : ∀ id ∈ (scan maxAge maxLeases now queue leases).2.1.head?,
    id ∈ (scan maxAge maxLeases now queue leases).2.2.map Lease.id ∧
      (scan maxAge maxLeases now queue leases).2.2.length ≤ maxLeases := by
  fun_induction scan maxAge maxLeases now queue leases with
  | case1 leases => exact nofun
  | case2 oldest queue leases hnone ih => exact ih
  | case3 oldest queue leases lease hfound hstays =>
    intro id hid
    obtain rfl := Option.some.inj hid
    obtain ⟨hmem, hid⟩ := mem_ids_of_find? hfound
    exact ⟨hid ▸ List.mem_map_of_mem hmem, hstays.2⟩
  | case4 oldest queue leases lease hfound hgoes rest ih => exact ih

variable (maxAge maxLeases now) in
/-- No more leases are left than may be held. -/
theorem length_scan_le (hwaiting : leases.map Lease.id ⊆ queue) :
    (scan maxAge maxLeases now queue leases).2.2.length ≤ maxLeases := by
  have hleft := scan_waiting maxAge maxLeases now hwaiting
  have hfront := scan_front maxAge maxLeases now queue leases
  cases hqueue : (scan maxAge maxLeases now queue leases).2.1 with
  | nil =>
    rw [hqueue, List.subset_nil, List.map_eq_nil_iff] at hleft
    rw [hleft]
    exact Nat.zero_le maxLeases
  | cons oldest rest =>
    rw [hqueue] at hfront
    exact (hfront oldest rfl).2

/-- Where no lease is one too many, a young one stays. -/
theorem mem_scan_of_young {lease : Lease} (hdistinct : (leases.map Lease.id).Nodup)
    (hroom : leases.length ≤ maxLeases) (hmem : lease ∈ leases)
    (hyoung : now - lease.issuedAt ≤ maxAge) :
    lease ∈ (scan maxAge maxLeases now queue leases).2.2 := by
  fun_induction scan maxAge maxLeases now queue leases with
  | case1 leases => exact hmem
  | case2 oldest queue leases hnone ih => exact ih hdistinct hroom hmem
  | case3 oldest queue leases other hfound hstays => exact hmem
  | case4 oldest queue leases other hfound hgoes rest ih =>
    have hkept : (leases.filter (·.id ≠ oldest)).Sublist leases := List.filter_sublist
    refine ih (hdistinct.sublist (hkept.map Lease.id)) (hkept.length_le.trans hroom) ?_
    -- The lease that goes is too old, so it is another one.
    obtain ⟨hother, rfl⟩ := mem_ids_of_find? hfound
    refine List.mem_filter.2 ⟨hmem, decide_eq_true fun hid => hgoes ⟨?_, hroom⟩⟩
    rwa [← List.inj_on_of_nodup_map hdistinct hmem hother hid]

/-- Where one lease is too many and another one is in front, a young one stays. -/
theorem mem_scan_cons_of_young {oldest : CandidateId} {lease : Lease}
    (hdistinct : (leases.map Lease.id).Nodup) (hroom : leases.length ≤ maxLeases + 1)
    (hheld : oldest ∈ leases.map Lease.id) (hmem : lease ∈ leases) (hne : lease.id ≠ oldest)
    (hyoung : now - lease.issuedAt ≤ maxAge) :
    lease ∈ (scan maxAge maxLeases now (oldest :: queue) leases).2.2 := by
  rw [scan]
  cases hfound : leases.find? (·.id = oldest) with
  | none => exact absurd hheld (not_mem_ids_of_find? hfound)
  | some first =>
    dsimp only
    split_ifs
    · exact hmem
    · -- With the lease in front gone there is room for the others.
      have hone := length_filter_of_find? hdistinct hfound
      exact mem_scan_of_young (hdistinct.sublist (List.filter_sublist.map Lease.id)) (by omega)
        (List.mem_filter.2 ⟨hmem, decide_eq_true hne⟩) hyoung

end Scan

theorem candidates_evict (book : LeaseBook) (now : Instant) :
    (book.evict now).2.candidates.Sublist book.candidates :=
  (scan_sublist book.maxAge book.maxLeases now book.queue book.leases).map Lease.candidate

@[simp] theorem candidates_push (book : LeaseBook) (lease : Lease) :
    (book.push lease).candidates = book.candidates ++ [lease.candidate] :=
  List.map_append

theorem candidates_grant (book : LeaseBook) (template : Template) (drawn : CandidateId)
    (now : Instant) :
    (book.grant template drawn now).2.2.candidates.Sublist
      (book.candidates ++ [(book.grant template drawn now).1]) := by
  have hleft := candidates_evict (book.push (book.newLease template drawn now)) now
  rwa [candidates_push] at hleft

@[simp] theorem candidates_announce (book : LeaseBook) (tip : Digest) :
    (book.announce tip).2.candidates = book.candidates := by
  show (book.leases.map (Lease.announced tip)).map Lease.candidate = _
  rw [List.map_map]
  rfl

theorem candidates_remove (book : LeaseBook) (id : CandidateId) :
    (book.remove id).2.candidates.Sublist book.candidates :=
  List.filter_sublist.map Lease.candidate

/-! ## Soundness -/

/-- Ids are distinct and wait in the queue, and no more leases are held than may be. -/
structure Sound (book : LeaseBook) : Prop where
  distinct : book.ids.Nodup
  bounded : book.size ≤ book.maxLeases
  capacity : book.maxLeases ≤ 2 ^ 64
  waiting : book.ids ⊆ book.queue
  /-- If the lease of the id in front is gone, there is room for another. -/
  room : ∀ id ∈ book.queue.head?, id ∉ book.ids → book.size < book.maxLeases

theorem size_eq (book : LeaseBook) : book.size = book.ids.length :=
  (List.length_map _).symm

/-- Only ids and numbers matter. -/
theorem Sound.of_ids_eq {book after : LeaseBook} (h : book.Sound) (hids : after.ids = book.ids)
    (hqueue : after.queue = book.queue) (hmax : after.maxLeases = book.maxLeases) :
    after.Sound := by
  have hsize : after.size = book.size := by rw [size_eq, size_eq, hids]
  constructor
  · rw [hids]
    exact h.distinct
  · rw [hsize, hmax]
    exact h.bounded
  · rw [hmax]
    exact h.capacity
  · rw [hids, hqueue]
    exact h.waiting
  · rw [hids, hqueue, hsize, hmax]
    exact h.room

theorem sound_empty (policy : LeasePolicy) : (empty policy).Sound where
  distinct := List.nodup_nil
  bounded := Nat.zero_le _
  capacity := by
    have := policy.maxLeases.toNat_lt
    show max policy.maxLeases.toNat 1 ≤ 2 ^ 64
    omega
  waiting := List.nil_subset _
  room := nofun

/-- Eviction brings the number within its bound. -/
theorem sound_evict {book : LeaseBook} (hdistinct : book.ids.Nodup)
    (hwaiting : book.ids ⊆ book.queue) (hcapacity : book.maxLeases ≤ 2 ^ 64) (now : Instant) :
    (book.evict now).2.Sound where
  distinct := hdistinct.sublist ((scan_sublist _ _ now _ _).map Lease.id)
  bounded := length_scan_le _ _ now hwaiting
  capacity := hcapacity
  waiting := scan_waiting _ _ now hwaiting
  room id hfront hgone := absurd (scan_front _ _ now _ _ id hfront).1 hgone

theorem Sound.evict {book : LeaseBook} (h : book.Sound) (now : Instant) :
    (book.evict now).2.Sound :=
  sound_evict h.distinct h.waiting h.capacity now

theorem Sound.announce {book : LeaseBook} (h : book.Sound) (tip : Digest) :
    (book.announce tip).2.Sound :=
  h.of_ids_eq (by rw [ids_eq, ids_eq, candidates_announce]) rfl rfl

/-- A removal takes one lease if there is one under the id. -/
theorem Sound.size_remove {book : LeaseBook} (h : book.Sound) (id : CandidateId) :
    (book.remove id).2.size + (book.remove id).1.toNat = book.size :=
  length_filter_ne h.distinct id

theorem mem_ids_remove {book : LeaseBook} {id other : CandidateId} :
    other ∈ (book.remove id).2.ids ↔ other ∈ book.ids ∧ other ≠ id := by
  show other ∈ (book.leases.filter (·.id ≠ id)).map Lease.id ↔ _
  rw [ids, List.mem_map, List.mem_map]
  constructor
  · rintro ⟨lease, hlease, rfl⟩
    obtain ⟨hmem, hne⟩ := List.mem_filter.1 hlease
    exact ⟨⟨lease, hmem, rfl⟩, of_decide_eq_true hne⟩
  · rintro ⟨⟨lease, hmem, rfl⟩, hne⟩
    exact ⟨lease, List.mem_filter.2 ⟨hmem, decide_eq_true hne⟩, rfl⟩

theorem Sound.remove {book : LeaseBook} (h : book.Sound) (id : CandidateId) :
    (book.remove id).2.Sound := by
  have hsize := h.size_remove id
  have hbounded := h.bounded
  refine {
    distinct := h.distinct.sublist (List.filter_sublist.map Lease.id)
    bounded := Nat.le_trans (by omega) hbounded
    capacity := h.capacity
    waiting := fun other hother => h.waiting (mem_ids_remove.1 hother).1
    room := fun front hfront hgone => ?_ }
  by_cases hheld : front ∈ book.ids
  · -- It was the lease in front that was removed.
    obtain rfl : front = id := by
      by_contra hne
      exact hgone (mem_ids_remove.2 ⟨hheld, hne⟩)
    have hremoved : (book.remove front).1 = true := by
      obtain ⟨lease, hlease, hid⟩ := List.mem_map.1 hheld
      exact List.any_eq_true.2 ⟨lease, hlease, decide_eq_true hid⟩
    rw [hremoved, Bool.toNat_true] at hsize
    show (book.remove front).2.size < book.maxLeases
    omega
  · have hroom := h.room front hfront hheld
    show (book.remove id).2.size < book.maxLeases
    omega

theorem Sound.follow {book : LeaseBook} (h : book.Sound) (link : ChainLink) :
    (book.follow link).2.Sound := by
  unfold LeaseBook.follow
  cases link.readTip with
  | ok tip => exact h.announce tip.hash
  | error error => exact h

theorem Sound.newLease_id_not_mem {book : LeaseBook} (h : book.Sound) (template : Template)
    (drawn : CandidateId) (now : Instant) :
    (book.newLease template drawn now).id ∉ book.ids := by
  have hlength : book.ids.length < 2 ^ 128 := by
    have hbounded := h.bounded
    have hcapacity := h.capacity
    rw [size_eq] at hbounded
    omega
  have hid := freeId_not_mem hlength drawn
  rwa [← size_eq] at hid

@[simp] theorem ids_push (book : LeaseBook) (lease : Lease) :
    (book.push lease).ids = book.ids ++ [lease.id] :=
  List.map_append

theorem Sound.nodup_ids_push {book : LeaseBook} (h : book.Sound) {lease : Lease}
    (hfree : lease.id ∉ book.ids) : (book.push lease).ids.Nodup := by
  rw [ids_push]
  exact List.nodup_append.2 ⟨h.distinct, List.nodup_singleton _, fun a ha b hb hab =>
    hfree (List.mem_singleton.1 hb ▸ hab ▸ ha)⟩

theorem Sound.waiting_push {book : LeaseBook} (h : book.Sound) (lease : Lease) :
    (book.push lease).ids ⊆ (book.push lease).queue := by
  rw [ids_push]
  exact List.append_subset.2 ⟨List.subset_append_of_subset_left _ h.waiting,
    List.subset_append_right _ _⟩

theorem Sound.grant {book : LeaseBook} (h : book.Sound) (template : Template)
    (drawn : CandidateId) (now : Instant) : (book.grant template drawn now).2.2.Sound :=
  sound_evict (h.nodup_ids_push (h.newLease_id_not_mem template drawn now))
    (h.waiting_push (book.newLease template drawn now)) h.capacity now

/-- **The newest lease stays** when others are evicted at the instant of its issue. -/
theorem Sound.newest_mem_evict {book : LeaseBook} (h : book.Sound) (hroom : 0 < book.maxLeases)
    {lease : Lease} (hfree : lease.id ∉ book.ids) :
    lease ∈ ((book.push lease).evict lease.issuedAt).2.leases := by
  have hdistinct := h.nodup_ids_push hfree
  have hmem : lease ∈ book.leases ++ [lease] :=
    List.mem_append_right _ (List.mem_singleton_self lease)
  have hyoung : lease.issuedAt - lease.issuedAt ≤ book.maxAge := by
    rw [Nat.sub_self]
    exact Nat.zero_le _
  have hlength : (book.leases ++ [lease]).length = book.size + 1 := List.length_append
  by_cases hfits : book.size < book.maxLeases
  · exact mem_scan_of_young hdistinct (hlength ▸ hfits) hmem hyoung
  · -- The book is full, so the id in front is that of a lease, and of another than the new one.
    obtain ⟨oldest, rest, hqueue⟩ : ∃ oldest rest, book.queue = oldest :: rest := by
      refine List.exists_cons_of_ne_nil fun hnil => hfits ?_
      have hnone := h.waiting
      rw [hnil, List.subset_nil] at hnone
      rwa [size_eq, hnone]
    have hheld : oldest ∈ book.ids := by
      by_contra hgone
      exact hfits (h.room oldest (hqueue ▸ rfl) hgone)
    have hfront : oldest ∈ (book.push lease).ids := by
      rw [ids_push]
      exact List.mem_append_left _ hheld
    show lease ∈ (scan book.maxAge book.maxLeases lease.issuedAt (book.queue ++ [lease.id])
      (book.leases ++ [lease])).2.2
    rw [hqueue]
    exact mem_scan_cons_of_young hdistinct (hlength ▸ Nat.succ_le_succ h.bounded) hfront hmem
      (fun hid => hfree (hid ▸ hheld)) hyoung

/-! ## Finding a lease -/

/-- **An id finds exactly the lease that is held under it.** -/
theorem Sound.find_eq_ok_iff {book : LeaseBook} (h : book.Sound) {id : CandidateId}
    {lease : Lease} : book.find id = .ok lease ↔ lease ∈ book.leases ∧ lease.id = id := by
  unfold find
  constructor
  · intro hfind
    split at hfind
    · rename_i found hfound
      obtain rfl := Except.ok.inj hfind
      exact ⟨List.mem_of_find?_eq_some hfound, by simpa using List.find?_some hfound⟩
    · cases hfind
  · rintro ⟨hmem, rfl⟩
    cases hfound : book.leases.find? (·.id = lease.id) with
    | some found =>
      have hid : found.id = lease.id := by simpa using List.find?_some hfound
      rw [List.inj_on_of_nodup_map h.distinct (List.mem_of_find?_eq_some hfound) hmem hid]
    | none =>
      have hne := List.find?_eq_none.1 hfound lease hmem
      simp at hne

end LeaseBook

end WorkLease
