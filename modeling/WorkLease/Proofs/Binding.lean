import Mathlib.Data.List.Nodup
import Mathlib.Tactic.Common
import WorkLease.Proofs.Rules

/-!
# What a root says about its leaves

A node without a partner is paired with itself, so a list that repeats its own end can have the
root of a shorter one. Where no leaf is repeated this cannot happen: on every level the nodes are
as different as the pairs that they are hashed from, and a pair of equal nodes can only be the last
one of an odd level. Nothing is assumed of the hash. What is proved of two roots holds unless two
different pairs, among those that were hashed for these very roots, have the same node above them.

* `levelPairs`, `hashedPairs`: the pairs that are hashed for a level, and for a root.
* `eq_of_levelPairs_eq`: nodes that are not repeated are known from their pairs.
* `eq_of_root_eq`: so roots of one depth that are equal come from equal leaves while no two of the
  pairs below them collide.

**Theorem (`root_binds`).** Two lists of leaves of one depth, with no leaf repeated, that have the
same root are the same, or two pairs collide. So are the identifiers in two blocks that keep the
rules on the block alone and have the same root in their headers. With a repeated leaf this fails.
-/

namespace WorkLease.Merkle

/-! ## Levels -/

/-- The pairs that are hashed to climb one level. -/
def levelPairs : List Digest → List (Digest × Digest)
  | left :: right :: rest => (left, right) :: levelPairs rest
  | [single] => [(single, single)]
  | [] => []

theorem parents_eq (level : List Digest) :
    parents level = (levelPairs level).map fun pair => Digest.node pair.1 pair.2 := by
  fun_induction levelPairs level with
  | case1 left right rest ih => rw [parents, ih, List.map_cons]
  | case2 single => rfl
  | case3 => rfl

/-- Every other node stands first in a pair. -/
theorem fst_levelPairs_sublist (level : List Digest) :
    ((levelPairs level).map Prod.fst).Sublist level := by
  fun_induction levelPairs level with
  | case1 left right rest ih => exact (ih.cons right).cons_cons left
  | case2 single => exact List.Sublist.refl _
  | case3 => exact List.Sublist.refl _

theorem nodup_levelPairs {level : List Digest} (h : level.Nodup) : (levelPairs level).Nodup :=
  List.Nodup.of_map Prod.fst (h.sublist (fst_levelPairs_sublist level))

/-- **Nodes that are not repeated are known from their pairs**: a pair of equal nodes is one that
had no partner. -/
theorem eq_of_levelPairs_eq {level other : List Digest} (hlevel : level.Nodup)
    (hother : other.Nodup) (h : levelPairs level = levelPairs other) : level = other := by
  fun_induction levelPairs level generalizing other with
  | case1 left right rest ih =>
    match other with
    | [] => cases h
    | [single] =>
      obtain ⟨hpair, -⟩ := List.cons.inj h
      obtain ⟨rfl, rfl⟩ := Prod.mk.inj hpair
      simp at hlevel
    | left' :: right' :: rest' =>
      obtain ⟨hpair, hrest⟩ := List.cons.inj h
      obtain ⟨rfl, rfl⟩ := Prod.mk.inj hpair
      rw [ih hlevel.of_cons.of_cons hother.of_cons.of_cons hrest]
  | case2 single =>
    match other with
    | [] => cases h
    | [single'] =>
      obtain ⟨hpair, -⟩ := List.cons.inj h
      obtain ⟨rfl, -⟩ := Prod.mk.inj hpair
      rfl
    | left' :: right' :: rest' =>
      obtain ⟨hpair, -⟩ := List.cons.inj h
      obtain ⟨rfl, rfl⟩ := Prod.mk.inj hpair
      simp at hother
  | case3 =>
    match other with
    | [] => rfl
    | [single] => cases h
    | left :: right :: rest => cases h

/-! ## Collisions -/

/-- Two different pairs of a list have the same node above them. -/
def Collides (pairs : List (Digest × Digest)) : Prop :=
  ∃ p ∈ pairs, ∃ q ∈ pairs, p ≠ q ∧ Digest.node p.1 p.2 = Digest.node q.1 q.2

theorem Collides.mono {pairs more : List (Digest × Digest)} (h : Collides pairs)
    (hsub : pairs ⊆ more) : Collides more := by
  obtain ⟨p, hp, q, hq, hdiff⟩ := h
  exact ⟨p, hsub hp, q, hsub hq, hdiff⟩

/-- Lists of pairs that have the same nodes above them are the same, or two pairs collide. -/
theorem eq_or_collides {pairs others : List (Digest × Digest)}
    (h : pairs.map (fun pair => Digest.node pair.1 pair.2) =
      others.map fun pair => Digest.node pair.1 pair.2) :
    pairs = others ∨ Collides (pairs ++ others) := by
  induction pairs generalizing others with
  | nil => exact .inl (List.map_eq_nil_iff.1 h.symm).symm
  | cons pair pairs ih =>
    obtain ⟨other, others, rfl, hnode, hrest⟩ := List.map_eq_cons_iff.1 h.symm
    by_cases hpair : pair = other
    · rcases ih hrest.symm with rfl | hcollides
      · exact .inl (hpair ▸ rfl)
      · refine .inr (hcollides.mono ?_)
        intro p hp
        rcases List.mem_append.1 hp with hp | hp <;> simp [hp]
    · exact .inr ⟨pair, by simp, other, by simp, hpair, hnode.symm⟩

/-- A level above one without repetition has none either, or two pairs collide. -/
theorem nodup_parents {level : List Digest} (h : level.Nodup)
    (hapart : ¬ Collides (levelPairs level)) : (parents level).Nodup := by
  rw [parents_eq]
  refine List.Nodup.map_on (fun p hp q hq hnode => ?_) (nodup_levelPairs h)
  by_contra hne
  exact hapart ⟨p, hp, q, hq, hne, hnode⟩

/-- **A level that repeats no node is known from the level above it**, while no two pairs
collide. -/
theorem eq_of_parents_eq {level other : List Digest} (hlevel : level.Nodup)
    (hother : other.Nodup) (hapart : ¬ Collides (levelPairs level ++ levelPairs other))
    (h : parents level = parents other) : level = other := by
  rw [parents_eq, parents_eq] at h
  rcases eq_or_collides h with hpairs | hcollides
  · exact eq_of_levelPairs_eq hlevel hother hpairs
  · exact absurd hcollides hapart

/-! ## Roots -/

/-- The pairs that are hashed to climb to the root. -/
def hashedPairs : List Digest → List (Digest × Digest)
  | left :: right :: rest =>
      levelPairs (left :: right :: rest) ++ hashedPairs (parents (left :: right :: rest))
  | _ => []
  termination_by leaves => leaves.length
  decreasing_by simp only [length_parents, List.length_cons]; omega

/-- **Equal roots of one depth have equal leaves**, none of which is repeated, while no two pairs
below them collide. -/
theorem eq_of_root_eq {leaves others : List Digest} (hleaves : leaves ≠ []) (hothers : others ≠ [])
    (hnodup : leaves.Nodup) (hnodup' : others.Nodup) (hdepth : depth leaves = depth others)
    (hapart : ¬ Collides (hashedPairs leaves ++ hashedPairs others))
    (hroot : root leaves = root others) : leaves = others := by
  -- The levels of both lists are climbed together, because there are as many of them.
  fun_induction root leaves generalizing others with
  | case1 => exact absurd rfl hleaves
  | case2 top =>
    rcases others with _ | ⟨top', _ | ⟨right, rest⟩⟩
    · exact absurd rfl hothers
    · rw [root] at hroot
      rw [hroot]
    · rw [depth_cons_cons] at hdepth
      simp [depth] at hdepth
  | case3 left right rest ih =>
    rcases others with _ | ⟨left', _ | ⟨right', rest'⟩⟩
    · exact absurd rfl hothers
    · rw [depth_cons_cons] at hdepth
      simp [depth] at hdepth
    · rw [hashedPairs, hashedPairs] at hapart
      rw [depth_cons_cons, depth_cons_cons, Nat.add_right_cancel_iff] at hdepth
      rw [root_cons_cons left' right'] at hroot
      have hlevel : ¬ Collides (levelPairs (left :: right :: rest) ++
          levelPairs (left' :: right' :: rest')) := by
        refine fun h => hapart (h.mono fun p hp => ?_)
        rcases List.mem_append.1 hp with hp | hp <;> simp [hp]
      have habove : ¬ Collides (hashedPairs (parents (left :: right :: rest)) ++
          hashedPairs (parents (left' :: right' :: rest'))) := by
        refine fun h => hapart (h.mono fun p hp => ?_)
        rcases List.mem_append.1 hp with hp | hp <;> simp [hp]
      refine eq_of_parents_eq hnodup hnodup' hlevel ?_
      refine ih (by simp [parents]) (by simp [parents]) ?_ ?_ hdepth habove hroot
      · exact nodup_parents hnodup fun h => hlevel (h.mono (List.subset_append_left _ _))
      · exact nodup_parents hnodup' fun h => hlevel (h.mono (List.subset_append_right _ _))

/-- Equal roots of one depth have equal leaves, or two pairs collide. -/
theorem eq_of_root_eq_or_collides {leaves others : List Digest} (hleaves : leaves ≠ [])
    (hothers : others ≠ []) (hnodup : leaves.Nodup) (hnodup' : others.Nodup)
    (hdepth : depth leaves = depth others) (hroot : root leaves = root others) :
    leaves = others ∨ Collides (hashedPairs leaves ++ hashedPairs others) := by
  by_cases hcollides : Collides (hashedPairs leaves ++ hashedPairs others)
  · exact .inr hcollides
  · exact .inl (eq_of_root_eq hleaves hothers hnodup hnodup' hdepth hcollides hroot)

theorem txids_ne_nil_of_standalone {block : Block} (h : BlockRules.standalone block = .ok ()) :
    block.txids ≠ [] := by
  obtain ⟨⟨⟨first, hfirst, -⟩, -⟩, -⟩ := BlockRules.standalone_eq_ok_iff.1 h
  intro hnil
  rw [List.map_eq_nil_iff.1 hnil] at hfirst
  cases hfirst

/-- **A root binds its leaves.** -/
theorem root_binds :
    (∀ leaves others : List Digest, leaves ≠ [] → others ≠ [] → leaves.Nodup → others.Nodup →
      depth leaves = depth others → root leaves = root others →
        leaves = others ∨ Collides (hashedPairs leaves ++ hashedPairs others)) ∧
    (∀ block other : Block, BlockRules.standalone block = .ok () →
      BlockRules.standalone other = .ok () → depth block.txids = depth other.txids →
      block.header.merkleRoot = other.header.merkleRoot →
        block.txids = other.txids ∨
          Collides (hashedPairs block.txids ++ hashedPairs other.txids)) ∧
    ∀ a b c : Digest,
      depth [a, b, c] = depth [a, b, c, c] ∧ root [a, b, c] = root [a, b, c, c] := by
  refine ⟨fun leaves others => eq_of_root_eq_or_collides, ?_, fun a b c => ?_⟩
  · intro block other hblock hother hdepth hheader
    obtain ⟨-, hnodup, hroot⟩ := BlockRules.standalone_eq_ok_iff.1 hblock
    obtain ⟨-, hnodup', hroot'⟩ := BlockRules.standalone_eq_ok_iff.1 hother
    refine eq_of_root_eq_or_collides (txids_ne_nil_of_standalone hblock)
      (txids_ne_nil_of_standalone hother) hnodup hnodup' hdepth ?_
    rw [hroot, hroot', hheader]
  · -- The last leaf is paired with itself in both lists.
    have hparents : parents [a, b, c] = parents [a, b, c, c] := rfl
    rw [depth_cons_cons, depth_cons_cons a b [c, c], root_cons_cons, root_cons_cons a b [c, c],
      hparents]
    exact ⟨rfl, rfl⟩

end WorkLease.Merkle
