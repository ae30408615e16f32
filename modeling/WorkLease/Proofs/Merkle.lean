import Mathlib.Algebra.Order.Ring.Nat
import Mathlib.Data.Nat.Log
import Mathlib.Order.Bounds.Defs
import WorkLease.Merkle

/-!
# The branch of the coinbase slot

A miner knows the branch of the first leaf and not the other leaves. The branch does not depend
on the leaf that it was taken for (`branch_neighbours`), and folding it from any first leaf
gives the root of the whole list with that leaf in front (`fold_branch`). A node without a partner
is its own neighbour in the whole list and in the branch alike, so levels of odd length need no
case of their own.

A level has a neighbour for its first node exactly if it is not the top, so the branch has one for
every level below the top (`length_branch`).

**Theorem (`branch_leads_to_root`).** The branch leads to the root, for every placeholder, every
first leaf and every list of other leaves.

**Theorem (`branch_shortest`).** It is the same for every placeholder, and as short as the number of
leaves allows.
-/

namespace WorkLease.Merkle

theorem root_cons_cons (left right : Digest) (rest : List Digest) :
    root (left :: right :: rest) = root (parents (left :: right :: rest)) := by
  rw [root]

/-- The root above a branch is the root of the whole list. -/
theorem branch_root (first : Digest) (others : List Digest) :
    (branch first others).2 = root (first :: others) := by
  fun_induction branch first others with
  | case1 first => rw [root]
  | case2 first neighbour rest above ih => rw [root_cons_cons, parents, ← ih]

/-- The neighbours on the way up do not depend on the first leaf. -/
theorem branch_neighbours (first other : Digest) (others : List Digest) :
    (branch first others).1 = (branch other others).1 := by
  fun_induction branch first others generalizing other with
  | case1 first => rw [branch]
  | case2 first neighbour rest above ih =>
    rw [branch]
    exact congrArg (neighbour :: ·) (ih (Digest.node other neighbour))

/-- **Folding the branch gives the root**, for any first leaf and any placeholder. -/
theorem fold_branch (first placeholder : Digest) (others : List Digest) :
    fold first (branch placeholder others).1 = root (first :: others) := by
  rw [branch_neighbours placeholder first]
  fun_induction branch first others with
  | case1 first => rw [root]; rfl
  | case2 first neighbour rest above ih =>
    rw [root_cons_cons, parents, ← ih]
    rfl

/-- **The branch stands for all other leaves.** Whatever was put in the first place when it was
built, it leads from any first leaf to the root of the list with that leaf in front, and the root
that came with it is the one over what was put there. -/
theorem branch_leads_to_root (placeholder first : Digest) (others : List Digest) :
    let built := branch placeholder others
    fold first built.1 = root (first :: others) ∧ built.2 = root (placeholder :: others) :=
  ⟨fold_branch first placeholder others, branch_root placeholder others⟩

/-! ## Depth -/

/-- The number of levels above the leaves. -/
def depth (leaves : List Digest) : Nat :=
  Nat.clog 2 leaves.length

/-- It is the least number of doublings that make room for all leaves. -/
theorem depth_le_iff {leaves : List Digest} {d : Nat} :
    depth leaves ≤ d ↔ leaves.length ≤ 2 ^ d :=
  Nat.clog_le_iff_le_pow (by decide)

theorem depth_cons_cons (left right : Digest) (rest : List Digest) :
    depth (left :: right :: rest) = depth (parents (left :: right :: rest)) + 1 := by
  rw [depth, depth, length_parents, Nat.clog_of_two_le (by decide) (by simp)]
  rfl

theorem length_branch (first : Digest) (others : List Digest) :
    (branch first others).1.length = depth (first :: others) := by
  fun_induction branch first others with
  | case1 first => rfl
  | case2 first neighbour rest above ih => rw [depth_cons_cons, parents, ← ih, List.length_cons]

/-- **The branch is as short as the tree is deep**, and the same for every placeholder. -/
theorem branch_shortest (others : List Digest) :
    (∀ placeholder other : Digest, (branch placeholder others).1 = (branch other others).1) ∧
      ∀ placeholder : Digest,
        IsLeast {d | others.length + 1 ≤ 2 ^ d} (branch placeholder others).1.length := by
  refine ⟨fun placeholder other => branch_neighbours placeholder other others,
    fun placeholder => ?_⟩
  have hdepth : ∀ d, depth (placeholder :: others) ≤ d ↔ others.length + 1 ≤ 2 ^ d :=
    fun d => depth_le_iff
  rw [length_branch]
  constructor
  · exact (hdepth _).1 (Nat.le_refl _)
  · intro d hd
    exact (hdepth d).2 hd

end WorkLease.Merkle
