import WorkLease.Hash.Sha256

/-!
# Merkle trees

Leaves are hashed together in pairs, level by level, and a node without a partner is paired
with itself. `root` hashes whole levels. `branch` climbs from the first leaf and keeps only
the neighbour met on each level, and `fold` climbs again from any first leaf with those
neighbours alone.
-/

namespace WorkLease.Merkle

def parents : List Digest → List Digest
  | left :: right :: rest => Digest.node left right :: parents rest
  | [single] => [Digest.node single single]
  | [] => []

theorem length_parents (level : List Digest) : (parents level).length = (level.length + 1) / 2 := by
  fun_induction parents level with
  | case1 left right rest ih => simp only [List.length_cons, ih]; omega
  | case2 => simp
  | case3 => rfl

/-- The root over a list of leaves; over none it is the zero digest. -/
def root : List Digest → Digest
  | [] => Digest.zero
  | [top] => top
  | left :: right :: rest => root (parents (left :: right :: rest))
  termination_by leaves => leaves.length
  decreasing_by simp only [length_parents, List.length_cons]; omega

/-- The neighbours met on the way up from the first leaf, and the root above it. -/
def branch : Digest → List Digest → List Digest × Digest
  | first, [] => ([], first)
  | first, neighbour :: rest =>
      let above := branch (Digest.node first neighbour) (parents rest)
      (neighbour :: above.1, above.2)
  termination_by _ others => others.length
  decreasing_by simp only [length_parents, List.length_cons]; omega

/-- The root above a first leaf, by the neighbours met on the way up. -/
def fold (first : Digest) (neighbours : List Digest) : Digest :=
  neighbours.foldl Digest.node first

/-- `fold` on byte strings, each of which must be a digest. -/
def foldBytes (first : Bytes) (neighbours : List Bytes) : Except ProtocolError Digest := do
  let start ← Digest.ofBytes first
  let path ← neighbours.mapM Digest.ofBytes
  return fold start path

end WorkLease.Merkle
