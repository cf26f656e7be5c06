import BlochPos.StateRoot.Smt

/-! Inclusion and absence proofs of the state tree. -/
namespace BlochPos.StateRoot

open SortedMap

/-- The siblings of a key's path, from the root down. -/
structure InclusionProof (H : Type) where
  siblings : List H

namespace Smt

variable {H : Type} {h : MerkleHash Bytes32 Bytes32 H}

def prove (t : Smt h) (key : Bytes32) : Option (InclusionProof H) :=
  (proveIn h key TREE_DEPTH t.tree).map InclusionProof.mk

def proveAbsence (t : Smt h) (key : Bytes32) : Option (InclusionProof H) :=
  (proveAbsenceIn h key TREE_DEPTH t.tree).map InclusionProof.mk

end Smt

section Verify

variable {H : Type} [DecidableEq H] (h : MerkleHash Bytes32 Bytes32 H)

def verifyInclusion (root : H) (key value : Bytes32) (proof : InclusionProof H) : Bool :=
  if proof.siblings.length ≠ TREE_DEPTH then false
  else h.climb keyBits key (h.leaf key value) proof.siblings = root

def verifyAbsence (root : H) (key : Bytes32) (proof : InclusionProof H) : Bool :=
  if proof.siblings.length ≠ TREE_DEPTH then false
  else h.climb keyBits key h.blank proof.siblings = root

end Verify

variable {H : Type} {h : MerkleHash Bytes32 Bytes32 H} {key value : Bytes32}

theorem emptySiblings_eq : emptySiblings h level = h.path keyBits key level empty := by
  induction level with
  | zero => rfl
  | succ level ih =>
    rw [emptySiblings, MerkleHash.path, Radix.side_empty, Radix.side_empty, MerkleHash.root_empty, ih]

theorem path_single_self : h.path keyBits key level (single key value) = emptySiblings h level := by
  induction level with
  | zero => rfl
  | succ level ih =>
    rw [MerkleHash.path, Radix.side_single, Radix.side_single, if_pos rfl, if_neg (by simp), ih,
      MerkleHash.root_empty, emptySiblings]

theorem partingSiblings_eq (apart : key ≠ leafKey)
    (along : keyBits.Along key level (single leafKey leafValue)) :
    partingSiblings h leafKey leafValue key level =
      some (h.path keyBits key level (single leafKey leafValue)) := by
  induction level with
  | zero =>
    have held : (single leafKey leafValue).get? leafKey = some leafValue := by
      simp [get?_single]
    exact absurd (along.key_eq held).symm apart
  | succ level ih =>
    rw [partingSiblings, MerkleHash.path]
    by_cases together : keyBits.bit key level = keyBits.bit leafKey level
    · have lower := along.side
      rw [Radix.side_single, if_pos together.symm] at lower
      simp [together, Radix.side_single, ih lower, MerkleHash.root_empty]
    · have opposite : keyBits.bit leafKey level = !keyBits.bit key level := by
        revert together
        cases keyBits.bit key level <;> cases keyBits.bit leafKey level <;> simp
      simp [opposite, Radix.side_single, singletonSubtreeRoot_eq, ← emptySiblings_eq]

theorem proveIn_buildSubtree (narrow : keyBits.Narrow level m) (below : level ≤ TREE_DEPTH) :
    proveIn h key level (buildSubtree h level m.entries) =
      (m.get? key).map (fun _ => h.path keyBits key level m) := by
  refine narrow.induction below ?none ?one ?split
  case none =>
    intro level
    cases level <;> rfl
  case one =>
    intro level k v _
    have unfolded : proveIn h key level (some (newLeaf h k v level)) =
        if k ≠ key then none else some (emptySiblings h level) := by
      cases level <;> rfl
    rw [buildSubtree_single, unfolded, get?_single]
    by_cases same : k = key
    · subst same
      simp [path_single_self]
    · simp [same, Ne.symm same]
  case split =>
    intro level m below narrow many sides
    have child := sides (keyBits.bit key level)
    have opposite := hashOf_buildSubtree (h := h)
      (narrow.side (b := !keyBits.bit key level)) below.le
    rw [Radix.get?_side_self] at child
    rw [buildSubtree_two many narrow below, newSplit, proveIn, MerkleHash.path, ← opposite]
    cases high : keyBits.bit key level
    all_goals
      rw [high] at child
      simp [child, Function.comp_def]

theorem proveAbsenceIn_buildSubtree (along : keyBits.Along key level m)
    (below : level ≤ TREE_DEPTH) : proveAbsenceIn h key level (buildSubtree h level m.entries) =
      if (m.get? key).isSome then none else some (h.path keyBits key level m) := by
  have narrow := along.narrow
  revert along
  refine narrow.induction below ?none ?one ?split
  case none =>
    intro level _
    have unfolded : proveAbsenceIn h key level none = some (emptySiblings h level) := by
      cases level <;> rfl
    rw [buildSubtree_empty, unfolded, ← emptySiblings_eq]
    rfl
  case one =>
    intro level k v _ along
    have unfolded : proveAbsenceIn h key level (some (newLeaf h k v level)) =
        if k = key then none else partingSiblings h k v key level := by
      cases level <;> rfl
    rw [buildSubtree_single, unfolded, get?_single]
    by_cases same : k = key
    · simp [same]
    · simp [same, Ne.symm same, partingSiblings_eq (Ne.symm same) along]
  case split =>
    intro level m below narrow many sides along
    have child := sides (keyBits.bit key level) along.side
    have opposite := hashOf_buildSubtree (h := h)
      (narrow.side (b := !keyBits.bit key level)) below.le
    rw [Radix.get?_side_self] at child
    rw [buildSubtree_two many narrow below, newSplit, proveAbsenceIn, MerkleHash.path, ← opposite]
    cases high : keyBits.bit key level
    all_goals
      rw [high] at child
      cases held : m.get? key <;> simp [child, held]

theorem Smt.prove_fromLeafMap : (Smt.fromLeafMap h m).prove key =
    (m.get? key).map (fun _ => ⟨h.path keyBits key TREE_DEPTH m⟩) := by
  rw [Smt.prove, Smt.fromLeafMap, proveIn_buildSubtree Radix.narrow_top le_rfl, Option.map_map]
  rfl

theorem Smt.proveAbsence_fromLeafMap : (Smt.fromLeafMap h m).proveAbsence key =
    if (m.get? key).isSome then none else some ⟨h.path keyBits key TREE_DEPTH m⟩ := by
  rw [Smt.proveAbsence, Smt.fromLeafMap, proveAbsenceIn_buildSubtree Radix.along_top le_rfl]
  split_ifs <;> rfl

theorem climb_to_root (m : SortedMap Bytes32 Bytes32) (key : Bytes32) :
    (h.path keyBits key TREE_DEPTH m).length = TREE_DEPTH ∧
    h.climb keyBits key (h.slot key (m.get? key)) (h.path keyBits key TREE_DEPTH m) =
      (Smt.fromLeafMap h m).root :=
  ⟨MerkleHash.length_path, by rw [MerkleHash.climb_path Radix.along_top, Smt.root_fromLeafMap]⟩

section Sound

variable [DecidableEq H] {root : H} {proof : InclusionProof H}

theorem verifyInclusion_iff : verifyInclusion h root key value proof = true ↔
    proof.siblings.length = TREE_DEPTH ∧
      h.climb keyBits key (h.slot key (some value)) proof.siblings = root := by
  simp [verifyInclusion, MerkleHash.slot]

theorem verifyAbsence_iff : verifyAbsence h root key proof = true ↔
    proof.siblings.length = TREE_DEPTH ∧ h.climb keyBits key (h.slot key none) proof.siblings = root := by
  simp [verifyAbsence, MerkleHash.slot]

end Sound

/-- A proof is made exactly for what the tree holds or lacks and verifies under its root. When leaf
and node digests have no collisions, whatever verifies is true of the tree. -/
theorem state_proofs_complete_and_sound [DecidableEq H] (free : h.CollisionFree) (t : Smt h)
    (key : Bytes32) :
    ((t.prove key).isSome ↔ ∃ value, t.get key = some value) ∧
    (∀ proof value, t.prove key = some proof → t.get key = some value →
      verifyInclusion h t.root key value proof = true) ∧
    ((t.proveAbsence key).isSome ↔ t.get key = none) ∧
    (∀ proof, t.proveAbsence key = some proof → verifyAbsence h t.root key proof = true) ∧
    (∀ proof value, verifyInclusion h t.root key value proof = true → t.get key = some value) ∧
    ∀ proof, verifyAbsence h t.root key proof = true → t.get key = none := by
  obtain ⟨m, rfl⟩ := t.exists_fromLeafMap
  have opens := climb_to_root (h := h) m key
  have sound : ∀ {held : Option Bytes32} {siblings : List H}, siblings.length = TREE_DEPTH →
      h.climb keyBits key (h.slot key held) siblings = (Smt.fromLeafMap h m).root →
      m.get? key = held := by
    intro held siblings long reached
    rw [Smt.root_fromLeafMap] at reached
    exact MerkleHash.get?_of_climb free.node free.slot Radix.along_top long reached
  simp only [Smt.get_fromLeafMap, Smt.prove_fromLeafMap, Smt.proveAbsence_fromLeafMap,
    verifyInclusion_iff, verifyAbsence_iff]
  refine ⟨?_, ?_, ?_, ?_, ?_, ?_⟩
  · rw [Option.isSome_map, Option.isSome_iff_exists]
  · intro proof value made held
    rw [held] at made opens
    cases made
    exact opens
  · cases m.get? key <;> simp
  · intro proof made
    cases held : m.get? key with
    | none =>
      rw [held] at made opens
      cases made
      exact opens
    | some value =>
      simp [held] at made
  · exact fun proof value ⟨long, reached⟩ => sound long reached
  · exact fun proof ⟨long, reached⟩ => sound long reached

/-- Digests written out as the terms that make them. -/
inductive Term where
  | blank
  | leaf (key value : Bytes32)
  | node (left right : Term)
deriving DecidableEq

def termHash : MerkleHash Bytes32 Bytes32 Term where
  leaf := .leaf
  node := .node
  blank := .blank

theorem termHash_collisionFree : termHash.CollisionFree where
  leaf _ _ _ _ same := Term.leaf.inj same
  node _ _ _ _ same := Term.node.inj same
  leaf_ne_blank _ _ same := Term.noConfusion same

/-- In a tree with two leaves what is held has a proof, and neither another value nor absence has any. -/
theorem two_leaves_proved : let t := ((Smt.new termHash).insert 5 7).insert 6 8
    (∃ proof, t.prove 5 = some proof ∧ verifyInclusion termHash t.root 5 7 proof = true) ∧
      ∀ proof, verifyInclusion termHash t.root 5 8 proof = false ∧ verifyAbsence termHash t.root 6 proof = false := by
  intro t
  have built : t = Smt.fromLeafMap termHash (.ofList [(5, 7), (6, 8)]) := by
    show ((Smt.new termHash).insert 5 7).insert 6 8 = _
    rw [← Smt.fromLeafMap_empty, Smt.insert_fromLeafMap, Smt.insert_fromLeafMap]
    rfl
  have held : t.get 5 = some 7 ∧ t.get 6 = some 8 := by
    rw [built, Smt.get_fromLeafMap, Smt.get_fromLeafMap]
    decide
  obtain ⟨made, verifies, -, -, sound, -⟩ := state_proofs_complete_and_sound termHash_collisionFree t 5
  obtain ⟨-, -, -, -, -, absent⟩ := state_proofs_complete_and_sound termHash_collisionFree t 6
  obtain ⟨proof, proved⟩ := Option.isSome_iff_exists.mp (made.mpr ⟨7, held.1⟩)
  refine ⟨⟨proof, proved, verifies proof 7 proved held.1⟩, fun forged => ⟨?_, ?_⟩⟩
  · refine Bool.eq_false_iff.mpr (fun verified => ?_)
    exact absurd (held.1.symm.trans (sound forged 8 verified)) (by decide)
  · refine Bool.eq_false_iff.mpr (fun verified => ?_)
    exact absurd (held.2.symm.trans (absent forged verified)) (by decide)

end BlochPos.StateRoot
