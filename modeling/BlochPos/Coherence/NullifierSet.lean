import BlochPos.StateRoot.Smt

/-! The spent nullifiers of the shielded pool and the sparse tree that commits to them. A nullifier is its
own key. Digests are an arbitrary type; the source counts depth from the root, the model levels from the
leaves. -/
namespace BlochPos.Coherence

open SortedMap

/-- What one call of the hash is taken over: literal bytes and digests. -/
abbrev Parts (H : Type) := List (Bytes ⊕ H)

def DOM_NFSET : Bytes := ascii "bloch:coherence:nfset:v1"

section Model

variable {H : Type} (shake : Parts H → H)

def nfsetPresent : H := shake [.inl DOM_NFSET, .inl (ascii "present")]

def nfsetParent (left right : H) : H := shake [.inl DOM_NFSET, .inr left, .inr right]

/-- The root of an empty subtree of a height. -/
def nfsetEmptyRoot : ℕ → H
  | 0 => shake [.inl DOM_NFSET, .inl (ascii "empty-leaf")]
  | level + 1 => nfsetParent shake (nfsetEmptyRoot level) (nfsetEmptyRoot level)

def subtreeRoot : ℕ → List Bytes32 → H
  | level, [] => nfsetEmptyRoot shake level
  | 0, _ :: _ => nfsetPresent shake
  | level + 1, key :: rest =>
    nfsetParent shake (subtreeRoot level ((key :: rest).takeWhile (fun k => !keyBits.bit k level)))
      (subtreeRoot level ((key :: rest).dropWhile (fun k => !keyBits.bit k level)))

/-- The siblings met on the way down to a key. -/
def siblingsDown (nf : Bytes32) : ℕ → List Bytes32 → List H
  | 0, _ => []
  | level + 1, keys =>
    let left := keys.takeWhile (fun k => !keyBits.bit k level)
    let right := keys.dropWhile (fun k => !keyBits.bit k level)
    let (mine, sibling) := if keyBits.bit nf level then (right, left) else (left, right)
    subtreeRoot shake level sibling :: siblingsDown nf level mine

/-- Sorted keys, none of them twice. -/
structure NullifierSet where
  keys : SortedMap Bytes32 Unit

namespace NullifierSet

def new : NullifierSet := ⟨empty⟩

variable (s : NullifierSet) (nf : Bytes32)

def contains : Bool := s.keys.contains nf

def insert : NullifierSet × Bool :=
  if s.contains nf then (s, false) else (⟨s.keys.insert nf ()⟩, true)

def remove : NullifierSet × Bool :=
  if s.contains nf then (⟨s.keys.erase nf⟩, true) else (s, false)

def root : H := subtreeRoot shake TREE_DEPTH s.keys.keys

def nonMembershipProof : Option (List H) :=
  if s.contains nf then none else some (siblingsDown shake nf TREE_DEPTH s.keys.keys).reverse

end NullifierSet

/-- Folds the empty leaf up along a path listed from the leaf. -/
def verifyNonMembership [DecidableEq H] (nf : Bytes32) (path : List H) (root : H) : Bool :=
  if path.length ≠ TREE_DEPTH then false
  else path.zipIdx.foldl (fun node sibling =>
    if keyBits.bit nf sibling.2 then nfsetParent shake sibling.1 node
    else nfsetParent shake node sibling.1) (nfsetEmptyRoot shake 0) = root

end Model

/-- What a block or its undoing does to the set. -/
inductive Change where
  | insert (nf : Bytes32)
  | remove (nf : Bytes32)

def Change.apply (s : NullifierSet) : Change → NullifierSet
  | .insert nf => (s.insert nf).1
  | .remove nf => (s.remove nf).1

/-- The set a change is meant to leave. -/
def Change.effect (spent : Set Bytes32) : Change → Set Bytes32
  | .insert nf => Insert.insert nf spent
  | .remove nf => spent \ {nf}

def NullifierSet.after (changes : List Change) : NullifierSet := changes.foldl Change.apply .new

def spentAfter (changes : List Change) : Set Bytes32 := changes.foldl Change.effect ∅

variable {H : Type} {shake : Parts H → H} {m : SortedMap Bytes32 Unit} {nf : Bytes32} {level : ℕ}

def nfsetHash (shake : Parts H → H) : MerkleHash Bytes32 Unit H where
  leaf _ _ := nfsetPresent shake
  node := nfsetParent shake
  blank := nfsetEmptyRoot shake 0

theorem takeWhile_keys (narrow : keyBits.Narrow (level + 1) m) (below : level < TREE_DEPTH) :
    m.keys.takeWhile (fun k => !keyBits.bit k level) = (keyBits.side m false level).keys := by
  rw [keys, List.takeWhile_map, keys, ← narrow.takeWhile_entries below]
  rfl

theorem dropWhile_keys (narrow : keyBits.Narrow (level + 1) m) (below : level < TREE_DEPTH) :
    m.keys.dropWhile (fun k => !keyBits.bit k level) = (keyBits.side m true level).keys := by
  rw [keys, List.dropWhile_map, keys, ← narrow.dropWhile_entries below]
  rfl

theorem subtreeRoot_keys (narrow : keyBits.Narrow level m) (below : level ≤ TREE_DEPTH) :
    subtreeRoot shake level m.keys = (nfsetHash shake).root keyBits level m := by
  induction level generalizing m with
  | zero =>
    rw [MerkleHash.root, keys]
    cases m.entries <;> rfl
  | succ level ih =>
    rw [MerkleHash.root, ← ih narrow.side (by omega), ← ih narrow.side (by omega),
      ← takeWhile_keys narrow below, ← dropWhile_keys narrow below]
    cases m.keys with
    | nil => simp [subtreeRoot, nfsetEmptyRoot, nfsetHash]
    | cons k rest => rfl

theorem siblingsDown_keys (narrow : keyBits.Narrow level m) (below : level ≤ TREE_DEPTH) :
    siblingsDown shake nf level m.keys = (nfsetHash shake).path keyBits nf level m := by
  induction level generalizing m with
  | zero => rfl
  | succ level ih =>
    rw [siblingsDown, MerkleHash.path, takeWhile_keys narrow below, dropWhile_keys narrow below]
    cases keyBits.bit nf level <;>
      simp [ih narrow.side (by omega), subtreeRoot_keys narrow.side (by omega)]

theorem verifyNonMembership_iff [DecidableEq H] {path : List H} {root : H} :
    verifyNonMembership shake nf path root = true ↔ path.length = TREE_DEPTH ∧
      (nfsetHash shake).climb keyBits nf (nfsetEmptyRoot shake 0) path.reverse = root := by
  have climbs : ∀ up : List H, up.reverse.zipIdx.foldl (fun node sibling =>
      if keyBits.bit nf sibling.2 then nfsetParent shake sibling.1 node
      else nfsetParent shake node sibling.1) (nfsetEmptyRoot shake 0) =
      (nfsetHash shake).climb keyBits nf (nfsetEmptyRoot shake 0) up := by
    intro up
    induction up with
    | nil => rfl
    | cons sibling rest ih =>
      rw [List.reverse_cons, List.zipIdx_append, List.foldl_append, ih, MerkleHash.climb, MerkleHash.pair]
      simp [nfsetHash]
  rw [← climbs, List.reverse_reverse]
  simp [verifyNonMembership]

namespace NullifierSet

variable {s : NullifierSet} {other : Bytes32}

theorem contains_insert : (s.insert other).1.contains nf = true ↔ nf = other ∨ s.contains nf = true := by
  rw [insert]
  split_ifs with known
  · constructor
    · exact .inr
    · rintro (rfl | held)
      · exact known
      · exact held
  · simp only [contains, contains_iff, get?_insert]
    split_ifs with here <;> simp [here]

theorem contains_remove : (s.remove other).1.contains nf = true ↔ s.contains nf = true ∧ nf ≠ other := by
  rw [remove]
  split_ifs with known
  · simp only [contains, contains_iff, get?_erase]
    split_ifs with here <;> simp [here]
  · constructor
    · rintro held
      exact ⟨held, fun here => known (here ▸ held)⟩
    · exact And.left

end NullifierSet

theorem contains_after (changes : List Change) (nf : Bytes32) :
    (NullifierSet.after changes).contains nf = true ↔ nf ∈ spentAfter changes := by
  have run : ∀ (s : NullifierSet) (spent : Set Bytes32), (∀ nf, s.contains nf = true ↔ nf ∈ spent) →
      ((changes.foldl Change.apply s).contains nf = true ↔ nf ∈ changes.foldl Change.effect spent) := by
    induction changes with
    | nil => exact fun s spent same => same nf
    | cons change rest ih =>
      refine fun s spent same => ih _ _ (fun nf => ?_)
      cases change with
      | insert other => rw [Change.apply, NullifierSet.contains_insert, same]; rfl
      | remove other => rw [Change.apply, NullifierSet.contains_remove, same]; rfl
  exact run .new ∅ (by simp [NullifierSet.contains, NullifierSet.new, contains_iff])

/-- With a hash that has no collisions the root stands for the set of nullifiers. There is a proof of
absence exactly for what is absent, it verifies, and nothing that verifies is present. -/
theorem nullifier_root_commits [DecidableEq H] (free : Function.Injective shake) (changes : List Change) :
    let s := NullifierSet.after changes
    (∀ others, (NullifierSet.after others).root shake = s.root shake ↔
      spentAfter others = spentAfter changes) ∧
    (∀ nf, (s.nonMembershipProof shake nf).isSome ↔ nf ∉ spentAfter changes) ∧
    (∀ nf path, s.nonMembershipProof shake nf = some path →
      verifyNonMembership shake nf path (s.root shake) = true) ∧
    ∀ nf path, verifyNonMembership shake nf path (s.root shake) = true → nf ∉ spentAfter changes := by
  intro s
  have node : Function.Injective2 (nfsetHash shake).node := by
    intro l l' r r' same
    simpa using free same
  have leaves : nfsetPresent shake ≠ nfsetEmptyRoot shake 0 := by
    have tags : ascii "present" ≠ ascii "empty-leaf" := by decide
    exact fun same => tags (by simpa using free same)
  have slot : ∀ nf, Function.Injective ((nfsetHash shake).slot nf) := by
    rintro nf (_ | _) (_ | _) same
    · rfl
    · exact absurd same.symm leaves
    · exact absurd same leaves
    · rfl
  have rooted : ∀ s : NullifierSet, s.root shake = (nfsetHash shake).root keyBits TREE_DEPTH s.keys :=
    fun s => subtreeRoot_keys Radix.narrow_top le_rfl
  have opens : ∀ (s : NullifierSet) nf, (nfsetHash shake).climb keyBits nf
      ((nfsetHash shake).slot nf (s.keys.get? nf)) ((nfsetHash shake).path keyBits nf TREE_DEPTH s.keys) =
      s.root shake := by
    intro s nf
    rw [rooted, MerkleHash.climb_path Radix.along_top]
  have sound : ∀ (s : NullifierSet) {nf held siblings}, siblings.length = TREE_DEPTH →
      (nfsetHash shake).climb keyBits nf ((nfsetHash shake).slot nf held) siblings = s.root shake →
      s.keys.get? nf = held := by
    intro s nf held siblings long reached
    rw [rooted] at reached
    exact MerkleHash.get?_of_climb node (slot nf) Radix.along_top long reached
  have absent : ∀ nf, s.keys.get? nf = none ↔ nf ∉ spentAfter changes := by
    intro nf
    rw [← contains_after, NullifierSet.contains, contains, Option.not_isSome_iff_eq_none]
  refine ⟨fun others => ⟨fun same => ?_, fun same => ?_⟩, fun nf => ?_, fun nf path made => ?_, ?_⟩
  · ext nf
    rw [← contains_after, ← contains_after, NullifierSet.contains, NullifierSet.contains, contains, contains,
      sound s MerkleHash.length_path ((opens _ nf).trans same)]
  · have equal : (NullifierSet.after others).keys.keys = s.keys.keys := by
      refine keys_ext (fun nf => ?_)
      have there := contains_after others nf
      rw [same, ← contains_after, NullifierSet.contains, NullifierSet.contains, contains_iff,
        contains_iff] at there
      rw [mem_keys_iff, mem_keys_iff, there]
    rw [NullifierSet.root, equal]
    rfl
  · rw [← contains_after, NullifierSet.nonMembershipProof]
    split_ifs with held <;> simp [s, held]
  · rw [NullifierSet.nonMembershipProof, Option.ite_none_left_eq_some, contains_after] at made
    obtain ⟨unspent, made⟩ := made
    cases made
    have opened := opens s nf
    rw [(absent nf).mpr unspent] at opened
    rw [siblingsDown_keys Radix.narrow_top le_rfl, verifyNonMembership_iff, List.length_reverse,
      List.reverse_reverse]
    exact ⟨MerkleHash.length_path, opened⟩
  · intro nf path verified
    obtain ⟨long, reached⟩ := verifyNonMembership_iff.mp verified
    exact (absent nf).mp (sound s (List.length_reverse.trans long) reached)

/-- A nullifier that was undone has a proof of its absence. -/
theorem undone_nullifier_absent : ∃ shake : Parts ℕ → ℕ, Function.Injective shake ∧
    ((NullifierSet.after [.insert 5, .insert 6, .remove 5]).nonMembershipProof shake 5).isSome = true := by
  obtain ⟨shake, free⟩ := exists_injective_nat (Parts ℕ)
  obtain ⟨-, proved, -⟩ := nullifier_root_commits free [.insert 5, .insert 6, .remove 5]
  exact ⟨shake, free, (proved 5).mpr (by simp [spentAfter, Change.effect])⟩

end BlochPos.Coherence
