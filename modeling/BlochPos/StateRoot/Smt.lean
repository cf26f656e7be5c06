import BlochPos.Crypto
import BlochPos.Lib.MerkleRadix

/-! The sparse Merkle tree of the committed state. The source counts depth from the root; here a subtree at
depth `d` sits at level `TREE_DEPTH - d`, so that every walk down is a recursion. The memo of lone-leaf
digests returns what it was given and is left out. -/
namespace BlochPos

open SortedMap

def TREE_DEPTH : ℕ := 256

/-- Keys are read from their most significant bit: bit `d` of a key is the one at level
`TREE_DEPTH - 1 - d`. -/
def keyBits : Radix Bytes32 TREE_DEPTH where
  bit key level := key.val.testBit level
  separates := by
    intro k k' same
    refine Fin.ext (Nat.eq_of_testBit_eq (fun level => ?_))
    by_cases below : level < TREE_DEPTH
    · exact same level below
    · have high : 2 ^ 256 ≤ 2 ^ level := Nat.pow_le_pow_right (by decide) (not_lt.mp below)
      rw [Nat.testBit_lt_two_pow (k.isLt.trans_le high), Nat.testBit_lt_two_pow (k'.isLt.trans_le high)]
  follows := by
    intro k k' level below less agree set
    by_contra clear
    refine absurd (Nat.lt_of_testBit level (Bool.not_eq_true _ ▸ clear) set ?_) (not_lt.mpr less.le)
    intro higher above
    by_cases inside : higher < TREE_DEPTH
    · exact (agree higher above inside).symm
    · have high : 2 ^ 256 ≤ 2 ^ higher := Nat.pow_le_pow_right (by decide) (not_lt.mp inside)
      rw [Nat.testBit_lt_two_pow (k.isLt.trans_le high), Nat.testBit_lt_two_pow (k'.isLt.trans_le high)]

namespace StateRoot

def DS_STATE : Bytes := domainTag "BLCH4:STATE"
def MARK_LEAF : UInt8 := 0x00
def MARK_NODE : UInt8 := 0x01
def MARK_EMPTY : UInt8 := 0x02

def leafHash (c : Crypto) (key value : Bytes32) : Bytes32 :=
  c.sha3 (DS_STATE ++ [MARK_LEAF] ++ hashBytes key ++ hashBytes value)

def nodeHash (c : Crypto) (left right : Bytes32) : Bytes32 :=
  c.sha3 (DS_STATE ++ [MARK_NODE] ++ hashBytes left ++ hashBytes right)

/-- The digests the chain uses. -/
def treeHash (c : Crypto) : MerkleHash Bytes32 Bytes32 Bytes32 where
  leaf := leafHash c
  node := nodeHash c
  blank := c.sha3 (DS_STATE ++ [MARK_EMPTY])

/-- A subtree that holds a key. A leaf keeps the digest folded up to the level it hangs at. -/
inductive Node (H : Type) where
  | leaf (key value : Bytes32) (hash : H) (level : ℕ)
  | split (left right : Option (Node H)) (hash : H)

section Model

variable {H : Type} (h : MerkleHash Bytes32 Bytes32 H)

/-- The digest of a subtree with one leaf, folded against empty subtrees. -/
def singletonSubtreeRoot (key value : Bytes32) : ℕ → H
  | 0 => h.leaf key value
  | level + 1 =>
    h.pair (keyBits.bit key level) (singletonSubtreeRoot key value level) (h.empty level)

/-- The root over a sorted slice, without nodes. -/
def subtreeRoot : ℕ → List (Bytes32 × Bytes32) → H
  | level, [] => h.empty level
  | 0, (key, value) :: _ => h.leaf key value
  | level + 1, [(key, value)] => singletonSubtreeRoot h key value (level + 1)
  | level + 1, first :: second :: rest =>
    let leaves := first :: second :: rest
    h.node (subtreeRoot level (leaves.takeWhile (fun e => !keyBits.bit e.1 level)))
      (subtreeRoot level (leaves.dropWhile (fun e => !keyBits.bit e.1 level)))

def hashOf (level : ℕ) : Option (Node H) → H
  | none => h.empty level
  | some (.leaf _ _ hash _) => hash
  | some (.split _ _ hash) => hash

def newLeaf (key value : Bytes32) (level : ℕ) : Node H :=
  .leaf key value (singletonSubtreeRoot h key value level) level

def newSplit (left right : Option (Node H)) (level : ℕ) : Node H :=
  .split left right (h.node (hashOf h level left) (hashOf h level right))

/-- Builds the subtree of a sorted slice. Two distinct keys part above level zero, so that arm of
the source, an assertion, is not reached. -/
def buildSubtree : ℕ → List (Bytes32 × Bytes32) → Option (Node H)
  | _, [] => none
  | level, [(key, value)] => some (newLeaf h key value level)
  | 0, _ :: _ :: _ => none
  | level + 1, first :: second :: rest =>
    let leaves := first :: second :: rest
    some (newSplit h (buildSubtree level (leaves.takeWhile (fun e => !keyBits.bit e.1 level)))
      (buildSubtree level (leaves.dropWhile (fun e => !keyBits.bit e.1 level))) level)

/-- The chain of splits down to the first bit where two keys part. -/
def splitApart (existingKey existingValue key value : Bytes32) : ℕ → Node H
  | 0 => newLeaf h key value 0
  | level + 1 =>
    let sideExisting := keyBits.bit existingKey level
    let sideNew := keyBits.bit key level
    if sideExisting = sideNew then
      let child := splitApart existingKey existingValue key value level
      if sideExisting then newSplit h none (some child) level
      else newSplit h (some child) none level
    else
      let kept := newLeaf h existingKey existingValue level
      let fresh := newLeaf h key value level
      if sideExisting then newSplit h (some fresh) (some kept) level
      else newSplit h (some kept) (some fresh) level

/-- A subtree after an insert, and what the insert did. -/
structure Inserted (H : Type) where
  node : Option (Node H)
  (added mutated : Bool)

def nodeInsert (key value : Bytes32) : ℕ → Option (Node H) → Inserted H
  | level, none => ⟨some (newLeaf h key value level), true, true⟩
  | level, some (.leaf key' value' hash at') =>
    if key' = key then
      if value' = value then ⟨some (.leaf key' value' hash at'), false, false⟩
      else ⟨some (newLeaf h key value level), false, true⟩
    else ⟨some (splitApart h key' value' key value level), true, true⟩
  | 0, some (.split left right hash) => ⟨some (.split left right hash), false, false⟩
  | level + 1, some (.split left right hash) =>
    let high := keyBits.bit key level
    let below := nodeInsert key value level (if high then right else left)
    if below.mutated then
      ⟨some (if high then newSplit h left below.node level else newSplit h below.node right level),
        below.added, true⟩
    else ⟨some (.split left right hash), below.added, false⟩

/-- A subtree down to one key becomes that key's leaf, folded from here. -/
def collapse (left right : Option (Node H)) (level : ℕ) : Option (Node H) :=
  match left, right with
  | none, none => none
  | some (.leaf key value _ _), none | none, some (.leaf key value _ _) =>
    some (newLeaf h key value (level + 1))
  | left, right => some (newSplit h left right level)

/-- The subtree after a removal, and whether the key was there. -/
def nodeRemove (key : Bytes32) : ℕ → Option (Node H) → Option (Node H) × Bool
  | _, none => (none, false)
  | _, some (.leaf key' value' hash at') =>
    if key' = key then (none, true) else (some (.leaf key' value' hash at'), false)
  | 0, some (.split left right hash) => (some (.split left right hash), false)
  | level + 1, some (.split left right hash) =>
    let high := keyBits.bit key level
    let below := nodeRemove key level (if high then right else left)
    if below.2 then
      (if high then collapse h left below.1 level else collapse h below.1 right level, true)
    else (some (.split left right hash), false)

def getIn (key : Bytes32) : ℕ → Option (Node H) → Option Bytes32
  | _, none => none
  | _, some (.leaf key' value _ _) => if key' = key then some value else none
  | 0, some (.split ..) => none
  | level + 1, some (.split left right _) =>
    getIn key level (if keyBits.bit key level then right else left)

/-- The siblings of a path below an empty subtree. -/
def emptySiblings : ℕ → List H
  | 0 => []
  | level + 1 => h.empty level :: emptySiblings level

def proveIn (key : Bytes32) : ℕ → Option (Node H) → Option (List H)
  | _, none => none
  | level, some (.leaf key' _ _ _) => if key' ≠ key then none else some (emptySiblings h level)
  | 0, some (.split ..) => none
  | level + 1, some (.split left right _) =>
    let (onPath, offPath) := if keyBits.bit key level then (right, left) else (left, right)
    (proveIn key level onPath).map (hashOf h level offPath :: ·)

/-- The siblings of an absent key that shares its subtree with a lone leaf: empty until the paths
part, then the leaf's side. -/
def partingSiblings (leafKey leafValue key : Bytes32) : ℕ → Option (List H)
  | 0 => none
  | level + 1 =>
    if keyBits.bit key level = keyBits.bit leafKey level then
      (partingSiblings leafKey leafValue key level).map (h.empty level :: ·)
    else some (singletonSubtreeRoot h leafKey leafValue level :: emptySiblings h level)

def proveAbsenceIn (key : Bytes32) : ℕ → Option (Node H) → Option (List H)
  | level, none => some (emptySiblings h level)
  | level, some (.leaf key' value' _ _) =>
    if key' = key then none else partingSiblings h key' value' key level
  | 0, some (.split ..) => none
  | level + 1, some (.split left right _) =>
    let (onPath, offPath) := if keyBits.bit key level then (right, left) else (left, right)
    (proveAbsenceIn key level onPath).map (hashOf h level offPath :: ·)

end Model

section Built

variable {h : MerkleHash Bytes32 Bytes32 H}

theorem singletonSubtreeRoot_eq :
    singletonSubtreeRoot h key value level = h.root keyBits level (single key value) := by
  induction level with
  | zero => rfl
  | succ level ih => rw [singletonSubtreeRoot, MerkleHash.root_single_succ, ih]

@[simp] theorem buildSubtree_empty :
    buildSubtree h level (empty : SortedMap Bytes32 Bytes32).entries = none := by
  cases level <;> rfl

@[simp] theorem buildSubtree_single :
    buildSubtree h level (single key value).entries = some (newLeaf h key value level) := by
  cases level <;> rfl

theorem buildSubtree_two (many : 2 ≤ m.size) (narrow : keyBits.Narrow (level + 1) m)
    (below : level < TREE_DEPTH) : buildSubtree h (level + 1) m.entries =
      some (newSplit h (buildSubtree h level (keyBits.side m false level).entries)
        (buildSubtree h level (keyBits.side m true level).entries) level) := by
  obtain ⟨e, e', rest, front⟩ := two_le_size_iff.mp many
  rw [front, buildSubtree, ← front, narrow.takeWhile_entries below, narrow.dropWhile_entries below]

theorem buildSubtree_split (many : 2 ≤ m.size) (narrow : keyBits.Narrow level m)
    (below : level ≤ TREE_DEPTH) :
    ∃ left right hash, buildSubtree h level m.entries = some (.split left right hash) := by
  cases level with
  | zero => exact absurd many (by have := narrow.size_le_one; omega)
  | succ level => exact ⟨_, _, _, buildSubtree_two many narrow below⟩

theorem hashOf_buildSubtree (narrow : keyBits.Narrow level m) (below : level ≤ TREE_DEPTH) :
    hashOf h level (buildSubtree h level m.entries) = h.root keyBits level m := by
  refine narrow.induction below ?none ?one ?split
  case none =>
    intro level
    rw [buildSubtree_empty, MerkleHash.root_empty, hashOf]
  case one =>
    intro level k v _
    rw [buildSubtree_single, newLeaf, hashOf, singletonSubtreeRoot_eq]
  case split =>
    intro level m below narrow many sides
    rw [buildSubtree_two many narrow below, newSplit, hashOf, sides false, sides true, MerkleHash.root]

theorem subtreeRoot_eq (narrow : keyBits.Narrow level m) (below : level ≤ TREE_DEPTH) :
    subtreeRoot h level m.entries = h.root keyBits level m := by
  refine narrow.induction below ?none ?one ?split
  case none =>
    intro level
    rw [MerkleHash.root_empty]
    cases level <;> rfl
  case one =>
    intro level k v _
    rw [← singletonSubtreeRoot_eq]
    cases level <;> rfl
  case split =>
    intro level m below narrow many sides
    obtain ⟨e, e', rest, front⟩ := two_le_size_iff.mp many
    rw [front, subtreeRoot, ← front, narrow.takeWhile_entries below,
      narrow.dropWhile_entries below, sides false, sides true, MerkleHash.root]

theorem splitApart_eq (apart : key ≠ existingKey)
    (narrow : keyBits.Narrow level ((single existingKey existingValue).insert key value))
    (below : level ≤ TREE_DEPTH) : some (splitApart h existingKey existingValue key value level) =
      buildSubtree h level ((single existingKey existingValue).insert key value).entries := by
  have many : 2 ≤ ((single existingKey existingValue).insert key value).size := by
    have fresh : (single existingKey existingValue).contains key = false := by
      simp [contains, get?_single, apart]
    rw [size_insert, fresh]
    exact le_rfl
  induction level with
  | zero => exact absurd many (by have := narrow.size_le_one; omega)
  | succ level ih =>
    rw [buildSubtree_two many narrow below, splitApart]
    have lower := narrow.side (b := keyBits.bit key level)
    cases sideNew : keyBits.bit key level <;> cases sideExisting : keyBits.bit existingKey level <;>
      simp [Radix.side_insert, Radix.side_single, sideNew, sideExisting, insert_empty] at lower ⊢
    · rw [← ih lower (by omega)]
    · rw [← ih lower (by omega)]

theorem nodeInsert_single
    (narrow : keyBits.Narrow level ((single existingKey existingValue).insert key value))
    (below : level ≤ TREE_DEPTH) :
    nodeInsert h key value level (some (newLeaf h existingKey existingValue level)) =
      ⟨buildSubtree h level ((single existingKey existingValue).insert key value).entries,
        !(single existingKey existingValue).contains key,
        (single existingKey existingValue).get? key ≠ some value⟩ := by
  have unfolded : nodeInsert h key value level (some (newLeaf h existingKey existingValue level)) =
      if existingKey = key then
        if existingValue = value then
          ⟨some (newLeaf h existingKey existingValue level), false, false⟩
        else ⟨some (newLeaf h key value level), false, true⟩
      else ⟨some (splitApart h existingKey existingValue key value level), true, true⟩ := by
    cases level <;> rfl
  rw [unfolded]
  by_cases same : existingKey = key
  · subst same
    have replaced : (single existingKey existingValue).insert existingKey value =
        single existingKey value := by
      rw [← insert_empty, insert_insert, insert_empty]
    rw [if_pos rfl, replaced, buildSubtree_single]
    by_cases held : existingValue = value
    · simp [held, contains, get?_single]
    · simp [held, contains, get?_single]
  · rw [if_neg same, ← splitApart_eq (Ne.symm same) narrow below]
    simp [contains, get?_single, Ne.symm same]

theorem nodeInsert_buildSubtree (inner : keyBits.Narrow level m) (below : level ≤ TREE_DEPTH)
    (narrow : keyBits.Narrow level (m.insert key value)) :
    nodeInsert h key value level (buildSubtree h level m.entries) =
      ⟨buildSubtree h level (m.insert key value).entries, !m.contains key, m.get? key ≠ some value⟩ := by
  revert narrow
  refine inner.induction below ?none ?one ?split
  case none =>
    intro level narrow
    cases level <;> rfl
  case one =>
    intro level k v below narrow
    rw [buildSubtree_single]
    exact nodeInsert_single narrow below
  case split =>
    intro level m below inner many sides narrow
    have grown : 2 ≤ (m.insert key value).size := by
      rw [size_insert]
      split_ifs <;> omega
    have lower := narrow.side (b := keyBits.bit key level)
    rw [Radix.side_insert, if_pos rfl] at lower
    have child := sides _ lower
    rw [buildSubtree_two many inner below, buildSubtree_two grown narrow below, newSplit, nodeInsert]
    simp only [contains, Radix.get?_side_self] at child ⊢
    by_cases held : m.get? key = some value
    · rw [insert_of_get? held]
      cases high : keyBits.bit key level
      all_goals
        rw [high] at child
        simp [child, held, newSplit]
    · cases high : keyBits.bit key level
      all_goals
        rw [high] at child
        simp [child, held, newSplit, Radix.side_insert, high]

theorem collapse_buildSubtree (narrow : keyBits.Narrow (level + 1) m) (below : level < TREE_DEPTH) :
    collapse h (buildSubtree h level (keyBits.side m false level).entries)
      (buildSubtree h level (keyBits.side m true level).entries) level =
      buildSubtree h (level + 1) m.entries := by
  rcases m.trichotomy with rfl | ⟨k, v, rfl⟩ | many
  · simp [collapse]
  · cases high : keyBits.bit k level <;> simp [Radix.side_single, high, collapse, newLeaf]
  · rw [buildSubtree_two many narrow below]
    have sizes : (keyBits.side m false level).size + (keyBits.side m true level).size = m.size :=
      Radix.size_side
    -- Two keys are on one side, which is then a split, or one on each.
    rcases (keyBits.side m false level).trichotomy with left | ⟨k, v, left⟩ | left
    · rw [left, size_empty, Nat.zero_add] at sizes
      obtain ⟨_, _, _, shape⟩ := buildSubtree_split (h := h) (sizes ▸ many) narrow.side below.le
      rw [left, shape, buildSubtree_empty]
      rfl
    · rcases (keyBits.side m true level).trichotomy with right | ⟨k', v', right⟩ | right
      · rw [left, right] at sizes
        exact absurd many (by simp [← sizes])
      · rw [left, right, buildSubtree_single, buildSubtree_single]
        rfl
      · obtain ⟨_, _, _, shape⟩ := buildSubtree_split (h := h) right narrow.side below.le
        rw [left, shape, buildSubtree_single]
        rfl
    · obtain ⟨_, _, _, shape⟩ := buildSubtree_split (h := h) left narrow.side below.le
      rw [shape]
      rcases buildSubtree h level (keyBits.side m true level).entries with _ | ⟨_ | _⟩ <;> rfl

theorem nodeRemove_buildSubtree (narrow : keyBits.Narrow level m) (below : level ≤ TREE_DEPTH) :
    nodeRemove h key level (buildSubtree h level m.entries) =
      (buildSubtree h level (m.erase key).entries, m.contains key) := by
  refine narrow.induction below ?none ?one ?split
  case none =>
    intro level
    cases level <;> rfl
  case one =>
    intro level k v _
    have unfolded : nodeRemove h key level (some (newLeaf h k v level)) =
        if k = key then (none, true) else (some (newLeaf h k v level), false) := by
      cases level <;> rfl
    rw [buildSubtree_single, unfolded]
    by_cases same : k = key
    · subst same
      have gone : (single k v).erase k = empty := by
        rw [← insert_empty, erase_insert]
        rfl
      simp [gone, contains, get?_single]
    · have absent : (single k v).get? key = none := by
        simp [get?_single, Ne.symm same]
      simp [same, erase_of_get?_none absent, contains, absent]
  case split =>
    intro level m below narrow many sides
    have child := sides (keyBits.bit key level)
    rw [buildSubtree_two many narrow below, ← collapse_buildSubtree (narrow.erase key) below,
      newSplit, nodeRemove]
    simp only [contains, Radix.get?_side_self] at child ⊢
    cases held : m.get? key with
    | none =>
      rw [erase_of_get?_none held, collapse_buildSubtree narrow below, buildSubtree_two many narrow below]
      cases high : keyBits.bit key level
      all_goals
        rw [high] at child
        simp [child, held, newSplit]
    | some v =>
      cases high : keyBits.bit key level
      all_goals
        rw [high] at child
        simp [child, held, Radix.side_erase, high]

theorem getIn_buildSubtree (narrow : keyBits.Narrow level m) (below : level ≤ TREE_DEPTH) :
    getIn key level (buildSubtree h level m.entries) = m.get? key := by
  refine narrow.induction below ?none ?one ?split
  case none =>
    intro level
    cases level <;> rfl
  case one =>
    intro level k v _
    have unfolded : getIn key level (some (newLeaf h k v level)) =
        if k = key then some v else none := by
      cases level <;> rfl
    rw [buildSubtree_single, unfolded, get?_single]
    simp only [eq_comm]
  case split =>
    intro level m below narrow many sides
    have child := sides (keyBits.bit key level)
    rw [Radix.get?_side_self] at child
    rw [buildSubtree_two many narrow below, newSplit, getIn, ← child]
    cases keyBits.bit key level <;> rfl

end Built

/-- The nodes and the count of a map of leaves. -/
def Holds {H : Type} (h : MerkleHash Bytes32 Bytes32 H) (tree : Option (Node H)) (len : ℕ)
    (m : SortedMap Bytes32 Bytes32) : Prop :=
  tree = buildSubtree h TREE_DEPTH m.entries ∧ len = m.size

/-- A state tree. The nodes are private to the source's module, and what it builds holds a map. -/
structure Smt {H : Type} (h : MerkleHash Bytes32 Bytes32 H) where
  tree : Option (Node H)
  len : ℕ
  holds : ∃ m, Holds h tree len m

section Updates

variable {tree : Option (Node H)}

theorem Holds.insert (holds : Holds h tree len m) :
    Holds h (nodeInsert h key value TREE_DEPTH tree).node
      (if (nodeInsert h key value TREE_DEPTH tree).added then len + 1 else len)
      (m.insert key value) := by
  obtain ⟨rfl, rfl⟩ := holds
  rw [nodeInsert_buildSubtree Radix.narrow_top le_rfl Radix.narrow_top]
  refine ⟨rfl, ?_⟩
  rw [size_insert]
  cases m.contains key <;> rfl

theorem Holds.remove (holds : Holds h tree len m) :
    Holds h (nodeRemove h key TREE_DEPTH tree).1
      (if (nodeRemove h key TREE_DEPTH tree).2 then len - 1 else len) (m.erase key) := by
  obtain ⟨rfl, rfl⟩ := holds
  rw [nodeRemove_buildSubtree Radix.narrow_top le_rfl]
  exact ⟨rfl, (size_erase m key).symm⟩

end Updates

namespace Smt

variable {H : Type} {h : MerkleHash Bytes32 Bytes32 H}

variable (h) in
def new : Smt h where
  tree := none
  len := 0
  holds := ⟨empty, buildSubtree_empty.symm, rfl⟩

variable (h) in
def fromLeafMap (leaves : SortedMap Bytes32 Bytes32) : Smt h where
  tree := buildSubtree h TREE_DEPTH leaves.entries
  len := leaves.entries.length
  holds := ⟨leaves, rfl, rfl⟩

def insert (t : Smt h) (key value : Bytes32) : Smt h where
  tree := (nodeInsert h key value TREE_DEPTH t.tree).node
  len := if (nodeInsert h key value TREE_DEPTH t.tree).added then t.len + 1 else t.len
  holds := t.holds.imp' (·.insert key value) (fun _ => Holds.insert)

def remove (t : Smt h) (key : Bytes32) : Smt h where
  tree := (nodeRemove h key TREE_DEPTH t.tree).1
  len := if (nodeRemove h key TREE_DEPTH t.tree).2 then t.len - 1 else t.len
  holds := t.holds.imp' (·.erase key) (fun _ => Holds.remove)

def get (t : Smt h) (key : Bytes32) : Option Bytes32 := getIn key TREE_DEPTH t.tree

def root (t : Smt h) : H := hashOf h TREE_DEPTH t.tree

theorem eq_fromLeafMap (holds : Holds h t.tree t.len m) : t = fromLeafMap h m := by
  obtain ⟨tree, len, _⟩ := t
  obtain ⟨rfl, rfl⟩ := holds
  rfl

theorem exists_fromLeafMap (t : Smt h) : ∃ m, t = fromLeafMap h m :=
  t.holds.imp (fun _ => eq_fromLeafMap)

theorem fromLeafMap_empty : fromLeafMap h empty = new h :=
  (eq_fromLeafMap ⟨buildSubtree_empty.symm, rfl⟩).symm

theorem insert_fromLeafMap : (fromLeafMap h m).insert key value = fromLeafMap h (m.insert key value) :=
  eq_fromLeafMap (Holds.insert ⟨rfl, rfl⟩)

theorem remove_fromLeafMap : (fromLeafMap h m).remove key = fromLeafMap h (m.erase key) :=
  eq_fromLeafMap (Holds.remove ⟨rfl, rfl⟩)

theorem get_fromLeafMap : (fromLeafMap h m).get key = m.get? key :=
  getIn_buildSubtree Radix.narrow_top le_rfl

theorem root_fromLeafMap : (fromLeafMap h m).root = h.root keyBits TREE_DEPTH m :=
  hashOf_buildSubtree Radix.narrow_top le_rfl

end Smt

inductive Update where
  | insert (key value : Bytes32)
  | remove (key : Bytes32)

namespace Update

variable {h : MerkleHash Bytes32 Bytes32 H}

def onTree (t : Smt h) : Update → Smt h
  | insert key value => t.insert key value
  | remove key => t.remove key

/-- The same update on a plain map of leaves. -/
def onMap (m : SortedMap Bytes32 Bytes32) : Update → SortedMap Bytes32 Bytes32
  | insert key value => m.insert key value
  | remove key => m.erase key

theorem onTree_fromLeafMap (m : SortedMap Bytes32 Bytes32) (u : Update) :
    u.onTree (Smt.fromLeafMap h m) = Smt.fromLeafMap h (u.onMap m) := by
  cases u with
  | insert key value => exact Smt.insert_fromLeafMap
  | remove key => exact Smt.remove_fromLeafMap

theorem foldl_onTree_fromLeafMap (m : SortedMap Bytes32 Bytes32) (updates : List Update) :
    updates.foldl onTree (Smt.fromLeafMap h m) = Smt.fromLeafMap h (updates.foldl onMap m) := by
  induction updates generalizing m with
  | nil => rfl
  | cons u rest ih => rw [List.foldl_cons, onTree_fromLeafMap, ih, List.foldl_cons]

end Update

/-- However a tree was reached, it is the tree built in bulk from the leaves that are left: node for
node, with the root of the flat recursion and of the plain one over all levels. -/
theorem smt_refines_flat_root {H : Type} (h : MerkleHash Bytes32 Bytes32 H) (updates : List Update) :
    let reached := updates.foldl Update.onTree (Smt.new h)
    let leaves := updates.foldl Update.onMap empty
    reached = Smt.fromLeafMap h leaves ∧ reached.root = subtreeRoot h TREE_DEPTH leaves.entries ∧
      reached.root = h.root keyBits TREE_DEPTH leaves ∧
      (∀ key, reached.get key = leaves.get? key) ∧
      reached.len = leaves.size ∧
      ∀ others : List Update, others.foldl Update.onMap empty = leaves →
        (others.foldl Update.onTree (Smt.new h)).root = reached.root := by
  intro reached leaves
  have bulk : ∀ updates : List Update, updates.foldl Update.onTree (Smt.new h) =
      Smt.fromLeafMap h (updates.foldl Update.onMap empty) := by
    intro updates
    rw [← Smt.fromLeafMap_empty, Update.foldl_onTree_fromLeafMap]
  have built : reached = Smt.fromLeafMap h leaves := bulk updates
  refine ⟨built, ?_, ?_, ?_, ?_, ?_⟩
  · rw [built, Smt.root_fromLeafMap, subtreeRoot_eq Radix.narrow_top le_rfl]
  · rw [built, Smt.root_fromLeafMap]
  · intro key
    rw [built, Smt.get_fromLeafMap]
  · rw [built]
    rfl
  · intro others same
    rw [bulk others, same, built]

end StateRoot

end BlochPos
