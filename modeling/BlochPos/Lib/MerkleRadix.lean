import BlochPos.Lib.SortedMap

/-! Maps whose keys are read bit by bit, the binary Merkle root over such a map, and the paths that open it.
Levels count from the leaves up: below a node at level `l + 1` the bit at level `l` picks the side. Keys,
values and digests are arbitrary. -/

/-- A reading of keys as `n` bits, the bit at level `n - 1` first, that tells keys apart and follows
their order. -/
structure Radix (K : Type*) [LinearOrder K] (n : ℕ) where
  bit : K → ℕ → Bool
  separates : ∀ {k k' : K}, (∀ l < n, bit k l = bit k' l) → k = k'
  follows : ∀ {k k' : K} {l : ℕ}, l < n → k < k' →
    (∀ l', l < l' → l' < n → bit k l' = bit k' l') → bit k l = true → bit k' l = true

namespace Radix

open SortedMap

variable {K V : Type*} [LinearOrder K] {n : ℕ} (r : Radix K n) {A : Type*} {l : List A}

/-- The entries on one side of the bit at a level. -/
def side (m : SortedMap K V) (b : Bool) (l : ℕ) : SortedMap K V :=
  m.filter (fun k _ => r.bit k l == b)

/-- Every key of the map agrees with `k` from `level` up. -/
def Along (k : K) (level : ℕ) (m : SortedMap K V) : Prop :=
  ∀ k' v, m.get? k' = some v → ∀ l, level ≤ l → l < n → r.bit k' l = r.bit k l

/-- The keys of the map agree with each other from `level` up. -/
def Narrow (level : ℕ) (m : SortedMap K V) : Prop :=
  ∀ k v, m.get? k = some v → r.Along k level m

variable {r} {m : SortedMap K V} {v : V}

theorem get?_side : (r.side m b level).get? k = if r.bit k level = b then m.get? k else none := by
  rw [side, get?_filter]
  cases m.get? k <;> simp [Option.filter]

theorem get?_side_self : (r.side m (r.bit k level) level).get? k = m.get? k := by simp [get?_side]

theorem along_top : r.Along k n m := fun _ _ _ _ above below => absurd below (not_lt.mpr above)

theorem narrow_top : r.Narrow n m := fun _ _ _ => along_top

theorem Along.narrow (along : r.Along k level m) : r.Narrow level m := by
  intro k' v' found k'' v'' found' l above below
  exact (along k'' v'' found' l above below).trans (along k' v' found l above below).symm

theorem Along.side (along : r.Along k (level + 1) m) :
    r.Along k level (r.side m (r.bit k level) level) := by
  intro k' v' found l above below
  simp only [get?_side, Option.ite_none_right_eq_some] at found
  rcases Nat.eq_or_lt_of_le above with rfl | higher
  · exact found.1
  · exact along k' v' found.2 l higher below

theorem Narrow.side (narrow : r.Narrow (level + 1) m) : r.Narrow level (r.side m b level) := by
  intro k v found
  simp only [get?_side, Option.ite_none_right_eq_some] at found
  rw [← found.1]
  exact (narrow k v found.2).side

theorem Narrow.erase (narrow : r.Narrow level m) (k : K) : r.Narrow level (m.erase k) := by
  have kept : ∀ {k' v'}, (m.erase k).get? k' = some v' → m.get? k' = some v' := by
    intro k' v' found
    rw [get?_erase] at found
    split_ifs at found
    exact found
  exact fun k' v' found k'' v'' found' => narrow k' v' (kept found) k'' v'' (kept found')

theorem Along.key_eq (along : r.Along k 0 m) (found : m.get? k' = some v') : k' = k :=
  r.separates (fun l below => along k' v' found l (Nat.zero_le l) below)

theorem Narrow.size_le_one (narrow : r.Narrow 0 m) : m.size ≤ 1 := by
  by_contra many
  obtain ⟨k, v, k', v', first, second, apart⟩ := two_keys (not_le.mp many)
  exact apart.symm ((narrow k v first).key_eq second)

/-- A fact of narrow maps by the number of entries: with two or more it may be assumed of both
sides. -/
@[elab_as_elim]
theorem Narrow.induction {P : ℕ → SortedMap K V → Prop} (narrow : r.Narrow level m)
    (below : level ≤ n) (none : ∀ level, P level empty)
    (one : ∀ level k v, level ≤ n → P level (single k v))
    (split : ∀ level m, level < n → r.Narrow (level + 1) m → 2 ≤ m.size →
      (∀ b, P level (r.side m b level)) → P (level + 1) m) : P level m := by
  induction level generalizing m with
  | zero =>
    rcases m.trichotomy with rfl | ⟨k, v, rfl⟩ | many
    · exact none 0
    · exact one 0 k v below
    · exact absurd many (by have := narrow.size_le_one; omega)
  | succ level ih =>
    rcases m.trichotomy with rfl | ⟨k, v, rfl⟩ | many
    · exact none _
    · exact one _ k v below
    · exact split level m below narrow many (fun b => ih narrow.side (by omega))

theorem Along.eq_at_zero (along : r.Along k 0 m) :
    m = (m.get? k).elim empty (single k) := by
  refine ext_get? (fun k' => ?_)
  cases here : m.get? k' with
  | some v' =>
    have same := along.key_eq here
    subst same
    simp [here, get?_single]
  | none =>
    by_cases same : k' = k
    · subst same
      simp [here]
    · cases m.get? k <;> simp [get?_single, same]

theorem span_eq_filter (prefixed : l.Pairwise (fun a b => p b = true → p a = true)) :
    l.takeWhile p = l.filter p ∧ l.dropWhile p = l.filter (fun a => !p a) := by
  induction l with
  | nil => exact ⟨rfl, rfl⟩
  | cons a rest ih =>
    rw [List.pairwise_cons] at prefixed
    by_cases here : p a = true
    · simp [here, ih prefixed.2]
    · have none : ∀ b ∈ rest, p b = false := fun b member => by
        simpa using fun later => here (prefixed.1 b member later)
      simp +contextual [here, none, List.filter_eq_self.mpr]

theorem Narrow.prefixed (narrow : r.Narrow (level + 1) m) (below : level < n) :
    m.entries.Pairwise (fun a b => (!r.bit b.1 level) = true → (!r.bit a.1 level) = true) := by
  refine m.sorted.imp_of_mem ?_
  intro a b memberA memberB ordered clear
  have agree := narrow a.1 a.2 (get?_eq_some_iff.mpr memberA) b.1 b.2
    (get?_eq_some_iff.mpr memberB)
  have grows := r.follows below ordered (fun l above under => (agree l above under).symm)
  cases bitA : r.bit a.1 level
  · rfl
  · rw [grows bitA] at clear
    exact clear

theorem Narrow.takeWhile_entries (narrow : r.Narrow (level + 1) m) (below : level < n) :
    m.entries.takeWhile (fun e => !r.bit e.1 level) = (r.side m false level).entries := by
  rw [(span_eq_filter (narrow.prefixed below)).1]
  simp [Radix.side, filter]

theorem Narrow.dropWhile_entries (narrow : r.Narrow (level + 1) m) (below : level < n) :
    m.entries.dropWhile (fun e => !r.bit e.1 level) = (r.side m true level).entries := by
  rw [(span_eq_filter (narrow.prefixed below)).2]
  simp [Radix.side, filter]

theorem size_side : (r.side m false level).size + (r.side m true level).size = m.size := by
  have parts := List.length_eq_length_filter_add (l := m.entries) (fun e => r.bit e.1 level == false)
  simp only [size, side, filter]
  rw [parts]
  congr 3
  funext e
  cases r.bit e.1 level <;> rfl

@[simp] theorem side_empty : r.side (empty : SortedMap K V) b level = empty := rfl

theorem side_single : r.side (single k v) b level =
    if r.bit k level = b then single k v else empty := by
  refine ext_get? (fun k' => ?_)
  rw [get?_side, get?_single]
  by_cases same : k' = k
  · subst same
    by_cases here : r.bit k' level = b <;> simp [here, get?_single]
  · by_cases here : r.bit k level = b <;> simp [here, get?_single, same]

theorem side_insert : r.side (m.insert k v) b level =
    if r.bit k level = b then (r.side m b level).insert k v else r.side m b level := by
  refine ext_get? (fun k' => ?_)
  rw [get?_side, get?_insert]
  by_cases same : k' = k
  · subst same
    by_cases here : r.bit k' level = b <;> simp [here, get?_side]
  · by_cases here : r.bit k level = b <;> simp [here, get?_side, get?_insert, same]

theorem side_erase : r.side (m.erase k) b level =
    if r.bit k level = b then (r.side m b level).erase k else r.side m b level := by
  refine ext_get? (fun k' => ?_)
  rw [get?_side, get?_erase]
  by_cases same : k' = k
  · subst same
    by_cases here : r.bit k' level = b <;> simp [here, get?_side, get?_erase]
  · by_cases here : r.bit k level = b <;> simp [here, get?_side, get?_erase, same]

end Radix

/-- How digests are made: of an entry, of two subtrees, of an empty slot. -/
structure MerkleHash (K V H : Type*) where
  leaf : K → V → H
  node : H → H → H
  blank : H

namespace MerkleHash

variable {K V H : Type*} [LinearOrder K] {n : ℕ}

/-- The digest of an empty subtree. -/
def empty (h : MerkleHash K V H) : ℕ → H
  | 0 => h.blank
  | level + 1 => h.node (h.empty level) (h.empty level)

def pair (h : MerkleHash K V H) (b : Bool) (onPath offPath : H) : H :=
  if b then h.node offPath onPath else h.node onPath offPath

def slot (h : MerkleHash K V H) (k : K) : Option V → H
  | none => h.blank
  | some v => h.leaf k v

/-- The plain recursion over every level. -/
def root (h : MerkleHash K V H) (r : Radix K n) : ℕ → SortedMap K V → H
  | 0, m =>
    match m.entries with
    | [] => h.blank
    | (k, v) :: _ => h.leaf k v
  | level + 1, m =>
    h.node (h.root r level (r.side m false level)) (h.root r level (r.side m true level))

/-- The digests opposite the path of a key, from the root down. -/
def path (h : MerkleHash K V H) (r : Radix K n) (k : K) : ℕ → SortedMap K V → List H
  | 0, _ => []
  | level + 1, m => h.root r level (r.side m (!r.bit k level) level) ::
      h.path r k level (r.side m (r.bit k level) level)

/-- Folds a slot's digest up along the bits of a key, against siblings listed from the root down. -/
def climb (h : MerkleHash K V H) (r : Radix K n) (k : K) (bottom : H) : List H → H
  | [] => bottom
  | sibling :: rest => h.pair (r.bit k rest.length) (h.climb r k bottom rest) sibling

variable {h : MerkleHash K V H} {r : Radix K n} {k : K} {v : V}

@[simp] theorem length_path : (h.path r k level m).length = level := by
  induction level generalizing m with
  | zero => rfl
  | succ level ih => rw [path, List.length_cons, ih]

theorem root_empty : h.root r level SortedMap.empty = h.empty level := by
  induction level with
  | zero => rfl
  | succ level ih => rw [root, Radix.side_empty, Radix.side_empty, ih, empty]

theorem root_succ (k : K) : h.root r (level + 1) m =
    h.pair (r.bit k level) (h.root r level (r.side m (r.bit k level) level))
      (h.root r level (r.side m (!r.bit k level) level)) := by
  rw [root, pair]
  cases r.bit k level <;> rfl

theorem root_single_succ : h.root r (level + 1) (SortedMap.single k v) =
    h.pair (r.bit k level) (h.root r level (SortedMap.single k v)) (h.empty level) := by
  rw [root_succ k, Radix.side_single, Radix.side_single, if_pos rfl, if_neg (by simp), root_empty]

theorem root_zero (along : r.Along k 0 m) : h.root r 0 m = h.slot k (m.get? k) := by
  have entry := along.eq_at_zero
  cases found : m.get? k with
  | none => rw [entry, found]; rfl
  | some v => rw [entry, found]; rfl

theorem climb_path (along : r.Along k level m) :
    h.climb r k (h.slot k (m.get? k)) (h.path r k level m) = h.root r level m := by
  induction level generalizing m with
  | zero => exact (root_zero along).symm
  | succ level ih =>
    have below := ih along.side
    rw [Radix.get?_side_self] at below
    rw [path, climb, length_path, below, root_succ k]

/-- No two digests of the kinds a path tells apart coincide. -/
structure CollisionFree (h : MerkleHash K V H) : Prop where
  leaf : Function.Injective2 h.leaf
  node : Function.Injective2 h.node
  leaf_ne_blank : ∀ k v, h.leaf k v ≠ h.blank

omit [LinearOrder K] in
theorem CollisionFree.slot (free : h.CollisionFree) : Function.Injective (h.slot k) := by
  intro held held' same
  cases held with
  | none =>
    cases held' with
    | none => rfl
    | some v => exact absurd same.symm (free.leaf_ne_blank k v)
  | some v =>
    cases held' with
    | none => exact absurd same (free.leaf_ne_blank k v)
    | some v' => exact congrArg some (free.leaf same).2

omit [LinearOrder K] in
theorem pair_inj (inj : Function.Injective2 h.node) {b : Bool} {x y x' y' : H}
    (same : h.pair b x y = h.pair b x' y') : x = x' ∧ y = y' := by
  cases b
  · exact inj same
  · exact (inj same).symm

/-- Whatever siblings lead a slot to the root, the map holds that slot at the key. -/
theorem get?_of_climb (node : Function.Injective2 h.node) (slot : Function.Injective (h.slot k))
    (along : r.Along k level m) (long : siblings.length = level)
    (reached : h.climb r k (h.slot k held) siblings = h.root r level m) : m.get? k = held := by
  induction level generalizing m siblings with
  | zero =>
    rw [List.length_eq_zero_iff] at long
    rw [long, climb, root_zero along] at reached
    exact (slot reached).symm
  | succ level ih =>
    obtain ⟨sibling, rest, rfl⟩ := List.exists_cons_of_length_eq_add_one long
    have short : rest.length = level := by simpa using long
    rw [climb, short, root_succ k] at reached
    have below := ih along.side short (pair_inj node reached).1
    rwa [Radix.get?_side_self] at below

end MerkleHash
