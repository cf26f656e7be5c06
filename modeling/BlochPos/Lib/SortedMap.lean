import Mathlib

/-! Finite maps as association lists with strictly increasing keys: two maps with the same lookups are
equal. Keys, values and the monoid a map is summed in are arbitrary. -/

/-- A finite map. The sortedness proof makes every key occur once. -/
structure SortedMap (K V : Type*) [LinearOrder K] where
  entries : List (K × V)
  sorted : entries.Pairwise (fun a b => a.1 < b.1)

namespace SortedMap

open List

variable {K V W M : Type*} [LinearOrder K] {k : K} {v : V} {m : SortedMap K V}
  {update : K → Option V → Option V} {l : List (K × V)} {A T : Type*} {k' : K} {key : A → K} {items : List A}
  {look : V → T}

instance [DecidableEq V] : DecidableEq (SortedMap K V) := fun a b =>
  decidable_of_iff (a.entries = b.entries)
    ⟨fun same => by cases a; cases b; simp_all, fun same => same ▸ rfl⟩

def empty : SortedMap K V := ⟨[], .nil⟩

section

variable (m : SortedMap K V) (k : K)

def get? : Option V :=
  (m.entries.find? (fun e => e.1 = k)).map Prod.snd

def getD (default : V) : V := (m.get? k).getD default

def contains : Bool := (m.get? k).isSome

def keys : List K := m.entries.map Prod.fst

def values : List V := m.entries.map Prod.snd

def filter (p : K → V → Bool) : SortedMap K V :=
  ⟨m.entries.filter (fun e => p e.1 e.2), m.sorted.filter _⟩

def erase : SortedMap K V := m.filter (fun k' _ => k' ≠ k)

def mapVal (f : K → V → W) : SortedMap K W :=
  ⟨m.entries.map (fun e => (e.1, f e.1 e.2)), List.pairwise_map.mpr m.sorted⟩

def insert (v : V) : SortedMap K V :=
  ⟨m.entries.filter (fun e => e.1 < k) ++ (k, v) :: m.entries.filter (fun e => k < e.1), by
    refine List.pairwise_append.mpr ⟨m.sorted.filter _, List.pairwise_cons.mpr ⟨?_, m.sorted.filter _⟩, ?_⟩
    · intro e above
      simpa using (List.mem_filter.mp above).2
    · intro a below b other
      have smaller : a.1 < k := by simpa using (List.mem_filter.mp below).2
      rcases List.mem_cons.mp other with rfl | above
      · exact smaller
      · exact smaller.trans (by simpa using (List.mem_filter.mp above).2)⟩

end

/-- Inserts from left to right, so the last entry of a key wins. -/
def ofList (l : List (K × V)) : SortedMap K V :=
  l.foldl (fun m e => m.insert e.1 e.2) empty

def addAt [Add V] [Zero V] (m : SortedMap K V) (k : K) (v : V) : SortedMap K V :=
  m.insert k (m.getD k 0 + v)

def keyset (m : SortedMap K V) : Finset K := m.keys.toFinset

def sum [AddCommMonoid M] (m : SortedMap K V) (f : K → V → M) : M :=
  (m.entries.map (fun e => f e.1 e.2)).sum

theorem keys_nodup (m : SortedMap K V) : m.keys.Nodup :=
  pairwise_map.mpr (m.sorted.imp ne_of_lt)

theorem find?_key_eq_some_iff (unique : (l.map Prod.fst).Nodup) :
    (l.find? (fun e => e.1 = k)).map Prod.snd = some v ↔ (k, v) ∈ l := by
  induction l with
  | nil => simp
  | cons e rest ih =>
    obtain ⟨k', v'⟩ := e
    simp only [map_cons, nodup_cons] at unique
    by_cases same : k' = k
    · subst same
      have absent : (k', v) ∉ rest := fun member =>
        unique.1 (mem_map.mpr ⟨_, member, rfl⟩)
      simp [absent, eq_comm]
    · have other : ¬ k = k' := fun h => same h.symm
      simpa [same, other] using ih unique.2

theorem get?_eq_some_iff : m.get? k = some v ↔ (k, v) ∈ m.entries :=
  find?_key_eq_some_iff m.keys_nodup

theorem mem_keys_iff : k ∈ m.keys ↔ ∃ v, m.get? k = some v := by
  simp [keys, get?_eq_some_iff]

theorem contains_iff : m.contains k = true ↔ ∃ v, m.get? k = some v := by
  simp [contains, Option.isSome_iff_exists]

theorem mem_values_iff : v ∈ m.values ↔ ∃ k, m.get? k = some v := by
  simp [values, get?_eq_some_iff]

/-- A sorted list is determined by its members. -/
theorem ext_get? (same : ∀ k, m.get? k = n.get? k) : m = n := by
  have members : ∀ e, e ∈ m.entries ↔ e ∈ n.entries := by
    rintro ⟨k, v⟩
    rw [← get?_eq_some_iff, ← get?_eq_some_iff, same]
  have nodup : ∀ p : SortedMap K V, p.entries.Nodup := fun p => p.keys_nodup.of_map _
  have perm := (perm_ext_iff_of_nodup (nodup m) (nodup n)).mpr members
  have entriesEq : m.entries = n.entries :=
    perm.eq_of_pairwise (fun a b _ _ ab ba => absurd (ab.trans ba) (lt_irrefl _))
      m.sorted n.sorted
  cases m; cases n; simp_all

theorem keys_ext {n : SortedMap K W} (same : ∀ k, k ∈ m.keys ↔ k ∈ n.keys) : m.keys = n.keys := by
  have perm := (perm_ext_iff_of_nodup m.keys_nodup n.keys_nodup).mpr same
  exact perm.eq_of_pairwise (fun a b _ _ ab ba => absurd (ab.trans ba) (lt_irrefl _))
    (pairwise_map.mpr m.sorted) (pairwise_map.mpr n.sorted)

theorem ne_of_absent {f : A → Option B} {x : B} (found : f a = some x) (absent : f b = none) : a ≠ b := by
  rintro rfl
  cases found.symm.trans absent

@[simp] theorem get?_empty (k : K) : (empty : SortedMap K V).get? k = none := rfl

section

variable (m : SortedMap K V)

@[simp] theorem get?_filter (p : K → V → Bool) (k : K) : (m.filter p).get? k = (m.get? k).filter (p k) := by
  ext v
  simp [get?_eq_some_iff, filter, Option.filter_eq_some_iff, mem_filter]

theorem get?_filter_of_kept (kept : ∀ v, p k v = true) : (m.filter p).get? k = m.get? k := by
  rw [get?_filter]
  cases m.get? k with
  | none => rfl
  | some v => exact Option.filter_some_pos (kept v)

theorem get?_erase (k k' : K) : (m.erase k).get? k' = if k' = k then none else m.get? k' := by
  rw [erase, get?_filter]
  split_ifs with same <;> cases m.get? k' <;> simp [Option.filter, same]

theorem get?_insert (k : K) (v : V) (k' : K) :
    (m.insert k v).get? k' = if k' = k then some v else m.get? k' := by
  ext w
  split_ifs with same
  · subst same
    rw [get?_eq_some_iff]
    simp [insert, eq_comm]
  · have apart : k' < k ∨ k < k' := lt_or_gt_of_ne same
    rw [get?_eq_some_iff, get?_eq_some_iff]
    simp [insert, same]
    tauto

@[simp] theorem get?_insert_self (k : K) (v : V) : (m.insert k v).get? k = some v := by simp [get?_insert]

theorem get?_insert_of_ne (v : V) (other : k' ≠ k) :
    (m.insert k v).get? k' = m.get? k' := by simp [get?_insert, other]

end

theorem get?_insert_cases (found : (m.insert k v).get? k' = some w) :
    (k' = k ∧ w = v) ∨ (k' ≠ k ∧ m.get? k' = some w) := by
  rw [get?_insert] at found
  split_ifs at found with same
  · exact .inl ⟨same, (Option.some.inj found).symm⟩
  · exact .inr ⟨same, found⟩

@[simp] theorem get?_mapVal (m : SortedMap K V) (f : K → V → W) (k : K) :
    (m.mapVal f).get? k = (m.get? k).map (f k) := by
  ext w
  simp only [get?_eq_some_iff, mapVal, Option.map_eq_some_iff, mem_map, Prod.mk.injEq, Prod.exists]
  constructor
  · rintro ⟨_, v, member, rfl, rfl⟩
    exact ⟨v, member, rfl⟩
  · rintro ⟨v, member, rfl⟩
    exact ⟨k, v, member, rfl, rfl⟩

theorem mapVal_insert (m : SortedMap K V) (f : K → V → W) (k : K) (v : V) :
    (m.insert k v).mapVal f = (m.mapVal f).insert k (f k v) := by
  refine ext_get? (fun k' => ?_)
  by_cases here : k' = k
  · subst here
    simp
  · simp [get?_insert_of_ne _ _ here]

theorem getD_eq_of_get? {default : V} (found : m.get? k = some v) :
    m.getD k default = v := by simp [getD, found]

theorem mem_keyset_iff : k ∈ m.keyset ↔ ∃ v, m.get? k = some v := by
  rw [keyset, mem_toFinset, mem_keys_iff]

theorem key_le_getLast? (member : k ∈ m.keys) (final : m.keys.getLast? = some last) : k ≤ last := by
  obtain ⟨before, split⟩ := getLast?_eq_some_iff.mp final
  have ordered : (before ++ [last]).Pairwise (· < ·) := split ▸ pairwise_map.mpr m.sorted
  rw [split, mem_append, mem_singleton] at member
  rcases member with earlier | rfl
  · exact ((pairwise_append.mp ordered).2.2 k earlier last (by simp)).le
  · exact le_rfl

/-- After a fold of inserts the last item of a key is the one that stands. -/
theorem get?_foldl_insert (items : List A) (key : A → K) (value : A → V) (m : SortedMap K V)
    (k : K) : (items.foldl (fun m a => m.insert (key a) (value a)) m).get? k =
      ((items.reverse.find? (fun a => key a = k)).map value).or (m.get? k) := by
  induction items generalizing m with
  | nil => simp
  | cons a rest ih =>
    rw [foldl_cons, ih, get?_insert, reverse_cons, find?_append]
    cases rest.reverse.find? (fun a => key a = k) with
    | some b => simp
    | none =>
      by_cases same : key a = k
      · simp [same]
      · simp [same, Ne.symm same]

theorem mem_of_get?_ofList (found : (ofList l).get? k = some v) : (k, v) ∈ l := by
  rw [ofList, get?_foldl_insert l Prod.fst Prod.snd, get?_empty, Option.or_none, Option.map_eq_some_iff] at found
  obtain ⟨e, last, rfl⟩ := found
  obtain rfl : e.1 = k := by simpa using find?_some last
  exact mem_reverse.mp (mem_of_find?_eq_some last)

theorem get?_ofList_ne_none (member : (k, v) ∈ l) : (ofList l).get? k ≠ none := by
  rw [ofList, get?_foldl_insert l Prod.fst Prod.snd]
  simpa using ⟨v, member⟩

theorem get?_ofList_of_nodup (unique : (l.map Prod.fst).Nodup) (k : K) :
    (ofList l).get? k = (l.find? (fun e => e.1 = k)).map Prod.snd := by
  rw [ofList, get?_foldl_insert l Prod.fst Prod.snd]
  cases last : l.reverse.find? (fun e => e.1 = k) with
  | none =>
    have absent : l.find? (fun e => e.1 = k) = none := by
      rw [find?_eq_none] at last ⊢
      exact fun e member => last e (mem_reverse.mpr member)
    simp [absent]
  | some e =>
    have member := mem_reverse.mp (mem_of_find?_eq_some last)
    have same : e.1 = k := by simpa using find?_some last
    have found := (find?_key_eq_some_iff unique).mpr (same ▸ member : (k, e.2) ∈ l)
    simp [found]

theorem ofList_perm {l' : List (K × V)} (perm : l.Perm l') (unique : (l.map Prod.fst).Nodup) :
    ofList l = ofList l' := by
  have unique' : (l'.map Prod.fst).Nodup := (perm.map Prod.fst).nodup_iff.mp unique
  apply ext_get?
  intro k
  ext v
  rw [get?_ofList_of_nodup unique, get?_ofList_of_nodup unique', find?_key_eq_some_iff unique,
    find?_key_eq_some_iff unique', perm.mem_iff]

/-- A fold of updates, each at a key of its own. -/
theorem get?_foldl_update
    (each : ∀ m a k, (step m a).get? k = if k = key a then update k (m.get? k) else m.get? k)
    (unique : (items.map key).Nodup) (m : SortedMap K V) (k : K) :
    (items.foldl step m).get? k = if k ∈ items.map key then update k (m.get? k) else m.get? k := by
  induction items generalizing m with
  | nil => simp
  | cons a rest ih =>
    rw [map_cons, nodup_cons] at unique
    rw [foldl_cons, ih unique.2, each]
    by_cases here : k = key a
    · subst here
      simp [unique.1]
    · simp [here]

theorem foldl_update_perm
    (each : ∀ m a k, (step m a).get? k = if k = key a then update k (m.get? k) else m.get? k)
    (perm : items.Perm items') (unique : (items.map key).Nodup) (m : SortedMap K V) :
    items.foldl step m = items'.foldl step m := by
  have unique' : (items'.map key).Nodup := (perm.map key).nodup_iff.mp unique
  apply ext_get?
  intro k
  rw [get?_foldl_update each unique, get?_foldl_update each unique']
  simp only [(perm.map key).mem_iff]

theorem get?_foldl_erase (keys : List K) (m : SortedMap K V) (k : K) :
    (keys.foldl erase m).get? k = if k ∈ keys then none else m.get? k := by
  induction keys generalizing m with
  | nil => simp
  | cons a rest ih =>
    rw [foldl_cons, ih, get?_erase]
    by_cases here : k = a
    · simp [here]
    · simp [here]

section Sums

variable [AddCommMonoid M] {k : K} {m : SortedMap K V} {f : K → V → M}

theorem perm_of_get? (found : m.get? k = some v) : m.entries.Perm ((k, v) :: (m.erase k).entries) := by
  have nodup : ∀ p : SortedMap K V, p.entries.Nodup := fun p => p.keys_nodup.of_map _
  refine (perm_ext_iff_of_nodup (nodup m)
    (nodup_cons.mpr ⟨by simp [erase, filter], nodup _⟩)).mpr ?_
  rintro ⟨k', v'⟩
  simp only [mem_cons, Prod.mk.injEq, ← get?_eq_some_iff, get?_erase]
  by_cases same : k' = k
  · subst same
    simp [found, eq_comm]
  · simp [same]

theorem sum_of_get? (found : m.get? k = some v) (f : K → V → M) : m.sum f = f k v + (m.erase k).sum f := by
  simpa [sum] using ((perm_of_get? found).map (fun e => f e.1 e.2)).sum_eq

theorem erase_insert (m : SortedMap K V) (k : K) (v : V) : (m.insert k v).erase k = m.erase k := by
  apply ext_get?
  intro k'
  simp only [get?_erase, get?_insert]
  split_ifs <;> rfl

theorem erase_of_get?_none (absent : m.get? k = none) : m.erase k = m := by
  apply ext_get?
  intro k'
  rw [get?_erase]
  split_ifs with same
  · rw [same, absent]
  · rfl

theorem sum_insert (m : SortedMap K V) (k : K) (v : V) (f : K → V → M) :
    (m.insert k v).sum f = f k v + (m.erase k).sum f := by
  rw [sum_of_get? (get?_insert_self m k v), erase_insert]

theorem sum_erase (m : SortedMap K V) (k : K) (f : K → V → M) :
    m.sum f = (m.get? k).elim 0 (f k) + (m.erase k).sum f := by
  cases found : m.get? k with
  | none => simp [erase_of_get?_none found]
  | some v => exact sum_of_get? found f

theorem sum_congr (same : ∀ k v, m.get? k = some v → f k v = g k v) : m.sum f = m.sum g := by
  unfold sum
  congr 1
  exact map_congr_left (fun e member => same _ _ (get?_eq_some_iff.mpr member))

theorem sum_eq_zero (zero : ∀ k v, m.get? k = some v → f k v = 0) : m.sum f = 0 := by
  rw [sum_congr zero]
  simp [sum]

theorem sum_mapVal (m : SortedMap K V) (g : K → V → W) (f : K → W → M) :
    (m.mapVal g).sum f = m.sum (fun k v => f k (g k v)) := by
  simp [sum, mapVal, Function.comp_def]

theorem sum_insert_of_get? (found : m.get? k = some v) (v' : V) (f : K → V → M) :
    (m.insert k v').sum f + f k v = m.sum f + f k v' := by
  rw [sum_insert, sum_of_get? found]
  abel

theorem sum_insert_of_absent (absent : m.get? k = none) (v : V) (f : K → V → M) :
    (m.insert k v).sum f = m.sum f + f k v := by
  rw [sum_insert, erase_of_get?_none absent, add_comm]

theorem sum_filter (m : SortedMap K V) (p : K → V → Bool) (f : K → V → M) :
    (m.filter p).sum f = m.sum (fun k v => if p k v then f k v else 0) := by
  simp only [sum, filter]
  induction m.entries with
  | nil => rfl
  | cons e rest ih =>
    by_cases kept : p e.1 e.2 = true
    · simp [kept, ih]
    · simp [kept, ih]

theorem sum_eq_sum_keyset (m : SortedMap K V) (f : K → V → M) :
    m.sum f = ∑ k ∈ m.keyset, (m.get? k).elim 0 (f k) := by
  rw [keyset, sum_toFinset _ m.keys_nodup, keys, map_map, sum]
  congr 1
  refine map_congr_left ?_
  rintro ⟨k, v⟩ member
  simp [get?_eq_some_iff.mpr member]

end Sums

theorem sum_eq_sum_getD [AddCommMonoid V] (m : SortedMap K V) :
    m.sum (fun _ v => v) = ∑ k ∈ m.keyset, m.getD k 0 := by
  rw [sum_eq_sum_keyset]
  refine Finset.sum_congr rfl ?_
  intro k member
  obtain ⟨v, found⟩ := mem_keyset_iff.mp member
  simp [found, getD]

theorem getD_eq_zero_of_notMem [AddCommMonoid V] (absent : k ∉ m.keyset) : m.getD k 0 = 0 := by
  have none : m.get? k = none := by
    simpa [mem_keyset_iff, Option.eq_none_iff_forall_ne_some] using absent
  simp [getD, none]

/-- Keys outside the map count nothing, so any set of keys is bounded by the map. -/
theorem sum_getD_le (m : SortedMap K ℕ) (keys : Finset K) :
    ∑ k ∈ keys, m.getD k 0 ≤ m.sum (fun _ v => v) := by
  rw [sum_eq_sum_getD]
  calc ∑ k ∈ keys, m.getD k 0 = ∑ k ∈ keys with k ∈ m.keyset, m.getD k 0 := by
        rw [Finset.sum_filter]
        refine Finset.sum_congr rfl ?_
        intro k _
        split_ifs with member
        · rfl
        · exact getD_eq_zero_of_notMem member
    _ ≤ ∑ k ∈ m.keyset, m.getD k 0 := by
        refine Finset.sum_le_sum_of_subset ?_
        intro k both
        exact (Finset.mem_filter.mp both).2

section AddAt

variable [AddCommMonoid V]

theorem getD_addAt (m : SortedMap K V) (k : K) (v : V) (k' : K) :
    (m.addAt k v).getD k' 0 = m.getD k' 0 + if k' = k then v else 0 := by
  by_cases same : k' = k
  · subst same
    simp [addAt, getD]
  · simp [addAt, getD, get?_insert, same]

/-- Adding at a key adds to every sum that is additive in the value there. -/
theorem sum_addAt [AddCommMonoid M] (m : SortedMap K V) (k : K) (v : V) (f : K → V → M)
    (zero : f k 0 = 0) (add : ∀ a b, f k (a + b) = f k a + f k b) :
    (m.addAt k v).sum f = m.sum f + f k v := by
  rw [addAt, sum_insert, m.sum_erase k, add, add_right_comm]
  congr 2
  cases found : m.get? k <;> simp [getD, found, zero]

theorem getD_foldl_addAt (l : List E) (key : E → K) (amount : E → V) (m : SortedMap K V) (k : K) :
    (l.foldl (fun m e => m.addAt (key e) (amount e)) m).getD k 0 =
      m.getD k 0 + ((l.filter (fun e => key e = k)).map amount).sum := by
  induction l generalizing m with
  | nil => simp
  | cons e rest ih =>
    rw [foldl_cons, ih, getD_addAt]
    by_cases same : key e = k
    · simp [same, add_assoc]
    · simp [same, Ne.symm same]

end AddAt

def single (k : K) (v : V) : SortedMap K V := ⟨[(k, v)], List.pairwise_singleton _ _⟩

def size (m : SortedMap K V) : ℕ := m.entries.length

@[simp] theorem size_empty : (empty : SortedMap K V).size = 0 := rfl

@[simp] theorem size_single (k : K) (v : V) : (single k v).size = 1 := rfl

theorem get?_single (k : K) (v : V) (k' : K) : (single k v).get? k' = if k' = k then some v else none := by
  by_cases same : k = k'
  · simp [single, get?, same]
  · simp [single, get?, same, Ne.symm same]

theorem two_le_size_iff : 2 ≤ m.size ↔ ∃ e e' rest, m.entries = e :: e' :: rest := by
  rw [size]
  rcases m.entries with _ | ⟨e, _ | ⟨e', rest⟩⟩ <;> simp

theorem trichotomy (m : SortedMap K V) : m = empty ∨ (∃ k v, m = single k v) ∨ 2 ≤ m.size := by
  obtain ⟨entries, sorted⟩ := m
  rcases entries with _ | ⟨e, _ | ⟨e', rest⟩⟩
  · exact .inl rfl
  · exact .inr (.inl ⟨e.1, e.2, rfl⟩)
  · exact .inr (.inr (two_le_size_iff.mpr ⟨e, e', rest, rfl⟩))

theorem two_keys (many : 2 ≤ m.size) : ∃ k v k' v', m.get? k = some v ∧ m.get? k' = some v' ∧ k ≠ k' := by
  obtain ⟨e, e', rest, front⟩ := two_le_size_iff.mp many
  refine ⟨e.1, e.2, e'.1, e'.2, get?_eq_some_iff.mpr (by simp [front]),
    get?_eq_some_iff.mpr (by simp [front]), ?_⟩
  have sorted := m.sorted
  rw [front] at sorted
  exact (rel_of_pairwise_cons sorted (by simp)).ne

theorem insert_empty (k : K) (v : V) : (empty : SortedMap K V).insert k v = single k v := rfl

theorem insert_insert (m : SortedMap K V) (k : K) (v w : V) : (m.insert k v).insert k w = m.insert k w := by
  refine ext_get? (fun k' => ?_)
  simp only [get?_insert]
  split_ifs <;> rfl

theorem insert_of_get? (found : m.get? k = some v) : m.insert k v = m := by
  refine ext_get? (fun k' => ?_)
  rw [get?_insert]
  split_ifs with same
  · rw [same, found]
  · rfl

theorem mapVal_insert_of_same {f : K → V → W} (found : m.get? k = some v) (same : f k v' = f k v) :
    (m.insert k v').mapVal f = m.mapVal f := by
  have held : (m.mapVal f).get? k = some (f k v) := by rw [get?_mapVal, found]; rfl
  rw [mapVal_insert, same, insert_of_get? held]

theorem size_insert (m : SortedMap K V) (k : K) (v : V) :
    (m.insert k v).size = if m.contains k then m.size else m.size + 1 := by
  have counted : ∀ p : SortedMap K V, p.size = p.sum (fun _ _ => 1) := by simp [size, sum]
  have before := sum_erase m k (fun _ _ => 1)
  rw [counted, counted, sum_insert]
  cases found : m.get? k <;> simp [found, contains] at before ⊢ <;> omega

theorem size_erase (m : SortedMap K V) (k : K) :
    (m.erase k).size = if m.contains k then m.size - 1 else m.size := by
  have counted : ∀ p : SortedMap K V, p.size = p.sum (fun _ _ => 1) := by simp [size, sum]
  have before := sum_erase m k (fun _ _ => 1)
  rw [counted, counted]
  cases found : m.get? k <;> simp [found, contains] at before ⊢ <;> omega

/-- No two keys hold values that look the same. -/
def Tells {T : Type*} (m : SortedMap K V) (look : V → T) : Prop :=
  ∀ ⦃k k' v v'⦄, m.get? k = some v → m.get? k' = some v' → look v = look v' → k = k'

theorem Tells.insert (tells : m.Tells look)
    (new : ∀ {k' v'}, m.get? k' = some v' → look v' ≠ look v) : (m.insert k v).Tells look := by
  intro k₁ k₂ v₁ v₂ found₁ found₂ same
  rw [get?_insert] at found₁ found₂
  split_ifs at found₁ found₂ with here₁ here₂
  · rw [here₁, here₂]
  · exact absurd (Option.some.inj found₁ ▸ same).symm (new found₂)
  · exact absurd (Option.some.inj found₂ ▸ same) (new found₁)
  · exact tells found₁ found₂ same

theorem tells_empty : (empty : SortedMap K V).Tells look := by
  intro _ _ _ _ found
  cases found

section Refile

variable {K' : Type*} [LinearOrder K'] {m : SortedMap K V} {file : K → K'}

/-- The values of a map filed anew, each under a key of its own. -/
def refile (m : SortedMap K V) (key : V → K') (value : V → W) : SortedMap K' W :=
  ofList (m.values.map (fun v => (key v, value v)))

variable {key : V → K'} {value : V → W}

/-- Values whose new key follows from their old one, without a clash. -/
structure Files (m : SortedMap K V) (key : V → K') (file : K → K') : Prop where
  key_eq : ∀ {k v}, m.get? k = some v → key v = file k
  inj : ∀ {k k' v v'}, m.get? k = some v → m.get? k' = some v' → file k = file k' → k = k'

theorem Files.get?_refile (files : m.Files key file) {k' : K'} :
    (m.refile key value).get? k' = some w ↔ ∃ k v, m.get? k = some v ∧ file k = k' ∧ value v = w := by
  have unique : ((m.values.map (fun v => (key v, value v))).map Prod.fst).Nodup := by
    rw [map_map, values, map_map]
    refine (nodup_map_iff_inj_on (m.keys_nodup.of_map _)).mpr ?_
    intro e member e' member' same
    have found := get?_eq_some_iff.mpr member
    have found' := get?_eq_some_iff.mpr member'
    have sameKey : e.1 = e'.1 := by
      refine files.inj found found' ?_
      rw [← files.key_eq found, ← files.key_eq found']
      exact same
    rw [sameKey, found'] at found
    exact Prod.ext sameKey (Option.some.inj found).symm
  rw [refile, get?_ofList_of_nodup unique, find?_key_eq_some_iff unique, mem_map]
  simp only [mem_values_iff, Prod.mk.injEq]
  constructor
  · rintro ⟨v, ⟨k, found⟩, rfl, rfl⟩
    exact ⟨k, v, found, (files.key_eq found).symm, rfl⟩
  · rintro ⟨k, v, found, rfl, rfl⟩
    exact ⟨v, ⟨k, found⟩, files.key_eq found, rfl⟩

theorem refile_insert (files : m.Files key file)
    (grown : (m.insert k v).Files key file) :
    (m.insert k v).refile key value = (m.refile key value).insert (key v) (value v) := by
  have here : key v = file k := grown.key_eq (get?_insert_self m k v)
  refine ext_get? (fun k' => Option.ext (fun w => ?_))
  rw [grown.get?_refile, here, get?_insert]
  constructor
  · rintro ⟨k₁, v₁, found, rfl, rfl⟩
    by_cases same : k₁ = k
    · subst same
      rw [get?_insert_self] at found
      rw [if_pos rfl, Option.some.inj found]
    · have apart : file k₁ ≠ file k := fun clash =>
        same (grown.inj found (get?_insert_self m k v) clash)
      rw [if_neg apart, files.get?_refile]
      rw [get?_insert_of_ne _ _ same] at found
      exact ⟨k₁, v₁, found, rfl, rfl⟩
  · split_ifs with same
    · intro held
      exact ⟨k, v, get?_insert_self m k v, same.symm, Option.some.inj held⟩
    · rw [files.get?_refile]
      rintro ⟨k₁, v₁, found, rfl, rfl⟩
      have other : k₁ ≠ k := fun clash => same (clash ▸ rfl)
      exact ⟨k₁, v₁, (get?_insert_of_ne m v other).trans found, rfl, rfl⟩

omit [LinearOrder K'] in
theorem Files.erase (files : m.Files key file) (k : K) : (m.erase k).Files key file := by
  have kept : ∀ {k' v'}, (m.erase k).get? k' = some v' → m.get? k' = some v' := by
    intro k' v' found
    rw [get?_erase] at found
    split_ifs at found
    exact found
  exact ⟨fun found => files.key_eq (kept found), fun found found' => files.inj (kept found) (kept found')⟩

theorem refile_erase (files : m.Files key file) (held : m.get? k = some v) :
    (m.erase k).refile key value = (m.refile key value).erase (key v) := by
  refine ext_get? (fun k' => Option.ext (fun w => ?_))
  rw [(files.erase k).get?_refile, files.key_eq held, get?_erase]
  constructor
  · rintro ⟨k₁, v₁, found, rfl, rfl⟩
    rw [get?_erase] at found
    split_ifs at found with same
    have apart : file k₁ ≠ file k := fun clash => same (files.inj found held clash)
    rw [if_neg apart, files.get?_refile]
    exact ⟨k₁, v₁, found, rfl, rfl⟩
  · split_ifs with same
    · exact fun absent => absurd absent (by simp)
    · rw [files.get?_refile]
      rintro ⟨k₁, v₁, found, rfl, rfl⟩
      have other : k₁ ≠ k := fun clash => same (clash ▸ rfl)
      exact ⟨k₁, v₁, by rw [get?_erase, if_neg other, found], rfl, rfl⟩

end Refile

end SortedMap
