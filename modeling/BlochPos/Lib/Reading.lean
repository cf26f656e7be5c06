import BlochPos.Lib.Exchange

/-! A map read entry by entry: what comes before an entry, and sums over what has been read. Keys and
values are arbitrary. -/
namespace SortedMap

variable {K V : Type*} [LinearOrder K]

theorem ofList_concat (before : List (K × V)) (e : K × V) :
    ofList (before ++ [e]) = (ofList before).insert e.1 e.2 := by
  rw [ofList, ofList, List.foldl_append]
  rfl

theorem keys_isChain (m : SortedMap K V) : m.keys.IsChain (· < ·) :=
  List.isChain_iff_pairwise.mpr (List.pairwise_map.mpr m.sorted)

section

variable {m : SortedMap K V} {before after : List (K × V)} {e : K × V}

theorem exists_mem_concat {A : Type*} {p : A → Prop} {l : List A} {a : A} :
    (∃ x ∈ l ++ [a], p x) ↔ (∃ x ∈ l, p x) ∨ p a := by
  simp only [List.mem_append, List.mem_singleton, or_and_right, exists_or, exists_eq_left]

/-- Where every value tells its key, the keys are read off the values. -/
theorem map_values_eq_keys {key : V → K} (keyed : ∀ {k v}, m.get? k = some v → key v = k) :
    m.values.map key = m.keys := by
  rw [values, List.map_map]
  exact List.map_congr_left (fun e among => keyed (get?_eq_some_iff.mpr among))

section

variable (whole : before ++ e :: after = m.entries)
include whole

theorem get?_of_whole : m.get? e.1 = some e.2 :=
  get?_eq_some_iff.mpr (whole ▸ by simp)

theorem get?_of_before (among : x ∈ before) : m.get? x.1 = some x.2 :=
  get?_eq_some_iff.mpr (whole ▸ List.mem_append_left _ among)

theorem lt_of_before (among : x ∈ before) : x.1 < e.1 := by
  have sorted := m.sorted
  rw [← whole, List.pairwise_append] at sorted
  exact sorted.2.2 x among e List.mem_cons_self

theorem mem_before_of_lt (found : m.get? k = some v) (lower : k < e.1) : (k, v) ∈ before := by
  have sorted := m.sorted
  rw [get?_eq_some_iff, ← whole, List.mem_append, List.mem_cons] at found
  rw [← whole, List.pairwise_append, List.pairwise_cons] at sorted
  rcases found with among | same | among
  · exact among
  · exact absurd lower (same ▸ lt_irrefl _)
  · exact absurd (sorted.2.1.1 _ among) (not_lt.mpr lower.le)

/-- What has been read adds up to no more than the whole. -/
theorem read_le (f : K → V → ℕ) : (before.map (fun x => f x.1 x.2)).sum + f e.1 e.2 ≤ m.sum f := by
  rw [sum, ← whole, List.map_append, List.sum_append, List.map_cons, List.sum_cons]
  omega

end

end

theorem count_le_size (m : SortedMap K V) (p : K → V → Prop) [∀ k v, Decidable (p k v)] :
    m.sum (fun k v => if p k v then 1 else 0) ≤ m.size := by
  rw [size_eq_sum, sum, sum]
  exact List.sum_le_sum (fun e _ => by split_ifs <;> omega)

/-- Adding up key by key is adding up what points at a key that counts. -/
theorem sum_by_key {K' W : Type*} [LinearOrder K'] (m : SortedMap K V) (n : SortedMap K' W) (key : W → K)
    (p : V → Prop) [DecidablePred p] (f : W → ℕ) :
    m.sum (fun k v => if p v then n.sum (fun _ w => if key w = k then f w else 0) else 0) =
      n.sum (fun _ w => if ∃ v, m.get? (key w) = some v ∧ p v then f w else 0) := by
  classical
  -- one entry that points: only its own key counts it
  have single : ∀ w, m.sum (fun k v => if p v then (if key w = k then f w else 0) else 0) =
      if ∃ v, m.get? (key w) = some v ∧ p v then f w else 0 := by
    intro w
    have elsewhere : (m.erase (key w)).sum (fun k v => if p v then (if key w = k then f w else 0) else 0) = 0 := by
      refine sum_eq_zero (fun k v found => ?_)
      rw [get?_erase] at found
      split_ifs at found with same
      rw [if_neg (Ne.symm same), ite_self]
    rw [sum_erase m (key w), elsewhere, Nat.add_zero]
    cases found : m.get? (key w) with
    | none => simp
    | some v => simp
  simp only [sum] at single ⊢
  induction n.entries with
  | nil => simp
  | cons x rest ih =>
    rw [List.map_cons, List.sum_cons, ← ih, ← single, ← List.sum_map_add]
    refine congrArg List.sum (List.map_congr_left (fun e _ => ?_))
    rw [List.map_cons, List.sum_cons]
    split_ifs <;> rfl

end SortedMap
