import BlochPos.Lib.SortedMap

/-! Entries taken out of a map and others put in their place, under keys that are
free. Keys and values are arbitrary. -/
namespace SortedMap

variable {K V M : Type*} [LinearOrder K]

theorem ofList_entries (m : SortedMap K V) : ofList m.entries = m := by
  apply ext_get?
  intro k
  rw [get?_ofList_of_nodup m.keys_nodup]
  rfl

/-- Takes the keys of one list out and puts the entries of the other in. -/
def exchange (m : SortedMap K V) (spent : List K) (made : List (K × V)) : SortedMap K V :=
  made.foldl (fun m e => m.insert e.1 e.2) (spent.foldl erase m)

section

variable {m : SortedMap K V} {spent : List K} {made : List (K × V)}

section

variable (distinct : (made.map Prod.fst).Nodup)
include distinct

theorem get?_foldl_insert_of_nodup :
    (made.foldl (fun m e => m.insert e.1 e.2) m).get? k = some v ↔
      (k, v) ∈ made ∨ (k ∉ made.map Prod.fst ∧ m.get? k = some v) := by
  induction made generalizing m with
  | nil => simp
  | cons e rest ih =>
    rw [List.map_cons, List.nodup_cons] at distinct
    rw [List.foldl_cons, ih distinct.2, get?_insert, List.mem_cons, List.map_cons, List.mem_cons]
    by_cases here : k = e.1
    · subst here
      have out : (e.1, v) ∉ rest := fun among => distinct.1 (List.mem_map.mpr ⟨_, among, rfl⟩)
      simp [out, distinct.1, Prod.ext_iff, eq_comm]
    · simp [here, Prod.ext_iff]

theorem get?_exchange :
    (m.exchange spent made).get? k = some v ↔
      (k, v) ∈ made ∨ (k ∉ made.map Prod.fst ∧ k ∉ spent ∧ m.get? k = some v) := by
  rw [exchange, get?_foldl_insert_of_nodup distinct, get?_foldl_erase]
  simp

theorem get?_ofList_eq_some_iff : (ofList made).get? k = some v ↔ (k, v) ∈ made := by
  rw [get?_ofList_of_nodup distinct, find?_key_eq_some_iff distinct]

theorem get?_exchange_eq (k : K) :
    (m.exchange spent made).get? k = ((ofList made).get? k).or (if k ∈ spent then none else m.get? k) := by
  ext v
  rw [get?_exchange distinct, ← get?_ofList_eq_some_iff distinct]
  have listed : k ∈ made.map Prod.fst ↔ ∃ u, (ofList made).get? k = some u := by
    simp [get?_ofList_eq_some_iff distinct]
  rw [listed]
  cases (ofList made).get? k with
  | some u => simp
  | none => by_cases taken : k ∈ spent <;> simp [taken]

end

variable [AddCommMonoid M] (f : K → V → M)

theorem sum_foldl_erase (distinct : spent.Nodup) :
    m.sum f = (spent.map (fun k => (m.get? k).elim 0 (f k))).sum + (spent.foldl erase m).sum f := by
  induction spent generalizing m with
  | nil => simp
  | cons k rest ih =>
    rw [List.nodup_cons] at distinct
    have others : rest.map (fun k' => ((m.erase k).get? k').elim 0 (f k')) =
        rest.map (fun k' => (m.get? k').elim 0 (f k')) := by
      apply List.map_congr_left
      intro k' among
      have other : k' ≠ k := fun same => distinct.1 (same ▸ among)
      rw [get?_erase, if_neg other]
    rw [List.foldl_cons, List.map_cons, List.sum_cons, sum_erase m k f, ih distinct.2, others, add_assoc]

theorem sum_foldl_insert (distinct : (made.map Prod.fst).Nodup) (free : ∀ e ∈ made, m.get? e.1 = none) :
    (made.foldl (fun m e => m.insert e.1 e.2) m).sum f = m.sum f + (made.map (fun e => f e.1 e.2)).sum := by
  induction made generalizing m with
  | nil => simp
  | cons e rest ih =>
    rw [List.map_cons, List.nodup_cons] at distinct
    rw [List.forall_mem_cons] at free
    have later : ∀ e' ∈ rest, (m.insert e.1 e.2).get? e'.1 = none := by
      intro e' among
      have other : e'.1 ≠ e.1 := fun same => distinct.1 (same ▸ List.mem_map_of_mem among)
      rw [get?_insert_of_ne _ _ other, free.2 e' among]
    rw [List.foldl_cons, ih distinct.2 later, sum_insert_of_absent free.1, List.map_cons, List.sum_cons,
      add_assoc]

/-- What an exchange does to a sum: less what is spent, more what is made. -/
theorem sum_exchange (once : spent.Nodup) (distinct : (made.map Prod.fst).Nodup)
    (free : ∀ e ∈ made, m.get? e.1 = none) :
    (m.exchange spent made).sum f + (spent.map (fun k => (m.get? k).elim 0 (f k))).sum =
      m.sum f + (made.map (fun e => f e.1 e.2)).sum := by
  have still : ∀ e ∈ made, (spent.foldl erase m).get? e.1 = none := by
    intro e among
    rw [get?_foldl_erase, free e among, ite_self]
  rw [exchange, sum_foldl_insert f distinct still, sum_foldl_erase (m := m) f once]
  abel

theorem size_eq_sum (m : SortedMap K V) : m.size = m.sum (fun _ _ => 1) := by simp [size, sum]

theorem size_exchange (once : spent.Nodup) (held : ∀ k ∈ spent, ∃ v, m.get? k = some v)
    (distinct : (made.map Prod.fst).Nodup) (free : ∀ e ∈ made, m.get? e.1 = none) :
    (m.exchange spent made).size + spent.length = m.size + made.length := by
  have traded := sum_exchange (m := m) (fun _ _ => 1) once distinct free
  have ones : spent.map (fun k => (m.get? k).elim 0 (fun _ => 1)) = spent.map (fun _ => 1) := by
    apply List.map_congr_left
    intro k among
    obtain ⟨v, found⟩ := held k among
    rw [found]
    rfl
  rw [ones] at traded
  simpa [size_eq_sum] using traded

end

end SortedMap
