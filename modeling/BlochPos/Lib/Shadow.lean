import Mathlib.Data.List.Sort

/-! Two lists item by item, where the first may have more, of a kind that the second leaves out.
Items are arbitrary. -/

/-- Related items in the same order, and further items in the first list. -/
inductive Shadow {A B : Type*} (R : A → B → Prop) (skip : A → Prop) : List A → List B → Prop where
  | nil : Shadow R skip [] []
  | both {a b l m} (related : R a b) (rest : Shadow R skip l m) : Shadow R skip (a :: l) (b :: m)
  | extra {a l m} (skipped : skip a) (rest : Shadow R skip l m) : Shadow R skip (a :: l) m

namespace Shadow

open List

variable {A B K : Type*} {R : A → B → Prop} {skip : A → Prop} {l : List A} {m : List B}

theorem append (first : Shadow R skip l m) (second : Shadow R skip l' m') :
    Shadow R skip (l ++ l') (m ++ m') := by
  induction first with
  | nil => exact second
  | both related _ ih => exact .both related ih
  | extra skipped _ ih => exact .extra skipped ih

theorem refl {R : A → A → Prop} (same : ∀ a, R a a) (l : List A) : Shadow R skip l l := by
  induction l with
  | nil => exact .nil
  | cons a l ih => exact .both (same a) ih

theorem extras (skipped : ∀ a ∈ l, skip a) : Shadow R skip l [] := by
  induction l with
  | nil => exact .nil
  | cons a l ih =>
    exact .extra (skipped a mem_cons_self) (ih (fun a among => skipped a (mem_cons_of_mem _ among)))

theorem filter_self {R : A → A → Prop} (same : ∀ a, R a a)
    (skipped : ∀ a ∈ l, p a = false → skip a) : Shadow R skip l (l.filter p) := by
  induction l with
  | nil => exact .nil
  | cons a l ih =>
    have rest := ih (fun a among => skipped a (mem_cons_of_mem _ among))
    cases kept : p a with
    | true =>
      rw [filter_cons_of_pos kept]
      exact .both (same a) rest
    | false =>
      rw [filter_cons_of_neg (by simp [kept])]
      exact .extra (skipped a mem_cons_self kept) rest

theorem filter (both : ∀ a b, R a b → p a = q b)
    (extra : ∀ a, skip a → p a = true → skip' a) (shadow : Shadow R skip l m) :
    Shadow R skip' (l.filter p) (m.filter q) := by
  induction shadow with
  | nil => exact .nil
  | @both a b l m related _ ih =>
    rw [filter_cons, filter_cons, ← both a b related]
    split_ifs
    · exact .both related ih
    · exact ih
  | @extra a l m skipped _ ih =>
    rw [filter_cons]
    split_ifs with kept
    · exact .extra (extra a skipped kept) ih
    · exact ih

theorem map {R' : A' → B' → Prop} {skip' : A' → Prop} {f : A → A'} {g : B → B'}
    (both : ∀ a b, R a b → R' (f a) (g b)) (extra : ∀ a, skip a → skip' (f a)) (shadow : Shadow R skip l m) :
    Shadow R' skip' (l.map f) (m.map g) := by
  induction shadow with
  | nil => exact .nil
  | both related _ ih => exact .both (both _ _ related) ih
  | extra skipped _ ih => exact .extra (extra _ skipped) ih

theorem map_filter_eq {f : A → C}
    (both : ∀ a b, R a b → p a = q b ∧ f a = g b) (extra : ∀ a, skip a → p a = false)
    (shadow : Shadow R skip l m) : (l.filter p).map f = (m.filter q).map g := by
  induction shadow with
  | nil => rfl
  | @both a b l m related _ ih =>
    obtain ⟨kept, value⟩ := both a b related
    rw [filter_cons, filter_cons, ← kept]
    split_ifs
    · rw [map_cons, map_cons, value, ih]
    · exact ih
  | @extra a l m skipped _ ih =>
    rw [filter_cons_of_neg (by simp [extra a skipped])]
    exact ih

theorem exists_of_mem (shadow : Shadow R skip l m) (member : b ∈ m) : ∃ a ∈ l, R a b := by
  induction shadow with
  | nil => cases member
  | @both a b' l m related _ ih =>
    rcases mem_cons.mp member with rfl | later
    · exact ⟨a, mem_cons_self, related⟩
    · obtain ⟨a', among, related'⟩ := ih later
      exact ⟨a', mem_cons_of_mem _ among, related'⟩
  | extra _ _ ih =>
    obtain ⟨a', among, related'⟩ := ih member
    exact ⟨a', mem_cons_of_mem _ among, related'⟩

section

variable [LinearOrder K] {key : A → K} {key' : B → K} {a : A}

theorem orderedInsert_extra (skipped : skip a) (shadow : Shadow R skip l m) :
    Shadow R skip (l.orderedInsert (fun x y => key x ≤ key y) a) m := by
  induction shadow with
  | nil => exact .extra skipped .nil
  | @both b b' l m related rest ih =>
    rw [orderedInsert_cons]
    split_ifs
    · exact .extra skipped (.both related rest)
    · exact .both related ih
  | @extra b l m skipped' rest ih =>
    rw [orderedInsert_cons]
    split_ifs
    · exact .extra skipped (.extra skipped' rest)
    · exact .extra skipped' ih

theorem orderedInsert_both (keys : ∀ a b, R a b → key a = key' b) (related : R a b)
    (sorted : l.Pairwise (fun x y => key x ≤ key y)) (shadow : Shadow R skip l m) :
    Shadow R skip (l.orderedInsert (fun x y => key x ≤ key y) a)
      (m.orderedInsert (fun x y => key' x ≤ key' y) b) := by
  induction shadow with
  | nil => exact .both related .nil
  | @both c c' l m related' rest ih =>
    have alike : key a ≤ key c ↔ key' b ≤ key' c' := by rw [keys a b related, keys c c' related']
    rw [orderedInsert_cons, orderedInsert_cons]
    by_cases first : key a ≤ key c
    · rw [if_pos first, if_pos (alike.mp first)]
      exact .both related (.both related' rest)
    · rw [if_neg first, if_neg (fun other => first (alike.mpr other))]
      exact .both related' (ih (pairwise_cons.mp sorted).2)
  | @extra c l m skipped rest ih =>
    obtain ⟨below, sorted⟩ := pairwise_cons.mp sorted
    rw [orderedInsert_cons]
    by_cases first : key a ≤ key c
    · -- The list is sorted, so the item also comes first among what is left of it.
      rw [if_pos first]
      have front : m.orderedInsert (fun x y => key' x ≤ key' y) b = b :: m := by
        cases m with
        | nil => rfl
        | cons c' m =>
          obtain ⟨d, among, related'⟩ := rest.exists_of_mem mem_cons_self
          have least : key' b ≤ key' c' := by
            rw [← keys a b related, ← keys d c' related']
            exact first.trans (below d among)
          rw [orderedInsert_cons, if_pos least]
      rw [front]
      exact .both related (.extra skipped rest)
    · rw [if_neg first]
      exact .extra skipped (ih sorted)

/-- Sorting by a key that related entries share keeps the shadow. -/
theorem insertionSort (keys : ∀ a b, R a b → key a = key' b) (shadow : Shadow R skip l m) :
    Shadow R skip (l.insertionSort (fun x y => key x ≤ key y)) (m.insertionSort (fun x y => key' x ≤ key' y)) := by
  have total : Std.Total (fun x y : A => key x ≤ key y) := ⟨fun x y => le_total (key x) (key y)⟩
  have trans : IsTrans A (fun x y => key x ≤ key y) := ⟨fun _ _ _ => le_trans⟩
  induction shadow with
  | nil => exact .nil
  | both related _ ih =>
    exact ih.orderedInsert_both keys related (pairwise_insertionSort _ _)
  | extra skipped _ ih => exact ih.orderedInsert_extra skipped

end

end Shadow
