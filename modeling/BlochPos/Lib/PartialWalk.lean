import Mathlib

/-! Walks of a partial function and the forest it draws when it has no cycle: the weight below a node is its
own weight with the weights below the nodes that step to it. -/
namespace PartialWalk

open Relation

variable {K : Type*} (next : K → Option K) {nodes : Finset K} {n : ℕ} {a c b : K}

/-- Where a walk of this many steps ends, unless it stops before. -/
def iter : ℕ → K → Option K
  | 0, a => some a
  | n + 1, a => (next a).bind (iter n)

def Step (a b : K) : Prop := next a = some b

def Acyclic : Prop := ∀ a, ¬ TransGen (Step next) a a

variable {next}

theorem iter_add (m n : ℕ) (a : K) : iter next (m + n) a = (iter next m a).bind (iter next n) := by
  induction m generalizing a with
  | zero => simp [iter]
  | succ m ih =>
    rw [Nat.succ_add]
    cases stepped : next a with
    | none => simp [iter, stepped]
    | some b => simp [iter, stepped, ih]

theorem iter_succ_eq_some_iff :
    iter next (n + 1) a = some c ↔ ∃ b, iter next n a = some b ∧ next b = some c := by
  rw [iter_add, Option.bind_eq_some_iff]
  simp [iter]

theorem exists_iter_iff : (∃ n, iter next n a = some b) ↔ ReflTransGen (Step next) a b := by
  constructor
  · rintro ⟨n, walk⟩
    induction n generalizing b with
    | zero =>
      obtain rfl : a = b := Option.some.inj walk
      exact .refl
    | succ n ih =>
      obtain ⟨c, before, last⟩ := iter_succ_eq_some_iff.mp walk
      exact (ih before).tail last
  · intro path
    induction path with
    | refl => exact ⟨0, rfl⟩
    | tail _ last ih =>
      obtain ⟨n, walk⟩ := ih
      exact ⟨n + 1, iter_succ_eq_some_iff.mpr ⟨_, walk, last⟩⟩

/-- The first nodes of a walk are among those that step, so a walk longer than
their number visits one of them twice. -/
theorem exists_repeat (domain : ∀ a b, next a = some b → a ∈ nodes)
    (walk : iter next n a = some b) (long : nodes.card < n) :
    ∃ i j x, i < j ∧ j < n ∧ iter next i a = some x ∧ iter next j a = some x := by
  classical
  have visited : ∀ i < n, ∃ x ∈ nodes, iter next i a = some x := by
    intro i below
    obtain ⟨k, rfl⟩ : ∃ k, n = i + (k + 1) := ⟨n - i - 1, by omega⟩
    rw [iter_add, Option.bind_eq_some_iff] at walk
    obtain ⟨x, here, rest⟩ := walk
    cases stepped : next x with
    | none => simp [iter, stepped] at rest
    | some y => exact ⟨x, domain x y stepped, here⟩
  have into : ∀ i ∈ Finset.range n, iter next i a ∈ nodes.image some := by
    intro i member
    obtain ⟨x, inside, here⟩ := visited i (Finset.mem_range.mp member)
    exact Finset.mem_image.mpr ⟨x, inside, here.symm⟩
  have few : (nodes.image some).card < (Finset.range n).card := by
    rw [Finset.card_range]
    exact Finset.card_image_le.trans_lt long
  obtain ⟨i, iIn, j, jIn, distinct, same⟩ := Finset.exists_ne_map_eq_of_card_lt_of_maps_to few into
  rw [Finset.mem_range] at iIn jIn
  rcases lt_or_gt_of_ne distinct with order | order
  · obtain ⟨x, _, here⟩ := visited i iIn
    exact ⟨i, j, x, order, jIn, here, same.symm.trans here⟩
  · obtain ⟨x, _, here⟩ := visited j jIn
    exact ⟨j, i, x, order, iIn, here, same.trans here⟩

theorem exists_short (domain : ∀ a b, next a = some b → a ∈ nodes)
    (walk : iter next n a = some b) : ∃ m ≤ nodes.card, iter next m a = some b := by
  induction n using Nat.strong_induction_on with
  | _ n ih =>
    by_cases short : n ≤ nodes.card
    · exact ⟨n, short, walk⟩
    · obtain ⟨i, j, x, order, below, first, second⟩ := exists_repeat domain walk (not_le.mp short)
      -- cut the loop between the two visits
      have tail : iter next (n - j) x = some b := by
        have whole := walk
        rw [show n = j + (n - j) by omega, iter_add, second] at whole
        exact whole
      exact ih (i + (n - j)) (by omega) (by rw [iter_add, first]; exact tail)

theorem iter_le_of_acyclic (acyclic : Acyclic next) (domain : ∀ a b, next a = some b → a ∈ nodes)
    (walk : iter next n a = some b) : n ≤ nodes.card := by
  by_contra long
  obtain ⟨i, j, x, order, _, first, second⟩ := exists_repeat domain walk (not_le.mp long)
  obtain ⟨k, rfl⟩ : ∃ k, j = i + (k + 1) := ⟨j - i - 1, by omega⟩
  rw [iter_add, first, Option.bind_some] at second
  obtain ⟨y, before, last⟩ := iter_succ_eq_some_iff.mp second
  exact acyclic x (TransGen.tail' (exists_iter_iff.mp ⟨k, before⟩) last)

/-- Without cycles every walk ends, at a node that does not step. -/
theorem exists_end (acyclic : Acyclic next) (domain : ∀ a b, next a = some b → a ∈ nodes) (a : K) :
    ∃ n b, iter next n a = some b ∧ next b = none := by
  by_contra endless
  push Not at endless
  have goes : ∀ n, ∃ b, iter next n a = some b := by
    intro n
    induction n with
    | zero => exact ⟨a, rfl⟩
    | succ n ih =>
      obtain ⟨b, walk⟩ := ih
      obtain ⟨c, stepped⟩ := Option.ne_none_iff_exists'.mp (endless n b walk)
      exact ⟨c, iter_succ_eq_some_iff.mpr ⟨b, walk, stepped⟩⟩
  obtain ⟨b, walk⟩ := goes (nodes.card + 1)
  have short := iter_le_of_acyclic acyclic domain walk
  omega

/-- A rank that every step lowers rules out cycles. -/
theorem acyclic_of_rank (rank : K → ℕ) (lowers : ∀ a b, next a = some b → rank b < rank a) :
    Acyclic next := by
  have descends : ∀ {a b}, TransGen (Step next) a b → rank b < rank a := by
    intro a b path
    induction path with
    | single step => exact lowers _ _ step
    | tail _ step ih => exact (lowers _ _ step).trans ih
  exact fun a loop => lt_irrefl _ (descends loop)

theorem source_unique (acyclic : Acyclic next)
    (left : ReflTransGen (Step next) a c) (leftStep : next c = some b)
    (right : ReflTransGen (Step next) a c') (rightStep : next c' = some b) : c = c' := by
  have functional : Relator.RightUnique (Step next) := fun x y z one two =>
    Option.some.inj (one.symm.trans two)
  have ahead : ∀ {c c'}, next c = some b → next c' = some b → ReflTransGen (Step next) c c' → c = c' := by
    intro c c' leaves enters path
    rcases path.cases_head with same | ⟨d, first, rest⟩
    · exact same
    · obtain rfl : d = b := functional first leaves
      exact absurd (TransGen.tail' rest enters) (acyclic d)
  rcases ReflTransGen.total_of_right_unique functional left right with path | path
  · exact ahead leftStep rightStep path
  · exact (ahead rightStep leftStep path).symm

open Classical in
/-- What a node's walk adds to the weight below another. -/
noncomputable def below (next : K → Option K) (a b : K) (weight : ℕ) : ℕ :=
  if ReflTransGen (Step next) a b then weight else 0

theorem below_eq (acyclic : Acyclic next) [DecidableEq K] (domain : ∀ a b, next a = some b → a ∈ nodes)
    (a b : K) (weight : ℕ) :
    below next a b weight = (if a = b then weight else 0) +
      ∑ c ∈ nodes with next c = some b, below next a c weight := by
  by_cases same : a = b
  · subst same
    have none : ∀ c ∈ nodes.filter (fun c => next c = some a), below next a c weight = 0 := by
      intro c member
      exact if_neg (fun path => acyclic a (TransGen.tail' path (Finset.mem_filter.mp member).2))
    rw [Finset.sum_eq_zero none]
    simp [below, ReflTransGen.refl]
  rw [if_neg same, zero_add]
  by_cases reached : ReflTransGen (Step next) a b
  · rcases reached.cases_tail with eq | ⟨c, path, last⟩
    · exact absurd eq.symm same
    · rw [Finset.sum_eq_single_of_mem c (Finset.mem_filter.mpr ⟨domain c b last, last⟩)]
      · simp [below, reached, path]
      · intro c' member other
        refine if_neg (fun path' => other ?_)
        exact source_unique acyclic path' (Finset.mem_filter.mp member).2 path last
  · rw [Finset.sum_eq_zero]
    · exact if_neg reached
    · intro c member
      exact if_neg (fun path => reached (path.tail (Finset.mem_filter.mp member).2))

/-- The weight below a node over a list of weighted nodes. -/
noncomputable def weightBelow (next : K → Option K) (weights : List (K × ℕ)) (b : K) : ℕ :=
  (weights.map (fun e => below next e.1 b e.2)).sum

theorem weightBelow_eq (acyclic : Acyclic next) [DecidableEq K]
    (domain : ∀ a b, next a = some b → a ∈ nodes) (weights : List (K × ℕ)) (b : K) :
    weightBelow next weights b =
      ((weights.filter (fun e => e.1 = b)).map Prod.snd).sum +
        ∑ c ∈ nodes with next c = some b, weightBelow next weights c := by
  induction weights with
  | nil => simp [weightBelow]
  | cons e rest ih =>
    simp only [weightBelow, List.map_cons, List.sum_cons, Finset.sum_add_distrib] at ih ⊢
    rw [ih, below_eq acyclic domain e.1 b e.2]
    by_cases here : e.1 = b
    · simp [here]
      omega
    · simp [here]
      omega

end PartialWalk
