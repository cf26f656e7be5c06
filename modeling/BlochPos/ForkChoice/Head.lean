import BlochPos.ForkChoice.SubtreeWeights

/-! The single-pass head refines the reference head. -/
namespace BlochPos.ForkChoice

open SortedMap

open Relation PartialWalk

variable {children : Children} {st : Store} {a b : Bytes32}

theorem bestChild_mem (best : bestChild weight slots children a = some b) :
    ∃ kids, children.get? a = some kids ∧ b ∈ kids := by
  unfold bestChild at best
  split at best
  · rename_i first others found
    refine ⟨first :: others, found, ?_⟩
    have chosen : ∀ (rest : List Bytes32) (start : Bytes32 × ℕ), start.1 ∈ first :: others →
        (∀ c ∈ rest, c ∈ first :: others) →
        (rest.foldl (heavier weight slots) start).1 ∈ first :: others := by
      intro rest
      induction rest with
      | nil => exact fun _ inside _ => inside
      | cons c rest ih =>
        intro start inside all
        refine ih _ ?_ (fun d member => all d (List.mem_cons_of_mem _ member))
        unfold heavier
        dsimp only
        split_ifs
        · exact all c List.mem_cons_self
        · exact inside
    rw [← Option.some.inj best]
    exact chosen others _ List.mem_cons_self (fun c member => List.mem_cons_of_mem _ member)
  · cases best

theorem bestChild_mem_keyset (a b : Bytes32) (best : bestChild weight slots children a = some b) :
    a ∈ children.keyset := by
  obtain ⟨kids, found, _⟩ := bestChild_mem best
  exact mem_keyset_iff.mpr ⟨kids, found⟩

theorem card_keyset (children : Children) : children.keyset.card = children.keys.length :=
  List.toFinset_card_of_nodup children.keys_nodup

theorem descend_eq_of_iter (bound : n ≤ levels) (walk : iter (bestChild weight slots children) n a = some b)
    (leaf : bestChild weight slots children b = none) :
    descend weight slots children levels a = b := by
  induction levels generalizing n a with
  | zero =>
    obtain rfl : n = 0 := Nat.le_zero.mp bound
    exact Option.some.inj walk
  | succ levels ih =>
    unfold descend
    cases n with
    | zero =>
      obtain rfl : a = b := Option.some.inj walk
      simp [leaf]
    | succ n =>
      obtain ⟨c, best, rest⟩ := Option.bind_eq_some_iff.mp walk
      simp only [best]
      exact ih (Nat.le_of_succ_le_succ bound) rest

theorem exists_iter_descend (levels : ℕ) (a : Bytes32) :
    ∃ n, iter (bestChild weight slots children) n a = some (descend weight slots children levels a) := by
  induction levels generalizing a with
  | zero => exact ⟨0, rfl⟩
  | succ levels ih =>
    unfold descend
    cases best : bestChild weight slots children a with
    | none => exact ⟨0, rfl⟩
    | some c =>
      obtain ⟨n, walk⟩ := ih c
      exact ⟨n + 1, by simp [iter, best, walk]⟩

theorem descend_eq_iff (enough : children.keys.length ≤ levels) :
    (descend weight slots children levels a = b ∧ bestChild weight slots children b = none) ↔
      ∃ n, iter (bestChild weight slots children) n a = some b ∧
        bestChild weight slots children b = none := by
  constructor
  · rintro ⟨rfl, leaf⟩
    obtain ⟨n, walk⟩ := exists_iter_descend levels a
    exact ⟨n, walk, leaf⟩
  · rintro ⟨n, walk, leaf⟩
    obtain ⟨m, short, walk⟩ := exists_short bestChild_mem_keyset walk
    rw [card_keyset] at short
    exact ⟨descend_eq_of_iter (short.trans enough) walk leaf, leaf⟩

theorem headReference_iff : (∃ fuel, headReference st tree children fuel a = some b) ↔
      ∃ n, iter (bestChild (st.weight tree) none children) n a = some b ∧
        bestChild (st.weight tree) none children b = none := by
  constructor
  · rintro ⟨fuel, returned⟩
    induction fuel generalizing a with
    | zero => cases returned
    | succ fuel ih =>
      unfold headReference at returned
      split at returned
      · rename_i leaf
        obtain rfl : a = b := Option.some.inj returned
        exact ⟨0, rfl, leaf⟩
      · rename_i c best
        obtain ⟨n, walk, leaf⟩ := ih returned
        exact ⟨n + 1, by simp [iter, best, walk], leaf⟩
  · rintro ⟨n, walk, leaf⟩
    refine ⟨n + 1, ?_⟩
    induction n generalizing a with
    | zero =>
      obtain rfl : a = b := Option.some.inj walk
      simp [headReference, leaf]
    | succ n ih =>
      obtain ⟨c, best, rest⟩ := Option.bind_eq_some_iff.mp walk
      rw [headReference, best]
      exact ih rest

/-- No block is its own descendant in the children map. -/
def ChildrenAcyclic (children : Children) : Prop :=
  ∀ b, ¬ TransGen (fun a c => ∃ kids, children.get? a = some kids ∧ c ∈ kids) b b

/-- Over an acyclic parent map the single pass weighs every block as the reference does, and the reference
returns exactly when the single-pass head has no children, which it then returns. -/
theorem head_refines_reference (st : Store) (tree : BlockTree)
    (acyclic : Acyclic (fun b => tree.lookup b)) (children : Children) (justified : Bytes32) :
    (∀ b, (subtreeWeights st tree).getD b 0 = st.weight tree b) ∧
    (∀ b, (∃ fuel, headReference st tree children fuel justified = some b) ↔
      head st tree justified children = b ∧ bestChild (st.weight tree) none children b = none) ∧
    (ChildrenAcyclic children →
      ∃ fuel, headReference st tree children fuel justified = some (head st tree justified children)) := by
  have weights := subtreeWeights_getD st acyclic
  have returns : ∀ b, (∃ fuel, headReference st tree children fuel justified = some b) ↔
      head st tree justified children = b ∧ bestChild (st.weight tree) none children b = none := by
    intro b
    rw [headReference_iff, head, headInner, show (fun b => (subtreeWeights st tree).getD b 0) =
      st.weight tree from funext weights]
    exact (descend_eq_iff (by omega)).symm
  refine ⟨weights, returns, ?_⟩
  intro forest
  have stepAcyclic : Acyclic (bestChild (st.weight tree) none children) := by
    intro b loop
    exact forest b (loop.lift id (fun a c best => bestChild_mem best))
  obtain ⟨n, b, walk, leaf⟩ := exists_end stepAcyclic bestChild_mem_keyset justified
  obtain ⟨fuel, returned⟩ := headReference_iff.mpr ⟨n, walk, leaf⟩
  obtain ⟨same, _⟩ := (returns b).mp ⟨fuel, returned⟩
  exact ⟨fuel, same ▸ returned⟩

/-- Two blocks on genesis, and one vote for the second. -/
def forkTree : BlockTree := AList.insert 1 0 (AList.insert 2 0 ∅)

def forkStore : Store := ((Store.new.setStake 7 10).observe 7 ⟨3, 2⟩).2

theorem forkTree_acyclic : Acyclic (fun b => forkTree.lookup b) := by
  refine acyclic_of_rank (fun b => if b = 0 then 0 else 1) ?_
  intro a b parent
  have inTree := mem_blocks_of_lookup a b parent
  have blocksEq : blocks forkTree = {1, 2} := by decide
  rw [blocksEq] at inTree
  rcases Finset.mem_insert.mp inTree with rfl | inTree
  · have : forkTree.lookup 1 = some 0 := by decide
    obtain rfl : (0 : Bytes32) = b := Option.some.inj (this.symm.trans parent)
    decide
  · obtain rfl := Finset.mem_singleton.mp inTree
    have : forkTree.lookup 2 = some 0 := by decide
    obtain rfl : (0 : Bytes32) = b := Option.some.inj (this.symm.trans parent)
    decide

theorem head_refines_reference_fork :
    (∀ b, (subtreeWeights forkStore forkTree).getD b 0 = forkStore.weight forkTree b) ∧
    ∃ fuel, headReference forkStore forkTree (empty.insert 0 [1, 2]) fuel 0 = some 2 := by
  obtain ⟨weights, returns, _⟩ := head_refines_reference forkStore forkTree forkTree_acyclic
    (empty.insert 0 [1, 2]) 0
  exact ⟨weights, (returns 2).mpr ⟨by decide, by decide⟩⟩

/-- A children map with a loop, over the empty (acyclic) parent map: the
single-pass walk stops at its bound, the reference never returns. -/
theorem reference_endless_on_loop : Acyclic (fun b => (∅ : BlockTree).lookup b) ∧
    head .new ∅ 1 (empty.insert 1 [1]) = 1 ∧
    ∀ fuel, headReference .new ∅ (empty.insert 1 [1]) fuel 1 = none := by
  refine ⟨acyclic_of_rank (fun _ => 0) ?_, by decide, ?_⟩
  · intro a b parent
    simp at parent
  · intro fuel
    have loop : bestChild (Store.new.weight ∅) none (empty.insert 1 [1]) 1 = some 1 := by
      decide
    induction fuel with
    | zero => rfl
    | succ fuel ih =>
      rw [headReference, loop]
      exact ih

end BlochPos.ForkChoice
