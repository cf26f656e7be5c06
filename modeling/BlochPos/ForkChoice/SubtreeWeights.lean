import BlochPos.ForkChoice.Store
import BlochPos.Lib.PartialWalk

/-! The single pass over the block tree computes the weight below every block. Those already added
to their parent are closed under children. -/
namespace BlochPos.ForkChoice

open SortedMap

open Relation PartialWalk

variable {tree : BlockTree} {st : Store}

def blocks (tree : BlockTree) : Finset Bytes32 := tree.keys.toFinset

theorem card_blocks (tree : BlockTree) : (blocks tree).card = tree.keys.length :=
  List.toFinset_card_of_nodup tree.keys_nodup

theorem mem_blocks_iff : a ∈ blocks tree ↔ ∃ b, tree.lookup a = some b := by
  rw [blocks, List.mem_toFinset, ← AList.mem_keys, ← AList.lookup_isSome, Option.isSome_iff_exists]

theorem mem_blocks_of_lookup (a b : Bytes32) (parent : tree.lookup a = some b) : a ∈ blocks tree :=
  mem_blocks_iff.mpr ⟨b, parent⟩

theorem climb_iff : climb tree ancestor budget cur = true ↔
    ∃ n ≤ budget, iter (fun b => tree.lookup b) n cur = some ancestor := by
  induction budget generalizing cur with
  | zero => simp [climb, iter]
  | succ budget ih =>
    unfold climb
    by_cases same : cur = ancestor
    · simp only [same, if_true, true_iff]
      exact ⟨0, Nat.zero_le _, rfl⟩
    rw [if_neg same]
    have positive : (∃ n ≤ budget + 1, iter (fun b => tree.lookup b) n cur = some ancestor) ↔
        ∃ n ≤ budget, iter (fun b => tree.lookup b) (n + 1) cur = some ancestor := by
      constructor
      · rintro ⟨n, bound, walk⟩
        cases n with
        | zero => exact absurd (Option.some.inj walk) same
        | succ n => exact ⟨n, Nat.le_of_succ_le_succ bound, walk⟩
      · rintro ⟨n, bound, walk⟩
        exact ⟨n + 1, Nat.succ_le_succ bound, walk⟩
    rw [positive]
    cases parent : tree.lookup cur with
    | none => simp [iter, parent]
    | some p => simp [iter, parent, ih]

/-- The climb's bound is never what ends it. -/
theorem isDescendantOrSelf_iff : isDescendantOrSelf tree node ancestor = true ↔
      ReflTransGen (Step (fun b => tree.lookup b)) node ancestor := by
  rw [isDescendantOrSelf, climb_iff, ← exists_iter_iff]
  constructor
  · rintro ⟨n, _, walk⟩
    exact ⟨n, walk⟩
  · rintro ⟨n, walk⟩
    obtain ⟨m, short, walk⟩ := exists_short mem_blocks_of_lookup walk
    rw [card_blocks] at short
    exact ⟨m, by omega, walk⟩

def contributions (st : Store) : List (Bytes32 × ℕ) :=
  st.latest.entries.map (fun vote => (vote.2.root, st.stakeOf vote.1))

theorem weight_eq (st : Store) (tree : BlockTree) (root : Bytes32) :
    st.weight tree root = weightBelow (fun b => tree.lookup b) (contributions st) root := by
  simp only [Store.weight, sum, weightBelow, contributions, List.map_map]
  congr 1
  refine List.map_congr_left ?_
  intro vote _
  by_cases path : isDescendantOrSelf tree vote.2.root root = true
  · simp [below, path, isDescendantOrSelf_iff.mp path]
  · simp [below, path, mt isDescendantOrSelf_iff.mpr path]

theorem directWeights_getD (st : Store) (tree : BlockTree) (b : Bytes32) :
    (directWeights st tree).getD b 0 = (((contributions st).filter (fun e => e.1 = b)).map Prod.snd).sum := by
  have seeded : ∀ (ids : List Bytes32) (weights : SortedMap Bytes32 ℕ),
      (ids.foldl (fun weights id => if weights.contains id then weights else weights.insert id 0)
        weights).getD b 0 = weights.getD b 0 := by
    intro ids
    induction ids with
    | nil => exact fun _ => rfl
    | cons id rest ih =>
      intro weights
      rw [List.foldl_cons, ih]
      split_ifs with present
      · rfl
      · by_cases same : b = id
        · subst same
          have absent : weights.get? b = none := by
            simpa [contains] using present
          simp [getD, absent]
        · simp [getD, get?_insert, same]
  rw [directWeights, seeded, getD_foldl_addAt]
  simp [getD, contributions, List.filter_map, Function.comp_def]

theorem pendingChildren_getD (tree : BlockTree) (p : Bytes32) :
    (pendingChildren tree).getD p 0 = {c ∈ blocks tree | tree.lookup c = some p}.card := by
  have distinct : ((tree.entries.filter (fun e => e.2 = p)).map Sigma.fst).Nodup :=
    (List.filter_sublist.map _).nodup tree.keys_nodup
  have members : ((tree.entries.filter (fun e => e.2 = p)).map Sigma.fst).toFinset =
      {c ∈ blocks tree | tree.lookup c = some p} := by
    ext c
    simp only [List.mem_toFinset, List.mem_map, List.mem_filter, decide_eq_true_eq, Finset.mem_filter]
    constructor
    · rintro ⟨⟨c, q⟩, ⟨member, rfl⟩, rfl⟩
      have parent : tree.lookup c = some q := AList.mem_lookup_iff.mpr member
      exact ⟨mem_blocks_of_lookup _ _ parent, parent⟩
    · rintro ⟨_, parent⟩
      exact ⟨⟨c, p⟩, ⟨AList.mem_lookup_iff.mp parent, rfl⟩, rfl⟩
  rw [pendingChildren, getD_foldl_addAt, ← members, List.toFinset_card_of_nodup distinct]
  simp [getD]

/-- Blocks done have passed their weight up, and only those above them are ready. -/
structure Swept (tree : BlockTree) (direct below : Bytes32 → ℕ) (done : Finset Bytes32)
    (s : Sweep) : Prop where
  known : done ⊆ blocks tree
  closed : ∀ k ∈ done, ∀ c, tree.lookup c = some k → c ∈ done
  nodup : s.ready.Nodup
  ready : ∀ k, k ∈ s.ready ↔ k ∈ blocks tree ∧ k ∉ done ∧ ∀ c, tree.lookup c = some k → c ∈ done
  pending : ∀ p, s.pending.getD p 0 = {c ∈ blocks tree | tree.lookup c = some p ∧ c ∉ done}.card
  weights : ∀ b, s.weights.getD b 0 = direct b + ∑ c ∈ done with tree.lookup c = some b, below c

/-- The weight below each block, from its own votes and its children's weights. -/
def Accumulates (tree : BlockTree) (direct below : Bytes32 → ℕ) : Prop :=
  ∀ b, below b = direct b + ∑ c ∈ blocks tree with tree.lookup c = some b, below c

variable {below : Bytes32 → ℕ} {done : Finset Bytes32}

theorem swept_start (st : Store) (tree : BlockTree) (below : Bytes32 → ℕ) :
    Swept tree (fun b => (directWeights st tree).getD b 0) below ∅ (startSweep st tree) where
  known := Finset.empty_subset _
  closed := by simp
  nodup := List.nodup_reverse.mpr (tree.keys_nodup.filter _)
  ready := by
    intro k
    simp only [startSweep, List.mem_reverse, List.mem_filter, decide_eq_true_eq,
      pendingChildren_getD, Finset.card_eq_zero, Finset.filter_eq_empty_iff]
    rw [← List.mem_toFinset]
    refine and_congr_right (fun _ => ?_)
    constructor
    · intro childless
      exact ⟨Finset.notMem_empty k, fun c parent =>
        absurd parent (childless (mem_blocks_of_lookup c k parent))⟩
    · rintro ⟨_, childless⟩ c _ parent
      exact absurd (childless c parent) (Finset.notMem_empty c)
  pending := by
    intro p
    simp [startSweep, pendingChildren_getD]
  weights := by
    intro b
    simp [startSweep]

theorem Swept.weight_of_ready (inv : Swept tree direct below done s)
    (accumulates : Accumulates tree direct below) {id : Bytes32} (member : id ∈ s.ready) :
    s.weights.getD id 0 = below id := by
  obtain ⟨_, _, children⟩ := (inv.ready id).mp member
  rw [inv.weights, accumulates id]
  congr 1
  refine Finset.sum_congr ?_ (fun _ _ => rfl)
  ext c
  simp only [Finset.mem_filter]
  exact ⟨fun h => ⟨inv.known h.1, h.2⟩, fun h => ⟨children c h.2, h.2⟩⟩

theorem pending_insert {id parent : Bytes32} (fresh : id ∉ done) (here : tree.lookup id = some parent)
    (p : Bytes32) :
    {c ∈ blocks tree | tree.lookup c = some p ∧ c ∉ done}.card =
      {c ∈ blocks tree | tree.lookup c = some p ∧ c ∉ insert id done}.card +
        if p = parent then 1 else 0 := by
  split_ifs with same
  · subst same
    rw [← Finset.card_insert_of_notMem
      (a := id) (s := {c ∈ blocks tree | tree.lookup c = some p ∧ c ∉ insert id done}) (by simp)]
    congr 1
    ext c
    simp only [Finset.mem_filter, Finset.mem_insert, not_or]
    by_cases eq : c = id
    · subst eq
      simp [fresh, here, mem_blocks_of_lookup _ _ here]
    · simp [eq]
  · rw [add_zero]
    congr 1
    ext c
    simp only [Finset.mem_filter, Finset.mem_insert, not_or]
    refine and_congr_right (fun _ => and_congr_right (fun other => ?_))
    have : c ≠ id := by
      rintro rfl
      exact same (Option.some.inj (other.symm.trans here))
    simp [this]

theorem Swept.step (inv : Swept tree direct below done s)
    (accumulates : Accumulates tree direct below) {id : Bytes32}
    (top : s.ready = id :: rest) :
    Swept tree direct below (insert id done) (sweepOne tree id rest s) := by
  have member : id ∈ s.ready := top ▸ List.mem_cons_self
  obtain ⟨block, fresh, children⟩ := (inv.ready id).mp member
  obtain ⟨parent, here⟩ := mem_blocks_iff.mp block
  have weight := inv.weight_of_ready accumulates member
  have parentNew : parent ∉ insert id done := by
    intro old
    rcases Finset.mem_insert.mp old with rfl | old
    · exact fresh (children parent here)
    · exact fresh (inv.closed parent old id here)
  have counted := inv.pending parent
  rw [pending_insert fresh here, if_pos rfl] at counted
  obtain ⟨n, entry⟩ : ∃ n, s.pending.get? parent = some n := by
    cases found : s.pending.get? parent with
    | none => simp [getD, found] at counted
    | some n => exact ⟨n, rfl⟩
  rw [getD_eq_of_get? entry] at counted
  have unfolded : sweepOne tree id rest s =
      { weights := s.weights.addAt parent (s.weights.getD id 0)
        pending := s.pending.insert parent (n - 1)
        ready := if n - 1 = 0 ∧ parent ∈ tree.keys then parent :: rest else rest } := by
    simp only [sweepOne, here, entry]
  have restNodup : id ∉ rest ∧ rest.Nodup := List.nodup_cons.mp (top ▸ inv.nodup)
  have restIff : ∀ k, k ∈ rest ↔ k ≠ id ∧ k ∈ s.ready := by
    intro k
    rw [top, List.mem_cons]
    constructor
    · intro inside
      exact ⟨fun eq => restNodup.1 (eq ▸ inside), .inr inside⟩
    · rintro ⟨other, eq | inside⟩
      · exact absurd eq other
      · exact inside
  have parentNotRest : parent ∉ rest := by
    intro inside
    exact fresh (((inv.ready parent).mp ((restIff parent).mp inside).2).2.2 id here)
  have complete : n - 1 = 0 ↔ ∀ c, tree.lookup c = some parent → c ∈ insert id done := by
    rw [counted, Nat.add_sub_cancel, Finset.card_eq_zero, Finset.filter_eq_empty_iff]
    constructor
    · intro none c child
      by_contra outside
      exact none (mem_blocks_of_lookup c parent child) ⟨child, outside⟩
    · rintro all c _ ⟨child, outside⟩
      exact outside (all c child)
  rw [unfolded]
  refine ⟨?_, ?_, ?_, ?_, ?_, ?_⟩
  · exact Finset.insert_subset block inv.known
  · intro k old c child
    rcases Finset.mem_insert.mp old with rfl | old
    · exact Finset.mem_insert_of_mem (children c child)
    · exact Finset.mem_insert_of_mem (inv.closed k old c child)
  · dsimp only
    split_ifs
    · exact List.nodup_cons.mpr ⟨parentNotRest, restNodup.2⟩
    · exact restNodup.2
  · intro k
    by_cases isParent : k = parent
    · subst isParent
      have inKeys : k ∈ tree.keys ↔ k ∈ blocks tree := List.mem_toFinset.symm
      dsimp only
      split_ifs with becomes
      · simp only [List.mem_cons_self, true_iff]
        exact ⟨inKeys.mp becomes.2, parentNew, complete.mp becomes.1⟩
      · refine ⟨fun inside => absurd inside parentNotRest, ?_⟩
        rintro ⟨known, _, all⟩
        exact absurd ⟨complete.mpr all, inKeys.mpr known⟩ becomes
    · have sameChildren : (∀ c, tree.lookup c = some k → c ∈ insert id done) ↔
          ∀ c, tree.lookup c = some k → c ∈ done := by
        refine forall_congr' (fun c => imp_congr_right (fun child => ?_))
        rw [Finset.mem_insert]
        refine ⟨fun either => either.resolve_left ?_, .inr⟩
        rintro rfl
        exact isParent (Option.some.inj (child.symm.trans here))
      have listed : (k ∈ if n - 1 = 0 ∧ parent ∈ tree.keys then parent :: rest else rest) ↔ k ∈ rest := by
        split_ifs <;> simp [isParent]
      dsimp only
      rw [listed, restIff, inv.ready, sameChildren, Finset.mem_insert, not_or]
      tauto
  · intro p
    have before := inv.pending p
    rw [pending_insert fresh here] at before
    by_cases isParent : p = parent
    · subst isParent
      simp only [getD, get?_insert_self, Option.getD_some]
      omega
    · rw [if_neg isParent, add_zero] at before
      rw [← before]
      simp [getD, get?_insert, isParent]
  · intro b
    rw [getD_addAt, inv.weights, weight, Finset.filter_insert, here, add_assoc]
    congr 1
    by_cases isParent : b = parent
    · subst isParent
      rw [if_pos rfl, if_pos rfl, Finset.sum_insert (by simp [fresh]), add_comm]
    · rw [if_neg isParent, if_neg (fun eq => isParent (Option.some.inj eq).symm), add_zero]

theorem Swept.run (accumulates : Accumulates tree direct below) (fuel : ℕ)
    (inv : Swept tree direct below done s) (enough : tree.keys.length ≤ done.card + fuel) :
    ∃ done', Swept tree direct below done' (sweep tree fuel s) ∧ (sweep tree fuel s).ready = [] := by
  induction fuel generalizing done s with
  | zero =>
    refine ⟨done, inv, ?_⟩
    have whole : done = blocks tree := Finset.eq_of_subset_of_card_le inv.known (by rw [card_blocks]; omega)
    refine List.eq_nil_iff_forall_not_mem.mpr ?_
    intro k inside
    obtain ⟨block, fresh, _⟩ := (inv.ready k).mp inside
    exact fresh (whole ▸ block)
  | succ fuel ih =>
    unfold sweep
    cases top : s.ready with
    | nil => exact ⟨done, inv, top⟩
    | cons id rest =>
      have fresh : id ∉ done := ((inv.ready id).mp (top ▸ List.mem_cons_self)).2.1
      refine ih (inv.step accumulates top) ?_
      rw [Finset.card_insert_of_notMem fresh]
      omega

/-- A sweep with nothing ready has done every block: a block left over would
have a child left over, and so on down without end. -/
theorem Swept.all_done (acyclic : Acyclic (fun b => tree.lookup b))
    (inv : Swept tree direct below done s) (empty : s.ready = []) : done = blocks tree := by
  refine Finset.Subset.antisymm inv.known ?_
  intro k block
  by_contra left
  have deeper : ∀ n, ∃ c ∉ done, c ∈ blocks tree ∧ iter (fun b => tree.lookup b) n c = some k := by
    intro n
    induction n with
    | zero => exact ⟨k, left, block, rfl⟩
    | succ n ih =>
      obtain ⟨c, outside, known, walk⟩ := ih
      have waits : ¬ ∀ d, tree.lookup d = some c → d ∈ done := by
        intro all
        have ready := (inv.ready c).mpr ⟨known, outside, all⟩
        simp [empty] at ready
      push Not at waits
      obtain ⟨d, child, fresh⟩ := waits
      exact ⟨d, fresh, mem_blocks_of_lookup d c child, by simp [iter, child, walk]⟩
  obtain ⟨c, _, _, walk⟩ := deeper ((blocks tree).card + 1)
  have short := iter_le_of_acyclic acyclic mem_blocks_of_lookup walk
  omega

theorem weight_accumulates (st : Store) (acyclic : Acyclic (fun b => tree.lookup b)) :
    Accumulates tree (fun b => (directWeights st tree).getD b 0) (st.weight tree) := by
  intro b
  simp only [weight_eq, directWeights_getD]
  exact weightBelow_eq acyclic mem_blocks_of_lookup (contributions st) b

theorem swept_end (st : Store) (acyclic : Acyclic (fun b => tree.lookup b)) :
    ∃ done, Swept tree (fun b => (directWeights st tree).getD b 0) (st.weight tree) done
        (sweep tree tree.keys.length (startSweep st tree)) ∧
      (sweep tree tree.keys.length (startSweep st tree)).ready = [] :=
  (swept_start st tree (st.weight tree)).run (weight_accumulates st acyclic) tree.keys.length
    (by simp)

/-- The loop ends with an empty stack: the fuel is never what stops it. -/
theorem sweep_ready (st : Store) (acyclic : Acyclic (fun b => tree.lookup b)) :
    (sweep tree tree.keys.length (startSweep st tree)).ready = [] :=
  (swept_end st acyclic).choose_spec.2

theorem subtreeWeights_getD (st : Store) (acyclic : Acyclic (fun b => tree.lookup b))
    (b : Bytes32) : (subtreeWeights st tree).getD b 0 = st.weight tree b := by
  obtain ⟨done, inv, empty⟩ := swept_end st acyclic
  rw [subtreeWeights, inv.weights, inv.all_done acyclic empty]
  exact (weight_accumulates st acyclic b).symm

end BlochPos.ForkChoice
