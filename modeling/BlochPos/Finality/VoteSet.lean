import BlochPos.Finality.Run

/-! The count of an epoch depends on the set of its votes, not on their order, their repetition or
the listing of the roster. -/
namespace BlochPos.FinalityState

open SortedMap

/-- The ballots stand for what was cast. -/
structure Ballots.Holds (cast : ℕ → AttestationData → Prop) (b : Ballots) : Prop where
  told : ∀ {v d}, b.firstVote.get? v = some d → cast v d
  heard : ∀ {v d}, cast v d → ∃ first, b.firstVote.get? v = some first
  equivocated : ∀ v, v ∈ b.equivocators ↔ ∃ d d', cast v d ∧ cast v d' ∧ d ≠ d'

/-- A vote that counts: its caster is on the roster and its target is the epoch. -/
def Counts (stake : SortedMap ℕ ℕ) (epoch : ℕ) (attestations : List (ℕ × AttestationData)) (v : ℕ)
    (d : AttestationData) : Prop :=
  (v, d) ∈ attestations ∧ stake.contains v = true ∧ d.targetEpoch = epoch

namespace Ballots.Holds

variable {cast : ℕ → AttestationData → Prop} {b b' : Ballots}

theorem congr (holds : b.Holds cast) (same : ∀ v d, cast v d ↔ cast' v d) : b.Holds cast' := by
  have : cast = cast' := by
    funext v d
    exact propext (same v d)
  exact this ▸ holds

theorem first (holds : b.Holds cast) (unheard : b.firstVote.get? w = none) :
    Ballots.Holds (fun v d => cast v d ∨ (v, d) = (w, x)) ⟨b.firstVote.insert w x, b.equivocators⟩ := by
  have silent : ∀ d, ¬ cast w d := by
    intro d told
    obtain ⟨first, found⟩ := holds.heard told
    simp [unheard] at found
  constructor
  · intro v d found
    obtain ⟨here, rfl⟩ | ⟨here, found⟩ := get?_insert_cases found
    · exact .inr (by rw [here])
    · exact .inl (holds.told found)
  · rintro v d (told | told)
    · have other : v ≠ w := by
        rintro rfl
        exact silent d told
      obtain ⟨first, found⟩ := holds.heard told
      exact ⟨first, (get?_insert_of_ne _ _ other).trans found⟩
    · cases told
      exact ⟨x, get?_insert_self ..⟩
  · intro v
    rw [holds.equivocated]
    constructor
    · rintro ⟨d, d', told, told', different⟩
      exact ⟨d, d', .inl told, .inl told', different⟩
    · rintro ⟨d, d', told | told, told' | told', different⟩
      · exact ⟨d, d', told, told', different⟩
      · cases told'
        exact absurd told (silent d)
      · cases told
        exact absurd told' (silent d')
      · cases told
        cases told'
        exact absurd rfl different

theorem another (holds : b.Holds cast) (found : b.firstVote.get? w = some prev) (different : prev ≠ x) :
    Ballots.Holds (fun v d => cast v d ∨ (v, d) = (w, x)) ⟨b.firstVote, insert w b.equivocators⟩ := by
  constructor
  · intro v d found
    exact .inl (holds.told found)
  · rintro v d (told | told)
    · exact holds.heard told
    · cases told
      exact ⟨prev, found⟩
  · intro v
    rw [Finset.mem_insert, holds.equivocated]
    constructor
    · rintro (rfl | ⟨d, d', told, told', apart⟩)
      · exact ⟨prev, x, .inl (holds.told found), .inr rfl, different⟩
      · exact ⟨d, d', .inl told, .inl told', apart⟩
    · rintro ⟨d, d', told | told, told' | told', apart⟩
      · exact .inr ⟨d, d', told, told', apart⟩
      · cases told'
        exact .inl rfl
      · cases told
        exact .inl rfl
      · cases told
        exact .inl rfl

theorem castVote (holds : b.Holds cast)
    (member : stake.contains vote.1 = true) (target : vote.2.targetEpoch = epoch) :
    (castVote stake epoch b vote).Holds (fun v d => cast v d ∨ (v, d) = vote) := by
  unfold FinalityState.castVote
  rw [if_neg (by simp [member]), if_neg (not_not.mpr target)]
  cases found : b.firstVote.get? vote.1 with
  | none => exact holds.first found
  | some prev =>
    dsimp only
    split_ifs with different
    · exact holds.another found different
    · refine holds.congr (fun v d => ⟨.inl, ?_⟩)
      rintro (told | rfl)
      · exact told
      · have same : prev = d := not_not.mp different
        exact same ▸ holds.told found

theorem equivocators_eq (holds : b.Holds cast) (holds' : b'.Holds cast) :
    b.equivocators = b'.equivocators := by
  ext v
  rw [holds.equivocated, holds'.equivocated]

theorem sole_iff (holds : b.Holds cast) : (b.firstVote.filter (fun v _ => v ∉ b.equivocators)).get? v = some d ↔
      cast v d ∧ ∀ d', cast v d' → d' = d := by
  simp only [get?_filter, Option.filter_eq_some_iff, decide_eq_true_eq, holds.equivocated]
  constructor
  · rintro ⟨found, alone⟩
    refine ⟨holds.told found, ?_⟩
    intro d' other
    by_contra different
    exact alone ⟨d', d, other, holds.told found, different⟩
  · rintro ⟨here, alone⟩
    obtain ⟨first, found⟩ := holds.heard here
    obtain rfl := alone first (holds.told found)
    refine ⟨found, ?_⟩
    rintro ⟨d, d', told, told', different⟩
    exact different ((alone d told).trans (alone d' told').symm)

end Ballots.Holds

theorem ballots_holds (st : FinalityState) (votes : EpochVotes) :
    (st.ballots votes).Holds (Counts (st.stakeMap votes) votes.epoch votes.attestations) := by
  unfold ballots
  induction votes.attestations using List.reverseRecOn with
  | nil =>
    constructor
    · intro v d found
      cases found
    · rintro v d ⟨member, -⟩
      cases member
    · intro v
      simp [Counts]
  | append_singleton earlier vote ih =>
    rw [List.foldl_append, List.foldl_cons, List.foldl_nil]
    by_cases counted : (st.stakeMap votes).contains vote.1 = true ∧ vote.2.targetEpoch = votes.epoch
    · refine (ih.castVote counted.1 counted.2).congr ?_
      intro v d
      rw [Counts, Counts, List.mem_append, List.mem_singleton]
      constructor
      · rintro (⟨among, told⟩ | rfl)
        · exact ⟨.inl among, told⟩
        · exact ⟨.inr rfl, counted⟩
      · rintro ⟨among | rfl, told⟩
        · exact .inl ⟨among, told⟩
        · exact .inr rfl
    · have passed : castVote (st.stakeMap votes) votes.epoch
          (earlier.foldl (castVote (st.stakeMap votes) votes.epoch) ⟨.empty, ∅⟩) vote =
          earlier.foldl (castVote (st.stakeMap votes) votes.epoch) ⟨.empty, ∅⟩ := by
        unfold castVote
        split_ifs with outside elsewhere
        · rfl
        · rfl
        · simp_all
      rw [passed]
      refine ih.congr ?_
      intro v d
      rw [Counts, Counts, List.mem_append, List.mem_singleton]
      constructor
      · rintro ⟨among, told⟩
        exact ⟨.inl among, told⟩
      · rintro ⟨among | rfl, told⟩
        · exact ⟨among, told⟩
        · exact absurd told counted

/-- Epochs with the same set of votes over the same roster. -/
structure SameVotes (a b : EpochVotes) : Prop where
  epoch : a.epoch = b.epoch
  roster : a.activeSet.Perm b.activeSet
  distinct : (a.activeSet.map Validator.index).Nodup
  votes : ∀ vote, vote ∈ a.attestations ↔ vote ∈ b.attestations

namespace SameVotes

variable {st : FinalityState} {a b : EpochVotes}

section

variable (same : SameVotes a b)
include same

theorem indices :
    (a.activeSet.map Validator.index).Perm (b.activeSet.map Validator.index) := same.roster.map _

theorem distinct' : (b.activeSet.map Validator.index).Nodup :=
  same.indices.nodup_iff.mp same.distinct

theorem ofList_roster {V : Type} (p : Validator → Bool) (value : Validator → V) :
    ofList ((a.activeSet.filter p).map (fun v => (v.index, value v))) =
      .ofList ((b.activeSet.filter p).map (fun v => (v.index, value v))) := by
  apply ofList_perm
  · exact (same.roster.filter p).map _
  · rw [List.map_map]
    exact same.distinct.sublist (List.filter_sublist.map _)

theorem stakeMap_eq : st.stakeMap a = st.stakeMap b := by
  have listed := same.ofList_roster (fun _ => true)
    (fun v => v.effectiveStake - st.leaked.getD v.index 0)
  rw [List.filter_true, List.filter_true] at listed
  exact listed

theorem snapshot_eq (lastSeen : SortedMap ℕ ℕ) : snapshot a lastSeen = snapshot b lastSeen := by
  unfold snapshot
  rw [same.epoch, same.ofList_roster]

theorem opened_eq : st.opened g a = st.opened g b := by
  unfold opened openFinalitySet
  simp only [same.epoch, same.snapshot_eq]

theorem ballots_eq : (st.ballots a).equivocators = (st.ballots b).equivocators ∧
    st.soleVotes a = st.soleVotes b := by
  have holds : (st.ballots a).Holds (Counts (st.stakeMap b) b.epoch b.attestations) := by
    refine (ballots_holds st a).congr ?_
    intro v d
    rw [Counts, Counts, same.votes, same.stakeMap_eq, same.epoch]
  have holds' := ballots_holds st b
  constructor
  · exact holds.equivocators_eq holds'
  · apply ext_get?
    intro v
    ext d
    exact holds.sole_iff.trans holds'.sole_iff.symm

theorem totalActive_eq : st.totalActive g a = st.totalActive g b := by
  have unleaked : unleakedTotal a = unleakedTotal b := (same.roster.map _).sum_eq
  unfold totalActive frozenSet leakAdjusted
  rw [same.epoch, same.stakeMap_eq, unleaked]

theorem validVotes_eq : st.validVotes g a = st.validVotes g b := by
  unfold validVotes admissible
  rw [same.ballots_eq.2, same.epoch]

theorem justifiedNow_eq : st.justifiedNow g a = st.justifiedNow g b := by
  have weight : st.voteWeight g a = st.voteWeight g b := by
    funext v
    unfold voteWeight frozenSet
    rw [same.epoch, same.stakeMap_eq]
  unfold justifiedNow tally
  rw [same.validVotes_eq, same.totalActive_eq, weight, same.epoch]

theorem finalizedNow_eq : st.finalizedNow g a = st.finalizedNow g b := by
  unfold finalizedNow sourceIsOwn
  rw [same.justifiedNow_eq, same.epoch]

end

end SameVotes

def seenAfter (epoch : ℕ) (present : SortedMap ℕ AttestationData) (k : ℕ) (seen : Option ℕ) : Option ℕ :=
  if present.contains k then some epoch else seen.or (some epoch)

theorem get?_markSeen (epoch : ℕ) (present : SortedMap ℕ AttestationData) (m : SortedMap ℕ ℕ)
    (v : Validator) (k : ℕ) : (markSeen epoch present m v).get? k =
      if k = v.index then seenAfter epoch present k (m.get? k) else m.get? k := by
  unfold markSeen seenAfter
  by_cases here : k = v.index
  · subst here
    rw [if_pos rfl]
    split_ifs with heard known
    · exact get?_insert_self ..
    · obtain ⟨seen, found⟩ := contains_iff.mp known
      rw [found]
      rfl
    · have unknown : m.get? v.index = none := by simpa [contains] using known
      rw [unknown, get?_insert_self]
      rfl
  · rw [if_neg here]
    split_ifs
    · exact get?_insert_of_ne _ _ here
    · rfl
    · exact get?_insert_of_ne _ _ here

def leakedAfter (g : Gates) (epoch since : ℕ) (stake : SortedMap ℕ ℕ)
    (valid : SortedMap ℕ AttestationData) (k : ℕ) (leaked : Option ℕ) : Option ℕ :=
  if valid.contains k then leaked else if stake.getD k 0 = 0 then leaked
  else some (leaked.getD 0 + leakBite g epoch since (stake.getD k 0))

theorem get?_leakOne (g : Gates) (epoch since : ℕ) (stake : SortedMap ℕ ℕ)
    (valid : SortedMap ℕ AttestationData) (m : SortedMap ℕ ℕ) (v : Validator) (k : ℕ) :
    (leakOne g epoch since stake valid m v).get? k =
      if k = v.index then leakedAfter g epoch since stake valid k (m.get? k) else m.get? k := by
  unfold leakOne leakedAfter
  by_cases here : k = v.index
  · subst here
    rw [if_pos rfl]
    split_ifs
    · rfl
    · rfl
    · exact get?_insert_self ..
  · rw [if_neg here]
    split_ifs
    · rfl
    · rfl
    · exact get?_insert_of_ne _ _ here

def repaid (owed : ℕ) : ℕ := owed - min (max (owed / INACTIVITY_LEAK_RECOVERY_QUOTIENT) 1) owed

def recoveredAfter (leaking : Bool) (valid : SortedMap ℕ AttestationData) (k : ℕ) (owed : Option ℕ) :
    Option ℕ :=
  if leaking && !valid.contains k then owed else owed.map repaid

section

variable {l : List Validator}

theorem get?_recoverOne (acc : SortedMap ℕ ℕ × List ℕ) (v : Validator) (k : ℕ) :
    (recoverOne leaking valid acc v).1.get? k =
      if k = v.index then recoveredAfter leaking valid k (acc.1.get? k) else acc.1.get? k := by
  unfold recoverOne recoveredAfter
  by_cases here : k = v.index
  · subst here
    rw [if_pos rfl]
    split_ifs
    · rfl
    · cases found : acc.1.get? v.index with
      | none => simp [found]
      | some owed => simp [repaid]
  · rw [if_neg here]
    split_ifs
    · rfl
    · split
      · rfl
      · exact get?_insert_of_ne _ _ here

theorem mem_recoverOne (acc : SortedMap ℕ ℕ × List ℕ) (v : Validator) (k : ℕ) :
    k ∈ (recoverOne leaking valid acc v).2 ↔ k ∈ acc.2 ∨ (k = v.index ∧
      (leaking && !valid.contains k) = false ∧ (acc.1.get? k).map repaid = some 0) := by
  unfold recoverOne
  by_cases spared : (leaking && !valid.contains v.index) = true
  · rw [if_pos spared]
    constructor
    · exact .inl
    · rintro (known | ⟨rfl, charged, -⟩)
      · exact known
      · simp [charged] at spared
  · rw [if_neg spared]
    cases found : acc.1.get? v.index with
    | none =>
      constructor
      · exact .inl
      · rintro (known | ⟨rfl, -, cleared⟩)
        · exact known
        · simp [found] at cleared
    | some owed =>
      dsimp only
      split_ifs with cleared
      · rw [List.mem_append, List.mem_singleton]
        constructor
        · rintro (known | rfl)
          · exact .inl known
          · refine .inr ⟨rfl, Bool.not_eq_true _ ▸ spared, ?_⟩
            rw [found, Option.map_some, repaid, cleared]
        · rintro (known | ⟨rfl, -, -⟩)
          · exact .inl known
          · exact .inr rfl
      · constructor
        · exact .inl
        · rintro (known | ⟨rfl, -, zero⟩)
          · exact known
          · rw [found, Option.map_some, Option.some.injEq] at zero
            exact absurd zero cleared

theorem get?_foldl_recoverOne (distinct : (l.map Validator.index).Nodup) (acc : SortedMap ℕ ℕ × List ℕ)
    (k : ℕ) : (l.foldl (recoverOne leaking valid) acc).1.get? k = if k ∈ l.map Validator.index then
      recoveredAfter leaking valid k (acc.1.get? k) else acc.1.get? k := by
  let pay (m : SortedMap ℕ ℕ) (v : Validator) := (recoverOne leaking valid (m, []) v).1
  have paid : ∀ acc v, pay acc.1 v = (recoverOne leaking valid acc v).1 := by
    intro acc v
    apply ext_get?
    intro k
    rw [get?_recoverOne, get?_recoverOne]
  rw [← List.foldl_hom Prod.fst paid]
  have each : ∀ m v k, (pay m v).get? k =
      if k = v.index then recoveredAfter leaking valid k (m.get? k) else m.get? k := by
    intro m v k
    exact get?_recoverOne (m, []) v k
  exact get?_foldl_update each distinct acc.1 k

theorem mem_foldl_recoverOne (distinct : (l.map Validator.index).Nodup) (acc : SortedMap ℕ ℕ × List ℕ)
    (k : ℕ) : k ∈ (l.foldl (recoverOne leaking valid) acc).2 ↔ k ∈ acc.2 ∨
      (k ∈ l.map Validator.index ∧ (leaking && !valid.contains k) = false ∧
        (acc.1.get? k).map repaid = some 0) := by
  induction l generalizing acc with
  | nil => simp
  | cons v rest ih =>
    rw [List.map_cons, List.nodup_cons] at distinct
    rw [List.foldl_cons, ih distinct.2, get?_recoverOne, mem_recoverOne]
    by_cases here : k = v.index
    · subst here
      simp [distinct.1]
    · simp [here]

end

namespace SameVotes

variable {st : FinalityState}

theorem closeFinalitySet_eq (same : SameVotes a b) (finalized : Option Checkpoint)
    (present : SortedMap ℕ AttestationData) :
    st.closeFinalitySet a finalized present = st.closeFinalitySet b finalized present := by
  have kept : ∀ m : SortedMap ℕ ℕ, m.filter (fun v _ => v ∈ a.activeSet.map Validator.index) =
      m.filter (fun v _ => v ∈ b.activeSet.map Validator.index) := by
    intro m
    simp only [same.indices.mem_iff]
  have seen : ∀ m : SortedMap ℕ ℕ, a.activeSet.foldl (markSeen a.epoch present) m =
      b.activeSet.foldl (markSeen b.epoch present) m := by
    intro m
    rw [same.epoch]
    exact foldl_update_perm (get?_markSeen b.epoch present) same.roster same.distinct m
  unfold closeFinalitySet
  simp only [kept, seen, same.snapshot_eq]

theorem updateLeak_eq (same : SameVotes a b) (stake : SortedMap ℕ ℕ)
    (valid : SortedMap ℕ AttestationData) : st.updateLeak g a stake valid = st.updateLeak g b stake valid := by
  have leaked : ∀ (since : ℕ) (m : SortedMap ℕ ℕ), a.activeSet.foldl (leakOne g b.epoch since stake valid) m =
      b.activeSet.foldl (leakOne g b.epoch since stake valid) m := by
    intro since m
    exact foldl_update_perm (get?_leakOne g b.epoch since stake valid) same.roster same.distinct m
  have recovered : ∀ (leaking : Bool) (m : SortedMap ℕ ℕ),
      (a.activeSet.foldl (recoverOne leaking valid) (m, [])).2.foldl erase
        (a.activeSet.foldl (recoverOne leaking valid) (m, [])).1 =
      (b.activeSet.foldl (recoverOne leaking valid) (m, [])).2.foldl erase
        (b.activeSet.foldl (recoverOne leaking valid) (m, [])).1 := by
    intro leaking m
    apply ext_get?
    intro k
    simp only [get?_foldl_erase, mem_foldl_recoverOne same.distinct,
      mem_foldl_recoverOne same.distinct', get?_foldl_recoverOne same.distinct,
      get?_foldl_recoverOne same.distinct', same.indices.mem_iff]
  unfold updateLeak
  simp only [same.epoch, leaked, recovered]

theorem closed_eq (same : SameVotes a b) : st.closed g a = st.closed g b := by
  unfold closed
  simp only [same.justifiedNow_eq, same.finalizedNow_eq, same.validVotes_eq, same.ballots_eq.2,
    same.stakeMap_eq, same.epoch, same.closeFinalitySet_eq, same.updateLeak_eq]

end SameVotes

/-- Two tellings of an epoch, with the roster in another order and the votes in
another order and number, get the same answer and leave the same state. -/
theorem tally_of_vote_set (g : Gates) (st : FinalityState) {a b : EpochVotes} (same : SameVotes a b) :
    st.processEpoch g a = st.processEpoch g b := by
  unfold processEpoch
  simp only [same.epoch, same.opened_eq, same.justifiedNow_eq, same.finalizedNow_eq, same.closed_eq,
    same.ballots_eq.1]

/-- Two members of a roster vote, one of them twice over and against itself, and
the roster and the votes are told backwards. -/
theorem tally_told_backwards : let honest : AttestationData := ⟨32, 5, 0, 0, 1, 5⟩
    let other : AttestationData := ⟨32, 7, 0, 0, 1, 7⟩
    let told : EpochVotes := ⟨1, [⟨1, 10⟩, ⟨2, 1⟩], [(1, honest), (2, honest), (2, other), (1, honest)]⟩
    let back : EpochVotes := ⟨1, [⟨2, 1⟩, ⟨1, 10⟩], [(2, other), (2, honest), (1, honest)]⟩
    ((new ⟨0, 0⟩).processEpoch .shipped told).1 = .ok ⟨some ⟨1, 5⟩, none, {2}⟩ ∧
      (new ⟨0, 0⟩).processEpoch .shipped told = (new ⟨0, 0⟩).processEpoch .shipped back := by
  intro honest other told back
  have same : SameVotes told back := by
    constructor
    · rfl
    · exact List.Perm.swap ..
    · decide
    · intro vote
      simp only [told, back, List.mem_cons, List.not_mem_nil, or_false]
      tauto
  exact ⟨by decide, tally_of_vote_set .shipped (new ⟨0, 0⟩) same⟩

end BlochPos.FinalityState
