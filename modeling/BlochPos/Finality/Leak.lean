import BlochPos.Finality.VoteSet

/-! The inactivity leak: what it takes to justify while it lasts, what it costs the absent and how
the debt is paid back. -/
namespace BlochPos.FinalityState

open SortedMap

variable {g : Gates} {st next : FinalityState} {votes : EpochVotes} {outcome : EpochOutcome}
  {valid : SortedMap ℕ AttestationData} {v : Validator} {leaking : Bool} {k : ℕ}

theorem stakeMap_get? (distinct : (votes.activeSet.map Validator.index).Nodup)
    (active : v ∈ votes.activeSet) :
    (st.stakeMap votes).get? v.index = some (v.effectiveStake - st.leaked.getD v.index 0) := by
  have unique : ((votes.activeSet.map (fun v => (v.index, v.effectiveStake - st.leaked.getD v.index 0))).map
      Prod.fst).Nodup := by simpa [List.map_map, Function.comp_def] using distinct
  rw [stakeMap, get?_ofList_of_nodup unique, (find?_key_eq_some_iff unique).mpr (List.mem_map_of_mem active)]

def stakeOf (votes : EpochVotes) (voters : Finset ℕ) : ℕ :=
  ((votes.activeSet.filter (fun v => v.index ∈ voters)).map Validator.effectiveStake).sum

theorem sum_stakeMap_le (distinct : (votes.activeSet.map Validator.index).Nodup) (voters : Finset ℕ) :
    ∑ k ∈ voters, (st.stakeMap votes).getD k 0 ≤ stakeOf votes voters := by
  let listed := (votes.activeSet.filter (fun v => v.index ∈ voters)).map Validator.index
  have once : listed.Nodup := (List.filter_sublist.map _).nodup distinct
  have inside : listed.toFinset ⊆ voters := by
    intro k among
    obtain ⟨v, held, rfl⟩ := List.mem_map.mp (List.mem_toFinset.mp among)
    exact of_decide_eq_true (List.mem_filter.mp held).2
  have outside : ∀ k ∈ voters, k ∉ listed.toFinset → (st.stakeMap votes).getD k 0 = 0 := by
    intro k voted unlisted
    refine getD_eq_zero_of_notMem (fun member => unlisted ?_)
    obtain ⟨s, found⟩ := mem_keyset_iff.mp member
    obtain ⟨v, active, same⟩ := List.mem_map.mp (mem_of_get?_ofList found)
    cases same
    exact List.mem_toFinset.mpr (List.mem_map_of_mem (List.mem_filter.mpr ⟨active, decide_eq_true voted⟩))
  rw [← Finset.sum_subset inside outside, List.sum_toFinset _ once, List.map_map, stakeOf]
  refine List.sum_le_sum (fun v held => ?_)
  rw [Function.comp_apply, getD_eq_of_get? (stakeMap_get? distinct (List.mem_of_mem_filter held))]
  exact Nat.sub_le _ _

/-- However much has leaked, what justifies a root once the floor is in force is a third of the
unleaked stake, up to rounding. -/
theorem justified_by_third {cp : Checkpoint} (recovering : g.leakRecovery ≤ votes.epoch)
    (thawed : g.nativeFinalitySetActive votes.epoch = false)
    (distinct : (votes.activeSet.map Validator.index).Nodup)
    (accepted : st.processEpoch g votes = (.ok outcome, next)) (justified : outcome.justified = some cp) :
    unleakedTotal votes - 1 ≤ 3 * stakeOf votes ((st.opened g votes).supporters g votes cp.root) := by
  obtain ⟨-, reported, -, -⟩ := processEpoch_ok accepted
  have quorum := (justifiedNow_some (reported.symm.trans justified)).2
  have unfrozen : (st.opened g votes).frozenSet g votes = none := if_neg (by rw [thawed]; exact Bool.false_ne_true)
  simp only [reachesQuorum, decide_eq_true_eq, tally_getD, voteWeight, totalActive, unfrozen,
    if_neg (not_lt.mpr recovering), MIN_QUORUM_DENOMINATOR_NUM, MIN_QUORUM_DENOMINATOR_DEN] at quorum
  have held : ∑ k ∈ (st.opened g votes).supporters g votes cp.root,
      ((st.opened g votes).stakeMap votes).getD k 0 ≤ stakeOf votes _ := sum_stakeMap_le distinct _
  have floor := le_max_right ((st.opened g votes).leakAdjusted votes) (unleakedTotal votes * 1 / 2)
  omega

/-- A third of the stake is left after a leak, and votes. -/
def thirdVotes : EpochVotes where
  epoch := 3000
  activeSet := [⟨1, 10⟩, ⟨2, 10⟩, ⟨3, 9⟩]
  attestations := [(1, ⟨96000, 5, 0, 0, 3000, 5⟩)]

def leakedThird : FinalityState :=
  { new ⟨0, 0⟩ with nextEpoch := 3000, leaked := .ofList [(2, 10), (3, 9)] }

theorem third_justifies :
    (leakedThird.processEpoch .shipped thirdVotes).1 = .ok ⟨some ⟨3000, 5⟩, none, ∅⟩ ∧
      unleakedTotal thirdVotes - 1 ≤
        3 * stakeOf thirdVotes ((leakedThird.opened .shipped thirdVotes).supporters .shipped thirdVotes 5) := by
  refine ⟨by decide +kernel, ?_⟩
  have reported : (leakedThird.opened .shipped thirdVotes).justifiedNow .shipped thirdVotes = some ⟨3000, 5⟩ := by
    decide +kernel
  obtain ⟨outcome, next, accepted⟩ :
      ∃ outcome next, leakedThird.processEpoch .shipped thirdVotes = (.ok outcome, next) :=
    processEpoch_accepted _ rfl
  have recovering : Gates.shipped.leakRecovery ≤ thirdVotes.epoch := by decide
  have distinct : (thirdVotes.activeSet.map Validator.index).Nodup := by decide
  have third := justified_by_third recovering rfl distinct accepted ((processEpoch_ok accepted).2.1.trans reported)
  exact third

/-- The debts once the absent are charged, and once those who voted are credited. -/
def charged (g : Gates) (votes : EpochVotes) (since : ℕ) (stake : SortedMap ℕ ℕ)
    (valid : SortedMap ℕ AttestationData) (leaked : SortedMap ℕ ℕ) : SortedMap ℕ ℕ :=
  if INACTIVITY_LEAK_THRESHOLD_EPOCHS < since then
    votes.activeSet.foldl (leakOne g votes.epoch since stake valid) leaked
  else leaked

def credited (g : Gates) (votes : EpochVotes) (since : ℕ) (valid : SortedMap ℕ AttestationData)
    (leaked : SortedMap ℕ ℕ) : SortedMap ℕ ℕ :=
  if g.leakRecovery ≤ votes.epoch then
    let acc := votes.activeSet.foldl
      (recoverOne (decide (INACTIVITY_LEAK_THRESHOLD_EPOCHS < since)) valid) (leaked, [])
    acc.2.foldl erase acc.1
  else leaked

theorem leaked_updateLeak (stake : SortedMap ℕ ℕ) (valid : SortedMap ℕ AttestationData) :
    (st.updateLeak g votes stake valid).leaked = credited g votes (votes.epoch - st.finalized.epoch) valid
      (charged g votes (votes.epoch - st.finalized.epoch) stake valid st.leaked) := by
  simp only [updateLeak, credited, charged, decide_eq_true_eq]
  split_ifs <;> rfl

theorem leaked_closed (st : FinalityState) :
    (st.closed g votes).leaked =
      credited g votes (votes.epoch - (st.closed g votes).finalized.epoch) (st.validVotes g votes)
        (charged g votes (votes.epoch - (st.closed g votes).finalized.epoch) (st.stakeMap votes)
          (st.validVotes g votes) st.leaked) := by
  have kept : (st.record (st.justifiedNow g votes) (st.finalizedNow g votes)).leaked = st.leaked := by
    unfold record
    split <;> rfl
  obtain ⟨set, closing, unpaid⟩ : ∃ set : FinalityState, st.closed g votes =
      set.updateLeak g votes (st.stakeMap votes) (st.validVotes g votes) ∧ set.leaked = st.leaked := by
    unfold closed
    dsimp only
    split_ifs
    · obtain ⟨members, eq⟩ := closeFinalitySet_eq (st.record (st.justifiedNow g votes) (st.finalizedNow g votes))
        votes (st.finalizedNow g votes) (st.soleVotes votes)
      exact ⟨_, rfl, by rw [eq]; exact kept⟩
    · exact ⟨_, rfl, kept⟩
  obtain ⟨leaked, settled⟩ := updateLeak_eq g set votes (st.stakeMap votes) (st.validVotes g votes)
  have finalized : (st.closed g votes).finalized = set.finalized := by rw [closing, settled]
  rw [finalized, closing, leaked_updateLeak, unpaid]

theorem leaked_of_accepted (accepted : st.processEpoch g votes = (.ok outcome, next)) :
    next.leaked = credited g votes (votes.epoch - next.finalized.epoch) ((st.opened g votes).validVotes g votes)
      (charged g votes (votes.epoch - next.finalized.epoch) (st.stakeMap votes)
        ((st.opened g votes).validVotes g votes) st.leaked) := by
  obtain ⟨-, -, -, rfl⟩ := processEpoch_ok accepted
  obtain ⟨set, opened⟩ := opened_eq g st votes
  have same : st.stakeMap votes = (st.opened g votes).stakeMap votes ∧ st.leaked = (st.opened g votes).leaked := by
    rw [opened]
    exact ⟨rfl, rfl⟩
  rw [same.1, same.2]
  exact leaked_closed _

section

variable {leaked : SortedMap ℕ ℕ}

theorem charged_spared (spared : since ≤ INACTIVITY_LEAK_THRESHOLD_EPOCHS ∨ valid.contains k = true) :
    (charged g votes since stake valid leaked).get? k = leaked.get? k := by
  unfold charged
  split_ifs with leaking
  · refine List.foldlRecOn votes.activeSet _ (motive := fun m : SortedMap ℕ ℕ => m.get? k = leaked.get? k) rfl ?_
    intro m same v _
    rw [get?_leakOne]
    split_ifs
    · rw [leakedAfter, if_pos (spared.resolve_left (not_le.mpr leaking)), same]
    · exact same
  · rfl

theorem credited_absent (leaking : INACTIVITY_LEAK_THRESHOLD_EPOCHS < since) (absent : valid.contains k = false) :
    (credited g votes since valid leaked).get? k = leaked.get? k := by
  unfold credited
  split_ifs
  · have pass : ∀ acc : SortedMap ℕ ℕ × List ℕ, acc = votes.activeSet.foldl
        (recoverOne (decide (INACTIVITY_LEAK_THRESHOLD_EPOCHS < since)) valid) (leaked, []) →
        acc.1.get? k = leaked.get? k ∧ k ∉ acc.2 := by
      rintro _ rfl
      refine List.foldlRecOn votes.activeSet _ (motive := fun acc : SortedMap ℕ ℕ × List ℕ =>
        acc.1.get? k = leaked.get? k ∧ k ∉ acc.2) ⟨rfl, by simp⟩ ?_
      rintro acc ⟨same, uncleared⟩ v _
      rw [get?_recoverOne, mem_recoverOne, recoveredAfter, absent, decide_eq_true leaking]
      exact ⟨by simp [same], by simp [uncleared]⟩
    obtain ⟨same, uncleared⟩ := pass _ rfl
    dsimp only
    rw [get?_foldl_erase, if_neg uncleared, same]
  · rfl

end

def remaining (st : FinalityState) (v : Validator) : ℕ := v.effectiveStake - st.leaked.getD v.index 0

/-- An absent validator with stake left to pay from. -/
structure Leaks (g : Gates) (st : FinalityState) (votes : EpochVotes) (v : Validator) : Prop where
  active : v ∈ votes.activeSet
  absent : ((st.opened g votes).validVotes g votes).contains v.index = false
  left : 0 < st.remaining v

/-- The part of the remaining stake that a leaking epoch takes, before it is held to what remains. -/
def biteOf (g : Gates) (votes : EpochVotes) (finalized : Checkpoint) (remaining : ℕ) : ℕ :=
  remaining * (votes.epoch - finalized.epoch - INACTIVITY_LEAK_THRESHOLD_EPOCHS) / g.inactivityLeakQuotient votes.epoch

theorem Leaks.leaked_eq (leaks : Leaks g st votes v)
    (distinct : (votes.activeSet.map Validator.index).Nodup)
    (accepted : st.processEpoch g votes = (.ok outcome, next))
    (leaking : INACTIVITY_LEAK_THRESHOLD_EPOCHS < votes.epoch - next.finalized.epoch) :
    next.leaked.getD v.index 0 = st.leaked.getD v.index 0 +
      min (max (biteOf g votes next.finalized (st.remaining v)) 1 % 2 ^ 64) (st.remaining v) := by
  have stake : (st.stakeMap votes).getD v.index 0 = st.remaining v :=
    getD_eq_of_get? (stakeMap_get? distinct leaks.active)
  rw [getD, leaked_of_accepted accepted, credited_absent leaking leaks.absent, charged, if_pos leaking,
    get?_foldl_update (get?_leakOne g votes.epoch _ (st.stakeMap votes) _) distinct,
    if_pos (List.mem_map_of_mem leaks.active), leakedAfter,
    leaks.absent, if_neg Bool.false_ne_true, stake, if_neg leaks.left.ne']
  rfl

/-- Narrowing the bite to a word loses nothing unless its low word is less than what remains. -/
theorem narrowed_bite_iff {bite remaining : ℕ} (word : remaining < 2 ^ 64) :
    min (max bite 1 % 2 ^ 64) remaining = min remaining (max 1 bite) ↔
      bite < 2 ^ 64 ∨ remaining ≤ bite % 2 ^ 64 := by
  by_cases fits : bite < 2 ^ 64
  · rw [Nat.mod_eq_of_lt (max_lt fits (by decide)), min_comm, max_comm]
    exact iff_of_true rfl (.inl fits)
  · omega

/-- The absent pay what the leak takes of their remaining stake, at least one and at most all of it, except
where the share no longer fits a word and its low word is less than the remaining stake. -/
theorem bite_exact_iff (accepted : st.processEpoch g votes = (.ok outcome, next))
    (leaking : INACTIVITY_LEAK_THRESHOLD_EPOCHS < votes.epoch - next.finalized.epoch)
    (distinct : (votes.activeSet.map Validator.index).Nodup)
    (words : ∀ v ∈ votes.activeSet, v.effectiveStake < 2 ^ 64) :
    ((∀ v, Leaks g st votes v → next.leaked.getD v.index 0 = st.leaked.getD v.index 0 +
        min (st.remaining v) (max 1 (biteOf g votes next.finalized (st.remaining v)))) ↔
      ∀ v, Leaks g st votes v → biteOf g votes next.finalized (st.remaining v) < 2 ^ 64 ∨
        st.remaining v ≤ biteOf g votes next.finalized (st.remaining v) % 2 ^ 64) ∧
    ∀ k, let debts := charged g votes (votes.epoch - next.finalized.epoch) (st.stakeMap votes)
          ((st.opened g votes).validVotes g votes) st.leaked;
      debts.get? k = st.leaked.get? k ∨ next.leaked.get? k = debts.get? k := by
  constructor
  · refine forall_congr' (fun v => forall_congr' (fun leaks => ?_))
    have word : st.remaining v < 2 ^ 64 := (Nat.sub_le _ _).trans_lt (words v leaks.active)
    rw [leaks.leaked_eq distinct accepted leaking, Nat.add_left_cancel_iff, narrowed_bite_iff word]
  · intro k
    cases voted : ((st.opened g votes).validVotes g votes).contains k with
    | true => exact .inl (charged_spared (.inr voted))
    | false =>
      right
      rw [leaked_of_accepted accepted, credited_absent leaking voted]

def whaleVotes : EpochVotes where
  epoch := 5368714
  activeSet := [⟨1, 2 ^ 63⟩]
  attestations := []

def stalled : FinalityState := { new ⟨0, 0⟩ with nextEpoch := 5368714 }

/-- It should lose all its stake and loses nothing. -/
theorem whale_spared : let next := (stalled.processEpoch .shipped whaleVotes).2
    INACTIVITY_LEAK_THRESHOLD_EPOCHS < whaleVotes.epoch - next.finalized.epoch ∧
      Leaks .shipped stalled whaleVotes ⟨1, 2 ^ 63⟩ ∧ stalled.remaining ⟨1, 2 ^ 63⟩ = 2 ^ 63 ∧
      biteOf .shipped whaleVotes next.finalized (2 ^ 63) = 2 ^ 64 ∧ next.leaked.getD 1 0 = 0 := by
  refine ⟨by decide +kernel, ⟨by decide +kernel, by decide +kernel, by decide +kernel⟩, ?_⟩
  decide +kernel

/-- The law at a stake whose share fits a word. -/
def minnowVotes : EpochVotes := { whaleVotes with activeSet := [⟨1, 10⟩] }

theorem minnow_bitten :
    (stalled.processEpoch .shipped minnowVotes).2.leaked.getD 1 0 = 10 ∧
      ((∀ v, Leaks .shipped stalled minnowVotes v →
          (stalled.processEpoch .shipped minnowVotes).2.leaked.getD v.index 0 = stalled.leaked.getD v.index 0 +
            min (stalled.remaining v) (max 1 (biteOf .shipped minnowVotes
              (stalled.processEpoch .shipped minnowVotes).2.finalized (stalled.remaining v)))) ↔
        ∀ v, Leaks .shipped stalled minnowVotes v →
          biteOf .shipped minnowVotes (stalled.processEpoch .shipped minnowVotes).2.finalized
              (stalled.remaining v) < 2 ^ 64 ∨
            stalled.remaining v ≤ biteOf .shipped minnowVotes
              (stalled.processEpoch .shipped minnowVotes).2.finalized (stalled.remaining v) % 2 ^ 64) := by
  refine ⟨by decide +kernel, ?_⟩
  obtain ⟨outcome, next, accepted⟩ : ∃ outcome next, stalled.processEpoch .shipped minnowVotes = (.ok outcome, next) :=
    processEpoch_accepted _ rfl
  have after : (stalled.processEpoch .shipped minnowVotes).2 = next := by rw [accepted]
  have leaking : INACTIVITY_LEAK_THRESHOLD_EPOCHS <
      minnowVotes.epoch - (stalled.processEpoch .shipped minnowVotes).2.finalized.epoch := by decide +kernel
  rw [after] at leaking ⊢
  exact (bite_exact_iff accepted leaking (by decide) (by decide)).1

theorem repaid_lt (positive : 0 < owed) : repaid owed < owed := by
  unfold repaid
  omega

theorem cleared_kept (l : List Validator)
    (cleared : k ∈ acc.2) : k ∈ (l.foldl (recoverOne leaking valid) acc).2 := by
  refine List.foldlRecOn l _ (motive := fun acc : SortedMap ℕ ℕ × List ℕ => k ∈ acc.2) cleared ?_
  intro acc known v _
  exact (mem_recoverOne acc v k).mpr (.inl known)

theorem recovered_fold (spared : (leaking && !valid.contains k) = false)
    (l : List Validator) (acc : SortedMap ℕ ℕ × List ℕ)
    (left : (l.foldl (recoverOne leaking valid) acc).1.get? k = some o)
    (uncleared : k ∉ (l.foldl (recoverOne leaking valid) acc).2) :
    ∃ owed, acc.1.get? k = some owed ∧ if k ∈ l.map Validator.index then 0 < o ∧ o < owed else o = owed := by
  induction l generalizing acc with
  | nil => exact ⟨o, left, by simp⟩
  | cons v rest ih =>
    obtain ⟨mid, found, later⟩ := ih _ left uncleared
    rw [get?_recoverOne, recoveredAfter, spared, if_neg Bool.false_ne_true] at found
    by_cases here : k = v.index
    · rw [if_pos here] at found
      obtain ⟨owed, held, rfl⟩ := Option.map_eq_some_iff.mp found
      have remains : repaid owed ≠ 0 := by
        intro zero
        refine uncleared (cleared_kept rest ((mem_recoverOne acc v k).mpr (.inr ⟨here, spared, ?_⟩)))
        rw [held, Option.map_some, zero]
      have less : repaid owed < owed := by
        refine repaid_lt (Nat.pos_of_ne_zero ?_)
        rintro rfl
        exact remains rfl
      refine ⟨owed, held, ?_⟩
      rw [if_pos (by simp [here])]
      split_ifs at later <;> omega
    · rw [if_neg here] at found
      exact ⟨mid, found, by simpa [here] using later⟩

theorem credited_less {leaked : SortedMap ℕ ℕ} (recovering : g.leakRecovery ≤ votes.epoch)
    (active : k ∈ votes.activeSet.map Validator.index)
    (spared : since ≤ INACTIVITY_LEAK_THRESHOLD_EPOCHS ∨ valid.contains k = true)
    (left : (credited g votes since valid leaked).get? k = some o) :
    0 < o ∧ ∃ owed, leaked.get? k = some owed ∧ o < owed := by
  rw [credited, if_pos recovering] at left
  dsimp only at left
  rw [get?_foldl_erase] at left
  split_ifs at left with cleared
  have pays : (decide (INACTIVITY_LEAK_THRESHOLD_EPOCHS < since) && !valid.contains k) = false := by
    obtain fine | voted := spared
    · simp [fine]
    · simp [voted]
  obtain ⟨owed, held, less⟩ := recovered_fold pays votes.activeSet (leaked, []) left cleared
  rw [if_pos active] at less
  exact ⟨less.1, owed, held, less.2⟩

/-- An epoch with the validator in the active set that it votes in, or that does not leak. The chain
may record its own checkpoint before the next. -/
structure Repays (g : Gates) (k : ℕ) (st : FinalityState) (votes : EpochVotes) (after : FinalityState) : Prop where
  accepted : ∃ outcome next, st.processEpoch g votes = (.ok outcome, next) ∧
    (after = next ∨ ∃ epoch root, after = next.recordOwnCheckpoint epoch root)
  active : k ∈ votes.activeSet.map Validator.index
  spared : votes.epoch - after.finalized.epoch ≤ INACTIVITY_LEAK_THRESHOLD_EPOCHS ∨
    ((st.opened g votes).validVotes g votes).contains k = true

theorem Repays.step (repays : Repays g k st votes after) (past : g.leakRecovery ≤ st.nextEpoch) :
    g.leakRecovery ≤ after.nextEpoch ∧ ∀ o, after.leaked.get? k = some o →
      0 < o ∧ ∃ owed, st.leaked.get? k = some owed ∧ o < owed := by
  obtain ⟨outcome, next, accepted, reached⟩ := repays.accepted
  have same : after.nextEpoch = next.nextEpoch ∧ after.leaked = next.leaked ∧ after.finalized = next.finalized := by
    obtain rfl | ⟨epoch, root, rfl⟩ := reached <;> exact ⟨rfl, rfl, rfl⟩
  have spared := repays.spared
  rw [same.2.2] at spared
  have clock := recorded accepted
  rw [same.1, same.2.1, clock.nextEpoch]
  refine ⟨past.trans (Nat.le_succ _), fun o left => ?_⟩
  rw [leaked_of_accepted accepted] at left
  obtain ⟨positive, owed, held, less⟩ := credited_less (clock.epoch ▸ past) repays.active spared left
  exact ⟨positive, owed, (charged_spared spared) ▸ held, less⟩

/-- A debt is paid back. While the validator votes or the chain does not leak, what it owes falls with
every epoch, is never kept at zero, and is gone after as many epochs as it owes. -/
theorem debt_discharged {k owed : ℕ} (states : ℕ → FinalityState) (epochs : ℕ → EpochVotes) (n : ℕ)
    (past : g.leakRecovery ≤ (states 0).nextEpoch)
    (steps : ∀ i < n, Repays g k (states i) (epochs i) (states (i + 1)))
    (owing : (states 0).leaked.get? k = some owed) :
    (max owed 1 ≤ n → (states n).leaked.get? k = none) ∧
    ∀ i < n, ∀ o, (states (i + 1)).leaked.get? k = some o →
      0 < o ∧ ∃ before, (states i).leaked.get? k = some before ∧ o < before := by
  have gate : ∀ i ≤ n, g.leakRecovery ≤ (states i).nextEpoch := by
    intro i
    induction i with
    | zero => exact fun _ => past
    | succ i ih => exact fun within => ((steps i within).step (ih (Nat.le_of_lt within))).1
  have falls : ∀ i < n, ∀ o, (states (i + 1)).leaked.get? k = some o →
      0 < o ∧ ∃ before, (states i).leaked.get? k = some before ∧ o < before :=
    fun i within => ((steps i within).step (gate i within.le)).2
  refine ⟨fun enough => ?_, falls⟩
  have bounded : ∀ i ≤ n, ∀ o, (states i).leaked.get? k = some o → o + i ≤ owed ∧ (0 < i → 0 < o) := by
    intro i
    induction i with
    | zero =>
      intro _ o held
      rw [owing, Option.some.injEq] at held
      omega
    | succ i ih =>
      intro within o held
      obtain ⟨positive, before, earlier, less⟩ := falls i within o held
      have room := (ih (Nat.le_of_lt within) before earlier).1
      omega
  cases held : (states n).leaked.get? k with
  | none => rfl
  | some o =>
    have room := bounded n le_rfl o held
    omega

/-- A debt of three, on a chain that finalizes. -/
def indebted : FinalityState :=
  { new ⟨2999, 0⟩ with leaked := .ofList [(1, 3)] }

def votesAfter (i : ℕ) : EpochVotes := { thirdVotes with epoch := 3000 + i }

def repaying : ℕ → FinalityState
  | 0 => indebted
  | i + 1 => ((repaying i).processEpoch .shipped (votesAfter i)).2

theorem last_debt_cleared : indebted.leaked.get? 1 = some 3 ∧ (repaying 2).leaked.get? 1 = some 1 ∧
    (repaying 3).leaked.get? 1 = none := by
  have owing : indebted.leaked.get? 1 = some 3 := by decide +kernel
  have order : ∀ i < 3, (votesAfter i).epoch = (repaying i).nextEpoch := by decide +kernel
  have spared : ∀ i < 3, (votesAfter i).epoch - (repaying (i + 1)).finalized.epoch ≤
      INACTIVITY_LEAK_THRESHOLD_EPOCHS := by decide +kernel
  have steps : ∀ i < 3, Repays .shipped 1 (repaying i) (votesAfter i) (repaying (i + 1)) := by
    intro i within
    obtain ⟨outcome, next, accepted⟩ := processEpoch_accepted .shipped (order i within)
    exact ⟨⟨outcome, next, accepted, .inl (by rw [repaying, accepted])⟩, by simp [votesAfter, thirdVotes],
      .inl (spared i within)⟩
  exact ⟨owing, by decide +kernel, (debt_discharged repaying votesAfter 3 (by decide +kernel) steps owing).1 le_rfl⟩

end BlochPos.FinalityState
