import BlochPos.Transition.ChainRun

/-! A bond that was paid out stays empty: its validator has left. -/
namespace BlochPos

open Attempt SortedMap Option

namespace CommittedState

/-- A bond is locked at least until its validator leaves. -/
def ExitsFirst (st : CommittedState) : Prop :=
  ∀ {i r}, st.validators.get? i = some r → r.exitEpoch ≤ r.withdrawableEpoch

/-- The fees of an epoch wait for validators on duty. -/
def FeesOnDuty (st : CommittedState) : Prop :=
  ∀ {i}, st.pendingFeeRewards.get? i ≠ none → st.OnDuty i

/-- No stake, and past its exit. -/
def Settled (st : CommittedState) (i : ℕ) : Prop :=
  ∃ r, st.validators.get? i = some r ∧ r.stakedSat = 0 ∧ r.exitEpoch ≤ st.epoch

/-- Records come or lose stake; none gains. -/
inductive StakeChange (m : SortedMap ℕ ValidatorRecord) : SortedMap ℕ ValidatorRecord → Prop where
  | same : StakeChange m m
  | added {i r} (absent : m.get? i = none) (locked : r.exitEpoch ≤ r.withdrawableEpoch) :
      StakeChange m (m.insert i r)
  | amended {i r r'} (found : m.get? i = some r) (stake : r'.stakedSat ≤ r.stakedSat)
      (locked : r.exitEpoch ≤ r.withdrawableEpoch → r'.exitEpoch ≤ r'.withdrawableEpoch) :
      StakeChange m (m.insert i r')

section

variable {env : Env} {st post : CommittedState} {i : ℕ}

theorem locked_exited (r : ValidatorRecord) (epoch : ℕ) :
    (r.exited epoch).exitEpoch ≤ (r.exited epoch).withdrawableEpoch := by
  simp only [ValidatorRecord.exited, satAdd]
  omega

theorem locked_punished (g : Gates) (r : ValidatorRecord) (epoch lossSat : ℕ) :
    (r.punished g epoch lossSat).exitEpoch ≤ (r.punished g epoch lossSat).withdrawableEpoch := by
  simp only [ValidatorRecord.punished]
  generalize due : (if g.slashingEconomicsV2Active epoch = true then
    satAdd u64Max EXIT_DELAY_EPOCHS WITHDRAWAL_DELAY_EPOCHS else WITHDRAWAL_DELAY_EPOCHS) = delay
  have delayed : 1 ≤ delay := by
    rw [← due]
    split_ifs <;> decide
  have late : satAdd u64Max epoch 1 ≤ satAdd u64Max epoch delay := by
    simp only [satAdd]
    omega
  refine (min_le_right _ _).trans (late.trans ?_)
  split_ifs
  · exact le_rfl
  · exact le_max_right _ _

theorem RecordChange.stake (change : RecordChange env st event m) : StakeChange st.validators m := by
  cases change with
  | same => exact .same
  | added index waiting =>
    exact .added (index ▸ st.get?_nextIndex) (waiting.exit.trans waiting.withdrawable.symm).le
  | amended found stake => exact .amended found stake id
  | repriced found | rotated found => exact .amended found le_rfl id
  | @exited i r found => exact .amended found le_rfl (fun _ => locked_exited r st.epoch)
  | punished found => exact .amended found (Nat.sub_le _ _) (fun _ => locked_punished ..)

theorem Step.stakeChange (step : Step env st event post) (inside : event ≠ .closeEpoch) :
    StakeChange st.validators post.validators :=
  (step.recordChange inside).stake

theorem StakeChange.exitsFirst (change : StakeChange st.validators post.validators) (exits : st.ExitsFirst) :
    post.ExitsFirst := by
  intro j r' found'
  generalize post.validators = m at change found'
  cases change with
  | same => exact exits found'
  | @added k r absent locked =>
    rw [get?_insert] at found'
    split_ifs at found' with here
    · exact Option.some.inj found' ▸ locked
    · exact exits found'
  | @amended k r r'' found _ locked =>
    rw [get?_insert] at found'
    split_ifs at found' with here
    · exact Option.some.inj found' ▸ locked (exits found)
    · exact exits found'

theorem StakeChange.empty_stays (change : StakeChange st.validators post.validators)
    (found : st.validators.get? i = some r) (empty : r.stakedSat = 0)
    (found' : post.validators.get? i = some r') : r'.stakedSat = 0 := by
  generalize post.validators = m at change found'
  cases change with
  | same =>
    rw [found] at found'
    exact Option.some.inj found' ▸ empty
  | @added k added absent =>
    have other : i ≠ k := ne_of_absent found absent
    rw [get?_insert_of_ne _ _ other, found] at found'
    exact Option.some.inj found' ▸ empty
  | @amended k old new held stake =>
    rw [get?_insert] at found'
    split_ifs at found' with here
    · subst here
      rw [found] at held
      cases held
      cases found'
      omega
    · rw [found] at found'
      exact Option.some.inj found' ▸ empty

theorem Step.settled_inside (step : Step env st event post) (inside : event ≠ .closeEpoch)
    (small : st.epoch < u64Max) (settled : st.Settled i) : post.Settled i := by
  obtain ⟨r, found, empty, left⟩ := settled
  obtain ⟨r', found', same⟩ := (step.registryKept inside small).kept found
  have epoch := step.epoch_eq inside
  refine ⟨r', found', (step.stakeChange inside).empty_stays found empty found', ?_⟩
  rw [epoch]
  exact not_lt.mp (same.onDuty.not.mpr (not_lt.mpr left))

def stakeAt (i : ℕ) (st : CommittedState) : Option ℕ := (st.validators.get? i).map ValidatorRecord.stakedSat

theorem stakeAt_setRecord_of_ne (r : ValidatorRecord) (other : i ≠ j) :
    stakeAt i (st.setRecord j r) = stakeAt i st := by
  rw [stakeAt, setRecord, get?_insert_of_ne _ _ other, stakeAt]

theorem stakeAt_issueToValidator (amountSat : ℕ) (other : i ≠ j) :
    stakeAt i (st.issueToValidator j amountSat) = stakeAt i st := by
  unfold issueToValidator
  split
  · rfl
  · exact stakeAt_setRecord_of_ne _ other

theorem stakeAt_issueOne (t : IssuanceTerms) (other : i ≠ v.index) :
    stakeAt i (issueOne t st v) = stakeAt i st := by
  have operator : ∀ (due : Prop) [Decidable due] (amount : ℕ) (s : CommittedState),
      stakeAt i (if due then s.issueToValidator v.index amount else s) = stakeAt i s := by
    intro due _ amount s
    split_ifs
    · exact stakeAt_issueToValidator _ other
    · rfl
  simp only [issueOne]
  split
  · exact operator ..
  · have delegators : ∀ (s : CommittedState) (share : ℕ × ℕ),
        stakeAt i (s.issueToDelegator share) = stakeAt i s := fun _ _ => rfl
    rw [operator, List.foldl_leaves (stakeAt i) delegators, operator]

theorem stakeAt_payIssuance (away : i ∉ t.roster.map Validator.index) :
    stakeAt i (payIssuance t st) = stakeAt i st := by
  unfold payIssuance
  split_ifs
  · refine List.foldlRecOn (motive := fun s => stakeAt i s = stakeAt i st) t.roster _ rfl ?_
    intro s same v among
    rw [stakeAt_issueOne t, same]
    rintro rfl
    exact away (List.mem_map_of_mem among)
  · rfl

theorem stakeAt_payFee (env : Env) (staked : SortedMap ℕ ValidatorRecord) (registry : Registry)
    (other : i ≠ fee.1) : stakeAt i (payFee env staked registry st fee) = stakeAt i st := by
  unfold payFee
  split
  · rfl
  · dsimp only
    split_ifs
    · rfl
    · rfl
    · exact stakeAt_setRecord_of_ne _ other

theorem stakeAt_payFees (env : Env) (staked : SortedMap ℕ ValidatorRecord)
    (unpaid : st.pendingFeeRewards.get? i = none) : stakeAt i (st.payFees env staked) = stakeAt i st := by
  unfold payFees
  refine List.foldlRecOn (motive := fun s => stakeAt i s = stakeAt i st) _ _ rfl ?_
  intro s same fee among
  rw [stakeAt_payFee, same]
  rintro rfl
  obtain ⟨amount, held⟩ := mem_keys_iff.mp (List.mem_map_of_mem among)
  simp [unpaid] at held

theorem stakeAt_activate (epoch : ℕ) (s : CommittedState) (index : ℕ) :
    stakeAt i (activate epoch s index) = stakeAt i s := by
  unfold activate
  split
  · rfl
  · next r found =>
    by_cases here : i = index
    · subst here
      rw [stakeAt, setRecord, get?_insert_self, stakeAt, found]
      rfl
    · exact stakeAt_setRecord_of_ne _ here

theorem unissued_pendingFeeRewards : Unissued pendingFeeRewards where
  record _ _ := rfl
  ledgers _ _ _ := rfl

theorem pendingFeeRewards_closeEpoch (env : Env) (st : CommittedState) :
    (closeEpoch env st).pendingFeeRewards = .empty :=
  @Unfed.closeEpoch_eq _ pendingFeeRewards ⟨fun _ _ _ => rfl, fun _ _ _ _ => rfl⟩ _ _
    (enterEpoch_leaves (fun _ _ _ _ _ _ _ => rfl))

/-- Nothing reaches the bond of a validator that is not on duty and has earned no fees. -/
theorem stakeAt_closeEpoch (idle : ∀ r, st.validators.get? i = some r → r.isActiveAt st.epoch = false)
    (unpaid : st.pendingFeeRewards.get? i = none) : stakeAt i (closeEpoch env st) = stakeAt i st := by
  have tallied : (st.tallyVotes env).validators = st.validators ∧ (st.tallyVotes env).epoch = st.epoch ∧
      (st.tallyVotes env).pendingFeeRewards = st.pendingFeeRewards := by
    unfold tallyVotes
    split_ifs <;> exact ⟨rfl, rfl, rfl⟩
  obtain ⟨validators, epoch, pending⟩ := tallied
  have away : i ∉ ((st.tallyVotes env).issuanceTerms env).roster.map Validator.index := by
    have active : i ∉ (st.validators.filter (fun _ r => r.isActiveAt st.epoch)).keys := by
      rw [mem_keys_iff]
      rintro ⟨r, listed⟩
      rw [get?_filter, filter_eq_some_iff] at listed
      rw [idle r listed.1] at listed
      cases listed.2
    simp only [issuanceTerms]
    split_ifs
    · rwa [map_index_consensusRosterAt, validators, epoch]
    · rwa [map_index_dutyRosterAt, validators, epoch]
  have entered : ∀ (s : CommittedState) (epoch : ℕ), stakeAt i (s.enterEpoch env epoch) = stakeAt i s :=
    enterEpoch_leaves (fun _ _ _ _ _ _ _ => rfl)
  have retired : ∀ s : CommittedState, stakeAt i s.retireMix = stakeAt i s := fun _ => rfl
  simp only [closeEpoch, entered, activateDeposits, List.foldl_leaves (stakeAt i) (stakeAt_activate _), retired]
  rw [stakeAt_payFees, stakeAt_payIssuance away, stakeAt, stakeAt, validators]
  rw [unissued_pendingFeeRewards.payIssuance, pending, unpaid]

def locks (st : CommittedState) : SortedMap ℕ (ℕ × ℕ) :=
  st.validators.mapVal (fun _ r => (r.exitEpoch, r.withdrawableEpoch))

theorem aside_locks : Aside locks where
  record _ _ found := mapVal_insert_of_same found rfl
  ledgers _ _ _ _ := rfl
  issues _ _ _ _ := rfl
  tally _ _ _ := rfl

theorem locks_closeEpoch (env : Env) (st : CommittedState) (i : ℕ) :
    ((closeEpoch env st).validators.get? i).map (fun r => (r.exitEpoch, r.withdrawableEpoch)) =
      (st.validators.get? i).map (fun r => (r.exitEpoch, r.withdrawableEpoch)) := by
  have same : (closeEpoch env st).locks = st.locks :=
    aside_locks.closeEpoch_eq (enterEpoch_leaves (fun _ _ _ _ _ _ _ => rfl)) st
  simpa only [locks, get?_mapVal] using congrArg (get? · i) same

theorem ExitsFirst.closeEpoch (exits : st.ExitsFirst) : (closeEpoch env st).ExitsFirst := by
  intro i r found
  have listed := locks_closeEpoch env st i
  rw [found, map_some] at listed
  obtain ⟨r', found', locks⟩ := map_eq_some_iff.mp listed.symm
  rw [Prod.mk.injEq] at locks
  rw [← locks.1, ← locks.2]
  exact exits found'

theorem Settled.closeEpoch (settled : st.Settled i) (fees : st.FeesOnDuty) :
    (closeEpoch env st).Settled i := by
  obtain ⟨r, found, empty, left⟩ := settled
  have idle : ∀ r', st.validators.get? i = some r' → r'.isActiveAt st.epoch = false := by
    intro r' found'
    rw [found] at found'
    cases found'
    simp only [ValidatorRecord.isActiveAt, decide_eq_false_iff_not]
    omega
  have unpaid : st.pendingFeeRewards.get? i = none := by
    by_contra waiting
    obtain ⟨r', found', active⟩ := fees waiting
    simp [idle r' found'] at active
  have stake : stakeAt i (CommittedState.closeEpoch env st) = stakeAt i st := stakeAt_closeEpoch idle unpaid
  simp only [stakeAt, found, map_some, empty] at stake
  obtain ⟨r', found', empty'⟩ := map_eq_some_iff.mp stake
  have listed := identity_closeEpoch env st i
  simp only [found, found', map_some, Option.some.injEq, Prod.mk.injEq] at listed
  refine ⟨r', found', empty', ?_⟩
  rw [epoch_closeEpoch, listed.2]
  omega

/-- What keeps an empty bond empty. -/
structure BondsKept (st : CommittedState) : Prop where
  small : st.epoch < 2 ^ 59
  exits : st.ExitsFirst
  fees : st.FeesOnDuty

theorem ChainStep.bondsKept (chain : ChainStep env st event post) (kept : st.BondsKept) : post.BondsKept := by
  obtain ⟨step, credits⟩ := chain
  have small : st.epoch < u64Max := kept.small.trans (by decide)
  refine ⟨step.epoch_lt kept.small, ?_, ?_⟩
  · by_cases closes : event = .closeEpoch
    · subst closes
      cases step
      exact ExitsFirst.closeEpoch kept.exits
    · exact (step.stakeChange closes).exitsFirst kept.exits
  · intro i waiting
    by_cases closes : event = .closeEpoch
    · subst closes
      cases step
      rw [pendingFeeRewards_closeEpoch] at waiting
      exact absurd rfl waiting
    · refine step.onDuty closes small ?_
      obtain same | duty := credits closes i
      · exact kept.fees (same ▸ waiting)
      · exact duty

theorem ChainStep.settled (chain : ChainStep env st event post) (kept : st.BondsKept)
    (settled : st.Settled i) : post.Settled i := by
  by_cases closes : event = .closeEpoch
  · subst closes
    cases chain.1
    exact settled.closeEpoch kept.fees
  · exact chain.1.settled_inside closes (kept.small.trans (by decide)) settled

theorem Initial.bondsKept (initial : Initial env st) : st.BondsKept := by
  obtain ⟨gen, -, l2, rfl, -⟩ := initial.eq_genesisState
  refine ⟨Nat.two_pow_pos 59, ?_, fun waiting => absurd rfl waiting⟩
  intro i r found
  obtain ⟨v, -, same⟩ := List.mem_map.mp (mem_of_get?_ofList found)
  cases same
  exact le_rfl

end

end CommittedState

end BlochPos
