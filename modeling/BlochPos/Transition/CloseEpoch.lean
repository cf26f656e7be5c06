import BlochPos.Transition.PqMigration

/-! The close of an epoch: votes are tallied, issuance and fees paid out, deposits activated, and
the next epoch entered. -/
namespace BlochPos

def votesFromPartition (c : Crypto) (epoch : ℕ) (activeSet partitionSet : List Validator)
    (attestations : List (ℕ × AttestationData)) (beaconMix : Bytes32) : EpochVotes :=
  let committees := epochCommittees c beaconMix epoch partitionSet
  { epoch
    activeSet
    attestations := attestations.filter (fun vote =>
      (committees[vote.2.slot % SLOTS_PER_EPOCH]?).any (fun committee => vote.1 ∈ committee)) }

namespace CommittedState

variable {B : Type} {view : CommittedState → B}

section

variable (env : Env) (t : IssuanceTerms) (st : CommittedState) (epoch : ℕ)

def admittedVotes : List (ℕ × AttestationData) :=
  st.pendingVotes.entries.map (fun vote => ((ofLex vote.1).1, vote.2))

def boundaryVotes : EpochVotes :=
  votesFromPartition env.crypto st.epoch (st.dutyRosterAt env.gates st.epoch)
    (st.consensusRosterAt env.gates st.epoch) st.admittedVotes (st.seedForEpoch env.gates st.epoch)

/-- The genesis epoch has no votes to tally. -/
def tallyVotes : CommittedState :=
  if st.epoch < 1 then st
  else
    { st with
      previousJustified := st.finalityEngine.currentJustified
      finalityEngine := (st.finalityEngine.processEpoch env.gates (st.boundaryVotes env)).2 }

def namesOwnCheckpoints (data : AttestationData) : Bool :=
  st.ownCheckpointRoot data.targetEpoch = some data.targetRoot ∧
    (st.ownCheckpointRoot data.sourceEpoch).all (fun root => root = data.sourceRoot) = true

def ownChainCredit (g : Gates) (st : CommittedState) : Option (Finset ℕ) :=
  if g.ownTargetVotesActive st.epoch then
    let current := st.admittedVotes.filter (fun vote => vote.2.targetEpoch = st.epoch)
    let own := current.filter (fun vote => st.namesOwnCheckpoints vote.2)
    let foreign := current.filter (fun vote => !st.namesOwnCheckpoints vote.2)
    some ((own.map Prod.fst).toFinset \ (foreign.map Prod.fst).toFinset)
  else none

/-- A pass over the pending votes: the first root of each validator, and who
voted for another one. -/
structure VoteScan where
  seenRoot : SortedMap ℕ Bytes32
  equivocated : Finset ℕ
  validCredit : SortedMap ℕ Bool

def scanVote (scan : VoteScan) (vote : (ℕ ×ₗ Bytes32) × AttestationData) : VoteScan :=
  let validator := (ofLex vote.1).1
  let root := (ofLex vote.1).2
  match scan.seenRoot.get? validator with
  | some prior =>
    if prior ≠ root then { scan with equivocated := insert validator scan.equivocated } else scan
  | none =>
    { scan with
      seenRoot := scan.seenRoot.insert validator root
      validCredit := scan.validCredit.insert validator
        (vote.2.targetEpoch = st.epoch ∧ vote.2.sourceEpoch = st.previousJustified.epoch) }

def validCredit : SortedMap ℕ Bool :=
  let scan := st.pendingVotes.entries.foldl st.scanVote ⟨.empty, ∅, .empty⟩
  scan.validCredit.mapVal (fun validator ok => ok && validator ∉ scan.equivocated)

def epochSlots : List ℕ := List.range' (epoch * SLOTS_PER_EPOCH) SLOTS_PER_EPOCH

def scheduledToPropose (roster : List Validator) : Finset ℕ :=
  ((epochSlots st.epoch).filterMap (fun slot =>
    proposer env.crypto (st.seedForEpoch env.gates st.epoch) slot roster)).toFinset

def epochIssuanceSat : ℕ :=
  min ((epochSlots st.epoch).map validatorRewardDecaySat).sum (TOTAL_SUPPLY_SAT - st.issuedSat)

/-- What an epoch's issuance is divided by. -/
structure IssuanceTerms where
  (rewardsV2 funded : Bool)
  registry : Option Registry
  search : Registry.KeySearch
  validCredit : SortedMap ℕ Bool
  ownChainCredit : Option (Finset ℕ)
  scheduledToPropose : Finset ℕ
  roster : List Validator
  epochIssuance : ℕ

def issuanceTerms : IssuanceTerms :=
  let rewardsV2 := env.gates.rewardsV2Active st.epoch
  let funded := env.gates.fundedDelegationActive st.epoch
  let roster := if rewardsV2 then st.consensusRosterAt env.gates st.epoch
    else st.dutyRosterAt env.gates st.epoch
  { rewardsV2
    funded
    registry := if rewardsV2 || funded then some (Registry.resolve st.delegations st.epoch) else none
    search := env.search
    validCredit := if rewardsV2 then st.validCredit else .empty
    ownChainCredit := st.ownChainCredit env.gates
    scheduledToPropose := if rewardsV2 then st.scheduledToPropose env roster else ∅
    roster
    epochIssuance := st.epochIssuanceSat }

def stakedOf (index : ℕ) : ℕ :=
  ((st.validators.get? index).map ValidatorRecord.stakedSat).getD 0

/-- Effective stake split between an operator and its delegators. -/
def fundedShares (effective own delegated : ℕ) : ℕ × ℕ :=
  let delegated := min delegated MAX_FUNDED_DELEGATION_PER_VALIDATOR_SAT
  let weight := if own + delegated = 0 then 0 else effective * delegated / (own + delegated)
  (effective - weight, weight)

def issuanceAccount (v : Validator) : StakeAccount :=
  let attested : Bool :=
    (if t.rewardsV2 then t.validCredit.getD v.index false
      else st.currentParticipation.getD v.index false) &&
    (t.ownChainCredit.all (fun own => v.index ∈ own))
  let delegated := (t.registry.map (fun registry => registry.stakeOf v.index)).getD 0
  let commission := (t.registry.bind (fun _ => st.validators.get? v.index)).map
    ValidatorRecord.commissionBps
  let scheduled : Bool := t.rewardsV2 ∧ v.index ∈ t.scheduledToPropose
  let produced : Bool := t.rewardsV2 ∧ st.currentProposed.getD v.index false
  let shares := if t.funded then fundedShares v.effectiveStake (st.stakedOf v.index) delegated
    else (v.effectiveStake, delegated)
  { selfStake := shares.1
    delegatedStake := shares.2
    commissionBps := commission.getD 0
    credits := attested.toNat + (scheduled && produced).toNat
    maxCredits := 1 + scheduled.toNat }

/-- Issue coins onto a validator's stake; without a record none are issued. -/
def issueToValidator (index amountSat : ℕ) : CommittedState :=
  match st.validators.get? index with
  | none => st
  | some r =>
    { st.setRecord index { r with stakedSat := r.stakedSat + amountSat } with
      issuedSat := st.issuedSat + amountSat }

def issueToDelegator (share : ℕ × ℕ) : CommittedState :=
  { st with
    delegatorIssuanceRewards := st.delegatorIssuanceRewards.addAt share.1 share.2
    issuedSat := st.issuedSat + share.2 }

def delegatorStakes (search : Registry.KeySearch) (st : CommittedState) (registry : Registry) (validator : ℕ) :
    List (ℕ × ℕ) :=
  ((st.delegations.filter (fun d => d.validator = validator ∧ 0 < registry.activatedSat search d)).foldl
    (fun m d => m.addAt d.delegator (registry.activatedSat search d)) SortedMap.empty).entries

def paid (shares : List (ℕ × ℕ)) : List (ℕ × ℕ) := shares.filter (fun share => 0 < share.2)

def issueOne (v : Validator) : CommittedState :=
  let payout := distribute (issuanceAccount t st v) t.epochIssuance (totalStake t.roster)
  let st := if 0 < payout.operator then st.issueToValidator v.index payout.operator else st
  match t.registry.filter (fun _ => 0 < payout.delegators) with
  | none => st
  | some registry =>
    let (shares, dust) := splitDelegatorFees (st.delegatorStakes t.search registry v.index) payout.delegators
    let st := (paid shares).foldl issueToDelegator st
    if 0 < dust then st.issueToValidator v.index dust else st

def payIssuance : CommittedState :=
  if 0 < totalStake t.roster then t.roster.foldl (issueOne t) st else st

/-- Pay one producer's fees; an operator's share is taken of the stake it had
before the epoch's issuance. -/
def payFee (staked : SortedMap ℕ ValidatorRecord) (registry : Registry) (st : CommittedState) (fee : ℕ × ℕ) :
    CommittedState :=
  match st.validators.get? fee.1 with
  | none => st
  | some r =>
    let payout := distributeProducerFees
      { selfStake := ((staked.get? fee.1).map ValidatorRecord.stakedSat).getD r.stakedSat
        delegatedStake := registry.stakeOf fee.1
        commissionBps := r.commissionBps
        credits := 1
        maxCredits := 1 } fee.2
    let (shares, dust) := splitDelegatorFees (st.delegatorStakes env.search registry fee.1) payout.delegators
    let st := { st with
      delegatorFeeRewards :=
        (paid shares).foldl (fun m share => m.addAt share.1 share.2) st.delegatorFeeRewards }
    let operatorCredit := payout.operator + dust
    if env.gates.feeStakeDecoupleActive st.epoch then
      if 0 < operatorCredit then
        { st with validatorFeeRewards := st.validatorFeeRewards.addAt fee.1 operatorCredit }
      else st
    else st.setRecord fee.1 { r with stakedSat := r.stakedSat + operatorCredit }

def payFees (staked : SortedMap ℕ ValidatorRecord) (st : CommittedState) : CommittedState :=
  st.pendingFeeRewards.entries.foldl (payFee env staked (Registry.resolve st.delegations st.epoch))
    { st with pendingFeeRewards := .empty }

def retireMix : CommittedState :=
  { st with
    boundaryMixes := (st.boundaryMixes.insert st.epoch st.randaoMix).filter
      (fun e _ => st.epoch - (RANDAO_BOUNDARIES_RETAINED - 1) ≤ e) }

def activate (st : CommittedState) (index : ℕ) : CommittedState :=
  match st.validators.get? index with
  | none => st
  | some r => st.setRecord index { r with activationEpoch := epoch }

def queuedActivations : List ℕ :=
  ((resolveActivations st.depositHistory epoch).filter (fun a => a.2 = epoch)).filterMap (fun a =>
    (st.pubkeyIndex.get? a.1).filter (fun index => index ∉ st.fundedValidators))

/-- The order in which funded deposits activate: deposit epoch, priority, key, index. -/
abbrev ActivationKey := ℕ ×ₗ Bytes32 ×ₗ Bytes32 ×ₗ ℕ

def activationKey (d : QueuedDeposit) : Option ActivationKey := do
  let index ← st.pubkeyIndex.get? d.pubkeyHash
  let r ← st.validators.get? index
  let priority := activationQueuePriority env.crypto (env.gates.activationQueueV2Active epoch)
    (st.seedForEpoch env.gates epoch) d.pubkeyHash
  if index ∈ st.fundedValidators ∧ r.activationEpoch = u64Max ∧ r.exitEpoch = u64Max ∧
      r.slashed = false ∧ d.depositEpoch < st.finalityEngine.finalized.epoch ∧
      (checkedAdd u64Max d.depositEpoch ACTIVATION_DELAY_EPOCHS).any (fun e => e ≤ epoch) then
    some (toLex (d.depositEpoch, toLex (priority, toLex (d.pubkeyHash, index))))
  else none

def ActivationKey.index (key : ActivationKey) : ℕ := (ofLex (ofLex (ofLex key).2).2).2

/-- Funded stake activated in the growth window that ends before an epoch. -/
def growthUsedSat : ℕ :=
  ((st.validators.entries.filter (fun e => e.1 ∈ st.fundedValidators ∧
    epoch - (GROWTH_WINDOW_EPOCHS - 1) ≤ e.2.activationEpoch ∧ e.2.activationEpoch < epoch)).map
      (fun e => e.2.stakedSat)).foldl (satAdd u128Max) 0

def finalizedActivations : List ℕ :=
  let eligible := (((st.depositHistory.filterMap (st.activationKey env epoch)).insertionSort
    (· ≤ ·)).take MAX_ACTIVATIONS_PER_EPOCH).map ActivationKey.index
  if env.gates.growthCapActive epoch ∧ eligible ≠ [] then
    let budget := growthBudgetSat (totalStake (st.dutyRosterAt env.gates (epoch - 1)))
    eligible.take (growthAdmissions budget (st.growthUsedSat epoch) (eligible.map st.stakedOf))
  else eligible

def activateDeposits : CommittedState :=
  let queued := (st.queuedActivations epoch).foldl (activate epoch) st
  (queued.finalizedActivations env epoch).foldl (activate epoch) queued

/-- Forward-secure keys bind once enough stake has registered them. -/
def bindKes (g : Gates) (st : CommittedState) : CommittedState :=
  if st.kesEnforcedFrom = none ∧ (g.kesPeriod st.epoch).isSome ∧
      KES_MIN_REGISTERED_STAKE_BPS ≤ st.kesRegisteredStakeBps g st.epoch then
    { st with kesEnforcedFrom := some (satAdd u64Max st.epoch KES_BIND_DELAY_EPOCHS) }
  else st

/-- An activation the execution layer refuses installs nothing. -/
def installL2 : CommittedState :=
  if st.l2Settlement = none ∧ env.gates.l2SettlementActive st.epoch = true then
    match (env.activationFor st.admissionNetworkDomain).map
        (L2.State.ofActivation env.crypto env.developmentProfile) with
    | some (.ok l2) => { st with l2Settlement := some l2 }
    | _ => st
  else st

def recordCheckpoints (g : Gates) (st : CommittedState) : CommittedState :=
  let st := if g.nativeClaimFinalityActive st.epoch then
      { st with
        l2Settlement := st.l2Settlement.map (fun l2 =>
          l2.recordCheckpointRoot st.epoch st.head st.finalityEngine.finalized.epoch) }
    else st
  if g.ownTargetVotesActive st.epoch then
    { st with finalityEngine := st.finalityEngine.recordOwnCheckpoint st.epoch st.head }
  else st

/-- Funded positions past their cool-down whose last stake has drained. -/
def newlyInactive : List ℕ :=
  let registry := Registry.resolve st.delegations st.epoch
  (st.delegations.zipIdx.filter (fun d =>
    d.2 < 2 ^ 32 ∧ st.fundedDelegationLifecycle.get? d.2 = some (u64Max, false) ∧
    (d.1.deactivateEpoch.bind (checkedAdd u64Max · COOLDOWN_EPOCHS)).any (fun e => e ≤ st.epoch) ∧
    st.fundedDelegationOwners.contains d.1.delegator ∧ registry.activatedSat env.search d.1 = 0)).map Prod.snd

def retireDelegations : CommittedState :=
  if env.gates.fundedDelegationActive st.epoch then
    { st with
      fundedDelegationLifecycle := (st.newlyInactive env).foldl
        (fun m position => m.insert position (st.epoch, false)) st.fundedDelegationLifecycle }
  else st

def resetDuties (g : Gates) (st : CommittedState) : CommittedState :=
  { st with
    pendingVotes := .empty
    previousParticipation := st.currentParticipation
    currentParticipation := unparticipated (st.consensusRosterAt g st.epoch)
    currentProposed := .empty }

def enterEpoch : CommittedState :=
  let entered := prunePqRescueCommits { st with epoch } epoch
  let installed := (entered.bindKes env.gates).installL2 env
  ((installed.recordCheckpoints env.gates).retireDelegations env).resetDuties env.gates

def closeEpoch : CommittedState :=
  let tallied := st.tallyVotes env
  let issued := tallied.payIssuance (tallied.issuanceTerms env)
  let settled := (issued.payFees env st.validators).retireMix
  (settled.activateDeposits env (st.epoch + 1)).enterEpoch env (st.epoch + 1)

end

section

variable (env : Env) (st : CommittedState)

/-- Once set, the epoch from which keys bind stays; it is set with a delay, once periods are counted. -/
def KesBinding (g : Gates) (st : CommittedState) (epoch : ℕ) (bound : Option ℕ) : Prop :=
  bound = st.kesEnforcedFrom ∨ (st.kesEnforcedFrom = none ∧ (g.kesPeriod epoch).isSome = true ∧
    bound = some (satAdd u64Max epoch KES_BIND_DELAY_EPOCHS))

theorem bindKes_eq : ∃ bound, st.bindKes env.gates = { st with kesEnforcedFrom := bound } ∧
    KesBinding env.gates st st.epoch bound := by
  unfold bindKes
  split_ifs with binds
  · exact ⟨_, rfl, .inr ⟨binds.1, binds.2.1, rfl⟩⟩
  · exact ⟨st.kesEnforcedFrom, rfl, .inl rfl⟩

theorem escrowSat_ofActivation
    (installed : L2.State.ofActivation c development a = .ok l2) : l2.escrowSat = 0 := by
  simp only [L2.State.ofActivation, Attempt.ok_iff] at installed
  obtain ⟨-, fresh, started, rfl⟩ := installed
  have empty : fresh.escrowSat = 0 := escrowSat_genesis started
  exact empty

theorem installL2_eq : ∃ l2, st.installL2 env = { st with l2Settlement := l2 } ∧
    (l2.map L2.State.escrowSat).getD 0 = st.escrowSat := by
  unfold installL2
  split_ifs with absent
  · split
    · next l2 policy =>
      obtain ⟨a, -, activated⟩ := Option.map_eq_some_iff.mp policy
      exact ⟨some l2, rfl, by simp [escrowSat, absent.1, escrowSat_ofActivation activated]⟩
    · exact ⟨st.l2Settlement, rfl, rfl⟩
  · exact ⟨st.l2Settlement, rfl, rfl⟩

theorem recordCheckpoints_eq : ∃ l2 engine,
    st.recordCheckpoints env.gates = { st with l2Settlement := l2, finalityEngine := engine } ∧
    engine = (if env.gates.ownTargetVotesActive st.epoch then
      st.finalityEngine.recordOwnCheckpoint st.epoch st.head else st.finalityEngine) ∧
    (l2.map L2.State.escrowSat).getD 0 = st.escrowSat := by
  have kept : ((st.l2Settlement.map (fun l2 => l2.recordCheckpointRoot st.epoch st.head
      st.finalityEngine.finalized.epoch)).map L2.State.escrowSat).getD 0 = st.escrowSat := by
    unfold escrowSat
    cases st.l2Settlement <;> rfl
  simp only [recordCheckpoints]
  split_ifs
  · exact ⟨_, _, rfl, rfl, kept⟩
  · exact ⟨_, st.finalityEngine, rfl, rfl, kept⟩
  · exact ⟨st.l2Settlement, _, rfl, rfl, rfl⟩
  · exact ⟨st.l2Settlement, st.finalityEngine, rfl, rfl, rfl⟩

theorem get?_mark {V : Type} (positions : List ℕ) (m : SortedMap ℕ V) (mark : V) (key : ℕ) :
    (positions.foldl (fun m position => m.insert position mark) m).get? key =
      if key ∈ positions then some mark else m.get? key := by
  induction positions generalizing m with
  | nil => simp
  | cons p rest ih =>
    rw [List.foldl_cons, ih, SortedMap.get?_insert]
    by_cases here : key = p <;> by_cases later : key ∈ rest <;> simp [here, later]

/-- Some of the positions that wait are marked as drained. -/
def Drains (epoch : ℕ) (before after : SortedMap ℕ (ℕ × Bool)) : Prop :=
  ∀ key, after.get? key = before.get? key ∨
    (before.get? key = some (u64Max, false) ∧ after.get? key = some (epoch, false))

theorem Drains.isWithdrawn_eq {epoch : ℕ} {st post : CommittedState}
    (drains : Drains epoch st.fundedDelegationLifecycle post.fundedDelegationLifecycle) (position : ℕ) :
    post.isWithdrawn position = st.isWithdrawn position := by
  unfold isWithdrawn
  rcases drains (positionKey position) with same | ⟨waits, marked⟩
  · rw [same]
  · rw [waits, marked]
    rfl

theorem retireDelegations_eq : ∃ lifecycle,
    st.retireDelegations env = { st with fundedDelegationLifecycle := lifecycle } ∧
    Drains st.epoch st.fundedDelegationLifecycle lifecycle := by
  unfold retireDelegations
  split_ifs
  · refine ⟨_, rfl, fun key => ?_⟩
    rw [get?_mark]
    split_ifs with member
    · simp only [newlyInactive, List.mem_map, List.mem_filter, decide_eq_true_eq] at member
      obtain ⟨entry, ⟨-, -, waiting, -⟩, rfl⟩ := member
      exact .inr ⟨waiting, rfl⟩
    · exact .inl rfl
  · exact ⟨st.fundedDelegationLifecycle, rfl, fun _ => .inl rfl⟩

theorem enterEpoch_eq (epoch : ℕ) : ∃ commits bound l2 engine lifecycle,
    st.enterEpoch env epoch = resetDuties env.gates { st with
      epoch
      pqRescueCommits := commits
      kesEnforcedFrom := bound
      l2Settlement := l2
      finalityEngine := engine
      fundedDelegationLifecycle := lifecycle } ∧
    commits = st.pqRescueCommits.filter (fun _ at_ => epoch ≤ satAdd u64Max at_ RESCUE_COMMIT_TTL_EPOCHS) ∧
    KesBinding env.gates st epoch bound ∧
    engine = (if env.gates.ownTargetVotesActive epoch then
      st.finalityEngine.recordOwnCheckpoint epoch st.head else st.finalityEngine) ∧
    (l2.map L2.State.escrowSat).getD 0 = st.escrowSat ∧
    Drains epoch st.fundedDelegationLifecycle lifecycle := by
  simp only [enterEpoch]
  generalize pruned : prunePqRescueCommits { st with epoch } epoch = entered
  obtain ⟨bound, bindEq, binding⟩ := entered.bindKes_eq env
  obtain ⟨fresh, installEq, installed⟩ := (entered.bindKes env.gates).installL2_eq env
  obtain ⟨l2, engine, recordEq, checkpoint, recorded⟩ :=
    ((entered.bindKes env.gates).installL2 env).recordCheckpoints_eq env
  obtain ⟨lifecycle, retireEq, drains⟩ :=
    (((entered.bindKes env.gates).installL2 env).recordCheckpoints env.gates).retireDelegations_eq env
  refine ⟨entered.pqRescueCommits, bound, l2, engine, lifecycle, ?_, pruned ▸ rfl, ?_, ?_, ?_, ?_⟩
  · rw [retireEq, recordEq, installEq, bindEq, ← pruned]
    rfl
  · rw [← pruned] at binding
    exact binding
  · rw [checkpoint, installEq, bindEq, ← pruned]
    rfl
  · rw [recorded, escrowSat, installEq, installed, bindEq, ← pruned]
    rfl
  · rw [recordEq, installEq, bindEq, ← pruned] at drains
    exact drains

/-- A view of what the entry into an epoch leaves alone. -/
theorem enterEpoch_leaves {view : CommittedState → B} {env : Env}
    (enters : ∀ (s : CommittedState) epoch commits bound l2 engine lifecycle,
      view (resetDuties env.gates { s with
        epoch
        pqRescueCommits := commits
        kesEnforcedFrom := bound
        l2Settlement := l2
        finalityEngine := engine
        fundedDelegationLifecycle := lifecycle }) = view s) (s : CommittedState) (epoch : ℕ) :
    view (s.enterEpoch env epoch) = view s := by
  obtain ⟨_, _, _, _, _, entered, -⟩ := s.enterEpoch_eq env epoch
  rw [entered, enters]

theorem tallyVotes_eq : ∃ engine justified,
    st.tallyVotes env = { st with finalityEngine := engine, previousJustified := justified } := by
  unfold tallyVotes
  split_ifs <;> exact ⟨_, _, rfl⟩

theorem epoch_enterEpoch (epoch : ℕ) : (st.enterEpoch env epoch).epoch = epoch := by
  obtain ⟨_, _, _, _, _, entered, -⟩ := st.enterEpoch_eq env epoch
  rw [entered]
  rfl

theorem epoch_closeEpoch : (closeEpoch env st).epoch = st.epoch + 1 := epoch_enterEpoch env _ _

theorem pendingVotes_closeEpoch : (closeEpoch env st).pendingVotes = .empty := rfl

end

/-- The part of a state no epoch close touches. Of a record it is the key and
the exit. -/
structure Standing where
  networkDomain : Option Bytes32
  identities : SortedMap ℕ (Bytes × ℕ)
  genesisPrincipalSat : SortedMap ℕ ℕ
  fundedValidators : Finset ℕ
  stakeLowWater : SortedMap ℕ ℕ
  depositHistory : List QueuedDeposit
  pubkeyIndex : SortedMap Bytes32 ℕ
  delegations : List Delegation
  delegatorSlashLosses : SortedMap ℕ ℕ
  kes : SortedMap ℕ KesEntry
  eutxos : Eutxos

def standing (st : CommittedState) : Standing where
  networkDomain := st.admissionNetworkDomain
  identities := st.validators.mapVal (fun _ r => (r.pubkey, r.exitEpoch))
  genesisPrincipalSat := st.genesisPrincipalSat
  fundedValidators := st.fundedValidators
  stakeLowWater := st.stakeLowWater
  depositHistory := st.depositHistory
  pubkeyIndex := st.pubkeyIndex
  delegations := st.delegations
  delegatorSlashLosses := st.delegatorSlashLosses
  kes := st.kes
  eutxos := st.eutxos

section

variable {st : CommittedState}

theorem standing_setRecord (found : st.validators.get? index = some r) (pubkey : r'.pubkey = r.pubkey)
    (exit : r'.exitEpoch = r.exitEpoch) : (st.setRecord index r').standing = st.standing := by
  have same : (st.validators.insert index r').mapVal (fun _ r => (r.pubkey, r.exitEpoch)) =
      st.validators.mapVal (fun _ r => (r.pubkey, r.exitEpoch)) :=
    SortedMap.mapVal_insert_of_same found (by rw [pubkey, exit])
  simp only [standing, setRecord, same]

end

/-! Until the next epoch is entered, a close pays out, retires the mix and activates
records. A view that shows none of this is left as it is by every stage. -/

/-- A view of what the issuance leaves alone. -/
structure Unissued {B : Type} (view : CommittedState → B) : Prop where
  record : ∀ {st : CommittedState} {index : ℕ} {r : ValidatorRecord} (stakedSat : ℕ),
    st.validators.get? index = some r → view (st.setRecord index { r with stakedSat }) = view st
  ledgers : ∀ (st : CommittedState) issued delegatorIssuance,
    view { st with issuedSat := issued, delegatorIssuanceRewards := delegatorIssuance } = view st

namespace Unissued

variable (unissued : Unissued view)
include unissued

theorem issueToValidator (st : CommittedState) (index amountSat : ℕ) :
    view (st.issueToValidator index amountSat) = view st := by
  unfold CommittedState.issueToValidator
  split
  · rfl
  · next r found =>
    exact (unissued.ledgers (st.setRecord index _) ..).trans (unissued.record _ found)

theorem issueOne (t : IssuanceTerms) (st : CommittedState) (v : Validator) :
    view (issueOne t st v) = view st := by
  have operator : ∀ (due : Prop) [Decidable due] (amount : ℕ) (s : CommittedState),
      view (if due then s.issueToValidator v.index amount else s) = view s := by
    intro due _ amount s
    split_ifs
    · exact unissued.issueToValidator ..
    · rfl
  simp only [CommittedState.issueOne]
  split
  · exact operator ..
  · have delegators : ∀ (s : CommittedState) (share : ℕ × ℕ), view (s.issueToDelegator share) = view s :=
      fun s _ => unissued.ledgers s ..
    rw [operator, List.foldl_leaves view delegators, operator]

theorem payIssuance (t : IssuanceTerms) (st : CommittedState) : view (payIssuance t st) = view st := by
  unfold CommittedState.payIssuance
  split_ifs
  · exact List.foldl_leaves view (unissued.issueOne t) ..
  · rfl

end Unissued

/-- A view of what the payment of fees and the activations leave alone. -/
structure Unfed {B : Type} (view : CommittedState → B) : Prop where
  record : ∀ {st : CommittedState} {index : ℕ} {r : ValidatorRecord} (stakedSat activationEpoch : ℕ),
    st.validators.get? index = some r →
    view (st.setRecord index { r with stakedSat, activationEpoch }) = view st
  ledgers : ∀ (st : CommittedState) delegatorFees validatorFees mixes,
    view { st with
      delegatorFeeRewards := delegatorFees
      validatorFeeRewards := validatorFees
      boundaryMixes := mixes } = view st

namespace Unfed

variable (unfed : Unfed view)
include unfed

theorem payFee (env : Env) (staked : SortedMap ℕ ValidatorRecord)
    (registry : Registry) (st : CommittedState) (fee : ℕ × ℕ) :
    view (payFee env staked registry st fee) = view st := by
  unfold CommittedState.payFee
  split
  · rfl
  · next r found =>
    dsimp only
    split_ifs
    · exact unfed.ledgers st ..
    · exact unfed.ledgers st ..
    · exact (unfed.ledgers (st.setRecord fee.1 _) ..).trans (unfed.record _ _ found)

theorem activate (epoch : ℕ) (st : CommittedState) (index : ℕ) :
    view (activate epoch st index) = view st := by
  unfold CommittedState.activate
  split
  · rfl
  · next r found => exact unfed.record _ _ found

/-- The state in which a close enters the next epoch: the fees are paid out after the issuance. -/
theorem closeEpoch (env : Env) (st : CommittedState) :
    ∃ settled, closeEpoch env st = settled.enterEpoch env (st.epoch + 1) ∧
      view settled = view { payIssuance ((st.tallyVotes env).issuanceTerms env) (st.tallyVotes env) with
        pendingFeeRewards := .empty } := by
  refine ⟨_, rfl, ?_⟩
  have mixed : ∀ s : CommittedState, view s.retireMix = view s := fun s => unfed.ledgers s ..
  simp only [activateDeposits, List.foldl_leaves view (unfed.activate _), mixed]
  exact List.foldl_leaves view (unfed.payFee _ _ _) ..

theorem closeEpoch_eq (enters : ∀ (s : CommittedState) epoch, view (s.enterEpoch env epoch) = view s) :
    view (CommittedState.closeEpoch env st) =
      view { payIssuance ((st.tallyVotes env).issuanceTerms env) (st.tallyVotes env) with
        pendingFeeRewards := .empty } := by
  obtain ⟨settled, close, same⟩ := unfed.closeEpoch env st
  rw [close, enters, same]

end Unfed

/-- A view of what the payments leave alone: of a record only the stake and the activation may change. -/
structure Steady {B : Type} (view : CommittedState → B) : Prop extends Unfed view where
  issues : ∀ (st : CommittedState) issued delegatorIssuance pending,
    view { st with
      issuedSat := issued
      delegatorIssuanceRewards := delegatorIssuance
      pendingFeeRewards := pending } = view st

/-- And the count of the votes does not show in it. -/
structure Aside {B : Type} (view : CommittedState → B) : Prop extends Steady view where
  tally : ∀ (st : CommittedState) engine justified,
    view { st with finalityEngine := engine, previousJustified := justified } = view st

theorem Steady.closeEpoch (steady : Steady view) (env : Env) (st : CommittedState) :
    ∃ settled, closeEpoch env st = settled.enterEpoch env (st.epoch + 1) ∧
      view settled = view (st.tallyVotes env) := by
  have unissued : Unissued view :=
    ⟨fun _ found => steady.record _ _ found, fun st _ _ => steady.issues st ..⟩
  obtain ⟨settled, close, same⟩ := steady.toUnfed.closeEpoch env st
  exact ⟨settled, close, same.trans ((steady.issues _ ..).trans (unissued.payIssuance ..))⟩

theorem Aside.closeEpoch (aside : Aside view) (env : Env) (st : CommittedState) :
    ∃ settled, closeEpoch env st = settled.enterEpoch env (st.epoch + 1) ∧ view settled = view st := by
  obtain ⟨settled, close, same⟩ := aside.toSteady.closeEpoch env st
  obtain ⟨_, _, tallied⟩ := st.tallyVotes_eq env
  exact ⟨settled, close, by rw [same, tallied, aside.tally]⟩

theorem Aside.closeEpoch_eq (aside : Aside view)
    (enters : ∀ (s : CommittedState) epoch, view (s.enterEpoch env epoch) = view s) (st : CommittedState) :
    view (CommittedState.closeEpoch env st) = view st := by
  obtain ⟨settled, close, same⟩ := aside.closeEpoch env st
  rw [close, enters, same]

theorem aside_standing : Aside standing where
  record _ _ found := standing_setRecord found rfl rfl
  ledgers _ _ _ _ := rfl
  issues _ _ _ _ := rfl
  tally _ _ _ := rfl

theorem standing_closeEpoch (env : Env) (st : CommittedState) : (closeEpoch env st).standing = st.standing :=
  aside_standing.closeEpoch_eq (enterEpoch_leaves (fun _ _ _ _ _ _ _ => rfl)) st

/-- A close leaves every validator its key and its exit. -/
theorem identity_closeEpoch (env : Env) (st : CommittedState) (i : ℕ) :
    ((closeEpoch env st).validators.get? i).map (fun r => (r.pubkey, r.exitEpoch)) =
      (st.validators.get? i).map (fun r => (r.pubkey, r.exitEpoch)) := by
  have kept := congrArg (fun s => s.identities.get? i) (standing_closeEpoch env st)
  simpa only [standing, SortedMap.get?_mapVal] using kept

theorem aside_lifecycle : Aside (fun st => (st.fundedDelegationLifecycle, st.fundedDelegationOwners)) where
  record _ _ _ := rfl
  ledgers _ _ _ _ := rfl
  issues _ _ _ _ := rfl
  tally _ _ _ := rfl

/-- What the header checks and the base fee read. -/
structure Baseline where
  slot : ℕ
  (head coherenceAccumulatorRoot coherenceNullifierRoot : Bytes32)
  (baseFeeMillisatPerGas blockGasUsed blockTxBytes : ℕ)

variable (env : Env) (st : CommittedState)

def baseline : Baseline where
  slot := st.slot
  head := st.head
  coherenceAccumulatorRoot := st.coherenceAccumulatorRoot
  coherenceNullifierRoot := st.coherenceNullifierRoot
  baseFeeMillisatPerGas := st.baseFeeMillisatPerGas
  blockGasUsed := st.blockGasUsed
  blockTxBytes := st.blockTxBytes

theorem aside_baseline : Aside baseline where
  record _ _ _ := rfl
  ledgers _ _ _ _ := rfl
  issues _ _ _ _ := rfl
  tally _ _ _ := rfl

theorem baseline_closeEpoch : (closeEpoch env st).baseline = st.baseline :=
  aside_baseline.closeEpoch_eq (enterEpoch_leaves (fun _ _ _ _ _ _ _ => rfl)) st

theorem aside_kesEnforcedFrom : Aside kesEnforcedFrom where
  record _ _ _ := rfl
  ledgers _ _ _ _ := rfl
  issues _ _ _ _ := rfl
  tally _ _ _ := rfl

theorem kesBinding_closeEpoch : KesBinding env.gates st (st.epoch + 1) (closeEpoch env st).kesEnforcedFrom := by
  obtain ⟨settled, close, same⟩ := aside_kesEnforcedFrom.closeEpoch env st
  obtain ⟨commits, bound, l2, engine, lifecycle, entered, -, binding, -⟩ :=
    settled.enterEpoch_eq env (st.epoch + 1)
  rw [close, entered]
  rwa [KesBinding, same] at binding

end CommittedState

end BlochPos
