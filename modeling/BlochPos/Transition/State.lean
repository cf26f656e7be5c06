import BlochPos.Committees
import BlochPos.Finality.Engine
import BlochPos.ForkChoice.Store
import BlochPos.Kes
import BlochPos.Slashing.State
import BlochPos.Transition.Eutxo
import BlochPos.Transition.Wire

/-! The state a block leaves behind, its genesis, and what is read off it. -/
namespace BlochPos

open ForkChoice (Store LatestMessage)

/-- What the transition is built with: hashes, gates, a verifier, the pinned policy of the execution layer and
the library's binary search. -/
structure Env where
  crypto : Crypto
  gates : Gates
  verifier : SignatureVerifier
  activationPolicy : Option L2.Activation
  developmentProfile : L2.Profile
  search : Registry.KeySearch
  searches : Registry.Searches search

def Env.activationFor (env : Env) (network : Option Bytes32) : Option L2.Activation :=
  network.bind (fun domain => env.activationPolicy.filter (fun a => a.policy.identities 0 = domain))

structure ValidatorRecord where
  index : ℕ
  pubkey : Bytes
  stakedSat : ℕ
  randaoCommitment : Bytes32
  withdrawalCredentials : Bytes
  (activationEpoch exitEpoch withdrawableEpoch : ℕ)
  slashed : Bool
  commissionBps : ℕ
deriving DecidableEq

def ValidatorRecord.isActiveAt (r : ValidatorRecord) (epoch : ℕ) : Bool :=
  r.activationEpoch ≤ epoch ∧ epoch < r.exitEpoch

/-- The state after a block. -/
structure CommittedState where
  admissionNetworkDomain : Option Bytes32
  (slot epoch : ℕ)
  head : Bytes32
  validators : SortedMap ℕ ValidatorRecord
  revealsUsed : SortedMap ℕ ℕ
  randaoMix : Bytes32
  boundaryMixes : SortedMap ℕ Bytes32
  genesisMix : Bytes32
  genesisCohort : List ℕ
  genesisPrincipalSat : SortedMap ℕ ℕ
  writtenOffSat : ℕ
  fundedValidators : Finset ℕ
  (stakeLowWater randaoGenerations : SortedMap ℕ ℕ)
  finalityEngine : FinalityState
  previousJustified : Checkpoint
  pendingVotes : SortedMap (ℕ ×ₗ Bytes32) AttestationData
  latestMessages : SortedMap ℕ LatestMessage
  fcEquivocators : Finset ℕ
  fcRecentVotes : SortedMap ℕ (SortedMap ℕ Bytes32)
  (currentParticipation previousParticipation : SortedMap ℕ Bool)
  depositHistory : List QueuedDeposit
  pubkeyIndex : SortedMap Bytes32 ℕ
  delegations : List Delegation
  fundedDelegationOwners : SortedMap ℕ Bytes32
  fundedDelegationLifecycle : SortedMap ℕ (ℕ × Bool)
  pendingFeeRewards : SortedMap ℕ ℕ
  slashing : SlashingState
  (delegatorSlashLosses delegatorFeeRewards validatorFeeRewards : SortedMap ℕ ℕ)
  delegatorIssuanceRewards : SortedMap ℕ ℕ
  currentProposed : SortedMap ℕ Bool
  (baseFeeMillisatPerGas blockGasUsed blockTxBytes : ℕ)
  (coherenceAccumulatorRoot coherenceNullifierRoot : Bytes32)
  l2Settlement : Option L2.State
  pqRescueCommits : SortedMap Bytes32 ℕ
  kes : SortedMap ℕ KesEntry
  kesEnforcedFrom : Option ℕ
  issuedSat : ℕ
  eutxos : Eutxos

def satU64 (x : ℕ) : ℕ := min x u64Max

def nativeScript (c : Crypto) (pubkey : Bytes) : Bytes32 := c.sha3 pubkey

/-- The leading 20 bytes of a digest, the rest zero. -/
def truncated (h : Bytes32) : Bytes32 := h - Fin.ofNat _ (h.val % 2 ^ 96)

def carriedScript (c : Crypto) (pubkey : Bytes) : Bytes32 := truncated (nativeScript c pubkey)

/-- A coin carried over from the earlier chain is locked to 20 bytes of a key's
digest. -/
def owns (keyHash scriptHash : Bytes32) : Bool :=
  keyHash = scriptHash ∨ (scriptHash.val % 2 ^ 96 = 0 ∧ keyHash.val / 2 ^ 96 = scriptHash.val / 2 ^ 96)

/-- The funded limit on what is delegated to one validator. -/
def MAX_FUNDED_DELEGATION_PER_VALIDATOR_SAT : ℕ := 500000000 * SAT_PER_BLOCH

def positionKey (position : ℕ) : ℕ := position % 2 ^ 32

namespace CommittedState

section

variable (g : Gates) (st : CommittedState) (epoch : ℕ)

def keys : KeyLookup where
  pubkey validator := (st.validators.get? validator).map ValidatorRecord.pubkey
  kesPublic validator period := (st.kes.get? validator).map (fun entry => entry.inForce period)
  kesNetworkDomain := some (st.admissionNetworkDomain.getD 0)
  kesEnforcedFrom := some st.kesEnforcedFrom

def seedForEpoch : Bytes32 :=
  let lookahead := if epochGateActive epoch g.ancestrySeed then MIN_SEED_LOOKAHEAD_EPOCHS else 0
  match checkedSub epoch (1 + lookahead) with
  | none => st.genesisMix
  | some src => st.boundaryMixes.getD src st.genesisMix

def delegatedAt : List Validator :=
  let reg := Registry.resolve st.delegations epoch
  if g.fundedDelegationActive epoch then
    reg.validatorsWithAbsoluteCap MAX_FUNDED_DELEGATION_PER_VALIDATOR_SAT
  else reg.validators

def activeAt : List (ℕ × ValidatorRecord) :=
  st.validators.entries.filter (fun e => e.2.isActiveAt epoch)

def dutyRosterAt : List Validator :=
  let delegated := st.delegatedAt g epoch
  let roster : List Validator := (st.activeAt epoch).map (fun e =>
    ⟨e.1, satAdd u64Max (satU64 e.2.stakedSat)
      (((delegated.find? (fun v => v.index = e.1)).map Validator.effectiveStake).getD 0)⟩)
  let capped :=
    if g.feeStakeDecoupleActive epoch then
      let cap := combinedCapSat (roster.map Validator.effectiveStake)
      roster.map (fun v => ⟨v.index, if cap < v.effectiveStake then satU64 cap else v.effectiveStake⟩)
    else roster
  applyCohortCap capped st.genesisCohort epoch

def withLeakApplied (roster : List Validator) (leaked : SortedMap ℕ ℕ) : List Validator :=
  roster.map (fun v => ⟨v.index, v.effectiveStake - leaked.getD v.index 0⟩)

def consensusRosterAt : List Validator :=
  let roster := st.dutyRosterAt g epoch
  if epoch < g.leakedRoster then roster
  else
    let leaked := withLeakApplied roster st.finalityEngine.leaked
    if g.dutyRosterRecoveryActive epoch ∧ ¬ ∃ v ∈ leaked, 0 < v.effectiveStake then roster
    else leaked

def totalActiveStakeSat : ℕ := totalStake (st.dutyRosterAt g st.epoch)

def ownCheckpointRoot : Option Bytes32 :=
  st.finalityEngine.ownCheckpoints.get? epoch

def isWithdrawn (position : ℕ) : Bool :=
  ((st.fundedDelegationLifecycle.get? (positionKey position)).map Prod.snd).getD false

/-- The principal of the delegations not paid out. -/
def delegatedSat : ℕ :=
  ((st.delegations.zipIdx.filter (fun d => !st.isWithdrawn d.2)).map (fun d => d.1.amountSat)).sum

def bondedSat : ℕ := st.validators.sum (fun _ r => r.stakedSat)

def ledgerSat (ledger : SortedMap ℕ ℕ) : ℕ := ledger.sum (fun _ sat => sat)

def escrowSat : ℕ := (st.l2Settlement.map L2.State.escrowSat).getD 0

def heldSat : ℕ :=
  st.eutxos.totalSat + st.bondedSat + st.delegatedSat + ledgerSat st.pendingFeeRewards +
    ledgerSat st.delegatorFeeRewards + ledgerSat st.validatorFeeRewards +
    ledgerSat st.delegatorIssuanceRewards + st.escrowSat

def burnedSat : ℕ := ledgerSat st.delegatorSlashLosses

def accountedSupplySat : ℕ := st.heldSat - st.burnedSat

def supplyConserved (pre post : CommittedState) (unfundedBonded : ℕ) : Bool :=
  post.accountedSupplySat ≤
    satAdd u128Max (satAdd u128Max pre.accountedSupplySat (post.issuedSat - pre.issuedSat))
      unfundedBonded

def nextBaseFeeAt : ℕ :=
  nextBaseFee g st.baseFeeMillisatPerGas st.blockGasUsed st.blockTxBytes epoch

end

/-- The fork-choice part while a block adds its votes. -/
structure FcAccum where
  store : Store
  latestMessages : SortedMap ℕ LatestMessage
  fcEquivocators : Finset ℕ
  fcRecentVotes : SortedMap ℕ (SortedMap ℕ Bytes32)

namespace FcAccum

def bar (a : FcAccum) (validators : Finset ℕ) (horizon : Bool) : FcAccum :=
  { a with
    fcEquivocators := a.fcEquivocators ∪ validators
    latestMessages := a.latestMessages.filter (fun v _ => v ∉ validators)
    fcRecentVotes := if horizon then a.fcRecentVotes.filter (fun v _ => v ∉ validators)
      else a.fcRecentVotes }

/-- Whether a vote conflicts with a recent one of its slot; if there is none,
it becomes one. -/
def recordRecentVoteConflicts (a : FcAccum) (validator : ℕ) (msg : LatestMessage) : Bool × FcAccum :=
  let votes := a.fcRecentVotes.getD validator .empty
  match votes.get? msg.slot with
  | some prev => (prev ≠ msg.root, a)
  | none =>
    (false, { a with fcRecentVotes := a.fcRecentVotes.insert validator (votes.insert msg.slot msg.root) })

def take (a : FcAccum) (validator : ℕ) (msg : LatestMessage) : FcAccum :=
  let (taken, store) := a.store.observe validator msg
  { a with
    store
    latestMessages := if taken then a.latestMessages.insert validator msg else a.latestMessages }

def observe (horizon : Bool) (a : FcAccum) (att : Attestation) : FcAccum :=
  let msg : LatestMessage := ⟨att.data.slot, att.data.head⟩
  if att.validator ∈ a.fcEquivocators then a
  else if horizon then
    let (conflict, recorded) := a.recordRecentVoteConflicts att.validator msg
    if conflict then recorded.bar {att.validator} true else recorded.take att.validator msg
  else a.take att.validator msg

end FcAccum

def recentVoteFloor (blockSlot : ℕ) : ℕ := blockSlot - (FORKCHOICE_EQUIVOCATION_HORIZON_SLOTS - 1)

def pruneRecentVotes (votes : SortedMap ℕ (SortedMap ℕ Bytes32)) (blockSlot : ℕ) :
    SortedMap ℕ (SortedMap ℕ Bytes32) :=
  (votes.mapVal (fun _ v => v.filter (fun slot _ => recentVoteFloor blockSlot ≤ slot))).filter
    (fun _ v => v.entries ≠ [])

def accumulateForkchoice (g : Gates) (st : CommittedState) (roster : List Validator)
    (attestations : List Attestation) (blockSlot : ℕ) : CommittedState :=
  let horizon := g.forkchoiceEquivocationHorizonActive st.epoch
  let staked := roster.foldl (fun s v => s.setStake v.index v.effectiveStake) Store.new
  let store := st.latestMessages.entries.foldl (fun s m => (s.observe m.1 m.2).2) staked
  let start : FcAccum := ⟨store, st.latestMessages, st.fcEquivocators, st.fcRecentVotes⟩
  let voted := attestations.foldl (FcAccum.observe horizon) start
  let barred := voted.bar voted.store.equivocators horizon
  { st with
    latestMessages := barred.latestMessages
    fcEquivocators := barred.fcEquivocators
    fcRecentVotes := if horizon then pruneRecentVotes barred.fcRecentVotes blockSlot
      else barred.fcRecentVotes }

end CommittedState

structure GenesisValidator where
  index : ℕ
  pubkey : Bytes
  stakedSat : ℕ
  randaoCommitment : Bytes32
  withdrawalCredentials : Bytes
  commissionBps : ℕ

def GenesisValidator.record (v : GenesisValidator) : ValidatorRecord where
  index := v.index
  pubkey := v.pubkey
  stakedSat := v.stakedSat
  randaoCommitment := v.randaoCommitment
  withdrawalCredentials := v.withdrawalCredentials
  activationEpoch := 0
  exitEpoch := u64Max
  withdrawableEpoch := u64Max
  slashed := false
  commissionBps := v.commissionBps

structure Genesis where
  (block mix : Bytes32)
  validators : List GenesisValidator
  cohort : List ℕ
  (coherenceAccumulatorRoot coherenceNullifierRoot : Bytes32)
  openingBalances : List EutxoEntry

namespace CommittedState

def unparticipated (roster : List Validator) : SortedMap ℕ Bool :=
  .ofList (roster.map (fun v => (v.index, false)))

def genesisState (env : Env) (gen : Genesis) : CommittedState :=
  let st : CommittedState :=
    { admissionNetworkDomain := none
      slot := 0
      epoch := 0
      head := gen.block
      validators := .ofList (gen.validators.map (fun v => (v.index, v.record)))
      revealsUsed := .ofList (gen.validators.map (fun v => (v.index, 0)))
      randaoMix := gen.mix
      boundaryMixes := .empty
      genesisMix := gen.mix
      genesisCohort := (gen.cohort.insertionSort (· ≤ ·)).dedup
      genesisPrincipalSat := .ofList (gen.validators.map (fun v => (v.index, v.stakedSat)))
      writtenOffSat := 0
      fundedValidators := ∅
      stakeLowWater := .empty
      randaoGenerations := .empty
      finalityEngine := .new ⟨0, gen.block⟩
      previousJustified := ⟨0, gen.block⟩
      pendingVotes := .empty
      latestMessages := .empty
      fcEquivocators := ∅
      fcRecentVotes := .empty
      currentParticipation := .empty
      previousParticipation := .empty
      depositHistory := []
      pubkeyIndex := .ofList (gen.validators.map (fun v => (env.crypto.sha3 v.pubkey, v.index)))
      delegations := []
      fundedDelegationOwners := .empty
      fundedDelegationLifecycle := .empty
      pendingFeeRewards := .empty
      slashing := .new
      delegatorSlashLosses := .empty
      delegatorFeeRewards := .empty
      validatorFeeRewards := .empty
      delegatorIssuanceRewards := .empty
      currentProposed := .empty
      baseFeeMillisatPerGas := MIN_BASE_FEE_MILLISAT_PER_GAS
      blockGasUsed := 0
      blockTxBytes := 0
      coherenceAccumulatorRoot := gen.coherenceAccumulatorRoot
      coherenceNullifierRoot := gen.coherenceNullifierRoot
      l2Settlement := none
      pqRescueCommits := .empty
      kes := .empty
      kesEnforcedFrom := none
      issuedSat := GENESIS_ISSUED_SAT
      eutxos := .ofList gen.openingBalances }
  { st with currentParticipation := unparticipated (st.dutyRosterAt env.gates 0) }

/-- The genesis; it refuses to start with more coins than were issued and the
recorded unfunded bonds. -/
def genesis (env : Env) (gen : Genesis) : Option CommittedState :=
  let st := genesisState env gen
  if st.accountedSupplySat ≤ satAdd u128Max st.issuedSat GENESIS_UNFUNDED_BONDED_CEILING_SAT
  then some st else none

def genesisWithNetworkDomain (env : Env) (networkDomain : Bytes32) (gen : Genesis) : Option CommittedState :=
  (genesis env gen).map (fun st => { st with admissionNetworkDomain := some networkDomain })

def configureL2Genesis (env : Env) (st : CommittedState) (policy : L2.Policy) (asynchronous : Bool) :
    Except L2.Reject CommittedState := do
  Attempt.refuse (st.slot ≠ 0 ∨ st.epoch ≠ 0 ∨ st.l2Settlement ≠ none ∨
    st.admissionNetworkDomain ≠ some (policy.identities 0) ∨ st.head ≠ policy.identities 1) .policy
  let l2 ← (if asynchronous then L2.State.genesisAsync env.crypto env.developmentProfile policy
    else L2.State.genesis env.crypto env.developmentProfile policy)
  pure { st with l2Settlement := some l2 }

end CommittedState

namespace CommittedState

theorem escrowSat_genesis (started : L2.State.genesis c development policy = .ok l2) : l2.escrowSat = 0 := by
  unfold L2.State.genesis at started
  split_ifs at started
  cases started
  rfl

/-- The states a network may start in. -/
inductive Initial (env : Env) : CommittedState → Prop where
  | genesis {gen st} (started : genesis env gen = some st) : Initial env st
  | network {gen domain st}
      (started : genesisWithNetworkDomain env domain gen = some st) : Initial env st
  | configured {st post policy asynchronous} (started : Initial env st)
      (configured : configureL2Genesis env st policy asynchronous = .ok post) : Initial env post

theorem genesis_eq_some (started : (genesis env gen).isSome) : genesis env gen = some (genesisState env gen) := by
  simp only [genesis, Option.isSome_ite] at started ⊢
  exact if_pos started

theorem initial_genesisState (started : (genesis env gen).isSome) : Initial env (genesisState env gen) :=
  .genesis (genesis_eq_some started)

theorem initial_network (started : (genesis env gen).isSome) (domain : Bytes32) :
    Initial env { genesisState env gen with admissionNetworkDomain := some domain } := by
  have named : genesisWithNetworkDomain env domain gen = _ := congrArg (Option.map _) (genesis_eq_some started)
  exact .network named

/-- A start is the state of a genesis, perhaps with a network domain and an
execution layer that holds nothing yet. -/
theorem Initial.eq_genesisState (initial : Initial env st) :
    ∃ gen domain l2, st = { genesisState env gen with admissionNetworkDomain := domain, l2Settlement := l2 } ∧
      (l2.map L2.State.escrowSat).getD 0 = 0 := by
  induction initial with
  | @genesis gen st started =>
    simp only [CommittedState.genesis] at started
    split_ifs at started
    cases started
    exact ⟨gen, none, none, rfl, rfl⟩
  | @network gen domain st started =>
    simp only [genesisWithNetworkDomain, CommittedState.genesis, Option.map_eq_some_iff] at started
    obtain ⟨st', started, rfl⟩ := started
    split_ifs at started
    cases started
    exact ⟨gen, some domain, none, rfl, rfl⟩
  | @configured st post policy asynchronous _ configured ih =>
    obtain ⟨gen, domain, _, rfl, -⟩ := ih
    simp only [configureL2Genesis, Attempt.ok_iff] at configured
    obtain ⟨-, l2, started, rfl⟩ := configured
    refine ⟨gen, domain, some l2, rfl, ?_⟩
    split_ifs at started
    · simp only [L2.State.genesisAsync, Attempt.ok_iff] at started
      obtain ⟨fresh, started, rfl⟩ := started
      have empty : fresh.escrowSat = 0 := escrowSat_genesis started
      exact empty
    · exact escrowSat_genesis started

end CommittedState

/-- A verifier that accepts everything; a digest is its input read as a number. -/
def Env.accepting (gates : Gates) : Env where
  crypto := ⟨toHash, toHash, fun _ _ => 0⟩
  gates := gates
  verifier := ⟨fun _ _ _ => true, fun _ _ _ _ => true, fun _ _ _ _ => true, fun _ _ _ _ => true,
    fun _ _ _ _ => true⟩
  activationPolicy := none
  developmentProfile := .ofLimits .development
  search := Registry.firstMatch
  searches := Registry.firstMatch_searches

def Genesis.small (count : ℕ) : Genesis where
  block := 1
  mix := 1
  validators := (List.range count).map (fun i => ⟨i, [UInt8.ofNat i], MIN_DEPOSIT_SAT, 0, [], 0⟩)
  cohort := []
  coherenceAccumulatorRoot := 0
  coherenceNullifierRoot := 0
  openingBalances := []

end BlochPos
