import BlochPos.Transition.PqMigration

/-! Slashing evidence: what makes a pair of messages an offence, and what its acceptance takes. -/
namespace BlochPos

open Attempt

inductive EvidenceError where
  | differentValidators | notConflicting | alreadyApplied | alreadySlashed | unknownValidator
  | badSignature
deriving DecidableEq

namespace SlashingEvidence

def offender : SlashingEvidence → ℕ
  | .proposerEquivocation first _ => first.header.proposerIndex
  | .attestationOffence first _ => first.validator

def offense (c : Crypto) : SlashingEvidence → Except EvidenceError SlashableOffense
  | .proposerEquivocation first second => do
    refuse (first.header.proposerIndex ≠ second.header.proposerIndex) .differentValidators
    refuse (first.header.slot ≠ second.header.slot ∨ first.header.id c = second.header.id c)
      .notConflicting
    pure .proposerEquivocation
  | .attestationOffence first second => do
    refuse (first.validator ≠ second.validator) .differentValidators
    if first.data.isDoubleVote second.data then pure .doubleVote
    else if first.data.surrounds second.data ∨ second.data.surrounds first.data then pure .surroundVote
    else .error .notConflicting

/-- A message the offender signed: its epoch, the digest signed, the signature. -/
structure SignedMessage where
  epoch : ℕ
  root : Bytes32
  signature : Bytes

def messages (c : Crypto) : SlashingEvidence → SignedMessage × SignedMessage
  | .proposerEquivocation first second =>
    (⟨epochOf first.header.slot, first.header.proposalSigningRoot c, first.proposerSig⟩,
      ⟨epochOf second.header.slot, second.header.proposalSigningRoot c, second.proposerSig⟩)
  | .attestationOffence first second =>
    (⟨epochOf first.data.slot, first.data.signingRoot c, first.signature⟩,
      ⟨epochOf second.data.slot, second.data.signingRoot c, second.signature⟩)

/-- The pair's identity, whatever the order of its messages. -/
def id (c : Crypto) (e : SlashingEvidence) : Bytes32 :=
  let (first, second) := e.messages c
  c.sha3 (domainTag "BLCH4:SLASH" ++ leBytes 4 e.offender ++
    hashBytes (min first.root second.root) ++ hashBytes (max first.root second.root))

def offenceEpoch : SlashingEvidence → ℕ
  | .proposerEquivocation first second => max first.header.slot second.header.slot / SLOTS_PER_EPOCH
  | .attestationOffence first second => max first.data.targetEpoch second.data.targetEpoch

def predatesActivation (g : Gates) (e : SlashingEvidence) : Bool := e.offenceEpoch < g.slashingEvidence

def verifySigned (env : Env) (keys : KeyLookup) (validator : ℕ) (m : SignedMessage) :
    Except EvidenceError Unit :=
  let verifier := env.verifier.under (.consensus env.gates m.epoch)
  match Kes.verifyValidator env.crypto env.gates keys verifier validator m.epoch m.root m.signature with
  | none => .error .unknownValidator
  | some false => .error .badSignature
  | some true => .ok ()

/-- The checks of a pair against what has been punished already. -/
def judge (env : Env) (keys : KeyLookup) (slashing : SlashingState) (e : SlashingEvidence) :
    Except EvidenceError SlashableOffense := do
  let offense ← e.offense env.crypto
  refuse (e.id env.crypto ∈ slashing.applied) .alreadyApplied
  refuse (e.offender ∈ slashing.ejected) .alreadySlashed
  verifySigned env keys e.offender (e.messages env.crypto).1
  verifySigned env keys e.offender (e.messages env.crypto).2
  pure offense

end SlashingEvidence

/-- The record of a slashed validator: it is out from the next epoch on and its
stake stays locked. -/
def ValidatorRecord.punished (g : Gates) (r : ValidatorRecord) (epoch lossSat : ℕ) : ValidatorRecord :=
  let delay := if g.slashingEconomicsV2Active epoch then
    satAdd u64Max EXIT_DELAY_EPOCHS WITHDRAWAL_DELAY_EPOCHS else WITHDRAWAL_DELAY_EPOCHS
  let lock := satAdd u64Max epoch delay
  { r with
    slashed := true
    stakedSat := r.stakedSat - lossSat
    exitEpoch := min r.exitEpoch (satAdd u64Max epoch 1)
    withdrawableEpoch := if r.withdrawableEpoch = u64Max then lock else max r.withdrawableEpoch lock }

namespace CommittedState

variable {env : Env} {e : SlashingEvidence} {includingProposer : ℕ} {roster : List Validator}
  {st : CommittedState}

section

variable (env : Env) (g : Gates) (st : CommittedState) (e : SlashingEvidence)

/-- Each delegation as a slash sees it: at the part of it that counts, and out
of reach once its cool-down is over. -/
def slashExposure : List Delegation :=
  let registry := Registry.resolve st.delegations st.epoch
  st.delegations.map (fun d => { d with
    eligible := d.eligible && decide (registry.stateOf d ≠ .inactive)
    amountSat := registry.activatedSat env.search d })

/-- What accepted evidence changes. -/
structure Punishment where
  offender : ℕ
  record : ValidatorRecord
  outcome : SlashingOutcome
  slashing : SlashingState
  rewardSat : ℕ

/-- The offence as the ledger of offences takes it. -/
def offenceOf (offense : SlashableOffense) (record : ValidatorRecord) (includingProposer : ℕ)
    (roster : List Validator) : SlashingState.Offence where
  id := e.id env.crypto
  validator := e.offender
  offense := offense
  epoch := st.epoch
  ownBondSat := record.stakedSat
  delegations := st.slashExposure env
  offenderEffectiveSat := ((roster.find? (fun v => v.index = e.offender)).map Validator.effectiveStake).getD 0
  includingProposer := includingProposer

def planSlashingEvidence (includingProposer : ℕ) (roster : List Validator) : Except Unit Punishment := do
  let record ← orRefuse (st.validators.get? e.offender) ()
  refuse (st.isWriteOffIndeterminate e.offender = true) ()
  let unbacked := min (st.unbackedPrincipalSat env.crypto e.offender) record.stakedSat
  let offense ← (e.judge env st.keys st.slashing).mapError (fun _ => ())
  let (outcome, slashing) := st.slashing.commitOffense env.gates
    (st.offenceOf env e offense record includingProposer roster) (totalStake roster)
  let rewardSat := if env.gates.withdrawalActive st.epoch then
    min outcome.whistleblowerRewardSat (outcome.operatorLossSat - unbacked)
    else outcome.whistleblowerRewardSat
  pure ⟨e.offender, record, outcome, slashing, rewardSat⟩

def chargeLosses (ledger : SortedMap ℕ ℕ) (delegations : List Delegation) (losses : List ℕ) : SortedMap ℕ ℕ :=
  ((delegations.zip losses).filter (fun d => 0 < d.2)).foldl (fun m d => m.addAt d.1.delegator d.2)
    ledger

def withPunishment (p : Punishment) : CommittedState :=
  let record := p.record.punished g st.epoch p.outcome.operatorLossSat
  let floor := st.stakeLowWater.getD p.offender record.stakedSat
  { st with
    validators := st.validators.insert p.offender record
    stakeLowWater := st.stakeLowWater.insert p.offender (min floor record.stakedSat)
    slashing := p.slashing
    delegatorSlashLosses := chargeLosses st.delegatorSlashLosses st.delegations p.outcome.delegationLossesSat
    pendingFeeRewards := if 0 < p.rewardSat then
      st.pendingFeeRewards.addAt p.outcome.includingProposer p.rewardSat else st.pendingFeeRewards }

end

def applySlashingEvidence (env : Env) (e : SlashingEvidence) (includingProposer : ℕ)
    (roster : List Validator) : Attempt CommittedState Unit Unit :=
  transact (fun st => planSlashingEvidence env st e includingProposer roster)
    (withPunishment env.gates) (fun _ => ())

/-- What accepting a pair of messages establishes and does. -/
theorem applySlashingEvidence_eq_ok_iff :
    exec (applySlashingEvidence env e includingProposer roster) st = (.ok (), post) ↔
      ∃ p, planSlashingEvidence env st e includingProposer roster = .ok p ∧
        st.withPunishment env.gates p = post := by
  simp only [applySlashingEvidence, exec_transact_eq_ok_iff, true_and]

/-- What a punishment is measured by: the bond of the offender, of which a reward
is at most a part that was issued. -/
structure Punishment.Measured (env : Env) (st : CommittedState) (e : SlashingEvidence)
    (p : Punishment) : Prop where
  found : st.validators.get? e.offender = some p.record
  offender : p.offender = e.offender
  determinate : st.isWriteOffIndeterminate e.offender = false
  loss_le : p.outcome.operatorLossSat ≤ p.record.stakedSat
  reward_le : p.rewardSat ≤ p.outcome.operatorLossSat
  reward_backed : env.gates.withdrawalActive st.epoch = true → p.rewardSat ≤
    p.outcome.operatorLossSat - min (st.unbackedPrincipalSat env.crypto e.offender) p.record.stakedSat

theorem operatorLossSat_outcomeOf_le (g : Gates) (s : SlashingState) (o : SlashingState.Offence)
    (total : ℕ) : (s.outcomeOf g o total).operatorLossSat ≤ o.ownBondSat := by
  simp only [SlashingState.outcomeOf]
  refine Nat.div_le_of_le_mul ((min_le_left _ _).trans ?_)
  rw [mul_comm 10000]
  exact Nat.mul_le_mul_left _ (min_le_right _ _)

theorem planSlashingEvidence_measured
    (planned : planSlashingEvidence env st e includingProposer roster = .ok p) : p.Measured env st e := by
  simp only [planSlashingEvidence, ok_iff, Bool.not_eq_true] at planned
  obtain ⟨record, found, determinate, offense, -, rfl⟩ := planned
  have share : ∀ loss : ℕ, loss / WHISTLEBLOWER_QUOTIENT ≤ loss := fun loss => Nat.div_le_self _ _
  refine ⟨found, rfl, determinate, operatorLossSat_outcomeOf_le .., ?_, ?_⟩
  · dsimp only
    split_ifs
    · exact (min_le_left _ _).trans (share _)
    · exact share _
  · intro active
    dsimp only
    rw [if_pos active]
    exact min_le_right _ _

def doubleVoteOf (epoch : ℕ) : SlashingEvidence :=
  .attestationOffence ⟨0, ⟨epoch * SLOTS_PER_EPOCH, 0, epoch - 1, 0, epoch, 1⟩, []⟩
    ⟨0, ⟨epoch * SLOTS_PER_EPOCH, 0, epoch - 1, 0, epoch, 2⟩, []⟩

end CommittedState

end BlochPos
