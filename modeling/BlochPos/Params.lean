import Mathlib

/-! Protocol constants and the activation gates of a build. Gates are data, so
that one model covers the shipped schedule and every rehearsal of it. -/
namespace BlochPos

/-- A 32-byte digest. Its order as a number is the byte order of the array. -/
abbrev Bytes32 := Fin (2 ^ 256)

-- numerals of these widths, and a lookup of an output in a list, find their instances under one name
instance neZero_bytes32 : NeZero (2 ^ 256) := inferInstance

instance neZero_two : NeZero 2 := inferInstance

instance neZero_seven : NeZero 7 := inferInstance

instance lawfulBEq_outpoint : LawfulBEq (Lex (Bytes32 × ℕ)) := inferInstance

def u64Max : ℕ := 2 ^ 64 - 1

def u128Max : ℕ := 2 ^ 128 - 1

/-- The largest number marks a gate that never opens. -/
def epochGateActive (epoch activation : ℕ) : Bool := activation ≠ u64Max ∧ activation ≤ epoch

def SLOTS_PER_EPOCH : ℕ := 32

def INACTIVITY_LEAK_THRESHOLD_EPOCHS : ℕ := 4
def INACTIVITY_LEAK_QUOTIENT : ℕ := 64
def INACTIVITY_LEAK_QUOTIENT_ETH_PACED : ℕ := 2684355
def INACTIVITY_LEAK_RECOVERY_QUOTIENT : ℕ := 16
def MIN_QUORUM_DENOMINATOR_NUM : ℕ := 1
def MIN_QUORUM_DENOMINATOR_DEN : ℕ := 2
def NATIVE_FINALITY_SET_PRUNE_AFTER_EPOCHS : ℕ := 90

def MAX_ATTESTATIONS_PER_BLOCK : ℕ := 4096
def MAX_TRANSACTIONS_PER_BLOCK : ℕ := 4096
def MAX_EPOCH_ADVANCE : ℕ := 4096
def MAX_DRAWS_PER_SLOT : ℕ := 4096
def MIN_TRANSFER_OUTPUT_SAT : ℕ := 1000
def MAX_TRANSFER_OUTPUTS : ℕ := 256
def FORKCHOICE_EQUIVOCATION_HORIZON_SLOTS : ℕ := 32
def RANDAO_CHAIN_LENGTH : ℕ := 8192
def RANDAO_BOUNDARIES_RETAINED : ℕ := 2
def MIN_SEED_LOOKAHEAD_EPOCHS : ℕ := 1
def RESCUE_COMMIT_MIN_DELAY_EPOCHS : ℕ := 90
def RESCUE_COMMIT_TTL_EPOCHS : ℕ := 2700
def RESCUE_COMMITS_PER_BLOCK : ℕ := 16
def RESCUE_COMMITS_MAX_PER_BLOCK : ℕ := 4
def KES_MIN_REGISTERED_STAKE_BPS : ℕ := 9000
def KES_BIND_DELAY_EPOCHS : ℕ := 2
def KES_RESCUE_DELAY_PERIODS : ℕ := 2
def KES_KEY_HISTORY_PERIODS : ℕ := 365

/-- Saturating and checked addition of a word whose largest value is `max`. -/
def satAdd (max a b : ℕ) : ℕ := min (a + b) max

def checkedAdd (max a b : ℕ) : Option ℕ := if a + b ≤ max then some (a + b) else none

def checkedSub (a b : ℕ) : Option ℕ := if b ≤ a then some (a - b) else none

theorem checkedAdd_eq_some {max a b c : ℕ} (added : checkedAdd max a b = some c) : c = a + b ∧ c ≤ max := by
  unfold checkedAdd at added
  split_ifs at added with fits
  cases added
  exact ⟨rfl, fits⟩

theorem checkedSub_eq_some (subtracted : checkedSub a b = some c) : c + b = a := by
  unfold checkedSub at subtracted
  split_ifs at subtracted with fits
  cases subtracted
  omega

def epochOf (slot : ℕ) : ℕ := slot / SLOTS_PER_EPOCH

/-- Activation epochs a build was compiled with. -/
structure Gates where
  (leakRecovery ethPacedLeak frozenFinalitySet : ℕ)
  finalitySetRecoveryEpochs : List ℕ
  (ownTargetVotes claimFinality slashingEconomicsV2 leakedRoster dutyRosterRecovery ancestrySeed : ℕ)
  (transferWitnessDedup blockBytesV2 dustRule txBytesBound sighashNetworkBinding slhSuite : ℕ)
  (mldsaPin sigCanonical attestationDedup forkchoiceEquivocationHorizon deposit exitAuth : ℕ)
  (slashingEvidence preActivationOffenceRefusal randaoRecommit withdrawal stakingTxMetering : ℕ)
  (feeStakeDecouple rewardsV2 fundedValidatorAdmission fundedValidatorCancellation : ℕ)
  (activationQueueV2 growthCap fundedDelegation l2Settlement pqMigration latticeEmergency : ℕ)
  (kesRegistration kesActivation kesPeriodEpochs kesMinDepth : ℕ)

def Gates.shipped : Gates where
  leakRecovery := 2880
  ethPacedLeak := 5700
  frozenFinalitySet := u64Max
  finalitySetRecoveryEpochs := []
  ownTargetVotes := u64Max
  claimFinality := u64Max
  slashingEconomicsV2 := u64Max
  leakedRoster := 1400
  dutyRosterRecovery := u64Max
  ancestrySeed := u64Max
  transferWitnessDedup := 800
  blockBytesV2 := 800
  dustRule := u64Max
  txBytesBound := u64Max
  sighashNetworkBinding := u64Max
  slhSuite := u64Max
  mldsaPin := u64Max
  sigCanonical := u64Max
  attestationDedup := u64Max
  forkchoiceEquivocationHorizon := u64Max
  deposit := u64Max
  exitAuth := 2884
  slashingEvidence := 2884
  preActivationOffenceRefusal := 2884
  randaoRecommit := 2884
  withdrawal := 2884
  stakingTxMetering := u64Max
  feeStakeDecouple := u64Max
  rewardsV2 := u64Max
  fundedValidatorAdmission := 2884
  fundedValidatorCancellation := u64Max
  activationQueueV2 := u64Max
  growthCap := u64Max
  fundedDelegation := 4669
  l2Settlement := 5850
  pqMigration := u64Max
  latticeEmergency := u64Max
  kesRegistration := u64Max
  kesActivation := u64Max
  kesPeriodEpochs := 90
  kesMinDepth := 8

namespace Gates

variable (g : Gates) (epoch : ℕ)

def nativeFinalitySetActive : Bool := epochGateActive epoch g.frozenFinalitySet

def nativeFinalitySetRecoveryAt : Bool := epoch ∈ g.finalitySetRecoveryEpochs

def ownTargetVotesActive : Bool := epochGateActive epoch g.ownTargetVotes

def nativeClaimFinalityActive : Bool := epochGateActive epoch g.claimFinality

def dutyRosterRecoveryActive : Bool := epochGateActive epoch g.dutyRosterRecovery

def dustRuleActive : Bool := epochGateActive epoch g.dustRule

def txBytesBoundActive : Bool := epochGateActive epoch g.txBytesBound

def sighashNetworkBindingActive : Bool := epochGateActive epoch g.sighashNetworkBinding

def slhSuiteActive : Bool := epochGateActive epoch g.slhSuite

def mldsaPinActive : Bool := epochGateActive epoch g.mldsaPin

def sigCanonicalActive : Bool := epochGateActive epoch g.sigCanonical

def attestationDedupActive : Bool := epochGateActive epoch g.attestationDedup

def forkchoiceEquivocationHorizonActive : Bool :=
  epochGateActive epoch g.forkchoiceEquivocationHorizon

def unfundedBondingActive : Bool := epochGateActive epoch g.deposit

def exitAuthActive : Bool := epochGateActive epoch g.exitAuth

def slashingEvidenceActive : Bool := epochGateActive epoch g.slashingEvidence

def preActivationOffenceRefusalActive : Bool := epochGateActive epoch g.preActivationOffenceRefusal

def randaoRecommitActive : Bool := epochGateActive epoch g.randaoRecommit

def withdrawalActive : Bool := epochGateActive epoch g.withdrawal

def stakingTxMeteringActive : Bool := epochGateActive epoch g.stakingTxMetering

def feeStakeDecoupleActive : Bool := epochGateActive epoch g.feeStakeDecouple

def rewardsV2Active : Bool := epochGateActive epoch g.rewardsV2

def fundedValidatorAdmissionActive : Bool := epochGateActive epoch g.fundedValidatorAdmission

def fundedValidatorCancellationActive : Bool := epochGateActive epoch g.fundedValidatorCancellation

def activationQueueV2Active : Bool := epochGateActive epoch g.activationQueueV2

def growthCapActive : Bool := epochGateActive epoch g.growthCap

def fundedDelegationActive : Bool := epochGateActive epoch g.fundedDelegation

def l2SettlementActive : Bool := epochGateActive epoch g.l2Settlement

def pqMigrationActive : Bool := epochGateActive epoch g.pqMigration

def latticeEmergencyActive : Bool := epochGateActive epoch g.latticeEmergency

def kesRegistrationOpen : Bool := epochGateActive epoch g.kesRegistration

/-- The key period an epoch belongs to, from the activation of forward-secure keys on. -/
def kesPeriod : Option ℕ :=
  if epochGateActive epoch g.kesActivation then
    some ((epoch - g.kesActivation) / g.kesPeriodEpochs)
  else none

/-- The first epoch of the second slashing economics, once they are in force. -/
def slashingEconomicsV2Start : Option ℕ :=
  if epochGateActive epoch g.slashingEconomicsV2 then some g.slashingEconomicsV2 else none

def slashingEconomicsV2Active : Bool := (g.slashingEconomicsV2Start epoch).isSome

def inactivityLeakQuotient : ℕ :=
  if epochGateActive epoch g.ethPacedLeak then INACTIVITY_LEAK_QUOTIENT_ETH_PACED
  else INACTIVITY_LEAK_QUOTIENT

end Gates

end BlochPos
