import BlochPos.Transition.Transfers

/-! The life of a validator: deposit, exit and withdrawal, its forward-secure
keys and its randomness commitment. -/
namespace BlochPos

open Attempt Option

def ValidatorRecord.exited (r : ValidatorRecord) (epoch : ℕ) : ValidatorRecord :=
  let exitEpoch := satAdd u64Max epoch EXIT_DELAY_EPOCHS
  { r with
    exitEpoch
    withdrawableEpoch := satAdd u64Max exitEpoch WITHDRAWAL_DELAY_EPOCHS }

def stakingTxCharge (g : Gates) (epoch nHybridSigs canonicalLen : ℕ) : TxCharge :=
  if g.stakingTxMeteringActive epoch ∨ g.withdrawalActive epoch then
    .free (intrinsicGas (.eutxo nHybridSigs) canonicalLen) canonicalLen
  else .free 0 0

theorem feeSat_stakingTxCharge (g : Gates) (epoch signatures length : ℕ) :
    (stakingTxCharge g epoch signatures length).feeSat = 0 := by
  unfold stakingTxCharge
  split_ifs <;> rfl

namespace CommittedState

section

variable (env : Env) (g : Gates) (st : CommittedState) (validator : ℕ)

def setRecord (index : ℕ) (record : ValidatorRecord) : CommittedState :=
  { st with validators := st.validators.insert index record }

/-- A deposit as the registry takes it up. -/
structure Registration where
  pubkeyHash : Bytes32
  record : ValidatorRecord

def nextIndex : ℕ := (st.validators.keys.getLast?.map (· + 1)).getD 0

def register (r : Registration) : CommittedState :=
  { st with
    validators := st.validators.insert r.record.index r.record
    revealsUsed := st.revealsUsed.insert r.record.index 0
    pubkeyIndex := st.pubkeyIndex.insert r.pubkeyHash r.record.index
    depositHistory := st.depositHistory ++ [⟨r.pubkeyHash, st.epoch, r.record.stakedSat⟩] }

def validateWireDeposit (tx : Deposit) (maxStakeSat : ℕ) : Except DepositReject Unit := do
  depositShape SUITE_MLDSA65_FALCON1024 tx.pubkey.length tx.amountSat maxStakeSat
  let root := wireDepositPopRoot env.crypto tx.pubkey tx.amountSat tx.randaoCommitment
    tx.withdrawalCredentials tx.commissionBps
  refuse (env.verifier.verifyWithKey tx.pubkey root tx.proofOfPossession = false) .badProofOfPossession

def planDeposit (tx : Deposit) (totalActiveSat : ℕ) : Except TxReject Registration := do
  refuse (env.gates.unfundedBondingActive st.epoch = false) .stakingNotActive
  refuse (env.gates.activationQueueV2Active st.epoch ∧
    MAX_VALIDATOR_REGISTRY_ENTRIES ≤ st.validators.entries.length) .stakingRule
  let pubkeyHash := env.crypto.sha3 tx.pubkey
  refuse (st.pubkeyIndex.contains pubkeyHash = true) .stakingRule
  let cap := max (totalActiveSat * MAX_VALIDATOR_STAKE_BPS / 10000) MIN_DEPOSIT_SAT
  (validateWireDeposit env tx cap).mapError (fun _ => .stakingRule)
  pure ⟨pubkeyHash,
    { index := st.nextIndex
      pubkey := tx.pubkey
      stakedSat := tx.amountSat
      randaoCommitment := tx.randaoCommitment
      withdrawalCredentials := tx.withdrawalCredentials
      activationEpoch := u64Max
      exitEpoch := u64Max
      withdrawableEpoch := u64Max
      slashed := false
      commissionBps := tx.commissionBps }⟩

def planExit : Except TxReject ValidatorRecord := do
  refuse (env.gates.exitAuthActive st.epoch ∨ env.gates.fundedValidatorAdmissionActive st.epoch)
    .stakingNotActive
  let record ← orRefuse (st.validators.get? validator) .stakingRule
  refuse (record.slashed ∨ st.epoch < record.activationEpoch ∨ record.exitEpoch ≠ u64Max) .stakingRule
  pure (record.exited st.epoch)

def voluntaryExitsThisEpoch : ℕ :=
  let marker := satAdd u64Max st.epoch EXIT_DELAY_EPOCHS
  st.validators.values.countP (fun r => r.exitEpoch ≠ u64Max ∧ r.exitEpoch = marker)

/-- A funded deposit that has waited its time may be cancelled from the queue. -/
def queuedFundedCancellation (index : ℕ) (record : ValidatorRecord) (pubkeyHash : Bytes32) : Bool :=
  env.gates.fundedValidatorCancellationActive st.epoch ∧ index ∈ st.fundedValidators ∧
    record.activationEpoch = u64Max ∧
    ∃ d ∈ st.depositHistory, d.pubkeyHash = pubkeyHash ∧
      ((checkedAdd u64Max d.depositEpoch ACTIVATION_DELAY_EPOCHS).any (· ≤ st.epoch)) = true

def planExitV2 (pubkeyHash : Bytes32) (epoch : ℕ)
    (signature : Bytes) : Except TxReject (ℕ × ValidatorRecord) := do
  refuse (env.gates.exitAuthActive st.epoch = false) .stakingNotActive
  refuse (epoch ≠ st.epoch) .stakingRule
  let index ← orRefuse (st.pubkeyIndex.get? pubkeyHash) .stakingRule
  let record ← orRefuse (st.validators.get? index) .stakingRule
  refuse (record.slashed ∨
    (st.epoch < record.activationEpoch ∧ st.queuedFundedCancellation env index record pubkeyHash = false) ∨
    record.exitEpoch ≠ u64Max) .stakingRule
  refuse (MAX_EXITS_PER_EPOCH ≤ st.voluntaryExitsThisEpoch) .stakingRule
  refuse (env.verifier.verifyWithKey record.pubkey (exitSigningRoot env.crypto pubkeyHash epoch) signature
    = false) .stakingRule
  pure (index, record.exited st.epoch)

/-- The part of a bond that was never issued, as far as no slash has taken it. -/
def unbackedPrincipalSat (c : Crypto) (st : CommittedState) (index : ℕ) : ℕ :=
  match st.validators.get? index with
  | none => 0
  | some record =>
    if index ∈ st.fundedValidators then 0
    else
      let deposited := (st.depositHistory.find? (fun d => d.pubkeyHash = c.sha3 record.pubkey)).map
        QueuedDeposit.amountSat
      min (((st.genesisPrincipalSat.get? index).or deposited).getD u128Max)
        (st.stakeLowWater.getD index record.stakedSat)

def withdrawableSat (c : Crypto) (st : CommittedState) (index : ℕ) : ℕ :=
  match st.validators.get? index with
  | none => 0
  | some record => record.stakedSat - st.unbackedPrincipalSat c index

/-- A slash from before low-water marks were kept leaves the unbacked part
unknown. -/
def isWriteOffIndeterminate (index : ℕ) : Bool :=
  match st.validators.get? index with
  | none => false
  | some record => index ∉ st.fundedValidators ∧ record.slashed ∧ ¬ st.stakeLowWater.contains index

structure Withdrawal where
  record : ValidatorRecord
  writtenOffSat : ℕ
  output : Option EutxoEntry

def planWithdrawal (index : ℕ) : Except TxReject Withdrawal := do
  refuse (env.gates.withdrawalActive st.epoch = false ∨ st.isWriteOffIndeterminate index = true)
    .stakingNotActive
  let record ← orRefuse (st.validators.get? index) .stakingRule
  refuse (record.exitEpoch = u64Max ∨ record.withdrawableEpoch = u64Max ∨
    st.epoch < record.withdrawableEpoch ∨ record.stakedSat = 0) .stakingRule
  refuse (record.withdrawalCredentials.length ≠ 32) .stakingRule
  let unbacked := min (st.unbackedPrincipalSat env.crypto index) record.stakedSat
  let payout := record.stakedSat - unbacked
  refuse (u64Max < payout) .stakingRule
  let writtenOff ← orRefuse (checkedAdd u128Max st.writtenOffSat unbacked) .stakingRule
  let txid := (PosTransaction.withdraw index).txid env.crypto
  refuse (st.eutxos.contains (outpoint txid 0) = true) .stakingRule
  pure ⟨{ record with stakedSat := 0 }, writtenOff,
    if 0 < payout then some ⟨txid, 0, payout, toHash record.withdrawalCredentials⟩ else none⟩

def withWithdrawal (index : ℕ) (w : Withdrawal) : CommittedState :=
  { st with
    validators := st.validators.insert index w.record
    writtenOffSat := w.writtenOffSat
    eutxos := w.output.elim st.eutxos st.eutxos.insert }

def kesBound : Bool := st.kesEnforcedFrom.any (· ≤ st.epoch)

def kesRescueOpen : Bool :=
  match st.kes.get? validator with
  | none => false
  | some entry =>
    let p := (g.kesPeriod st.epoch).getD 0
    st.kesBound ∧ (entry.inForce p).endPeriod ≤ p ∧ entry.pendingAt p = none

def kesDepthAllowed (depth : ℕ) : Bool :=
  max g.kesMinDepth Kes.MIN_DEPTH ≤ depth ∧ depth ≤ Kes.MAX_DEPTH

def kesRegistrationStart : ℕ :=
  match g.kesPeriod st.epoch with
  | some p => if st.kesBound then satAdd u64Max p 1 else 0
  | none => 0

/-- An entry exists already: the registration is a rescue of an expired key and
must bring a new tree. -/
def kesRescueStart (entry : KesEntry)
    (root : Bytes32) : Except TxReject ℕ := do
  let period := (g.kesPeriod st.epoch).getD 0
  refuse (st.kesRescueOpen g validator = false) .stakingRule
  refuse ((entry.inForce period).root = root ∨ (∃ next ∈ entry.next, next.root = root) ∨
    ∃ r ∈ entry.retired, r.publicKey.root = root) .stakingRule
  pure (satAdd u64Max period KES_RESCUE_DELAY_PERIODS)

def checkKesRegister (validator depth : ℕ) (root : Bytes32)
    (signature : Bytes) : Except TxReject KesPublic := do
  refuse (kesDepthAllowed env.gates depth = false) .stakingRule
  let record ← orRefuse (st.validators.get? validator) .stakingRule
  refuse (record.slashed ∨ record.exitEpoch ≤ st.epoch) .stakingRule
  let startPeriod ← match st.kes.get? validator with
    | some entry => st.kesRescueStart env.gates validator entry root
    | none => pure (st.kesRegistrationStart env.gates)
  let publicKey : KesPublic := ⟨depth, root, startPeriod⟩
  let message := Kes.registerSigningRoot env.crypto (st.admissionNetworkDomain.getD 0) validator publicKey
  refuse (env.verifier.verifyWithKey record.pubkey message signature = false) .stakingRule
  pure publicKey

def planKesRegister (validator depth : ℕ) (root : Bytes32)
    (signature : Bytes) : Except TxReject KesEntry := do
  refuse (env.gates.kesRegistrationOpen st.epoch = false) .stakingNotActive
  let publicKey ← checkKesRegister env st validator depth root signature
  match st.kes.get? validator with
  | some old => pure (old.replacedBy publicKey ((env.gates.kesPeriod st.epoch).getD 0))
  | none => pure (.ofPublic publicKey)

def checkKesRotate (validator period depth : ℕ) (root : Bytes32)
    (signature : Bytes) : Except TxReject KesEntry := do
  refuse (env.gates.kesPeriod st.epoch ≠ some period ∨ kesDepthAllowed env.gates depth = false)
    .stakingRule
  let entry ← orRefuse (st.kes.get? validator) .stakingRule
  let record ← orRefuse (st.validators.get? validator) .stakingRule
  refuse (record.slashed ∨ record.exitEpoch ≤ st.epoch) .stakingRule
  let settled := entry.settled period
  refuse (settled.pendingAt period ≠ none) .stakingRule
  let current := settled.inForce period
  let next : KesPublic := ⟨depth, root, satAdd u64Max period 1⟩
  refuse (next.sameTree current = true ∨ ∃ r ∈ settled.retired, r.publicKey.sameTree next = true)
    .stakingRule
  let message := Kes.rotateSigningRoot env.crypto (st.admissionNetworkDomain.getD 0) validator period
    depth root
  refuse (Kes.verifyValidatorIn env.crypto st.keys env.verifier validator (some period) message
    signature ≠ some true) .stakingRule
  pure { settled with next := some next }

def planKesRotate (validator period depth : ℕ) (root : Bytes32)
    (signature : Bytes) : Except TxReject KesEntry := do
  refuse (env.gates.kesRegistrationOpen st.epoch = false) .stakingNotActive
  checkKesRotate env st validator period depth root signature

def withKes (entry : KesEntry) : CommittedState :=
  { st with kes := st.kes.insert validator entry }

/-- The share of the roster's stake whose key in force covers the period. -/
def kesRegisteredStakeBps (epoch : ℕ) : ℕ :=
  let period := (g.kesPeriod epoch).getD 0
  let roster := st.consensusRosterAt g epoch
  let covered := roster.filter (fun v =>
    (st.kes.get? v.index).any (fun entry => ((entry.inForce period).leafIndex period).isSome))
  if totalStake roster = 0 then 0 else totalStake covered * 10000 / totalStake roster

structure Recommitment where
  record : ValidatorRecord
  generation : ℕ

def planRandaoRecommit (newCommitment : Bytes32)
    (epoch : ℕ) (signature : Bytes) : Except TxReject Recommitment := do
  refuse (env.gates.randaoRecommitActive st.epoch = false) .stakingNotActive
  refuse (epoch ≠ st.epoch) .stakingRule
  let record ← orRefuse (st.validators.get? validator) .stakingRule
  refuse (record.slashed ∨ record.exitEpoch ≤ st.epoch) .stakingRule
  refuse (st.revealsUsed.getD validator 0 < RANDAO_CHAIN_LENGTH) .stakingRule
  refuse (env.verifier.verifyWithKey record.pubkey
    (recommitSigningRoot env.crypto validator epoch newCommitment) signature = false) .stakingRule
  let generation ← orRefuse (checkedAdd u32Max (st.randaoGenerations.getD validator 0) 1) .stakingRule
  pure ⟨{ record with randaoCommitment := newCommitment }, generation⟩

def withRecommitment (r : Recommitment) : CommittedState :=
  { st with
    validators := st.validators.insert validator r.record
    revealsUsed := st.revealsUsed.insert validator 0
    randaoGenerations := st.randaoGenerations.insert validator r.generation }

def planDelegate (delegator validator amountSat : ℕ)
    (eligible : Bool) : Except TxReject Delegation := do
  refuse (env.gates.unfundedBondingActive st.epoch = false) .stakingNotActive
  let record ← orRefuse (st.validators.get? validator) .stakingRule
  refuse (record.slashed ∨ record.exitEpoch ≠ u64Max) .stakingRule
  refuse (amountSat < MIN_DELEGATION_SAT) .stakingRule
  refuse (eligible = false) .stakingRule
  pure
    { delegator
      validator
      amountSat
      requestedEpoch := st.epoch + 1
      deactivateEpoch := none
      eligible := true }

def withDelegation (d : Delegation) : CommittedState :=
  { st with delegations := st.delegations ++ [d] }

end

section

variable {st : CommittedState} {epoch : ℕ}

theorem get?_nextIndex (st : CommittedState) : st.validators.get? st.nextIndex = none := by
  rw [eq_none_iff_forall_ne_some]
  intro r found
  have member : st.nextIndex ∈ st.validators.keys := SortedMap.mem_keys_iff.mpr ⟨r, found⟩
  unfold nextIndex at member
  cases final : st.validators.keys.getLast? with
  | none => simp [List.getLast?_eq_none_iff.mp final] at member
  | some last =>
    have bounded := SortedMap.key_le_getLast? member final
    simp [final] at bounded

/-- A record as the registry takes it up: with no date yet, under a key that is not hash-based. -/
structure Waiting (r : ValidatorRecord) : Prop where
  activation : r.activationEpoch = u64Max
  exit : r.exitEpoch = u64Max
  withdrawable : r.withdrawableEpoch = u64Max
  unslashed : r.slashed = false
  lattice : isHashBasedKey r.pubkey = false

/-- Index and key are new, and the record is waiting. -/
structure Registration.Fresh (c : Crypto) (st : CommittedState) (r : Registration) : Prop where
  index : r.record.index = st.nextIndex
  unknown : st.pubkeyIndex.get? r.pubkeyHash = none
  hash : r.pubkeyHash = c.sha3 r.record.pubkey
  waiting : Waiting r.record

theorem planDeposit_eq_ok (planned : planDeposit env st tx totalActiveSat = .ok r) :
    r.Fresh env.crypto st ∧ r.record.stakedSat = tx.amountSat ∧
      env.gates.unfundedBondingActive st.epoch = true := by
  simp only [planDeposit, validateWireDeposit, depositShape, ok_iff, Bool.not_eq_false, SortedMap.contains,
    isSome_iff_ne_none, ne_eq, not_or, not_not] at planned
  obtain ⟨active, -, unknown, ⟨⟨⟨-, length⟩, -⟩, -⟩, rfl⟩ := planned
  exact ⟨⟨rfl, unknown, rfl, rfl, rfl, rfl, rfl, isHashBasedKey_of_length (length ▸ by decide)⟩, rfl, active⟩

theorem planExit_eq_ok (planned : planExit env st validator = .ok r) :
    ∃ record, st.validators.get? validator = some record ∧ record.exitEpoch = u64Max ∧
      r = record.exited st.epoch := by
  simp only [planExit, ok_iff, not_or, ne_eq, not_not] at planned
  obtain ⟨-, record, found, ⟨-, -, remains⟩, rfl⟩ := planned
  exact ⟨record, found, remains, rfl⟩

theorem planExitV2_eq_ok (planned : planExitV2 env st pubkeyHash epoch signature = .ok p) :
    ∃ record, st.validators.get? p.1 = some record ∧ record.exitEpoch = u64Max ∧
      p.2 = record.exited st.epoch ∧ st.voluntaryExitsThisEpoch < MAX_EXITS_PER_EPOCH := by
  simp only [planExitV2, ok_iff, not_or, ne_eq, not_not, not_le] at planned
  obtain ⟨-, -, index, -, record, found, ⟨-, -, remains⟩, room, -, rfl⟩ := planned
  exact ⟨record, found, remains, rfl, room⟩

theorem planWithdrawal_eq_ok (planned : planWithdrawal env st index = .ok w) :
    ∃ record, st.validators.get? index = some record ∧ w.record = { record with stakedSat := 0 } ∧
      (w.output.map EutxoEntry.value).getD 0 = st.withdrawableSat env.crypto index := by
  simp only [planWithdrawal, ok_iff] at planned
  obtain ⟨-, record, found, -, -, -, off, -, -, rfl⟩ := planned
  refine ⟨record, found, rfl, ?_⟩
  simp only [withdrawableSat, found]
  split_ifs with paid
  · simp only [map_some, getD_some]
    omega
  · simp only [map_none, getD_none]
    omega

theorem planRandaoRecommit_eq_ok
    (planned : planRandaoRecommit env st validator newCommitment epoch signature = .ok r) :
    ∃ record, st.validators.get? validator = some record ∧
      r.record = { record with randaoCommitment := newCommitment } := by
  simp only [planRandaoRecommit, ok_iff] at planned
  obtain ⟨-, -, record, found, -, -, -, -, -, rfl⟩ := planned
  exact ⟨record, found, rfl⟩

theorem planDelegate_eq_ok (planned : planDelegate env st delegator validator amountSat eligible = .ok d) :
    d.amountSat = amountSat ∧ env.gates.unfundedBondingActive st.epoch = true := by
  simp only [planDelegate, ok_iff, Bool.not_eq_false] at planned
  obtain ⟨active, -, -, -, -, -, rfl⟩ := planned
  exact ⟨rfl, active⟩

end

end CommittedState

end BlochPos
