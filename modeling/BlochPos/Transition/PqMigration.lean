import BlochPos.Transition.Bridge

/-! Moving off lattice keys: rotation of withdrawal credentials, and the rescue of coins by a
commitment before a reveal. -/
namespace BlochPos

open Attempt List

def PUBKEY_MAX : ℕ := ADMISSION_PQ_KEY_BYTES
def SLH_SUITE_SIGNATURE_MAX : ℕ := 4 + 7856 + 1462

def rescueSpendCommitment (c : Crypto) (pubkey : Bytes) (destination : Bytes32) (tip : ℕ) : Bytes32 :=
  c.sha3 (ascii "BLOCH:PQ-RESCUE:SPEND-COMMIT:V1" ++ putBytes pubkey ++ hashBytes destination ++
    leBytes 16 tip)

def rescueCredentialCommitment (c : Crypto) (validator : ℕ) (currentPubkey : Bytes)
    (newCredential : Bytes32) : Bytes32 :=
  c.sha3 (ascii "BLOCH:PQ-RESCUE:CREDENTIAL-COMMIT:V1" ++ leBytes 4 validator ++
    putBytes currentPubkey ++ hashBytes newCredential)

namespace WithdrawalCredentialRotation

def newCredential (c : Crypto) (tx : WithdrawalCredentialRotation) : Bytes32 := nativeScript c tx.newPubkey

def commitment (c : Crypto) (tx : WithdrawalCredentialRotation) : Bytes32 :=
  rescueCredentialCommitment c tx.validator tx.authorizingPubkey (tx.newCredential c)

def charge (g : Gates) (epoch : ℕ) (tx : WithdrawalCredentialRotation) : TxCharge :=
  let slh := ([tx.authorizingPubkey, tx.newPubkey].filter isHashBasedKey).length
  let charge := stakingTxCharge g epoch (2 - slh) tx.canonicalBytes.length
  if charge.gas = 0 then charge
  else { charge with
    gas := satAdd u64Max charge.gas (satMul u64Max SLHDSA_FALCON_VERIFY_GAS slh) }

end WithdrawalCredentialRotation

namespace RescueReveal

def commitment (c : Crypto) (tx : RescueReveal) : Bytes32 :=
  rescueSpendCommitment c tx.pubkey tx.destinationScriptHash tx.tipMillisatPerGas

def charge (tx : RescueReveal) (baseFee : ℕ) : TxCharge :=
  chargeFor (.eutxo 1) tx.txBytes baseFee tx.tipMillisatPerGas

end RescueReveal

namespace CommittedState

variable {env : Env} {st : CommittedState}

/-- In an emergency only hash-based keys spend. -/
def checkLatticeSpendFreeze (g : Gates) (st : CommittedState) (pubkeys : List Bytes) : Except TxReject Unit :=
  refuse (g.latticeEmergencyActive st.epoch ∧ ∃ k ∈ pubkeys, isHashBasedKey k = false)
    (.pqMigration .latticeSpendFrozen)

/-- Known, not expired, old enough and final. -/
def maturedCommitment (st : CommittedState) (commitment : Bytes32) : Except PqMigrationReject Unit := do
  let at_ ← orRefuse (st.pqRescueCommits.get? commitment) .commitmentUnknown
  refuse (satAdd u64Max at_ RESCUE_COMMIT_TTL_EPOCHS < st.epoch) .commitmentExpired
  refuse (st.epoch < satAdd u64Max at_ RESCUE_COMMIT_MIN_DELAY_EPOCHS) .commitmentImmature
  refuse (st.finalityEngine.finalized.epoch ≤ at_) .commitmentNotFinal

def prunePqRescueCommits (st : CommittedState) (epoch : ℕ) : CommittedState :=
  { st with
    pqRescueCommits := st.pqRescueCommits.filter
      (fun _ at_ => epoch ≤ satAdd u64Max at_ RESCUE_COMMIT_TTL_EPOCHS) }

structure CredentialPlan where
  record : ValidatorRecord
  used : Option Bytes32
  charge : TxCharge

def planWithdrawalCredentialRotation (env : Env) (st : CommittedState)
    (tx : WithdrawalCredentialRotation) : Except PqMigrationReject CredentialPlan := do
  refuse (env.gates.pqMigrationActive st.epoch = false) .notActive
  refuse (st.admissionNetworkDomain ≠ some tx.networkDomain) .network
  refuse (tx.epoch ≠ st.epoch) .epoch
  refuse (tx.authorizingPubkey = [] ∨ PUBKEY_MAX < tx.authorizingPubkey.length ∨
    SLH_SUITE_SIGNATURE_MAX < tx.authorizingSignature.length ∨
    SLH_SUITE_SIGNATURE_MAX < tx.newKeySignature.length) .shape
  let record ← orRefuse (st.validators.get? tx.validator) .validator
  refuse (record.stakedSat = 0) .validator
  refuse (record.withdrawalCredentials.length ≠ 32) .credential
  let current := toHash record.withdrawalCredentials
  refuse (owns (nativeScript env.crypto tx.authorizingPubkey) current = false) .credential
  refuse (isHashBasedKey tx.newPubkey = false) .notHashBased
  let newCredential := tx.newCredential env.crypto
  refuse (newCredential = current) .unchanged
  let rescue : Bool := env.gates.latticeEmergencyActive st.epoch ∧ isHashBasedKey tx.authorizingPubkey = false
  (if rescue then st.maturedCommitment (tx.commitment env.crypto) else .ok ())
  let root := tx.signingRoot env.crypto
  refuse (env.verifier.verifySpendAtEpoch tx.authorizingPubkey root tx.authorizingSignature st.epoch
    = false) .signature
  refuse (env.verifier.verifySpendAtEpoch tx.newPubkey root tx.newKeySignature st.epoch = false)
    .newKeySignature
  pure ⟨{ record with withdrawalCredentials := hashBytes newCredential },
    if rescue then some (tx.commitment env.crypto) else none, tx.charge env.gates st.epoch⟩

def withCredential (st : CommittedState) (validator : ℕ) (p : CredentialPlan) : CommittedState :=
  { st with
    validators := st.validators.insert validator p.record
    pqRescueCommits := p.used.elim st.pqRescueCommits st.pqRescueCommits.erase }

/-- The commitment is given up before the record is looked up again. -/
def applyWithdrawalCredentialRotation (env : Env) (tx : WithdrawalCredentialRotation) :
    Attempt CommittedState PqMigrationReject TxCharge := do
  let st ← get
  let p ← check (planWithdrawalCredentialRotation env st tx)
  modify (fun st => { st with pqRescueCommits := p.used.elim st.pqRescueCommits st.pqRescueCommits.erase })
  let st ← get
  let _ ← check (orRefuse (st.validators.get? tx.validator) .validator)
  modify (fun st => { st with validators := st.validators.insert tx.validator p.record })
  pure p.charge

section

variable (env : Env) (st : CommittedState) (commitment : Bytes32)

def planRescueCommit (tx : RescueCommit) : Except PqMigrationReject TxCharge := do
  refuse (env.gates.latticeEmergencyActive st.epoch = false) .notActive
  refuse (st.admissionNetworkDomain ≠ some tx.networkDomain) .network
  refuse (st.pqRescueCommits.contains tx.commitment = true) .commitmentExists
  pure (.free (BLOCK_GAS_LIMIT / RESCUE_COMMITS_PER_BLOCK) tx.canonicalBytes.length)

def withRescueCommit : CommittedState :=
  { st with pqRescueCommits := st.pqRescueCommits.insert commitment st.epoch }

/-- The worth of the coins of one key, listed in strict order. -/
def sweepSat (eutxos : Eutxos) (native carried : Bytes32) :
    Option Outpoint → ℕ → List FundingInput → Except PqMigrationReject ℕ
  | _, spent, [] => .ok spent
  | prev, spent, input :: rest => do
    refuse (prev.any (fun p => input.outpoint ≤ p) = true) .duplicateInput
    let entry ← orRefuse (eutxos.get? input.outpoint) .missingInput
    refuse (entry.scriptHash ≠ native ∧ entry.scriptHash ≠ carried) .ownership
    sweepSat eutxos native carried (some input.outpoint) (spent + entry.value) rest

/-- All coins of a lattice key go where it has committed to send them. -/
def planRescueReveal (tx : RescueReveal) (baseFee : ℕ) : Except PqMigrationReject CoinPlan := do
  refuse (env.gates.latticeEmergencyActive st.epoch = false) .notActive
  refuse (st.admissionNetworkDomain ≠ some tx.networkDomain) .network
  refuse (tx.pubkey = [] ∨ PUBKEY_MAX < tx.pubkey.length ∨ tx.inputs = []) .shape
  refuse (isHashBasedKey tx.pubkey = true) .notLatticeKey
  refuse (tx.txBytes ≠ tx.canonicalBytes.length) .size
  refuse (MAX_TIP_MILLISAT_PER_GAS < tx.tipMillisatPerGas) .shape
  refuse (MAX_TX_GAS < intrinsicGas (.eutxo 1) tx.txBytes) .shape
  let native := nativeScript env.crypto tx.pubkey
  let carried := carriedScript env.crypto tx.pubkey
  let spent ← sweepSat st.eutxos native carried none 0 tx.inputs
  let owned := st.eutxos.scriptLen native + if carried ≠ native then st.eutxos.scriptLen carried else 0
  refuse (owned ≠ tx.inputs.length) .incompleteSweep
  st.maturedCommitment (tx.commitment env.crypto)
  let charge := tx.charge baseFee
  let value ← orRefuse (checkedSub spent charge.feeSat) .conservation
  refuse (u64Max < value) .conservation
  refuse (value < MIN_TRANSFER_OUTPUT_SAT) .conservation
  let txid := (PosTransaction.rescueReveal tx).txid env.crypto
  refuse (st.eutxos.contains (outpoint txid 0) = true) .outputCollision
  refuse (env.verifier.verifyWithKey tx.pubkey (tx.signingRoot env.crypto) tx.signature = false) .signature
  pure ⟨tx.inputs.map FundingInput.outpoint, [⟨txid, 0, value, tx.destinationScriptHash⟩], charge⟩

def withRescue (plan : CoinPlan) : CommittedState :=
  { st with
    eutxos := plan.run st.eutxos
    pqRescueCommits := st.pqRescueCommits.erase commitment }

end

theorem sweepSat_eq_ok {eutxos : Eutxos} : ∀ {prev : Option Outpoint} {spent total : ℕ},
      sweepSat eutxos native carried prev spent inputs = .ok total →
      (inputs.map FundingInput.outpoint).Pairwise (· < ·) ∧ (∀ p ∈ prev, ∀ i ∈ inputs, p < i.outpoint) ∧
        total = spent + ((inputs.map FundingInput.outpoint).map eutxos.valueAt).sum ∧
        ∀ i ∈ inputs, eutxos.get? i.outpoint ≠ none := by
  induction inputs with
  | nil =>
    intro prev spent total swept
    simp only [sweepSat, Except.ok.injEq] at swept
    simp [swept]
  | cons input inputs ih =>
    intro prev spent total swept
    simp only [sweepSat, ok_iff] at swept
    obtain ⟨above, entry, found, -, rest⟩ := swept
    obtain ⟨sorted, later, sum, held⟩ := ih rest
    have after : ∀ i ∈ inputs, input.outpoint < i.outpoint := later _ rfl
    refine ⟨?_, ?_, ?_, forall_mem_cons.mpr ⟨by simp [found], held⟩⟩
    · refine pairwise_cons.mpr ⟨?_, sorted⟩
      intro op listed
      obtain ⟨i, member, rfl⟩ := mem_map.mp listed
      exact after i member
    · rintro p ⟨⟩ i member
      have first : p < input.outpoint := by simpa using above
      rcases mem_cons.mp member with rfl | member
      · exact first
      · exact first.trans (after i member)
    · simp only [map_cons, sum_cons, Eutxos.valueAt_of_get? found]
      omega

theorem planRescueReveal_balances (planned : planRescueReveal env st tx baseFee = .ok plan) :
    plan.Balances st.eutxos 0 0 := by
  simp only [planRescueReveal, ok_iff] at planned
  obtain ⟨-, -, -, -, -, -, -, spent, swept, -, -, value, left, -, -, -, -, rfl⟩ := planned
  obtain ⟨sorted, -, total, -⟩ := sweepSat_eq_ok swept
  have balance := checkedSub_eq_some left
  refine ⟨sorted.imp ne_of_lt, ?_⟩
  simp only [CoinPlan.spentSat, CoinPlan.createdSat, map_cons, map_nil, sum_cons, sum_nil]
  omega

theorem planWithdrawalCredentialRotation_eq_ok
    (planned : planWithdrawalCredentialRotation env st tx = .ok p) :
    ∃ record, st.validators.get? tx.validator = some record ∧
      p.record = { record with withdrawalCredentials := hashBytes (tx.newCredential env.crypto) } ∧
      p.charge.feeSat = 0 := by
  have free : ∀ epoch, (tx.charge env.gates epoch).feeSat = 0 := by
    intro epoch
    have staking := feeSat_stakingTxCharge env.gates epoch
      (2 - ([tx.authorizingPubkey, tx.newPubkey].filter isHashBasedKey).length) tx.canonicalBytes.length
    simp only [WithdrawalCredentialRotation.charge]
    split_ifs
    · exact staking
    · exact staking
  simp only [planWithdrawalCredentialRotation, ok_iff] at planned
  obtain ⟨-, -, -, -, record, found, -, -, -, -, -, -, -, -, rfl⟩ := planned
  exact ⟨record, found, rfl, free st.epoch⟩

theorem exec_applyWithdrawalCredentialRotation (env : Env) (st : CommittedState)
    (tx : WithdrawalCredentialRotation) :
    exec (applyWithdrawalCredentialRotation env tx) st =
      exec (transact (planWithdrawalCredentialRotation env · tx) (withCredential · tx.validator)
        CredentialPlan.charge) st := by
  cases planned : planWithdrawalCredentialRotation env st tx with
  | error e =>
    have refused : exec (applyWithdrawalCredentialRotation env tx) st = (.error e, st) := by
      rw [applyWithdrawalCredentialRotation, exec_bind]
      change exec (check (planWithdrawalCredentialRotation env st tx) >>= _) st = _
      rw [planned]
      rfl
    rw [refused, eq_comm, exec_transact_eq_error_iff]
    exact ⟨planned, rfl⟩
  | ok p =>
    obtain ⟨record, found, -, -⟩ := planWithdrawalCredentialRotation_eq_ok planned
    have done : exec (applyWithdrawalCredentialRotation env tx) st =
        (.ok p.charge, st.withCredential tx.validator p) := by
      simp only [applyWithdrawalCredentialRotation, ok_iff]
      exact ⟨st, st, ⟨rfl, rfl⟩, p, st, ⟨planned, rfl⟩, _, rfl, _, _, ⟨rfl, rfl⟩, record, _, ⟨found, rfl⟩, _, rfl,
        rfl, rfl⟩
    rw [done, eq_comm, exec_transact_eq_ok_iff]
    exact ⟨p, planned, rfl, rfl⟩

theorem planRescueCommit_eq_ok {charge : TxCharge} (planned : planRescueCommit env st tx = .ok charge) :
    charge.feeSat = 0 := by
  simp only [planRescueCommit, ok_iff] at planned
  obtain ⟨-, -, -, rfl⟩ := planned
  rfl

end CommittedState

end BlochPos
