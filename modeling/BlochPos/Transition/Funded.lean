import BlochPos.Transition.Lifecycle

/-! Staking paid for with coins: deposits, and delegations with their deactivation, payout and
commission. -/
namespace BlochPos

open Attempt Option

variable {inputs : List FundingInput}

def MAX_FUNDING_INPUTS : ℕ := 128
def ADMISSION_PQ_KEY_BYTES : ℕ := 3749
def ADMISSION_PQ_SIGNATURE_MAX : ℕ := 4593
def HYBRID_HEADER : Bytes := [0xb1, 0x0c, 1, 0]

def keyHasShape (key : Bytes) : Bool :=
  key.length = ADMISSION_PQ_KEY_BYTES ∧ key.take 4 = HYBRID_HEADER

def signatureHasShape (signature : Bytes) : Bool :=
  3313 < signature.length ∧ signature.length ≤ ADMISSION_PQ_SIGNATURE_MAX ∧ signature.take 4 = HYBRID_HEADER

def FundingInput.outpoint (i : FundingInput) : Outpoint := BlochPos.outpoint i.txid i.vout

/-- The inputs are in strictly increasing order, so none is there twice. -/
def strictlyOrdered (inputs : List FundingInput) : Bool :=
  (inputs.map FundingInput.outpoint).IsChain (· < ·)

theorem nodup_of_strictlyOrdered (ordered : strictlyOrdered inputs = true) :
    (inputs.map FundingInput.outpoint).Nodup := by
  have chain : (inputs.map FundingInput.outpoint).IsChain (· < ·) := by
    simpa [strictlyOrdered] using ordered
  exact (List.isChain_iff_pairwise.mp chain).imp ne_of_lt

/-- The reasons the payment of a transaction is refused for. -/
structure FundingRejects (E : Type) where
  (feeCap missingInput ownership conservation arithmetic outputCollision : E)

def fundingSat {E : Type} (eutxos : Eutxos) (opens : Bytes32 → Bool)
    (missing ownership arithmetic : E) : ℕ → List FundingInput → Except E ℕ
  | spent, [] => .ok spent
  | spent, input :: rest => do
    let utxo ← orRefuse (eutxos.get? input.outpoint) missing
    refuse (opens utxo.scriptHash = false) ownership
    let spent ← orRefuse (checkedAdd u128Max spent utxo.value) arithmetic
    fundingSat eutxos opens missing ownership arithmetic spent rest

theorem fundingSat_eq_ok {missing ownership arithmetic : E} :
    ∀ {spent total : ℕ}, fundingSat eutxos opens missing ownership arithmetic spent inputs = .ok total →
      total = spent + ((inputs.map FundingInput.outpoint).map eutxos.valueAt).sum ∧
        ∀ i ∈ inputs, eutxos.get? i.outpoint ≠ none := by
  induction inputs with
  | nil =>
    intro spent total funded
    simp only [fundingSat, Except.ok.injEq] at funded
    simp [funded]
  | cons input inputs ih =>
    intro spent total funded
    simp only [fundingSat, ok_iff] at funded
    obtain ⟨utxo, found, -, next, added, rest⟩ := funded
    obtain ⟨sum, held⟩ := ih rest
    have step := (checkedAdd_eq_some added).1
    refine ⟨?_, List.forall_mem_cons.mpr ⟨by simp [found], held⟩⟩
    simp only [List.map_cons, List.sum_cons, Eutxos.valueAt_of_get? found]
    omega

/-- What a funded transaction pays: its amount, its change and the highest base fee, the rest of
which comes back with the change. -/
structure FundedTerms where
  fundingPubkey : Bytes
  inputs : List FundingInput
  amountSat : ℕ
  change : TransferOutput
  (maxBaseFeeMillisatPerGas tipMillisatPerGas txBytes : ℕ)

namespace FundedTerms

variable {t : FundedTerms}

def charge (t : FundedTerms) (baseFee : ℕ) : TxCharge :=
  chargeFor (.eutxo 2) t.txBytes baseFee t.tipMillisatPerGas

def requiredFundingSat (t : FundedTerms) : Option ℕ := do
  let withChange ← checkedAdd u128Max t.amountSat t.change.value
  let withBase ← checkedAdd u128Max withChange (t.charge t.maxBaseFeeMillisatPerGas).baseFeeSat
  checkedAdd u128Max withBase (t.charge t.maxBaseFeeMillisatPerGas).priorityFeeSat

/-- The shape both funded transactions check, apart from their own fields. -/
def wellShaped (t : FundedTerms) (minAmountSat reservedTxBytes : ℕ) : Bool :=
  keyHasShape t.fundingPubkey ∧ t.inputs ≠ [] ∧ t.inputs.length ≤ MAX_FUNDING_INPUTS ∧
    strictlyOrdered t.inputs ∧ minAmountSat ≤ t.amountSat ∧ t.amountSat ≤ TOTAL_SUPPLY_SAT ∧
    MIN_TRANSFER_OUTPUT_SAT ≤ t.change.value ∧
    MIN_BASE_FEE_MILLISAT_PER_GAS ≤ t.maxBaseFeeMillisatPerGas ∧
    t.maxBaseFeeMillisatPerGas ≤ MAX_BASE_FEE_MILLISAT_PER_GAS ∧
    t.tipMillisatPerGas ≤ MAX_TIP_MILLISAT_PER_GAS ∧ t.txBytes = reservedTxBytes ∧
    intrinsicGas (.eutxo 2) t.txBytes ≤ MAX_TX_GAS

def plan {E : Type} (env : Env) (st : CommittedState) (r : FundingRejects E) (t : FundedTerms)
    (tx : PosTransaction) (baseFee : ℕ) : Except E CoinPlan := do
  refuse (t.maxBaseFeeMillisatPerGas < baseFee) r.feeCap
  let owner := env.crypto.sha3 t.fundingPubkey
  let spent ← fundingSat st.eutxos (fun script => script = owner) r.missingInput r.ownership
    r.arithmetic 0 t.inputs
  refuse (some spent ≠ t.requiredFundingSat) r.conservation
  let charge := t.charge baseFee
  let refund ← orRefuse
    (checkedSub (t.charge t.maxBaseFeeMillisatPerGas).baseFeeSat charge.baseFeeSat) r.arithmetic
  let change ← orRefuse (checkedAdd u128Max t.change.value refund) r.arithmetic
  refuse (u64Max < change) r.arithmetic
  let txid := tx.txid env.crypto
  refuse (st.eutxos.contains (outpoint txid 0) = true) r.outputCollision
  pure ⟨t.inputs.map FundingInput.outpoint, [⟨txid, 0, change, t.change.scriptHash⟩], charge⟩

theorem requiredFundingSat_eq_some (required : t.requiredFundingSat = some spent) :
    spent = t.amountSat + t.change.value + (t.charge t.maxBaseFeeMillisatPerGas).feeSat := by
  simp only [requiredFundingSat, bind_eq_bind, bind_eq_some_iff] at required
  obtain ⟨withChange, first, withBase, second, third⟩ := required
  have := (checkedAdd_eq_some first).1
  have := (checkedAdd_eq_some second).1
  have := (checkedAdd_eq_some third).1
  simp only [TxCharge.feeSat]
  omega

/-- A funded payment moves its amount out of the coins. -/
theorem plan_balances {r : FundingRejects E}
    (ordered : strictlyOrdered t.inputs = true) (planned : t.plan env st r tx baseFee = .ok p) :
    p.Balances st.eutxos 0 t.amountSat := by
  simp only [plan, ok_iff, ne_eq, not_not] at planned
  obtain ⟨-, spent, funded, conserved, refund, refunded, change, changed, -, -, rfl⟩ := planned
  refine ⟨nodup_of_strictlyOrdered ordered, ?_⟩
  have total := (fundingSat_eq_ok funded).1
  have required := requiredFundingSat_eq_some conserved.symm
  have back := checkedSub_eq_some refunded
  have given := (checkedAdd_eq_some changed).1
  -- the tip is charged at the same rate whatever the base fee
  have samePriority : (t.charge t.maxBaseFeeMillisatPerGas).priorityFeeSat =
      (t.charge baseFee).priorityFeeSat := rfl
  simp only [CoinPlan.spentSat, CoinPlan.createdSat, TxCharge.feeSat, List.map_cons, List.map_nil,
    List.sum_cons, List.sum_nil] at required ⊢
  omega

end FundedTerms

namespace FundedDeposit

def terms (tx : FundedDeposit) : FundedTerms :=
  ⟨tx.fundingPubkey, tx.inputs, tx.amountSat, tx.change, tx.maxBaseFeeMillisatPerGas,
    tx.tipMillisatPerGas, tx.txBytes⟩

def reservedTxBytes (tx : FundedDeposit) : ℕ :=
  satAdd u64Max (satAdd u64Max tx.intentBytes.length 8) (satMul u64Max ADMISSION_PQ_SIGNATURE_MAX 2)

def validateShape (tx : FundedDeposit) : Except FundedDepositReject Unit :=
  refuse (¬ (tx.terms.wellShaped MIN_DEPOSIT_SAT tx.reservedTxBytes = true ∧
    keyHasShape tx.validatorPubkey = true ∧ tx.commissionBps ≤ MAX_COMMISSION_BPS ∧
    tx.randaoCommitment ≠ 0 ∧ tx.withdrawalCredentials ≠ 0 ∧
    tx.fundingSignature.length ≤ ADMISSION_PQ_SIGNATURE_MAX ∧
    tx.proofOfPossession.length ≤ ADMISSION_PQ_SIGNATURE_MAX)) .shape

def verifyAuthorizations (env : Env) (tx : FundedDeposit) : Except FundedDepositReject Unit := do
  tx.validateShape
  refuse (signatureHasShape tx.fundingSignature = false ∨ signatureHasShape tx.proofOfPossession = false ∨
    env.verifier.verifyWithKey tx.fundingPubkey (tx.fundingRoot env.crypto) tx.fundingSignature = false ∨
    env.verifier.verifyWithKey tx.validatorPubkey (tx.possessionRoot env.crypto) tx.proofOfPossession
      = false) .signature

def rejects : FundingRejects FundedDepositReject :=
  ⟨.feeCap, .missingInput, .ownership, .conservation, .arithmetic, .outputCollision⟩

end FundedDeposit

namespace CommittedState

structure FundedRegistration where
  registration : Registration
  coins : CoinPlan

def planFundedDeposit (env : Env) (st : CommittedState) (tx : FundedDeposit)
    (totalActiveSat baseFee : ℕ) : Except FundedDepositReject FundedRegistration := do
  refuse (env.gates.fundedValidatorAdmissionActive st.epoch = false) .notActive
  refuse (env.gates.activationQueueV2Active st.epoch ∧
    MAX_VALIDATOR_REGISTRY_ENTRIES ≤ st.validators.entries.length) .registryCapacity
  tx.validateShape
  refuse (st.admissionNetworkDomain ≠ some tx.networkDomain) .network
  refuse (tx.validUntilEpoch < st.epoch) .expired
  refuse (u128Max < totalActiveSat * MAX_VALIDATOR_STAKE_BPS) .arithmetic
  let cap := max (totalActiveSat * MAX_VALIDATOR_STAKE_BPS / 10000) MIN_DEPOSIT_SAT
  (depositShape SUITE_MLDSA65_FALCON1024 HYBRID_PK_BYTES tx.amountSat cap).mapError (fun _ => .stake)
  let pubkeyHash := env.crypto.sha3 tx.validatorPubkey
  refuse (st.pubkeyIndex.contains pubkeyHash = true) .alreadyRegistered
  refuse (u32Max < st.nextIndex) .registryFull
  let coins ← tx.terms.plan env st FundedDeposit.rejects (.fundedDeposit tx) baseFee
  tx.verifyAuthorizations env
  pure ⟨⟨pubkeyHash,
    { index := st.nextIndex
      pubkey := tx.validatorPubkey
      stakedSat := tx.amountSat
      randaoCommitment := tx.randaoCommitment
      withdrawalCredentials := hashBytes tx.withdrawalCredentials
      activationEpoch := u64Max
      exitEpoch := u64Max
      withdrawableEpoch := u64Max
      slashed := false
      commissionBps := tx.commissionBps }⟩, coins⟩

def withFundedRegistration (st : CommittedState) (r : FundedRegistration) : CommittedState :=
  { (st.register r.registration) with
    eutxos := r.coins.run st.eutxos
    fundedValidators := insert r.registration.record.index st.fundedValidators }

end CommittedState

namespace FundedDelegate

def terms (tx : FundedDelegate) : FundedTerms :=
  ⟨tx.fundingPubkey, tx.inputs, tx.amountSat, tx.change, tx.maxBaseFeeMillisatPerGas,
    tx.tipMillisatPerGas, tx.txBytes⟩

def reservedTxBytes (tx : FundedDelegate) : ℕ :=
  satAdd u64Max (satAdd u64Max tx.intentBytes.length 4) ADMISSION_PQ_SIGNATURE_MAX

def validateShape (tx : FundedDelegate) : Except FundedDelegationReject Unit :=
  refuse (¬ (tx.terms.wellShaped MIN_DELEGATION_SAT tx.reservedTxBytes = true ∧
    tx.validatorPubkeyHash ≠ 0 ∧ tx.fundingSignature.length ≤ ADMISSION_PQ_SIGNATURE_MAX)) .shape

def rejects : FundingRejects FundedDelegationReject :=
  ⟨.feeCap, .missingInput, .ownership, .conservation, .arithmetic, .outputCollision⟩

end FundedDelegate

def verifyAuthorization (env : Env) (shape : Except FundedDelegationReject Unit) (pubkey : Bytes)
    (root : Bytes32) (signature : Bytes) : Except FundedDelegationReject Unit := do
  shape
  refuse (signatureHasShape signature = false ∨ env.verifier.verifyWithKey pubkey root signature = false)
    .signature

def FundedUndelegate.validateShape (tx : FundedUndelegate) : Except FundedDelegationReject Unit :=
  refuse (keyHasShape tx.fundingPubkey = false ∨ ADMISSION_PQ_SIGNATURE_MAX < tx.signature.length) .shape

namespace FundedDelegationWithdraw

def validateShape (tx : FundedDelegationWithdraw) : Except FundedDelegationReject Unit :=
  refuse (keyHasShape tx.fundingPubkey = false ∨ tx.destinationScriptHash = 0 ∨
    tx.maxBaseFeeMillisatPerGas < MIN_BASE_FEE_MILLISAT_PER_GAS ∨
    MAX_BASE_FEE_MILLISAT_PER_GAS < tx.maxBaseFeeMillisatPerGas ∨
    ADMISSION_PQ_SIGNATURE_MAX < tx.signature.length) .shape

def charge (tx : FundedDelegationWithdraw) (baseFee : ℕ) : TxCharge :=
  chargeFor (.eutxo 1) tx.canonicalBytes.length baseFee 0

end FundedDelegationWithdraw

def ValidatorCommissionUpdate.validateShape (tx : ValidatorCommissionUpdate) :
    Except FundedDelegationReject Unit :=
  refuse (MAX_COMMISSION_BPS < tx.commissionBps ∨ ADMISSION_PQ_SIGNATURE_MAX < tx.signature.length) .shape

namespace CommittedState

section

variable (env : Env) (st : CommittedState)

/-- The principal a validator has delegated to it and not paid out. -/
def reservedSat (validator : ℕ) : ℕ :=
  ((st.delegations.zipIdx.filter (fun d => d.1.validator = validator ∧ ¬ st.isWithdrawn d.2)).map
    (fun d => d.1.amountSat)).sum

def nextDelegatorId : ℕ :=
  ((st.delegations.map Delegation.delegator ++ st.fundedDelegationOwners.keys).max?.map (· + 1)).getD 0

structure FundedDelegation where
  delegation : Delegation
  owner : Bytes32
  coins : CoinPlan

def planFundedDelegate (tx : FundedDelegate) (baseFee : ℕ) :
    Except FundedDelegationReject FundedDelegation := do
  refuse (env.gates.fundedDelegationActive st.epoch = false) .notActive
  tx.validateShape
  refuse (st.admissionNetworkDomain ≠ some tx.networkDomain) .network
  refuse (tx.validUntilEpoch < st.epoch) .expired
  let validator ← orRefuse (st.pubkeyIndex.get? tx.validatorPubkeyHash) .validator
  let record ← orRefuse (st.validators.get? validator) .validator
  refuse (record.slashed ∨ record.exitEpoch ≠ u64Max ∨ st.epoch < record.activationEpoch) .validator
  refuse (u128Max < st.reservedSat validator + tx.amountSat) .arithmetic
  refuse (MAX_FUNDED_DELEGATION_PER_VALIDATOR_SAT < st.reservedSat validator + tx.amountSat)
    .delegationLimit
  let coins ← tx.terms.plan env st FundedDelegate.rejects (.fundedDelegate tx) baseFee
  refuse (u32Max < st.nextDelegatorId) .arithmetic
  let requestedEpoch ← orRefuse (checkedAdd u64Max st.epoch 1) .arithmetic
  refuse (u32Max < st.delegations.length) .arithmetic
  verifyAuthorization env tx.validateShape tx.fundingPubkey (tx.signingRoot env.crypto) tx.fundingSignature
  pure ⟨
    { delegator := st.nextDelegatorId
      validator
      amountSat := tx.amountSat
      requestedEpoch
      deactivateEpoch := none
      eligible := true }, env.crypto.sha3 tx.fundingPubkey, coins⟩

def withFundedDelegation (d : FundedDelegation) : CommittedState :=
  { st with
    eutxos := d.coins.run st.eutxos
    delegations := st.delegations ++ [d.delegation]
    fundedDelegationOwners := st.fundedDelegationOwners.insert d.delegation.delegator d.owner }

/-- The position belongs to the delegator and the key opens it. -/
def ownedPosition (delegatorId position : ℕ) (fundingPubkey : Bytes) :
    Except FundedDelegationReject Delegation := do
  refuse (st.fundedDelegationOwners.get? delegatorId ≠ some (env.crypto.sha3 fundingPubkey)) .ownership
  let delegation ← orRefuse st.delegations[position]? .position
  refuse (delegation.delegator ≠ delegatorId) .position
  pure delegation

structure Deactivation where
  delegation : Delegation
  charge : TxCharge

def planFundedUndelegate (tx : FundedUndelegate) : Except FundedDelegationReject Deactivation := do
  refuse (env.gates.fundedDelegationActive st.epoch = false) .notActive
  tx.validateShape
  refuse (st.admissionNetworkDomain ≠ some tx.networkDomain) .network
  refuse (tx.epoch ≠ st.epoch) .epoch
  let delegation ← st.ownedPosition env tx.delegatorId tx.position tx.fundingPubkey
  refuse (delegation.deactivateEpoch ≠ none) .alreadyDeactivating
  refuse (st.isWithdrawn tx.position = true) .alreadyWithdrawn
  let deactivateEpoch ← orRefuse (checkedAdd u64Max st.epoch 1) .arithmetic
  verifyAuthorization env tx.validateShape tx.fundingPubkey (tx.signingRoot env.crypto) tx.signature
  pure ⟨{ delegation with deactivateEpoch := some deactivateEpoch },
    stakingTxCharge env.gates st.epoch 1 tx.canonicalBytes.length⟩

def withDeactivation (position : ℕ) (d : Deactivation) : CommittedState :=
  { st with
    delegations := st.delegations.set position d.delegation
    fundedDelegationLifecycle := st.fundedDelegationLifecycle.insert (positionKey position) (u64Max, false) }

structure DelegationPayout where
  inactiveSince : ℕ
  output : EutxoEntry
  charge : TxCharge

/-- Principal less loss, with the rewards on it, less the fee. -/
def delegationPayoutSat (delegation : Delegation) (delegatorId feeSat : ℕ) : Option ℕ := do
  let left ← checkedSub delegation.amountSat (st.delegatorSlashLosses.getD delegatorId 0)
  let withFees ← checkedAdd u128Max left (st.delegatorFeeRewards.getD delegatorId 0)
  let withIssuance ← checkedAdd u128Max withFees (st.delegatorIssuanceRewards.getD delegatorId 0)
  checkedSub withIssuance feeSat

def planFundedDelegationWithdrawal (tx : FundedDelegationWithdraw)
    (baseFee : ℕ) : Except FundedDelegationReject DelegationPayout := do
  refuse (env.gates.fundedDelegationActive st.epoch = false) .notActive
  tx.validateShape
  refuse (st.admissionNetworkDomain ≠ some tx.networkDomain) .network
  refuse (tx.epoch ≠ st.epoch) .epoch
  refuse (tx.maxBaseFeeMillisatPerGas < baseFee) .feeCap
  let delegation ← st.ownedPosition env tx.delegatorId tx.position tx.fundingPubkey
  let (inactiveSince, withdrawn) ← orRefuse
    (st.fundedDelegationLifecycle.get? (positionKey tx.position)) .notInactive
  refuse (withdrawn = true) .alreadyWithdrawn
  refuse (inactiveSince = u64Max) .notInactive
  let withdrawable ← orRefuse (checkedAdd u64Max inactiveSince WITHDRAWAL_DELAY_EPOCHS) .arithmetic
  let registry := Registry.resolve st.delegations st.epoch
  refuse (st.epoch < withdrawable ∨ registry.stateOf delegation ≠ .inactive ∨
    registry.activatedSat env.search delegation ≠ 0) .withdrawalDelay
  let charge := tx.charge baseFee
  let payout ← orRefuse (st.delegationPayoutSat delegation tx.delegatorId charge.baseFeeSat) .arithmetic
  refuse (u64Max < payout) .arithmetic
  refuse (payout < MIN_TRANSFER_OUTPUT_SAT) .stake
  let txid := (PosTransaction.fundedDelegationWithdraw tx).txid env.crypto
  refuse (st.eutxos.contains (outpoint txid 0) = true) .outputCollision
  verifyAuthorization env tx.validateShape tx.fundingPubkey (tx.signingRoot env.crypto) tx.signature
  pure ⟨inactiveSince, ⟨txid, 0, payout, tx.destinationScriptHash⟩, charge⟩

def withDelegationPayout (position delegatorId : ℕ) (p : DelegationPayout) : CommittedState :=
  { st with
    eutxos := st.eutxos.insert p.output
    fundedDelegationLifecycle :=
      st.fundedDelegationLifecycle.insert (positionKey position) (p.inactiveSince, true)
    delegatorSlashLosses := st.delegatorSlashLosses.erase delegatorId
    delegatorFeeRewards := st.delegatorFeeRewards.erase delegatorId
    delegatorIssuanceRewards := st.delegatorIssuanceRewards.erase delegatorId }

structure CommissionChange where
  record : ValidatorRecord
  charge : TxCharge

def planValidatorCommissionUpdate (tx : ValidatorCommissionUpdate) :
    Except FundedDelegationReject CommissionChange := do
  refuse (env.gates.fundedDelegationActive st.epoch = false) .notActive
  tx.validateShape
  refuse (st.admissionNetworkDomain ≠ some tx.networkDomain) .network
  refuse (tx.epoch ≠ st.epoch) .epoch
  let record ← orRefuse (st.validators.get? tx.validator) .validator
  refuse (record.slashed ∨ record.exitEpoch ≠ u64Max) .validator
  refuse (tx.commissionBps = record.commissionBps) .commission
  let registry := Registry.resolve st.delegations st.epoch
  refuse (record.commissionBps < tx.commissionBps ∧ ∃ d ∈ st.delegations, d.validator = tx.validator ∧
    (registry.stateOf d ≠ .inactive ∨ registry.activatedSat env.search d ≠ 0)) .commissionIncreaseWithDelegations
  refuse (signatureHasShape tx.signature = false ∨
    env.verifier.verifyWithKey record.pubkey (tx.signingRoot env.crypto) tx.signature = false) .signature
  pure ⟨{ record with commissionBps := tx.commissionBps },
    stakingTxCharge env.gates st.epoch 1 tx.canonicalBytes.length⟩

end

theorem planFundedDeposit_eq_ok {tx : FundedDeposit}
    (planned : planFundedDeposit env st tx totalActiveSat baseFee = .ok r) :
    r.registration.Fresh env.crypto st ∧ r.coins.Balances st.eutxos 0 r.registration.record.stakedSat := by
  simp only [planFundedDeposit, FundedDeposit.validateShape, FundedTerms.wellShaped, keyHasShape,
    decide_eq_true_eq, ok_iff, not_not, SortedMap.contains, isSome_iff_ne_none, ne_eq] at planned
  obtain ⟨-, -, ⟨⟨-, -, -, ordered, -⟩, ⟨length, -⟩, -⟩, -, -, -, -, unknown, -, coins, paid, -, rfl⟩ := planned
  exact ⟨⟨rfl, unknown, rfl, rfl, rfl, rfl, rfl, isHashBasedKey_of_length (length ▸ by decide)⟩,
    FundedTerms.plan_balances ordered paid⟩

theorem planFundedDelegate_eq_ok
    (planned : planFundedDelegate env st tx baseFee = .ok d) :
    d.coins.Balances st.eutxos 0 d.delegation.amountSat := by
  simp only [planFundedDelegate, FundedDelegate.validateShape, FundedTerms.wellShaped, decide_eq_true_eq, ok_iff,
    not_not] at planned
  obtain ⟨-, ⟨⟨-, -, -, ordered, -⟩, -⟩, -, -, -, -, -, -, -, -, -, coins, paid, -, -, -, -, -, rfl⟩ := planned
  exact FundedTerms.plan_balances ordered paid

theorem planFundedDelegate_opens
    (planned : planFundedDelegate env st tx baseFee = .ok d) :
    ∃ validator, st.pubkeyIndex.get? tx.validatorPubkeyHash = some validator ∧
      (st.validators.get? validator).isSome = true ∧
      d.delegation = ⟨st.nextDelegatorId, validator, tx.amountSat, st.epoch + 1, none, true⟩ ∧
      MIN_DELEGATION_SAT ≤ tx.amountSat ∧
      st.reservedSat validator + tx.amountSat ≤ MAX_FUNDED_DELEGATION_PER_VALIDATOR_SAT ∧
      st.delegations.length ≤ u32Max := by
  simp only [planFundedDelegate, FundedDelegate.validateShape, FundedTerms.wellShaped, decide_eq_true_eq, ok_iff,
    not_not, not_lt] at planned
  obtain ⟨-, ⟨⟨-, -, -, -, least, -⟩, -⟩, -, -, validator, known, record, found, -, -, limited, coins, -, -,
    requested, next, numbered, -, rfl⟩ := planned
  refine ⟨validator, known, by rw [found]; rfl, ?_, least, limited, numbered⟩
  rw [(checkedAdd_eq_some next).1]

theorem planFundedUndelegate_eq_ok {tx : FundedUndelegate} {d : Deactivation}
    (planned : planFundedUndelegate env st tx = .ok d) :
    ∃ delegation, st.delegations[tx.position]? = some delegation ∧ delegation.deactivateEpoch = none ∧
      d.delegation = { delegation with deactivateEpoch := some (st.epoch + 1) } ∧
      st.isWithdrawn tx.position = false ∧ d.charge.feeSat = 0 := by
  simp only [planFundedUndelegate, ownedPosition, ok_iff, Bool.not_eq_true, not_not, ne_eq] at planned
  obtain ⟨-, -, -, -, _, ⟨-, delegation, found, -, rfl⟩, stays, unpaid, deactivate, next, -, rfl⟩ := planned
  refine ⟨delegation, found, stays, ?_, unpaid, feeSat_stakingTxCharge ..⟩
  rw [(checkedAdd_eq_some next).1]

theorem planFundedDelegationWithdrawal_eq_ok {tx : FundedDelegationWithdraw}
    (planned : planFundedDelegationWithdrawal env st tx baseFee = .ok p) :
    ∃ delegation, st.delegations[tx.position]? = some delegation ∧ st.isWithdrawn tx.position = false ∧
      p.output.value + p.charge.feeSat + st.delegatorSlashLosses.getD tx.delegatorId 0 =
        delegation.amountSat + st.delegatorFeeRewards.getD tx.delegatorId 0 +
          st.delegatorIssuanceRewards.getD tx.delegatorId 0 := by
  simp only [planFundedDelegationWithdrawal, ownedPosition, delegationPayoutSat, ok_iff, Bool.not_eq_true,
    bind_eq_bind, bind_eq_some_iff] at planned
  obtain ⟨-, -, -, -, -, _, ⟨-, delegation, found, -, rfl⟩, ⟨since, withdrawn⟩, waiting, unpaid, -, -, -, -,
    payout, ⟨left, lost, withFees, fees, withIssuance, issuance, charged⟩, -, -, -, -, rfl⟩ := planned
  refine ⟨delegation, found, ?_, ?_⟩
  · simp only [isWithdrawn, waiting, map_some, getD_some]
    exact unpaid
  · have := checkedSub_eq_some lost
    have := (checkedAdd_eq_some fees).1
    have := (checkedAdd_eq_some issuance).1
    have := checkedSub_eq_some charged
    -- there is no tip on a payout
    have noTip : (tx.charge baseFee).priorityFeeSat = 0 := by
      simp [FundedDelegationWithdraw.charge, chargeFor, partSat, satMul]
    simp only [TxCharge.feeSat, noTip]
    omega

theorem planFundedDelegationWithdrawal_drained {tx : FundedDelegationWithdraw}
    (planned : planFundedDelegationWithdrawal env st tx baseFee = .ok p) :
    ∃ delegation, st.delegations[tx.position]? = some delegation ∧ delegation.delegator = tx.delegatorId ∧
      (Registry.resolve st.delegations st.epoch).stateOf delegation = .inactive ∧
      (Registry.resolve st.delegations st.epoch).activatedSat env.search delegation = 0 ∧
      p.output.scriptHash = tx.destinationScriptHash := by
  simp only [planFundedDelegationWithdrawal, ownedPosition, ok_iff, not_or, ne_eq, not_not] at planned
  obtain ⟨-, -, -, -, -, _, ⟨-, delegation, found, owned, rfl⟩, _, -, -, -, -, -, ⟨-, inactive, empty⟩,
    -, -, -, -, -, -, rfl⟩ := planned
  exact ⟨delegation, found, owned, inactive, empty, rfl⟩

theorem planValidatorCommissionUpdate_eq_ok {tx : ValidatorCommissionUpdate} {p : CommissionChange}
    (planned : planValidatorCommissionUpdate env st tx = .ok p) :
    ∃ record, st.validators.get? tx.validator = some record ∧
      p.record = { record with commissionBps := tx.commissionBps } ∧ p.charge.feeSat = 0 := by
  simp only [planValidatorCommissionUpdate, ok_iff] at planned
  obtain ⟨-, -, -, -, record, found, -, -, -, -, rfl⟩ := planned
  exact ⟨record, found, rfl, feeSat_stakingTxCharge ..⟩

/-- It is raised only when nothing delegated to the validator counts or is about to. -/
theorem planValidatorCommissionUpdate_raises {tx : ValidatorCommissionUpdate} {p : CommissionChange}
    (planned : planValidatorCommissionUpdate env st tx = .ok p)
    (found : st.validators.get? tx.validator = some record) (raised : record.commissionBps < tx.commissionBps) :
    ∀ d ∈ st.delegations, d.validator = tx.validator →
      (Registry.resolve st.delegations st.epoch).stateOf d = .inactive ∧
      (Registry.resolve st.delegations st.epoch).activatedSat env.search d = 0 := by
  simp only [planValidatorCommissionUpdate, ok_iff, found, Option.some.injEq, exists_eq_left'] at planned
  obtain ⟨-, -, -, -, -, -, unencumbered, -⟩ := planned
  intro d among behind
  by_contra counts
  exact unencumbered ⟨raised, d, among, behind, by tauto⟩

end CommittedState

end BlochPos
