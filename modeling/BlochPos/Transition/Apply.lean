import BlochPos.Transition.Evidence

/-! One transaction on a state: the dispatch over its kinds, and what its
acceptance means, kind by kind. -/
namespace BlochPos

open Attempt

def PosTransaction.isBridge : PosTransaction → Bool
  | .l2Settlement _ | .l2SettlementAsync _ | .l2Deposit _ | .l2DataAvailability _ | .l2WithdrawClaim _ =>
    true
  | _ => false

namespace CommittedState

def dispatch (env : Env) (st : CommittedState) (tx : PosTransaction) (totalActiveSat baseFee : ℕ) :
    Attempt CommittedState TxReject TxCharge :=
  let staking := fun signatures => stakingTxCharge env.gates st.epoch signatures tx.canonicalBytes.length
  match tx with
  | .l2Settlement settlement => relabel .l2Settlement (applyL2Settlement env settlement false)
  | .l2SettlementAsync settlement => relabel .l2Settlement (applyL2Settlement env settlement true)
  | .withdraw validator =>
    transact (planWithdrawal env · validator) (withWithdrawal · validator) (fun _ =>
      .free (intrinsicGas (.eutxo 0) tx.canonicalBytes.length) tx.canonicalBytes.length)
  | .fundedDeposit deposit => relabel .fundedDeposit
    (transact (planFundedDeposit env · deposit totalActiveSat baseFee) withFundedRegistration
      (fun r => r.coins.charge))
  | .fundedDelegate delegate => relabel .fundedDelegation
    (transact (planFundedDelegate env · delegate baseFee) withFundedDelegation (fun d => d.coins.charge))
  | .fundedUndelegate undelegate => relabel .fundedDelegation
    (transact (planFundedUndelegate env · undelegate) (withDeactivation · undelegate.position)
      Deactivation.charge)
  | .fundedDelegationWithdraw withdrawal => relabel .fundedDelegation
    (transact (planFundedDelegationWithdrawal env · withdrawal baseFee)
      (withDelegationPayout · withdrawal.position withdrawal.delegatorId) DelegationPayout.charge)
  | .validatorCommissionUpdate update => relabel .fundedDelegation
    (transact (planValidatorCommissionUpdate env · update)
      (fun st p => st.setRecord update.validator p.record) CommissionChange.charge)
  | .l2Deposit deposit => relabel .l2Deposit (applyL2Deposit env deposit baseFee)
  | .l2DataAvailability batch => relabel .l2DataAvailability (applyL2DataAvailability env batch baseFee)
  | .l2WithdrawClaim claim => relabel .l2WithdrawClaim (applyL2WithdrawClaim env claim baseFee)
  | .withdrawalCredentialRotation rotation =>
    relabel .pqMigration (applyWithdrawalCredentialRotation env rotation)
  | .rescueCommit commit => relabel .pqMigration
    (transact (planRescueCommit env · commit) (fun st _ => st.withRescueCommit commit.commitment) id)
  | .rescueReveal reveal => relabel .pqMigration
    (transact (planRescueReveal env · reveal baseFee) (withRescue · (reveal.commitment env.crypto))
      CoinPlan.charge)
  | .transfer transfer => do
    check (st.checkLatticeSpendFreeze env.gates (transfer.inputs.map TransferInput.pubkey))
    relabel .transfer (applyTransfer env transfer baseFee)
  | .transferV2 transfer => do
    check (refuse (st.epoch < env.gates.transferWitnessDedup) (.transfer .formatNotActive))
    check (st.checkLatticeSpendFreeze env.gates (transfer.keys.map WitnessKey.pubkey))
    relabel .transfer (applyTransferV2 env transfer baseFee)
  | .deposit deposit =>
    transact (planDeposit env · deposit totalActiveSat) register (fun _ => staking 1)
  | .exit validator =>
    transact (planExit env · validator) (setRecord · validator) (fun _ => staking 0)
  | .exitV2 pubkeyHash epoch signature =>
    transact (planExitV2 env · pubkeyHash epoch signature) (fun st p => st.setRecord p.1 p.2)
      (fun _ => staking 1)
  | .kesRegister validator depth root signature =>
    transact (planKesRegister env · validator depth root signature) (withKes · validator)
      (fun _ => staking 1)
  | .kesRotate validator period depth root signature =>
    transact (planKesRotate env · validator period depth root signature) (withKes · validator)
      (fun _ => staking 1)
  | .randaoRecommit validator newCommitment epoch signature =>
    transact (planRandaoRecommit env · validator newCommitment epoch signature)
      (withRecommitment · validator) (fun _ => staking 1)
  | .delegate delegator validator amountSat eligible =>
    transact (planDelegate env · delegator validator amountSat eligible) withDelegation
      (fun _ => staking 0)
  | .slashingEvidence _ => check (.error .misroutedEvidence)

/-- Every signature of a transaction is held to the rules of the state's epoch. -/
def applyTransaction (env : Env) (tx : PosTransaction) (totalActiveSat baseFee : ℕ) :
    Attempt CommittedState TxReject TxCharge := do
  let st ← get
  dispatch (env.gated st.epoch) st tx totalActiveSat baseFee

/-- The acceptance of a transaction at a state: the plan its checks agreed to, its charge and the
state it leaves. -/
inductive Accepted (env : Env) (st : CommittedState) (totalActiveSat baseFee : ℕ) :
    PosTransaction → TxCharge → CommittedState → Prop where
  | bridge {tx charge post call plan l2 l2' gained moved} (kind : tx.isBridge = true)
      (bridged : Bridged env st charge post call plan l2 l2' gained moved) :
      Accepted env st totalActiveSat baseFee tx charge post
  | withdraw {validator w charge}
      (planned : planWithdrawal env st validator = .ok w) (free : charge.feeSat = 0) :
      Accepted env st totalActiveSat baseFee (.withdraw validator) charge (st.withWithdrawal validator w)
  | fundedDeposit {tx r} (planned : planFundedDeposit env st tx totalActiveSat baseFee = .ok r) :
      Accepted env st totalActiveSat baseFee (.fundedDeposit tx) r.coins.charge
        (st.withFundedRegistration r)
  | fundedDelegate {tx d} (planned : planFundedDelegate env st tx baseFee = .ok d) :
      Accepted env st totalActiveSat baseFee (.fundedDelegate tx) d.coins.charge
        (st.withFundedDelegation d)
  | fundedUndelegate {tx d} (planned : planFundedUndelegate env st tx = .ok d) :
      Accepted env st totalActiveSat baseFee (.fundedUndelegate tx) d.charge
        (st.withDeactivation tx.position d)
  | delegationWithdraw {tx p} (planned : planFundedDelegationWithdrawal env st tx baseFee = .ok p) :
      Accepted env st totalActiveSat baseFee (.fundedDelegationWithdraw tx) p.charge
        (st.withDelegationPayout tx.position tx.delegatorId p)
  | commission {tx p} (planned : planValidatorCommissionUpdate env st tx = .ok p) :
      Accepted env st totalActiveSat baseFee (.validatorCommissionUpdate tx) p.charge
        (st.setRecord tx.validator p.record)
  | credentialRotation {tx p} (planned : planWithdrawalCredentialRotation env st tx = .ok p) :
      Accepted env st totalActiveSat baseFee (.withdrawalCredentialRotation tx) p.charge
        (st.withCredential tx.validator p)
  | rescueCommit {tx charge} (planned : planRescueCommit env st tx = .ok charge) :
      Accepted env st totalActiveSat baseFee (.rescueCommit tx) charge
        (st.withRescueCommit tx.commitment)
  | rescueReveal {tx plan} (planned : planRescueReveal env st tx baseFee = .ok plan) :
      Accepted env st totalActiveSat baseFee (.rescueReveal tx) plan.charge
        (st.withRescue (tx.commitment env.crypto) plan)
  | transfer {tx plan} (planned : planTransfer env st tx baseFee = .ok plan) :
      Accepted env st totalActiveSat baseFee (.transfer tx) plan.charge (st.withCoins plan)
  | transferV2 {tx plan} (planned : planTransferV2 env st tx baseFee = .ok plan) :
      Accepted env st totalActiveSat baseFee (.transferV2 tx) plan.charge (st.withCoins plan)
  | deposit {tx r charge}
      (planned : planDeposit env st tx totalActiveSat = .ok r) (free : charge.feeSat = 0) :
      Accepted env st totalActiveSat baseFee (.deposit tx) charge (st.register r)
  | exit {validator r charge}
      (planned : planExit env st validator = .ok r) (free : charge.feeSat = 0) :
      Accepted env st totalActiveSat baseFee (.exit validator) charge (st.setRecord validator r)
  | exitV2 {pubkeyHash epoch signature p charge}
      (planned : planExitV2 env st pubkeyHash epoch signature = .ok p) (free : charge.feeSat = 0) :
      Accepted env st totalActiveSat baseFee (.exitV2 pubkeyHash epoch signature) charge
        (st.setRecord p.1 p.2)
  | kesRegister {validator depth root signature entry charge}
      (planned : planKesRegister env st validator depth root signature = .ok entry)
      (free : charge.feeSat = 0) :
      Accepted env st totalActiveSat baseFee (.kesRegister validator depth root signature) charge
        (st.withKes validator entry)
  | kesRotate {validator period depth root signature entry charge}
      (planned : planKesRotate env st validator period depth root signature = .ok entry)
      (free : charge.feeSat = 0) :
      Accepted env st totalActiveSat baseFee (.kesRotate validator period depth root signature) charge
        (st.withKes validator entry)
  | randaoRecommit {validator newCommitment epoch signature r charge}
      (planned : planRandaoRecommit env st validator newCommitment epoch signature = .ok r)
      (free : charge.feeSat = 0) :
      Accepted env st totalActiveSat baseFee (.randaoRecommit validator newCommitment epoch signature)
        charge (st.withRecommitment validator r)
  | delegate {delegator validator amountSat eligible d charge}
      (planned : planDelegate env st delegator validator amountSat eligible = .ok d)
      (free : charge.feeSat = 0) :
      Accepted env st totalActiveSat baseFee (.delegate delegator validator amountSat eligible) charge
        (st.withDelegation d)

theorem accepted_of_applyTransaction {charge : TxCharge}
    (applied : exec (applyTransaction env tx totalActiveSat baseFee) st = (.ok charge, post)) :
    Accepted (env.gated st.epoch) st totalActiveSat baseFee tx charge post := by
  simp only [applyTransaction, ok_iff] at applied
  obtain ⟨_, _, ⟨rfl, rfl⟩, applied⟩ := applied
  simp only [dispatch] at applied
  cases tx with
  | l2Settlement settlement | l2SettlementAsync settlement =>
    obtain ⟨_, _, _, -, -, bridged⟩ := applyL2Settlement_bridged (exec_relabel_eq_ok_iff.mp applied)
    exact .bridge rfl bridged
  | l2Deposit deposit =>
    obtain ⟨_, _, _, -, bridged⟩ := applyL2Deposit_bridged (exec_relabel_eq_ok_iff.mp applied)
    exact .bridge rfl bridged
  | l2DataAvailability batch =>
    obtain ⟨_, _, _, -, bridged⟩ := applyL2DataAvailability_bridged (exec_relabel_eq_ok_iff.mp applied)
    exact .bridge rfl bridged
  | l2WithdrawClaim claim =>
    obtain ⟨_, _, _, -, bridged⟩ := applyL2WithdrawClaim_bridged (exec_relabel_eq_ok_iff.mp applied)
    exact .bridge rfl bridged
  | slashingEvidence evidence => simp at applied
  | transfer transfer =>
    simp only [applyTransfer, ok_iff] at applied
    obtain ⟨_, ⟨-, rfl⟩, plan, planned, rfl, rfl⟩ := applied
    exact .transfer planned
  | transferV2 transfer =>
    simp only [applyTransferV2, ok_iff] at applied
    obtain ⟨_, ⟨-, rfl⟩, _, ⟨-, rfl⟩, plan, planned, rfl, rfl⟩ := applied
    exact .transferV2 planned
  | withdrawalCredentialRotation rotation =>
    simp only [ok_iff, exec_applyWithdrawalCredentialRotation] at applied
    obtain ⟨plan, planned, rfl, rfl⟩ := applied
    exact .credentialRotation planned
  | rescueCommit commit =>
    simp only [ok_iff] at applied
    obtain ⟨plan, planned, rfl, rfl⟩ := applied
    exact .rescueCommit planned
  | withdraw | fundedDeposit | fundedDelegate | fundedUndelegate | fundedDelegationWithdraw
    | validatorCommissionUpdate | rescueReveal | deposit | exit | exitV2
    | kesRegister | kesRotate | randaoRecommit | delegate =>
    simp only [ok_iff] at applied
    obtain ⟨plan, planned, rfl, rfl⟩ := applied
    first
    | exact .withdraw planned rfl
    | exact .fundedDeposit planned
    | exact .fundedDelegate planned
    | exact .fundedUndelegate planned
    | exact .delegationWithdraw planned
    | exact .commission planned
    | exact .rescueReveal planned
    | exact .deposit planned (feeSat_stakingTxCharge ..)
    | exact .exit planned (feeSat_stakingTxCharge ..)
    | exact .exitV2 planned (feeSat_stakingTxCharge ..)
    | exact .kesRegister planned (feeSat_stakingTxCharge ..)
    | exact .kesRotate planned (feeSat_stakingTxCharge ..)
    | exact .randaoRecommit planned (feeSat_stakingTxCharge ..)
    | exact .delegate planned (feeSat_stakingTxCharge ..)

end CommittedState

end BlochPos
