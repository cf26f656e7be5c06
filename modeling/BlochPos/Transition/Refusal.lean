import BlochPos.Lib.Atomic
import BlochPos.Transition.Apply

/-! A refused transaction leaves the state as it found it. -/
namespace BlochPos

open Attempt

namespace L2.State

theorem atomic_appendDeposit (c : Crypto) (record : InboxRecord) : Atomic (appendDeposit c record) :=
  readOnly_get.bind_atomic fun _ => (readOnly_check _).bind_atomic fun _ =>
    (readOnly_check _).atomic.bind_unfailing fun _ =>
      (unfailing_modify _).bind fun _ => unfailing_pure _

theorem atomic_releaseWithdrawal (c : Crypto) (claim : Claim) : Atomic (releaseWithdrawal c claim) :=
  readOnly_get.bind_atomic fun _ => (readOnly_check _).bind_atomic fun _ =>
    (readOnly_check _).atomic.bind_unfailing fun _ =>
      (unfailing_modify _).bind fun _ => unfailing_pure _

theorem atomic_recordDataAvailability (chainId l2Number : ℕ) (commitment : Bytes32) :
    Atomic (recordDataAvailability chainId l2Number commitment) :=
  readOnly_get.bind_atomic fun _ => (readOnly_check _).bind_atomic fun _ =>
    (readOnly_check _).bind_atomic fun _ => (readOnly_check _).bind_atomic fun _ =>
      (readOnly_check _).bind_atomic fun _ => (readOnly_check _).bind_atomic fun _ =>
        (readOnly_check _).atomic.bind_unfailing fun _ =>
          (unfailing_modify _).bind fun _ => unfailing_pure _

theorem atomic_apply (c : Crypto) (v : SignatureVerifier) (tx : Transaction) (parent : Bytes32) (slot : ℕ)
    (asynchronous : Bool) : Atomic (apply c v tx parent slot asynchronous) :=
  readOnly_get.bind_atomic fun _ => (readOnly_check _).atomic.bind_unfailing fun _ =>
    (unfailing_modify _).bind fun _ => unfailing_pure _

end L2.State

namespace CommittedState

theorem Atomic.onL2 {x : Attempt L2.State E A} (atomic : Atomic x) (missing : E) : Atomic (onL2 missing x) := by
  refine Attempt.Atomic.zoom atomic missing ?_
  intro st l2 installed
  rw [putL2, ← installed]

theorem atomic_bridge {plan : CommittedState → Except E P} {missing : E}
    {inner : P → Attempt L2.State E Unit} (atomic : ∀ p, Atomic (inner p))
    (commit : P → CommittedState → CommittedState) (charge : P → TxCharge) :
    Atomic (do
      let st ← get
      let p ← check (plan st)
      onL2 missing (inner p)
      modify (commit p)
      pure (charge p) : Attempt CommittedState E TxCharge) :=
  readOnly_get.bind_atomic fun _ => (readOnly_check _).bind_atomic fun p =>
    (Atomic.onL2 (atomic p) missing).bind_unfailing fun _ =>
      (unfailing_modify _).bind fun _ => unfailing_pure _

theorem atomic_applyWithdrawalCredentialRotation (env : Env) (tx : WithdrawalCredentialRotation) :
    Atomic (applyWithdrawalCredentialRotation env tx) := by
  intro st e st' refused
  rw [exec_applyWithdrawalCredentialRotation] at refused
  exact atomic_transact _ _ _ st e st' refused

theorem atomic_dispatch (env : Env) (st : CommittedState) (tx : PosTransaction)
    (totalActiveSat baseFee : ℕ) : Atomic (dispatch env st tx totalActiveSat baseFee) := by
  cases tx with
  | l2Settlement settlement | l2SettlementAsync settlement =>
    exact (readOnly_get.bind_atomic fun _ =>
      (Atomic.onL2 (L2.State.atomic_apply _ _ _ _ _ _) _).bind_unfailing fun _ => unfailing_pure _).relabel _
  | l2Deposit deposit =>
    exact (atomic_bridge (fun p => (L2.State.atomic_appendDeposit _ _).relabel _) _ _).relabel _
  | l2DataAvailability batch =>
    exact (atomic_bridge (fun _ => (L2.State.atomic_recordDataAvailability _ _ _).relabel _) _ _).relabel _
  | l2WithdrawClaim claim =>
    exact (atomic_bridge (fun _ => (L2.State.atomic_releaseWithdrawal _ _).relabel _) _ _).relabel _
  | withdrawalCredentialRotation rotation =>
    exact (atomic_applyWithdrawalCredentialRotation env rotation).relabel _
  | transfer transfer =>
    exact (readOnly_check _).bind_atomic fun _ => (atomic_transact _ _ _).relabel _
  | transferV2 transfer =>
    exact (readOnly_check _).bind_atomic fun _ => (readOnly_check _).bind_atomic fun _ =>
      (atomic_transact _ _ _).relabel _
  | slashingEvidence evidence => exact (readOnly_check _).atomic
  | fundedDeposit | fundedDelegate | fundedUndelegate | fundedDelegationWithdraw
    | validatorCommissionUpdate | rescueCommit | rescueReveal => exact (atomic_transact _ _ _).relabel _
  | withdraw | deposit | exit | exitV2 | kesRegister | kesRotate | randaoRecommit | delegate =>
    exact atomic_transact _ _ _

/-- A transaction that is refused, of any kind and under any verifier, leaves the state as it was. -/
theorem refused_transaction_changes_nothing {env : Env} {tx : PosTransaction}
    {totalActiveSat baseFee : ℕ} {st post : CommittedState} {reason : TxReject}
    (refused : exec (applyTransaction env tx totalActiveSat baseFee) st = (.error reason, post)) :
    post = st :=
  (readOnly_get.bind_atomic fun _ => atomic_dispatch _ _ _ _ _) st reason post refused

/-- A deposit under a key of the wrong length: the gate is open, the registry has room and the key is new. -/
theorem misfit_deposit_changes_nothing : let env := Env.accepting { Gates.shipped with deposit := 0 }
    let misfit : Deposit := ⟨[9], MIN_DEPOSIT_SAT, 0, [], 0, []⟩
    ∃ post, exec (applyTransaction env (.deposit misfit) 0 0) (genesisState env (.small 4)) =
        (.error .stakingRule, post) ∧ post = genesisState env (.small 4) := by
  intro env misfit
  have refused : (exec (applyTransaction env (.deposit misfit) 0 0) (genesisState env (.small 4))).1 =
      .error .stakingRule := by decide +kernel
  exact ⟨_, Prod.ext refused rfl, refused_transaction_changes_nothing (Prod.ext refused rfl)⟩

end CommittedState

end BlochPos
