import BlochPos.Transition.Conservation
import Mathlib.Logic.Relation

/-! Solvency of issued coins. -/
namespace BlochPos

open List

namespace CommittedState

/-- Every coin held or owed, a bond with what a withdrawal would pay of it, less
what delegators have lost. -/
def backedSat (c : Crypto) (st : CommittedState) : ℤ :=
  st.eutxos.totalSat + st.validators.sum (fun i _ => st.withdrawableSat c i) + st.delegatedSat +
    ledgerSat st.pendingFeeRewards + ledgerSat st.delegatorFeeRewards +
    ledgerSat st.validatorFeeRewards + ledgerSat st.delegatorIssuanceRewards + st.escrowSat -
    st.burnedSat

section

variable {env : Env} {st post : CommittedState} {event : Event} {transactions : List PosTransaction}

theorem backedSat_eq (c : Crypto) (st : CommittedState) :
    st.backedSat c = st.valueSat (Bonds.backedSat c) := by
  have bonded : Bonds.backedSat c st.bonds = st.validators.sum (fun i _ => st.withdrawableSat c i) := by
    simp only [Bonds.backedSat, bonds, SortedMap.sum_mapVal]
    apply SortedMap.sum_congr
    intro i r found
    exact (withdrawableSat_eq c found).symm
  simp only [backedSat, valueSat, liquidSat, Purse.sat, purse, bonded, burnedSat]
  omega

/-- From an epoch on, withdrawals and evidence are open and no bond is taken
without payment. -/
structure Lifecycle (g : Gates) (epoch : ℕ) : Prop where
  withdrawal : ∀ later, epoch ≤ later → g.withdrawalActive later = true
  evidence : ∀ later, epoch ≤ later → g.slashingEvidenceActive later = true
  paid : ∀ later, epoch ≤ later → g.unfundedBondingActive later = false

theorem Lifecycle.later {epoch later : ℕ} (lifecycle : Lifecycle g epoch)
    (ahead : epoch ≤ later) : Lifecycle g later where
  withdrawal next after := lifecycle.withdrawal next (ahead.trans after)
  evidence next after := lifecycle.evidence next (ahead.trans after)
  paid next after := lifecycle.paid next (ahead.trans after)

theorem Step.unfundedSat_eq_zero (step : Step env st event post)
    (refused : env.gates.unfundedBondingActive st.epoch = false) : event.unfundedSat = 0 := by
  cases step with
  | @transaction _ _ tx _ _ _ applied =>
    cases accepted_of_applyTransaction applied with
    | deposit planned =>
      have active : env.gates.unfundedBondingActive st.epoch = true := (planDeposit_eq_ok planned).2.2
      simp [refused] at active
    | delegate planned =>
      have active : env.gates.unfundedBondingActive st.epoch = true := (planDelegate_eq_ok planned).2
      simp [refused] at active
    | bridge kind =>
      cases tx with
      | deposit | delegate => cases kind
      | _ => rfl
    | _ => rfl
  | _ => rfl

theorem unfundedSat_of_run (run : Run (Step env) st events post) (lifecycle : Lifecycle env.gates st.epoch) :
    (events.map Event.unfundedSat).sum = 0 := by
  induction run with
  | nil => rfl
  | cons taken _ ih =>
    have first := taken.unfundedSat_eq_zero (lifecycle.paid _ le_rfl)
    have rest := ih (lifecycle.later taken.epoch_le)
    rw [map_cons, sum_cons, first, rest]

theorem map_unfundedSat_inBlock (length : charges.length = transactions.length) :
    (List.zipWith Event.inBlock transactions charges).map Event.unfundedSat =
      transactions.map unfundedBondSat := by
  induction transactions generalizing charges with
  | nil => rfl
  | cons tx rest ih =>
    cases charges with
    | nil => cases length
    | cons charge charges =>
      simp only [zipWith_cons_cons, map_cons, unfundedSat_inBlock]
      rw [ih (Nat.succ.inj length)]

theorem runBlock_unfunded (ran : runBlock env st envelope attestations transactions = .ok m)
    (lifecycle : Lifecycle env.gates st.epoch) : (transactions.map unfundedBondSat).sum = 0 := by
  obtain ⟨votes, charges, creditSat, -, length, run⟩ := runBlock_run ran
  have nothing := unfundedSat_of_run run lifecycle
  rw [← map_unfundedSat_inBlock length]
  simp only [map_append, map_cons, sum_append, sum_cons] at nothing
  omega

/-- An event that credits no fees, or a whole block. -/
inductive Move (env : Env) : CommittedState → CommittedState → Prop where
  | event {st post : CommittedState} {event : Event} (step : Step env st event post)
      (uncredited : event.creditedSat = 0) : Move env st post
  | block {st post : CommittedState} {envelope : ProposalEnvelope} {attestations : List Attestation}
      {transactions : List PosTransaction}
      (computed : computePostState env st envelope attestations transactions = .ok post) : Move env st post

theorem Move.run (move : Move env st post) : ∃ events, Run (Step env) st events post := by
  cases move with
  | event step => exact ⟨_, .single step⟩
  | block computed =>
    obtain ⟨_, _, _, -, -, run⟩ := computePostState_run computed
    exact ⟨_, run⟩

theorem moves_of_run (run : Run (Step env) st events post)
    (uncredited : ∀ event ∈ events, event.creditedSat = 0) : Relation.ReflTransGen (Move env) st post := by
  induction run with
  | nil => exact .refl
  | cons taken _ ih =>
    have first := uncredited _ mem_cons_self
    have rest := ih (fun event later => uncredited event (mem_cons_of_mem _ later))
    exact .head (.event taken first) rest

theorem Move.epoch_le (move : Move env st post) : st.epoch ≤ post.epoch := by
  obtain ⟨events, run⟩ := move.run
  exact epoch_le_of_run run

theorem Move.excess_le (move : Move env st post) (indexed : st.Indexed env.crypto)
    (lifecycle : Lifecycle env.gates st.epoch) :
    post.excessSat (Bonds.backedSat env.crypto) ≤ st.excessSat (Bonds.backedSat env.crypto) := by
  have measured := Bonds.measure_backedSat env.crypto
  cases move with
  | event step uncredited =>
    have bound := step.excess_le measured indexed (fun _ => lifecycle.withdrawal _ le_rfl)
    have paid := step.unfundedSat_eq_zero (lifecycle.paid _ le_rfl)
    omega
  | block computed =>
    simp only [computePostState, Attempt.ok_iff] at computed
    obtain ⟨m, ran, -, finished⟩ := computed
    have inside := (runBlock_excess_le ran measured indexed (fun _ => lifecycle.withdrawal)).1
    have paid := runBlock_unfunded ran lifecycle
    obtain ⟨events, run⟩ : ∃ events, Run (Step env) st events m.state := by
      obtain ⟨_, _, _, -, -, run⟩ := runBlock_run ran
      exact ⟨_, run⟩
    have last : Step env m.state .bookkeeping post := .finish finished
    have closed := last.excess_le measured (run.invariant Step.indexed indexed)
      (fun _ => lifecycle.withdrawal _ (epoch_le_of_run run))
    simp only [Event.paidSat, Event.creditedSat, Event.unfundedSat] at closed
    omega

/-- Coins covered by issuance stay covered: from the lifecycle gates on, no
sequence of transactions, evidence, epoch closes and blocks makes principal that
was never issued spendable. -/
theorem issued_coins_solvent (reached : Reachable env st) (lifecycle : Lifecycle env.gates st.epoch)
    (moves : Relation.ReflTransGen (Move env) st post) (solvent : st.backedSat env.crypto ≤ st.issuedSat) :
    post.backedSat env.crypto ≤ post.issuedSat := by
  have all : post.Indexed env.crypto ∧ Lifecycle env.gates post.epoch ∧
      post.excessSat (Bonds.backedSat env.crypto) ≤ st.excessSat (Bonds.backedSat env.crypto) := by
    induction moves with
    | refl => exact ⟨reached.indexed, lifecycle, le_rfl⟩
    | tail _ last ih =>
      obtain ⟨indexed, lifecycle, bound⟩ := ih
      obtain ⟨events, run⟩ := last.run
      exact ⟨run.invariant Step.indexed indexed, lifecycle.later last.epoch_le,
        (last.excess_le indexed lifecycle).trans bound⟩
  have bound := all.2.2
  rw [backedSat_eq] at solvent ⊢
  simp only [excessSat] at bound
  omega

end

def openLifecycle : Env := .accepting { Gates.shipped with withdrawal := 0, slashingEvidence := 0 }

/-- A validator is slashed and the epoch closes. -/
theorem solvent_after_slash : let start := genesisState openLifecycle (.small 3)
    ∃ post, Run (Step openLifecycle) start [.evidence (doubleVoteOf 0), .closeEpoch] post ∧
      post.backedSat openLifecycle.crypto ≤ post.issuedSat := by
  intro start
  have played : (playAll openLifecycle start [.evidence (doubleVoteOf 0), .closeEpoch]).isSome := by
    decide +kernel
  obtain ⟨post, played⟩ := Option.isSome_iff_exists.mp played
  have run := run_of_playAll played
  have reached : Reachable openLifecycle start :=
    ⟨start, [], initial_genesisState (by decide +kernel), .nil start⟩
  have lifecycle : Lifecycle openLifecycle.gates start.epoch := by
    constructor <;> intro later _
    · simp [Gates.withdrawalActive, epochGateActive, openLifecycle, Env.accepting, u64Max]
    · simp [Gates.slashingEvidenceActive, epochGateActive, openLifecycle, Env.accepting, u64Max]
    · simp [Gates.unfundedBondingActive, epochGateActive, openLifecycle, Env.accepting, Gates.shipped]
  refine ⟨post, run, issued_coins_solvent reached lifecycle (moves_of_run run ?_) (by decide +kernel)⟩
  intro event among
  simp only [mem_cons, not_mem_nil, or_false] at among
  rcases among with rfl | rfl <;> rfl

end CommittedState

end BlochPos
