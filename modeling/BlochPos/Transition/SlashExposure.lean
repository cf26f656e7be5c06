import BlochPos.Delegation.Accounting
import BlochPos.Transition.Evidence

/-! What a slash charges to delegators. The calendar decides when a deactivated stake is out of
reach. -/
namespace BlochPos

namespace Registry

variable {epoch : ℕ}

theorem minimum_of_activatedSat_pos (searches : Searches search)
    (counted : 0 < (resolve delegations epoch).activatedSat search d) : MIN_DELEGATION_SAT ≤ d.amountSat := by
  rcases answer_cases searches delegations epoch d with ⟨zero, -⟩ | ⟨q, member, key, -, -⟩
  · omega
  · rw [← (Delegation.queueKey_eq_iff.mp key).2.2.2]
    exact (delegation_of_mem_schedule member).2.2

/-- Stake that counts is out of a slash's reach exactly when its cool-down is
over by the calendar. -/
theorem stateOf_eq_inactive_iff (searches : Searches search) (eligible : d.eligible = true)
    (counted : 0 < (resolve delegations epoch).activatedSat search d) :
    (resolve delegations epoch).stateOf d = .inactive ↔
      ∃ de ∈ d.deactivateEpoch, de + COOLDOWN_EPOCHS ≤ epoch := by
  have large := minimum_of_activatedSat_pos searches counted
  have atEpoch : (resolve delegations epoch).epoch = epoch := rfl
  unfold stateOf
  rw [if_neg (by simp [eligible, large]), atEpoch]
  cases d.deactivateEpoch with
  | none =>
    simp only [Option.mem_def, reduceCtorEq, false_and, exists_false, iff_false]
    split_ifs <;> simp
  | some de =>
    simp only [Option.mem_def, Option.some.injEq, exists_eq_left']
    split_ifs with past deactivating admitted <;> simp [past]

end Registry

namespace CommittedState

open Attempt List

variable {env : Env} {penaltyBps : ℕ} {st : CommittedState}

def slashCharge (env : Env) (st : CommittedState) (offender penaltyBps : ℕ) (d : Delegation) : ℕ :=
  let registry := Registry.resolve st.delegations st.epoch
  if d.validator = offender ∧ d.eligible = true ∧ registry.stateOf d ≠ .inactive then
    registry.activatedSat env.search d * penaltyBps / 10000
  else 0

theorem applySlash_slashExposure (env : Env) (st : CommittedState) (offender : ℕ) (share : penaltyBps ≤ 10000) :
    applySlash (st.slashExposure env) offender penaltyBps =
      st.delegations.map (st.slashCharge env offender penaltyBps) := by
  simp only [applySlash, slashExposure, map_map, min_eq_left share]
  congr 1
  funext d
  simp [slashCharge]

theorem penaltyBps_le (g : Gates) (s : SlashingState) (base epoch total : ℕ) :
    s.penaltyBps g base epoch total ≤ 10000 := by
  unfold SlashingState.penaltyBps
  split_ifs <;> exact min_le_right _ _

theorem planSlashingEvidence_losses (planned : planSlashingEvidence env st e includingProposer roster = .ok p) :
    p.outcome.delegationLossesSat =
      st.delegations.map (st.slashCharge env e.offender p.outcome.penaltyBps) := by
  simp only [planSlashingEvidence, ok_iff] at planned
  obtain ⟨record, -, -, offense, -, rfl⟩ := planned
  exact applySlash_slashExposure env st e.offender (penaltyBps_le ..)

theorem getD_chargeLosses (ledger : SortedMap ℕ ℕ) (delegations : List Delegation)
    (charge : Delegation → ℕ) (delegator : ℕ) :
    (chargeLosses ledger delegations (delegations.map charge)).getD delegator 0 =
      ledger.getD delegator 0 + ((delegations.filter (fun d => d.delegator = delegator)).map charge).sum := by
  rw [chargeLosses, SortedMap.getD_foldl_addAt]
  congr 1
  induction delegations with
  | nil => rfl
  | cons d rest ih =>
    by_cases free : charge d = 0 <;> by_cases own : d.delegator = delegator <;>
      simp_all [Nat.pos_iff_ne_zero]

theorem slashCharge_eq_iff (own : d.validator = offender) (eligible : d.eligible = true)
    (counted : 0 < (Registry.resolve st.delegations st.epoch).activatedSat env.search d) :
    st.slashCharge env offender penaltyBps d =
        (Registry.resolve st.delegations st.epoch).activatedSat env.search d * penaltyBps / 10000 ↔
      (∀ de ∈ d.deactivateEpoch, st.epoch < de + COOLDOWN_EPOCHS) ∨
        (Registry.resolve st.delegations st.epoch).activatedSat env.search d * penaltyBps < 10000 := by
  have reach := Registry.stateOf_eq_inactive_iff env.searches eligible counted
  by_cases inactive : (Registry.resolve st.delegations st.epoch).stateOf d = .inactive
  · obtain ⟨de, deactivated, past⟩ := reach.mp inactive
    have masked : st.slashCharge env offender penaltyBps d = 0 := by simp [slashCharge, inactive]
    have late : ¬ ∀ de ∈ d.deactivateEpoch, st.epoch < de + COOLDOWN_EPOCHS :=
      fun early => (early de deactivated).not_ge past
    rw [masked, eq_comm, Nat.div_eq_zero_iff_lt (by decide)]
    simp only [late, false_or]
  · have early : ∀ de ∈ d.deactivateEpoch, st.epoch < de + COOLDOWN_EPOCHS :=
      fun de deactivated => not_le.mp (fun past => inactive (reach.mpr ⟨de, deactivated, past⟩))
    simp only [slashCharge, own, eligible, inactive, ne_eq, not_false_eq_true, and_self, if_true, true_iff]
    exact .inl early

/-- An accepted slash charges each delegator the sum over its delegations; the charge of one whose stake
counts is its share of the penalty exactly when its cool-down is not over by the calendar, or the share
rounds to nothing. -/
theorem slash_charges_counted_stake_iff {env : Env} {e : SlashingEvidence} {includingProposer : ℕ}
    {roster : List Validator} {st post : CommittedState}
    (accepted : exec (applySlashingEvidence env e includingProposer roster) st = (.ok (), post)) :
    ∃ p, planSlashingEvidence env st e includingProposer roster = .ok p ∧
      (∀ delegator, post.delegatorSlashLosses.getD delegator 0 =
        st.delegatorSlashLosses.getD delegator 0 +
          ((st.delegations.filter (fun d => d.delegator = delegator)).map
            (st.slashCharge env e.offender p.outcome.penaltyBps)).sum) ∧
      ∀ d ∈ st.delegations, d.validator = e.offender → d.eligible = true →
        0 < (Registry.resolve st.delegations st.epoch).activatedSat env.search d →
        (st.slashCharge env e.offender p.outcome.penaltyBps d =
            (Registry.resolve st.delegations st.epoch).activatedSat env.search d * p.outcome.penaltyBps / 10000 ↔
          (∀ de ∈ d.deactivateEpoch, st.epoch < de + COOLDOWN_EPOCHS) ∨
            (Registry.resolve st.delegations st.epoch).activatedSat env.search d * p.outcome.penaltyBps < 10000) := by
  obtain ⟨p, planned, rfl⟩ := applySlashingEvidence_eq_ok_iff.mp accepted
  refine ⟨p, planned, ?_, ?_⟩
  · intro delegator
    simp only [withPunishment, planSlashingEvidence_losses planned, getD_chargeLosses]
  · intro d _ own eligible counted
    exact slashCharge_eq_iff own eligible counted

def withSoleDelegation (epoch : ℕ) (d : Delegation) : CommittedState :=
  { genesisState (.accepting .shipped) (.small 1) with epoch, delegations := [d] }

/-- A delegation that is still active is charged its share. -/
theorem slash_charges_active_delegation : let d : Delegation := ⟨7, 0, 100000000000000, 1, none, true⟩
    let st := withSoleDelegation 3 d
    let roster := st.consensusRosterAt .shipped st.epoch
    (exec (applySlashingEvidence (.accepting .shipped) (doubleVoteOf 2) 0 roster) st).1 = .ok () ∧
      (Registry.resolve st.delegations st.epoch).activatedSat Registry.firstMatch d = 100000000000000 ∧
      ∃ p, planSlashingEvidence (.accepting .shipped) st (doubleVoteOf 2) 0 roster = .ok p ∧
        st.slashCharge (.accepting .shipped) 0 p.outcome.penaltyBps d =
          100000000000000 * p.outcome.penaltyBps / 10000 := by
  intro d st roster
  have done : (exec (applySlashingEvidence (.accepting .shipped) (doubleVoteOf 2) 0 roster) st).1 =
      .ok () := by decide +kernel
  have counted : (Registry.resolve st.delegations st.epoch).activatedSat Registry.firstMatch d = 100000000000000 := by
    decide +kernel
  obtain ⟨p, planned, -, exact_iff⟩ := slash_charges_counted_stake_iff (Prod.ext done rfl)
  refine ⟨done, counted, p, planned, ?_⟩
  have share := exact_iff d mem_cons_self rfl rfl (counted ▸ by decide)
  rw [← counted]
  exact share.mpr (.inl (fun de deactivated => nomatch deactivated))

set_option maxRecDepth 10000 in
/-- Deactivated at epoch 4710, the delegation still has 3,500,000 coins in the
roster when its cool-down is over, and loses none of them. -/
theorem slash_misses_draining_stake :
    let d : Delegation := ⟨7, 0, 2000000000000000, 4670, some 4710, true⟩
    let st := withSoleDelegation 4742 d
    let slash := exec (applySlashingEvidence (.accepting .shipped) (doubleVoteOf 4740) 0
      (st.consensusRosterAt .shipped 4742)) st
    (Registry.resolve st.delegations 4742).activatedSat Registry.firstMatch d = 350000000000000 ∧
      st.dutyRosterAt .shipped 4742 = [⟨0, MIN_DEPOSIT_SAT + 350000000000000⟩] ∧
      slash.1 = .ok () ∧ slash.2.delegatorSlashLosses.getD 7 0 = 0 := by
  intro d st slash
  refine ⟨?_, ?_, ?_, ?_⟩ <;> decide +kernel

end CommittedState

end BlochPos
