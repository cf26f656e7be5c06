import BlochPos.Committees
import BlochPos.Delegation.Accounting

/-! The cap on a validator's delegated stake: when the rounds that look for it end in one that holds. -/
namespace BlochPos.Registry

open SortedMap List

def capShare (total : ℕ) : ℕ := total * MAX_VALIDATOR_STAKE_BPS / 10000

def cappedSum (stakes : List ℕ) (cap : ℕ) : ℕ := (stakes.map (fun s => min s cap)).sum

/-- A cap that is no more than the share of the stakes it leaves. -/
def OwnShare (stakes : List ℕ) (cap : ℕ) : Prop := cap ≤ capShare (cappedSum stakes cap)

section

variable {stakes : List ℕ}

theorem cappedSum_le_sum (stakes : List ℕ) (cap : ℕ) : cappedSum stakes cap ≤ stakes.sum := by
  have each : (stakes.map (fun s => min s cap)).sum ≤ (stakes.map id).sum :=
    sum_le_sum (fun _ _ => min_le_left _ _)
  rwa [map_id] at each

theorem OwnShare.mono (own : OwnShare stakes cap) (le : x ≤ cap) : OwnShare stakes x := by
  have least : x * cappedSum stakes cap ≤ cap * cappedSum stakes x := by
    simp only [cappedSum, ← sum_map_mul_left]
    refine sum_le_sum (fun s _ => ?_)
    rcases le_total s x with small | large
    · rw [min_eq_left small, min_eq_left (small.trans le)]
      exact Nat.mul_le_mul_right s le
    · rw [min_eq_right large, mul_comm cap]
      exact Nat.mul_le_mul_left x (min_le_right s cap)
  rcases cap.eq_zero_or_pos with rfl | positive
  · rw [Nat.le_zero.mp le]
    exact Nat.zero_le _
  unfold OwnShare capShare at own ⊢
  rw [Nat.le_div_iff_mul_le (by decide)] at own ⊢
  refine Nat.le_of_mul_le_mul_left ?_ positive
  nlinarith

end

theorem sum_stakes (delegations : List Delegation) (e : ℕ) :
    (resolve delegations e).stakes.values.sum = (resolve delegations e).totalActive := by
  have each (v : ℕ) : (resolve delegations e).stakes.getD v 0 = stakeBehind v (schedule delegations e).queue :=
    (schedule_balanced delegations e).stakes v
  have unnamed : ∀ v, v ∉ (delegations.map Delegation.validator).toFinset →
      (resolve delegations e).stakes.getD v 0 = 0 := by
    intro v absent
    rw [each, stakeBehind, sum_eq_zero_iff, forall_mem_map]
    intro q member
    refine if_neg (fun here => absent (mem_toFinset.mpr ?_))
    exact here ▸ mem_map_of_mem (delegation_of_mem_schedule member).1
  have listed : (resolve delegations e).stakes.values.sum = (resolve delegations e).stakes.sum (fun _ s => s) := rfl
  rw [listed, ← sum_stakeOf, sum_eq_sum_getD,
    Finset.sum_subset Finset.subset_union_left (fun v _ => getD_eq_zero_of_notMem)]
  exact (Finset.sum_subset Finset.subset_union_right (fun v _ => unnamed v)).symm

/-- With this much delegated at most, no product of the churn budget or the cap leaves its word. -/
theorem products_fit (delegations : List Delegation) (e : ℕ)
    (fits : (delegations.map Delegation.amountSat).sum * MAX_VALIDATOR_STAKE_BPS ≤ u128Max) :
    let r := resolve delegations e
    r.totalActive * WARMUP_RATE_BPS ≤ u128Max ∧ r.totalActive * MAX_VALIDATOR_STAKE_BPS ≤ u128Max ∧
      ∀ cap, cappedSum r.stakes.values cap * MAX_VALIDATOR_STAKE_BPS ≤ u128Max := by
  intro r
  have balanced := schedule_balanced delegations e
  have total : r.totalActive ≤ (delegations.map Delegation.amountSat).sum := by
    rw [sum_split _ _ e]
    exact balanced.total.trans_le ((sum_le_sum balanced.amounts).trans (Nat.le_add_right _ _))
  have share := (Nat.mul_le_mul_right MAX_VALIDATOR_STAKE_BPS total).trans fits
  refine ⟨(Nat.mul_le_mul_left _ (by decide)).trans share, share, fun cap => ?_⟩
  exact (Nat.mul_le_mul_right _ (sum_stakes delegations e ▸ cappedSum_le_sum _ cap)).trans share

/-- The stake a validator is returned with is its own, up to this limit. -/
def limit (r : Registry) : ℕ := if 0 < r.capSat then min r.capSat u64Max else u64Max

end BlochPos.Registry
