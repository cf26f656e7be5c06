import BlochPos.Committees

/-! The cap on the genesis cohort lands at or under its share of what is left, and stays there. -/
namespace BlochPos

open List

section

variable {validators : List Validator} {cohort : List ℕ}

def scaledTo (validators : List Validator) (cohort : List ℕ) (cap : ℕ) (v : Validator) : Validator :=
  if v.index ∈ cohort then ⟨v.index, v.effectiveStake * cap / cohortStake validators cohort % 2 ^ 64⟩ else v

theorem index_scaledTo (cap : ℕ) (v : Validator) : (scaledTo validators cohort cap v).index = v.index := by
  unfold scaledTo
  split_ifs <;> rfl

def outsideStake (validators : List Validator) (cohort : List ℕ) : ℕ :=
  totalStake (validators.filter (fun v => !decide (v.index ∈ cohort)))

theorem totalStake_split (validators : List Validator) (cohort : List ℕ) :
    totalStake validators = cohortStake validators cohort + outsideStake validators cohort := by
  induction validators with
  | nil => rfl
  | cons v rest ih =>
    simp only [totalStake, cohortStake, outsideStake, map_cons, sum_cons, filter_cons] at ih ⊢
    by_cases member : v.index ∈ cohort <;> simp [member] <;> omega

theorem filter_scaledTo (cap : ℕ) (p : ℕ → Bool) :
    (validators.map (scaledTo validators cohort cap)).filter (fun v => p v.index) =
      (validators.filter (fun v => p v.index)).map (scaledTo validators cohort cap) := by
  rw [filter_map]
  congr 2
  funext v
  rw [Function.comp_apply, index_scaledTo]

theorem outsideStake_scaledTo (cap : ℕ) :
    outsideStake (validators.map (scaledTo validators cohort cap)) cohort = outsideStake validators cohort := by
  have kept : ∀ v ∈ validators.filter (fun v => !decide (v.index ∈ cohort)),
      scaledTo validators cohort cap v = id v := by
    intro v outside
    have away := (mem_filter.mp outside).2
    exact if_neg (by simpa using away)
  rw [outsideStake, filter_scaledTo cap (fun i => !decide (i ∈ cohort)), map_congr_left kept, map_id]
  rfl

theorem cohortStake_scaledTo_le (staked : 0 < cohortStake validators cohort) :
    cohortStake (validators.map (scaledTo validators cohort cap)) cohort ≤ cap := by
  have parts : ∀ l : List Validator, (∀ v ∈ l, v.index ∈ cohort) →
      totalStake (l.map (scaledTo validators cohort cap)) * cohortStake validators cohort ≤ totalStake l * cap := by
    intro l members
    induction l with
    | nil => simp [totalStake]
    | cons v rest ih =>
      have later := ih (fun w among => members w (mem_cons_of_mem _ among))
      have share := Nat.div_mul_le_self (v.effectiveStake * cap) (cohortStake validators cohort)
      have word := Nat.mul_le_mul_right (cohortStake validators cohort)
        (Nat.mod_le (v.effectiveStake * cap / cohortStake validators cohort) (2 ^ 64))
      simp only [totalStake, map_cons, sum_cons, scaledTo, members v mem_cons_self, if_true,
        add_mul] at later ⊢
      omega
  have whole := parts (validators.filter (fun v => v.index ∈ cohort)) (fun v among => by
    simpa using (mem_filter.mp among).2)
  rw [cohortStake, filter_scaledTo cap (fun i => decide (i ∈ cohort))]
  refine Nat.le_of_mul_le_mul_right (whole.trans_eq ?_) staked
  rw [mul_comm]
  rfl

theorem capStatus_eq_enforced_iff : capStatus validators cohort epoch = .enforced cap ↔
    cohortCapBps epoch < 10000 ∧ MIN_DEPOSIT_SAT ≤ outsideStake validators cohort ∧
      outsideStake validators cohort * cohortCapBps epoch / (10000 - cohortCapBps epoch) = cap := by
  have others : totalStake validators - cohortStake validators cohort = outsideStake validators cohort := by
    rw [totalStake_split validators cohort, Nat.add_sub_cancel_left]
  simp only [capStatus, others]
  split_ifs with none few
  · simp [none]
  · simp [few]
  · simp only [CapStatus.enforced.injEq]
    exact ⟨fun same => ⟨not_le.mp none, not_lt.mp few, same⟩, fun held => held.2.2⟩

/-- Where all the stake is a word, so is each product of the cap in its double word. -/
theorem cohort_products_fit (small : totalStake validators ≤ u64Max)
    (enforced : capStatus validators cohort epoch = .enforced cap) :
    (totalStake validators - cohortStake validators cohort) * cohortCapBps epoch ≤ u128Max ∧
      (cap < cohortStake validators cohort → ∀ v ∈ validators, v.effectiveStake * cap ≤ u128Max) := by
  have tapering := (capStatus_eq_enforced_iff.mp enforced).1
  have split := totalStake_split validators cohort
  refine ⟨(Nat.mul_le_mul ((Nat.sub_le _ _).trans small) tapering.le).trans (by decide), fun above v among => ?_⟩
  have part : v.effectiveStake ≤ totalStake validators := le_sum_of_mem (mem_map_of_mem among)
  exact (Nat.mul_le_mul (part.trans small) (by omega)).trans (by decide : u64Max * u64Max ≤ u128Max)

theorem applyCohortCap_eq (enforced : capStatus validators cohort epoch = .enforced cap) :
    applyCohortCap validators cohort epoch = if cohortStake validators cohort ≤ cap then validators
      else validators.map (scaledTo validators cohort cap) := by
  have staked : totalStake validators ≠ 0 := by
    have independent := (capStatus_eq_enforced_iff.mp enforced).2.1
    have split := totalStake_split validators cohort
    simp only [MIN_DEPOSIT_SAT, SAT_PER_BLOCH] at independent
    omega
  rw [applyCohortCap, if_neg staked, enforced]
  rfl

/-- Where the cap is enforced, the cohort is left with no more than its share of the whole. Others keep
their stakes, no member gains, members keep their order, and a second pass changes nothing. -/
theorem cohort_capped {cap : ℕ} (words : ∀ v ∈ validators, v.effectiveStake < 2 ^ 64)
    (enforced : capStatus validators cohort epoch = .enforced cap) :
    let capped := applyCohortCap validators cohort epoch
    cohortStake capped cohort * 10000 ≤ totalStake capped * cohortCapBps epoch ∧
    (∃ f : Validator → Validator, capped = validators.map f ∧ (∀ v, (f v).index = v.index) ∧
      (∀ v, v.index ∉ cohort → f v = v) ∧
      (∀ v ∈ validators, (f v).effectiveStake ≤ v.effectiveStake) ∧
      ∀ v ∈ validators, ∀ w ∈ validators, v.index ∈ cohort → w.index ∈ cohort →
        v.effectiveStake ≤ w.effectiveStake → (f v).effectiveStake ≤ (f w).effectiveStake) ∧
    applyCohortCap capped cohort epoch = capped := by
  intro capped
  obtain ⟨tapering, independent, share⟩ := capStatus_eq_enforced_iff.mp enforced
  have shape : capped = if cohortStake validators cohort ≤ cap then validators
      else validators.map (scaledTo validators cohort cap) := applyCohortCap_eq enforced
  have outside : outsideStake capped cohort = outsideStake validators cohort := by
    rw [shape]
    split_ifs
    · rfl
    · exact outsideStake_scaledTo cap
  have under : cohortStake capped cohort ≤ cap := by
    rw [shape]
    split_ifs with within
    · exact within
    · exact cohortStake_scaledTo_le (Nat.zero_lt_of_lt (not_le.mp within))
  refine ⟨?_, ?_, ?_⟩
  · have target : cohortStake capped cohort * (10000 - cohortCapBps epoch) ≤
        outsideStake validators cohort * cohortCapBps epoch := by
      rw [← share] at under
      exact (Nat.le_div_iff_mul_le (by omega)).mp under
    rw [totalStake_split capped cohort, outside, add_mul]
    rw [Nat.mul_sub] at target
    omega
  · by_cases within : cohortStake validators cohort ≤ cap
    · rw [if_pos within] at shape
      exact ⟨id, by rw [shape, map_id], fun _ => rfl, fun _ _ => rfl, fun _ _ => le_rfl, fun _ _ _ _ _ _ => id⟩
    rw [if_neg within] at shape
    -- a share of a word below the whole is a word
    have fits : ∀ v ∈ validators, v.effectiveStake * cap / cohortStake validators cohort ≤ v.effectiveStake := by
      intro v _
      refine Nat.div_le_of_le_mul ?_
      rw [mul_comm]
      exact Nat.mul_le_mul_right _ (not_le.mp within).le
    refine ⟨scaledTo validators cohort cap, shape, index_scaledTo cap, fun v away => if_neg away, ?_, ?_⟩
    · intro v among
      unfold scaledTo
      split_ifs
      · exact (Nat.mod_le _ _).trans (fits v among)
      · exact le_rfl
    · intro v among w among' member member' le
      simp only [scaledTo, if_pos member, if_pos member']
      rw [Nat.mod_eq_of_lt ((fits v among).trans_lt (words v among)),
        Nat.mod_eq_of_lt ((fits w among').trans_lt (words w among'))]
      exact Nat.div_le_div_right (Nat.mul_le_mul_right _ le)
  · have again : capStatus capped cohort epoch = .enforced cap :=
      capStatus_eq_enforced_iff.mpr ⟨tapering, outside ▸ independent, outside ▸ share⟩
    rw [applyCohortCap_eq again, if_pos under]

/-- Two founders against one other validator, after the taper. -/
theorem founders_capped :
    let validators : List Validator := [⟨0, 7 * MIN_DEPOSIT_SAT⟩, ⟨1, 2 * MIN_DEPOSIT_SAT⟩, ⟨2, MIN_DEPOSIT_SAT⟩]
    let capped := applyCohortCap validators [0, 1] EPOCHS_PER_YEAR
    capStatus validators [0, 1] EPOCHS_PER_YEAR = .enforced 1249812509374 ∧
      cohortStake capped [0, 1] * 10000 ≤ totalStake capped * cohortCapBps EPOCHS_PER_YEAR := by
  intro validators capped
  have enforced : capStatus validators [0, 1] EPOCHS_PER_YEAR = .enforced 1249812509374 := by decide +kernel
  exact ⟨enforced, (cohort_capped (by decide) enforced).1⟩

end

end BlochPos
