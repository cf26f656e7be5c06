import BlochPos.FeeMarket

/-! The base-fee controller: one price over two resources. Its arithmetic is checked, so it answers
only while its products fit the word. -/
namespace BlochPos

def checkedMul (max a b : ℕ) : Option ℕ := if a * b ≤ max then some (a * b) else none

/-- The usual controller over a single resource. -/
def axisStep (parentBaseFee used target : ℕ) : ℕ :=
  let base := clampBaseFee parentBaseFee
  if used = target then base
  else if target < used then
    let delta := base * (used - target) / target / BASE_FEE_CHANGE_DENOMINATOR
    clampBaseFee (base + if delta = 0 then 1 else delta)
  else clampBaseFee (base - base * (target - used) / target / BASE_FEE_CHANGE_DENOMINATOR)

def axisStepChecked (parentBaseFee used target : ℕ) : Option ℕ :=
  let base := clampBaseFee parentBaseFee
  if used = target then some base
  else if target < used then do
    let product ← checkedMul u128Max base (used - target)
    let delta := product / target / BASE_FEE_CHANGE_DENOMINATOR
    some (clampBaseFee (base + if delta = 0 then 1 else delta))
  else do
    let product ← checkedMul u128Max base (target - used)
    some (clampBaseFee (base - product / target / BASE_FEE_CHANGE_DENOMINATOR))

def nextBaseFeeChecked (g : Gates) (parentBaseFee gasUsed txBytes epoch : ℕ) : Option ℕ :=
  let byteTarget := blockTxBytesTarget g epoch
  if txBytes * BLOCK_GAS_TARGET ≤ gasUsed * byteTarget then
    axisStepChecked parentBaseFee gasUsed BLOCK_GAS_TARGET
  else axisStepChecked parentBaseFee txBytes byteTarget

/-- The parent's price times what the busier resource used over its target fits the machine's word. -/
def Priceable (g : Gates) (parentBaseFee gasUsed txBytes epoch : ℕ) : Prop :=
  clampBaseFee parentBaseFee * (if txBytes * BLOCK_GAS_TARGET ≤ gasUsed * blockTxBytesTarget g epoch then
    gasUsed - BLOCK_GAS_TARGET else txBytes - blockTxBytesTarget g epoch) ≤ u128Max
deriving Decidable

theorem min_le_max_baseFee : MIN_BASE_FEE_MILLISAT_PER_GAS ≤ MAX_BASE_FEE_MILLISAT_PER_GAS := by decide

theorem clampBaseFee_eq (v : ℕ) : clampBaseFee v =
    max MIN_BASE_FEE_MILLISAT_PER_GAS (min v MAX_BASE_FEE_MILLISAT_PER_GAS) := by
  have := min_le_max_baseFee
  unfold clampBaseFee
  split_ifs <;> omega

/-- The price before it is clamped. A resource at its target falls under the last branch. -/
def drift (base used target : ℕ) : ℕ :=
  if target < used then base + max 1 (base * (used - target) / target / BASE_FEE_CHANGE_DENOMINATOR)
  else base - base * (target - used) / target / BASE_FEE_CHANGE_DENOMINATOR

theorem axisStep_eq (p u t : ℕ) : axisStep p u t = clampBaseFee (drift (clampBaseFee p) u t) := by
  unfold axisStep drift BASE_FEE_CHANGE_DENOMINATOR
  rcases lt_trichotomy u t with below | rfl | above
  · simp [below.ne, below.not_gt]
  · have := min_le_max_baseFee
    simp only [lt_irrefl, ↓reduceIte, Nat.sub_self, mul_zero, Nat.zero_div, Nat.sub_zero, clampBaseFee_eq]
    omega
  · simp only [above.ne', above, ↓reduceIte]
    generalize clampBaseFee p * (u - t) / t / 8 = delta
    congr 2
    split_ifs <;> omega

theorem div_le_div_cross (hb : 0 < b) (hd : 0 < d) (cross : a * d ≤ c * b) : a / b ≤ c / d := by
  rw [Nat.le_div_iff_mul_le hd]
  refine Nat.le_of_mul_le_mul_right ?_ hb
  calc a / b * d * b = a / b * b * d := Nat.mul_right_comm ..
    _ ≤ a * d := Nat.mul_le_mul_right d (Nat.div_mul_le_self a b)
    _ ≤ c * b := cross

theorem discount_add_le (b k : ℕ) (pos : 0 < t) (part : x ≤ t) :
    (b + k) * x / t / BASE_FEE_CHANGE_DENOMINATOR ≤ b * x / t / BASE_FEE_CHANGE_DENOMINATOR + k := by
  have whole : (b + k) * x / t ≤ b * x / t + k := by
    rw [← Nat.add_mul_div_right _ _ pos, Nat.add_mul]
    exact Nat.div_le_div_right (Nat.add_le_add_left (Nat.mul_le_mul_left k part) _)
  unfold BASE_FEE_CHANGE_DENOMINATOR
  omega

theorem drift_mono (ht : 0 < t) (ht' : 0 < t') (dearer : b ≤ b') (busier : u * t' ≤ u' * t) :
    drift b u t ≤ drift b' u' t' := by
  have sides := Nat.mul_comm t t'
  unfold drift BASE_FEE_CHANGE_DENOMINATOR
  split_ifs with above above' above'
  · have excess : (u - t) * t' ≤ (u' - t') * t := by
      rw [Nat.sub_mul, Nat.sub_mul]
      omega
    have delta := Nat.div_le_div_right (c := 8)
      (div_le_div_cross ht ht' (a := b * (u - t)) (c := b' * (u' - t'))
        (by simpa only [Nat.mul_assoc] using Nat.mul_le_mul dearer excess))
    omega
  · -- Over its target on the left, so over it on the right.
    have := Nat.mul_lt_mul_of_pos_right above ht'
    have := Nat.mul_le_mul_right t (not_lt.mp above')
    omega
  · exact (Nat.sub_le _ _).trans (dearer.trans (Nat.le_add_right _ _))
  · have slack : (t' - u') * t ≤ (t - u) * t' := by
      rw [Nat.sub_mul, Nat.sub_mul]
      omega
    have delta := Nat.div_le_div_right (c := 8)
      (div_le_div_cross ht' ht (a := b' * (t' - u')) (c := b' * (t - u))
        (by simpa only [Nat.mul_assoc] using Nat.mul_le_mul_left b' slack))
    have slower := discount_add_le b (b' - b) ht (Nat.sub_le t u)
    rw [Nat.add_sub_cancel' dearer, BASE_FEE_CHANGE_DENOMINATOR] at slower
    omega

theorem axisStep_mono (ht : 0 < t) (ht' : 0 < t') (dearer : p ≤ p') (busier : u * t' ≤ u' * t) :
    axisStep p u t ≤ axisStep p' u' t' := by
  have base : clampBaseFee p ≤ clampBaseFee p' := by
    simp only [clampBaseFee_eq]
    omega
  have := drift_mono ht ht' base busier
  rw [axisStep_eq, axisStep_eq, clampBaseFee_eq, clampBaseFee_eq (drift _ u' t')]
  omega

theorem lt_axisStep (low : p < MAX_BASE_FEE_MILLISAT_PER_GAS) (above : t < u) : p < axisStep p u t := by
  rw [axisStep_eq, drift, if_pos above]
  simp only [clampBaseFee_eq]
  omega

theorem blockTxBytesTarget_pos (g : Gates) (epoch : ℕ) : 0 < blockTxBytesTarget g epoch := by
  unfold blockTxBytesTarget maxBlockTxBytes
  split_ifs <;> decide

theorem nextBaseFee_eq_max (p : ℕ) : nextBaseFee g p gas bytes epoch =
    max (axisStep p gas BLOCK_GAS_TARGET) (axisStep p bytes (blockTxBytesTarget g epoch)) := by
  have gasPos : 0 < BLOCK_GAS_TARGET := by decide
  have bytesPos := blockTxBytesTarget_pos g epoch
  by_cases busier : bytes * BLOCK_GAS_TARGET ≤ gas * blockTxBytesTarget g epoch
  · rw [max_eq_left (axisStep_mono bytesPos gasPos le_rfl busier)]
    simp only [nextBaseFee, busier, ↓reduceIte, axisStep]
  · rw [max_eq_right (axisStep_mono gasPos bytesPos le_rfl (not_le.mp busier).le)]
    simp only [nextBaseFee, busier, ↓reduceIte, axisStep]

theorem clampBaseFee_mul_le (p : ℕ) (fits : MAX_BASE_FEE_MILLISAT_PER_GAS * t ≤ u128Max) (part : x ≤ t) :
    clampBaseFee p * x ≤ u128Max := by
  have top : clampBaseFee p ≤ MAX_BASE_FEE_MILLISAT_PER_GAS := by
    have := min_le_max_baseFee
    rw [clampBaseFee_eq]
    omega
  exact (Nat.mul_le_mul top part).trans fits

theorem axisStepChecked_eq (p u : ℕ) (fits : MAX_BASE_FEE_MILLISAT_PER_GAS * t ≤ u128Max) :
    axisStepChecked p u t = if clampBaseFee p * (u - t) ≤ u128Max then some (axisStep p u t) else none := by
  -- Only the product of a rise can overflow.
  have fall := clampBaseFee_mul_le p fits (Nat.sub_le t u)
  unfold axisStepChecked axisStep checkedMul
  rcases lt_trichotomy u t with below | rfl | above
  · simp [below.ne, below.not_gt, below.le, fall]
  · simp
  · by_cases rise : clampBaseFee p * (u - t) ≤ u128Max <;> simp [above.ne', above, rise]

theorem bytesTarget_fits (g : Gates) (epoch : ℕ) :
    MAX_BASE_FEE_MILLISAT_PER_GAS * maxBlockTxBytes g epoch ≤ u128Max := by
  unfold maxBlockTxBytes
  split_ifs <;> decide

theorem nextBaseFeeChecked_eq (p : ℕ) : nextBaseFeeChecked g p gas bytes epoch =
    if Priceable g p gas bytes epoch then some (nextBaseFee g p gas bytes epoch) else none := by
  have bytesFit : MAX_BASE_FEE_MILLISAT_PER_GAS * blockTxBytesTarget g epoch ≤ u128Max :=
    (Nat.mul_le_mul_left _ (Nat.div_le_self _ _)).trans (bytesTarget_fits g epoch)
  rw [nextBaseFeeChecked, axisStepChecked_eq p gas (by decide), axisStepChecked_eq p bytes bytesFit]
  by_cases busier : bytes * BLOCK_GAS_TARGET ≤ gas * blockTxBytesTarget g epoch <;>
    simp only [Priceable, nextBaseFee, axisStep, busier, ↓reduceIte]

theorem priceable_of_le (p : ℕ) (gasFits : gas ≤ BLOCK_GAS_LIMIT) (bytesFit : bytes ≤ maxBlockTxBytes g epoch) :
    Priceable g p gas bytes epoch := by
  unfold Priceable
  split_ifs
  · exact clampBaseFee_mul_le p (by decide) ((Nat.sub_le _ _).trans gasFits)
  · exact clampBaseFee_mul_le p (bytesTarget_fits g epoch) ((Nat.sub_le _ _).trans bytesFit)

theorem nextBaseFeeChecked_empty (g : Gates) (p epoch : ℕ) :
    nextBaseFeeChecked g p 0 0 epoch = some (nextBaseFee g p 0 0 epoch) :=
  (nextBaseFeeChecked_eq p).trans (if_pos (priceable_of_le p (Nat.zero_le _) (Nat.zero_le _)))

theorem nextBaseFee_empty (g : Gates) (p epoch : ℕ) : nextBaseFee g p 0 0 epoch =
    clampBaseFee (clampBaseFee p - clampBaseFee p / BASE_FEE_CHANGE_DENOMINATOR) := by
  have drifted : ∀ t, 0 < t → axisStep p 0 t =
      clampBaseFee (clampBaseFee p - clampBaseFee p / BASE_FEE_CHANGE_DENOMINATOR) := by
    intro t pos
    rw [axisStep_eq, drift, if_neg (Nat.not_lt_zero t), Nat.sub_zero, Nat.mul_div_cancel _ pos]
  rw [nextBaseFee_eq_max, drifted _ (by decide), drifted _ (blockTxBytesTarget_pos g epoch), max_self]

theorem clampBaseFee_after_empty (g : Gates) (epochs : List ℕ) (p : ℕ) :
    ∃ price, epochs.foldlM (nextBaseFeeChecked g · 0 0) p = some price ∧
      clampBaseFee price ≤ max MIN_BASE_FEE_MILLISAT_PER_GAS (clampBaseFee p - epochs.length) := by
  induction epochs generalizing p with
  | nil => exact ⟨p, rfl, le_max_right _ _⟩
  | cons epoch rest ih =>
    obtain ⟨price, ran, low⟩ := ih (nextBaseFee g p 0 0 epoch)
    rw [List.foldlM_cons, nextBaseFeeChecked_empty]
    refine ⟨price, ran, low.trans ?_⟩
    rw [nextBaseFee_empty]
    simp only [clampBaseFee_eq, BASE_FEE_CHANGE_DENOMINATOR, List.length_cons, MIN_BASE_FEE_MILLISAT_PER_GAS]
    omega

theorem foldlM_empty_eq_min (g : Gates) (p : ℕ) {epochs : List ℕ}
    (long : MAX_BASE_FEE_MILLISAT_PER_GAS < epochs.length) :
    epochs.foldlM (nextBaseFeeChecked g · 0 0) p = some MIN_BASE_FEE_MILLISAT_PER_GAS := by
  obtain rfl | ⟨before, last, rfl⟩ := epochs.eq_nil_or_concat'
  · exact absurd long (Nat.not_lt_zero _)
  obtain ⟨price, ran, low⟩ := clampBaseFee_after_empty g before p
  have floor : clampBaseFee price = MIN_BASE_FEE_MILLISAT_PER_GAS := by
    rw [List.length_append, List.length_singleton] at long
    simp only [clampBaseFee_eq] at low ⊢
    omega
  rw [List.foldlM_append, ran, Option.bind_eq_bind, Option.bind_some, List.foldlM_cons,
    nextBaseFeeChecked_empty, nextBaseFee_empty, floor]
  rfl

/-- The controller answers exactly where its product fits the word, which it does within the limits of a
block: in range, with the larger of the two single-resource prices, monotone, above a parent that was over a
target and below the ceiling, and at the floor after any long enough stretch of empty blocks. -/
theorem base_fee_controlled (g : Gates) :
    (∀ parent gas bytes epoch, nextBaseFeeChecked g parent gas bytes epoch ≠ none ↔
      Priceable g parent gas bytes epoch) ∧
    (∀ parent gas bytes epoch price, nextBaseFeeChecked g parent gas bytes epoch = some price →
      MIN_BASE_FEE_MILLISAT_PER_GAS ≤ price ∧ price ≤ MAX_BASE_FEE_MILLISAT_PER_GAS ∧
      price = max (axisStep parent gas BLOCK_GAS_TARGET) (axisStep parent bytes (blockTxBytesTarget g epoch)) ∧
      (parent < MAX_BASE_FEE_MILLISAT_PER_GAS →
        BLOCK_GAS_TARGET < gas ∨ blockTxBytesTarget g epoch < bytes → parent < price) ∧
      ∀ parent' gas' bytes' price', parent ≤ parent' → gas ≤ gas' → bytes ≤ bytes' →
        nextBaseFeeChecked g parent' gas' bytes' epoch = some price' → price ≤ price') ∧
    (∀ parent gas bytes epoch, gas ≤ BLOCK_GAS_LIMIT → bytes ≤ maxBlockTxBytes g epoch →
      Priceable g parent gas bytes epoch) ∧
    ∀ parent, ∃ n, ∀ epochs : List ℕ, n ≤ epochs.length →
      epochs.foldlM (nextBaseFeeChecked g · 0 0) parent = some MIN_BASE_FEE_MILLISAT_PER_GAS := by
  refine ⟨fun parent gas bytes epoch => ?_, fun parent gas bytes epoch price answered => ?_,
    fun parent gas bytes epoch => priceable_of_le parent, fun parent => ⟨_, fun epochs => foldlM_empty_eq_min g parent⟩⟩
  · rw [nextBaseFeeChecked_eq]
    split_ifs with fits <;> simp [fits]
  · have gasPos : 0 < BLOCK_GAS_TARGET := by decide
    have bytesPos := blockTxBytesTarget_pos g epoch
    have := min_le_max_baseFee
    rw [nextBaseFeeChecked_eq, Option.ite_none_right_eq_some, Option.some.injEq] at answered
    obtain ⟨-, rfl⟩ := answered
    rw [nextBaseFee_eq_max]
    refine ⟨?_, ?_, rfl, fun low above => ?_, fun parent' gas' bytes' price' dearer more longer answered => ?_⟩
    · rw [axisStep_eq, clampBaseFee_eq]
      omega
    · simp only [axisStep_eq, clampBaseFee_eq]
      omega
    · rcases above with above | above
      · exact (lt_axisStep low above).trans_le (le_max_left _ _)
      · exact (lt_axisStep low above).trans_le (le_max_right _ _)
    · rw [nextBaseFeeChecked_eq, Option.ite_none_right_eq_some, Option.some.injEq] at answered
      rw [← answered.2, nextBaseFee_eq_max]
      exact max_le_max (axisStep_mono gasPos gasPos dearer (Nat.mul_le_mul_right _ more))
        (axisStep_mono bytesPos bytesPos dearer (Nat.mul_le_mul_right _ longer))

/-- At the price ceiling a parent that used all the gas a word can count leaves no answer. -/
theorem full_word_unpriced :
    nextBaseFeeChecked .shipped MAX_BASE_FEE_MILLISAT_PER_GAS u64Max 0 0 = none := by decide +kernel

end BlochPos
