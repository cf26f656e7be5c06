import BlochPos.Slashing.State

/-! The price of an offence after a history of offences, which counts losses and not the stake they
were lost from. -/
namespace BlochPos.SlashingState

variable {g : Gates} {epoch floor : ℕ}

/-- Offences applied one after another at the same active stake, with the loss each booked and its
epoch. -/
def commitAll (g : Gates) (totalActiveSat : ℕ) (st : SlashingState) :
    List Offence → SlashingState × List (ℕ × ℕ)
  | [] => (st, [])
  | o :: rest =>
    let (final, booked) := commitAll g totalActiveSat (st.commitOffense g o totalActiveSat).2 rest
    (final, (o.epoch, st.windowLossSat g o totalActiveSat) :: booked)

section

variable (g : Gates) (st : SlashingState) (offense : SlashableOffense) (o : Offence)

/-- The stake an offence is priced on: what the offender was counted at under the second economics, its bond
and the delegations to it before. -/
def Offence.exposedSat : ℕ :=
  if (g.slashingEconomicsV2Start o.epoch).isSome then o.offenderEffectiveSat
  else o.ownBondSat +
    (o.delegations.map (fun d => if d.validator = o.validator ∧ d.eligible = true then d.amountSat else 0)).sum

/-- All that is in the window, priced or not. -/
def bookedSat : ℕ := st.window.sum (fun _ s => s)

theorem windowLossSat_le (total : ℕ) :
    10000 * st.windowLossSat g o total ≤
      o.exposedSat g * st.penaltyBps g o.offense.basePenaltyBps o.epoch total := by
  have part (x p : ℕ) : 10000 * (x * min p 10000 / 10000) ≤ x * p :=
    (Nat.mul_div_le _ _).trans (Nat.mul_le_mul_left x (min_le_left _ _))
  have cut (x p : ℕ) : 10000 * (min (x * min p 10000) u128Max / 10000) ≤ x * p :=
    (Nat.mul_le_mul_left _ (Nat.div_le_div_right (min_le_left _ _))).trans (part x p)
  simp only [windowLossSat, Offence.exposedSat, outcomeOf]
  generalize st.penaltyBps g o.offense.basePenaltyBps o.epoch total = p
  split_ifs
  · exact cut _ p
  · refine (Nat.mul_le_mul_left _ (min_le_left _ _)).trans ?_
    rw [mul_add, add_mul, applySlash, ← List.sum_map_mul_left, ← List.sum_map_mul_right]
    refine add_le_add (cut _ p) (List.sum_le_sum (fun d _ => ?_))
    split_ifs
    · exact part _ p
    · simp

theorem bookedSat_commitOffense_le (total : ℕ) :
    (st.commitOffense g o total).2.bookedSat ≤ st.bookedSat + st.windowLossSat g o total := by
  have added := SortedMap.sum_addAt st.window o.epoch (st.windowLossSat g o total) (fun _ s => s) rfl (fun _ _ => rfl)
  rw [bookedSat, bookedSat, ← added, commitOffense, SortedMap.sum_filter]
  refine List.sum_le_sum (fun _ _ => ?_)
  dsimp only
  split_ifs <;> omega

theorem pricedWindowSat_le_bookedSat (epoch : ℕ) : st.pricedWindowSat g epoch ≤ st.bookedSat := by
  refine List.sum_le_sum (fun _ _ => ?_)
  dsimp only
  split_ifs <;> omega

end

theorem bookedSat_commitAll_le (g : Gates) (total : ℕ) (history : List Offence) (st : SlashingState) :
    (commitAll g total st history).1.bookedSat ≤ st.bookedSat + (history.map (Offence.exposedSat g)).sum := by
  induction history generalizing st with
  | nil => exact le_rfl
  | cons o rest ih =>
    have loss := windowLossSat_le g st o total
    have most : st.penaltyBps g o.offense.basePenaltyBps o.epoch total ≤ 10000 := by
      unfold penaltyBps
      split_ifs <;> exact min_le_right _ _
    have price := Nat.mul_le_mul_left (o.exposedSat g) most
    have booked := bookedSat_commitOffense_le g st o total
    have later := ih (st.commitOffense g o total).2
    simp only [List.map_cons, List.sum_cons, commitAll]
    omega

/-- With no more than this exposed by a history, the product of the next price stays in its word. -/
theorem price_product_fits (g : Gates) (total : ℕ) (history : List Offence) (epoch : ℕ)
    (fits : CORRELATION_MULTIPLIER * 10000 * (history.map (Offence.exposedSat g)).sum ≤ u128Max) :
    CORRELATION_MULTIPLIER * 10000 * (commitAll g total .new history).1.pricedWindowSat g epoch ≤ u128Max := by
  refine (Nat.mul_le_mul_left _ ?_).trans fits
  have booked := bookedSat_commitAll_le g total history .new
  rw [show bookedSat new = 0 from rfl, Nat.zero_add] at booked
  exact (pricedWindowSat_le_bookedSat g _ epoch).trans booked

end BlochPos.SlashingState
