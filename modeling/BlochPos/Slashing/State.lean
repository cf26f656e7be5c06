import BlochPos.Delegation

/-! The slashing ledger: evidence applied, validators ejected, and the losses of a sliding window
that raise the next price. -/
namespace BlochPos

def SLASH_PROPOSER_EQUIV_BPS : ℕ := 500
def SLASH_SURROUND_VOTE_BPS : ℕ := 500
def WHISTLEBLOWER_QUOTIENT : ℕ := 32
def CORRELATION_MULTIPLIER : ℕ := 3
def CORRELATION_WINDOW_EPOCHS : ℕ := 4096

inductive SlashableOffense where
  | proposerEquivocation | doubleVote | surroundVote
deriving DecidableEq

def SlashableOffense.basePenaltyBps : SlashableOffense → ℕ
  | .proposerEquivocation => SLASH_PROPOSER_EQUIV_BPS
  | .doubleVote => SLASH_PROPOSER_EQUIV_BPS
  | .surroundVote => SLASH_SURROUND_VOTE_BPS

structure SlashingOutcome where
  offense : SlashableOffense
  (penaltyBps operatorLossSat : ℕ)
  delegationLossesSat : List ℕ
  (totalSlashedSat whistleblowerRewardSat includingProposer : ℕ)
deriving DecidableEq

/-- Offences punished, validators ejected, and losses by epoch. -/
structure SlashingState where
  applied : Finset Bytes32
  ejected : Finset ℕ
  window : SortedMap ℕ ℕ
deriving DecidableEq

namespace SlashingState

def new : SlashingState := ⟨∅, ∅, .empty⟩

variable (g : Gates) (st : SlashingState) (o : Offence)

def windowSum (floor epoch : ℕ) : ℕ :=
  st.window.sum (fun e s => if floor ≤ e ∧ e ≤ epoch then s else 0)

def windowFloor (epoch : ℕ) : ℕ := epoch - (CORRELATION_WINDOW_EPOCHS - 1)

def slashedInWindow (epoch : ℕ) : ℕ := st.windowSum (windowFloor epoch) epoch

/-- Entries from before a change of units are kept but no longer priced. -/
def pricedFloor (epoch : ℕ) : ℕ :=
  match g.slashingEconomicsV2Start epoch with
  | some activation => max (windowFloor epoch) activation
  | none => windowFloor epoch

def pricedWindowSat (epoch : ℕ) : ℕ :=
  st.windowSum (pricedFloor g epoch) epoch

/-- The base penalty and what recent losses add to it, at most everything. -/
def penaltyBps (baseBps epoch totalActiveSat : ℕ) : ℕ :=
  if totalActiveSat = 0 then min baseBps 10000
  else min (baseBps + CORRELATION_MULTIPLIER * 10000 * st.pricedWindowSat g epoch / totalActiveSat)
    10000

structure Offence where
  id : Bytes32
  validator : ℕ
  offense : SlashableOffense
  (epoch ownBondSat : ℕ)
  delegations : List Delegation
  (offenderEffectiveSat includingProposer : ℕ)

/-- What an offence costs at its price. -/
def outcomeOf (totalActiveSat : ℕ) : SlashingOutcome :=
  let penalty := st.penaltyBps g o.offense.basePenaltyBps o.epoch totalActiveSat
  let operatorLoss := min (o.ownBondSat * min penalty 10000) u128Max / 10000
  let delegationLosses := applySlash o.delegations o.validator penalty
  { offense := o.offense
    penaltyBps := penalty
    operatorLossSat := operatorLoss
    delegationLossesSat := delegationLosses
    totalSlashedSat := min (operatorLoss + delegationLosses.sum) u128Max
    whistleblowerRewardSat := operatorLoss / WHISTLEBLOWER_QUOTIENT
    includingProposer := o.includingProposer }

/-- What the offence adds to the window: its losses, or under the second
economics the penalty share of the stake it was counted at. -/
def windowLossSat (totalActiveSat : ℕ) : ℕ :=
  if (g.slashingEconomicsV2Start o.epoch).isSome then
    min (o.offenderEffectiveSat * min (st.outcomeOf g o totalActiveSat).penaltyBps 10000) u128Max
      / 10000
  else (st.outcomeOf g o totalActiveSat).totalSlashedSat

def commitOffense (totalActiveSat : ℕ) : SlashingOutcome × SlashingState :=
  (st.outcomeOf g o totalActiveSat,
    { applied := insert o.id st.applied
      ejected := insert o.validator st.ejected
      window := (st.window.addAt o.epoch (st.windowLossSat g o totalActiveSat)).filter
        (fun e _ => windowFloor o.epoch ≤ e) })

end SlashingState

end BlochPos
