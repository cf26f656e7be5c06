import BlochPos.Transition.Conservation

/-! Epoch rolling composes: a node may close some of the epochs before a block beforehand. -/
namespace BlochPos

open Attempt

namespace CommittedState

section

variable {env : Env} {pre post : CommittedState} {envelope : ProposalEnvelope}
  {attestations : List Attestation} {transactions : List PosTransaction}

theorem baseline_iterate_closeEpoch (env : Env) (st : CommittedState) (n : ℕ) :
    ((closeEpoch env)^[n] st).baseline = st.baseline := by
  induction n with
  | zero => rfl
  | succ n ih => rw [Function.iterate_succ_apply', baseline_closeEpoch, ih]

theorem advanceTo_iterate_closeEpoch {epoch : ℕ} (ahead : pre.epoch + k ≤ epoch) :
    ((closeEpoch env)^[k] pre).advanceTo env epoch = pre.advanceTo env epoch := by
  have split : epoch - (pre.epoch + k) + k = epoch - pre.epoch := by omega
  rw [advanceTo, advanceTo, epoch_iterate_closeEpoch, ← Function.iterate_add_apply, split]

theorem openBlock_congr {st : CommittedState} (same : st.baseline = pre.baseline)
    (advanced : st.advanceTo env (epochOf envelope.header.slot) =
      pre.advanceTo env (epochOf envelope.header.slot))
    (checked : st.checkHeader env envelope.header attestations transactions =
      pre.checkHeader env envelope.header attestations transactions) :
    st.openBlock env envelope attestations transactions =
      pre.openBlock env envelope attestations transactions := by
  obtain ⟨slot, head, -, -, fee, gas, bytes⟩ := Baseline.mk.inj same
  simp only [openBlock, advanced, checked, prepareL2, nextBaseFeeAt, slot, head, fee, gas, bytes]

theorem checkHeader_congr {st : CommittedState} (same : st.baseline = pre.baseline)
    (reached : st.epoch ≤ epochOf envelope.header.slot)
    (reached' : pre.epoch ≤ epochOf envelope.header.slot)
    (near : epochOf envelope.header.slot - st.epoch ≤ MAX_EPOCH_ADVANCE)
    (near' : epochOf envelope.header.slot - pre.epoch ≤ MAX_EPOCH_ADVANCE) :
    st.checkHeader env envelope.header attestations transactions =
      pre.checkHeader env envelope.header attestations transactions := by
  obtain ⟨slot, head, accumulator, nullifier, -⟩ := Baseline.mk.inj same
  have root : st.coherenceRoot env.crypto = pre.coherenceRoot env.crypto := by
    simp only [coherenceRoot, accumulator, nullifier]
  -- The checks that read the state, one by one.
  have early : refuse (envelope.header.slot ≤ st.slot) TransitionError.nonMonotonicSlot =
      refuse (envelope.header.slot ≤ pre.slot) TransitionError.nonMonotonicSlot := refuse_congr _ (by rw [slot])
  have behind := refuse_congr TransitionError.nonMonotonicSlot
    (iff_of_false (not_lt.mpr reached) (not_lt.mpr reached'))
  have parent : refuse (envelope.header.parent ≠ st.head) TransitionError.wrongParent =
      refuse (envelope.header.parent ≠ pre.head) TransitionError.wrongParent := refuse_congr _ (by rw [head])
  have coherent : refuse (envelope.header.coherenceRoot ≠ st.coherenceRoot env.crypto)
      TransitionError.coherenceRootMismatch = refuse (envelope.header.coherenceRoot ≠
        pre.coherenceRoot env.crypto) TransitionError.coherenceRootMismatch := refuse_congr _ (by rw [root])
  have far := refuse_congr TransitionError.epochAdvanceTooLarge
    (iff_of_false (not_lt.mpr near) (not_lt.mpr near'))
  simp only [checkHeader, early, behind, parent, coherent, far]

theorem runBlock_iterate_closeEpoch (ahead : pre.epoch + k ≤ epochOf envelope.header.slot)
    (near : epochOf envelope.header.slot - pre.epoch ≤ MAX_EPOCH_ADVANCE) :
    runBlock env ((closeEpoch env)^[k] pre) envelope attestations transactions =
      runBlock env pre envelope attestations transactions := by
  have same := baseline_iterate_closeEpoch env pre k
  have epoch := epoch_iterate_closeEpoch env pre k
  have checked : ((closeEpoch env)^[k] pre).checkHeader env envelope.header attestations transactions =
      pre.checkHeader env envelope.header attestations transactions := by
    apply checkHeader_congr same <;> omega
  rw [runBlock, runBlock, openBlock_congr same (advanceTo_iterate_closeEpoch ahead) checked]

theorem Reachable.iterate_closeEpoch (reached : Reachable env pre)
    (ahead : pre.epoch + k ≤ epochOf envelope.header.slot) :
    Reachable env ((closeEpoch env)^[k] pre) :=
  reached.run (iterate_closeEpoch_run envelope.header k ahead)

/-- The supply check looks at the state before or after the roll; a block passes it
from both. -/
theorem computePostState_iterate_closeEpoch (reached : Reachable env pre)
    (ahead : pre.epoch + k ≤ epochOf envelope.header.slot)
    (near : epochOf envelope.header.slot - pre.epoch ≤ MAX_EPOCH_ADVANCE) :
    computePostState env ((closeEpoch env)^[k] pre) envelope attestations transactions = .ok post ↔
      computePostState env pre envelope attestations transactions = .ok post := by
  have same : runBlock env ((closeEpoch env)^[k] pre) envelope attestations transactions =
      runBlock env pre envelope attestations transactions := runBlock_iterate_closeEpoch ahead near
  simp only [computePostState, ok_iff, Bool.not_eq_false, same]
  apply exists_congr
  intro m
  apply and_congr_right
  intro ran
  rw [(supply_of_runBlock reached ran).2,
    (supply_of_runBlock (reached.iterate_closeEpoch ahead) (same.trans ran)).2]

theorem reach_of_computePostState
    (accepted : computePostState env pre envelope attestations transactions = .ok post) :
    pre.epoch ≤ epochOf envelope.header.slot ∧
      epochOf envelope.header.slot - pre.epoch ≤ MAX_EPOCH_ADVANCE := by
  simp only [computePostState, runBlock, openBlock, checkHeader, ok_iff, not_lt] at accepted
  obtain ⟨m, ⟨opened, ⟨checked, -⟩, -⟩, -⟩ := accepted
  obtain ⟨-, ahead, -, -, -, -, -, -, near⟩ := checked
  exact ⟨ahead, near⟩

/-- Epoch rolling composes: a block is accepted from a state exactly if it is from
the state some epochs on, as long as it stays in reach, and leads to the same state. -/
theorem epoch_rolling_composes (reached : Reachable env pre)
    (ahead : pre.epoch + k ≤ epochOf envelope.header.slot) :
    (computePostState env pre envelope attestations transactions = .ok post →
      computePostState env ((closeEpoch env)^[k] pre) envelope attestations transactions = .ok post) ∧
    (epochOf envelope.header.slot - pre.epoch ≤ MAX_EPOCH_ADVANCE →
      computePostState env ((closeEpoch env)^[k] pre) envelope attestations transactions = .ok post →
      computePostState env pre envelope attestations transactions = .ok post) := by
  constructor
  · intro accepted
    exact (computePostState_iterate_closeEpoch reached ahead (reach_of_computePostState accepted).2).mpr
      accepted
  · intro near accepted
    exact (computePostState_iterate_closeEpoch reached ahead near).mp accepted

end

/-- A block of epoch 2 on the genesis, one epoch closed beforehand. -/
theorem second_epoch_after_one_close : let env := Env.accepting .shipped
    let start := genesisState env (.small 1)
    ∃ post, computePostState env (closeEpoch env start) (votingBlock env start 64 0 []) [] [] = .ok post := by
  intro env start
  have initial : Initial env start := initial_genesisState (by decide +kernel)
  have reached : Reachable env start := ⟨start, [], initial, .nil start⟩
  have accepted : (computePostState env start (votingBlock env start 64 0 []) [] []).isOk = true := by
    decide +kernel
  obtain ⟨post, computed⟩ := exists_of_isOk accepted
  have ahead : start.epoch + 1 ≤ epochOf (votingBlock env start 64 0 []).header.slot := by decide +kernel
  exact ⟨post, (epoch_rolling_composes reached ahead).1 computed⟩

end CommittedState

end BlochPos
