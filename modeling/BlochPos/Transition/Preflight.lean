import BlochPos.Transition.BlockRun

/-! The preflight of a block: what transfers and funded deposits declare is held against its caps,
and charged if it is accepted. -/
namespace BlochPos

open Attempt

namespace CommittedState

def checkBlockCounts (g : Gates) (epoch : ℕ) (transactions : List PosTransaction) :
    Except TransitionError Unit := do
  refuse (1 < transactions.countP isSettlement) .blockGasLimitExceeded
  refuse (L2.DA_MAX_PER_BLOCK < transactions.countP isDataAvailability) .blockGasLimitExceeded
  refuse (g.latticeEmergencyActive epoch ∧
    RESCUE_COMMITS_MAX_PER_BLOCK < transactions.countP isRescueCommit) .blockGasLimitExceeded

def preflight (g : Gates) (st : CommittedState) (epoch : ℕ) (transactions : List PosTransaction) :
    Except TransitionError Unit := do
  let loads := transactions.filterMap (st.minimumLoad g)
  let minimumGas := (loads.map (fun l => intrinsicGas l.2 l.1)).foldl (satAdd u64Max) 0
  let minimumBytes := (loads.map Prod.fst).foldl (satAdd u64Max) 0
  refuse (BLOCK_GAS_LIMIT < minimumGas) .blockGasLimitExceeded
  refuse (maxBlockTxBytes g epoch < minimumBytes) .blockByteLimitExceeded

def executeBody (env : Env) (terms : BlockTerms) (st : CommittedState)
    (transactions : List PosTransaction) : Except TransitionError BlockMeter := do
  let m ← transactions.zipIdx.foldlM (BlockMeter.apply env terms) (.start st)
  refuse (BLOCK_GAS_LIMIT < m.gas) .blockGasLimitExceeded
  refuse (maxBlockTxBytes env.gates terms.epoch < m.txBytes) .blockByteLimitExceeded
  pure m

section

variable {st : CommittedState}

theorem applyTransactions_eq : applyTransactions env terms st transactions = (do
    checkBlockCounts env.gates terms.epoch transactions
    preflight env.gates st terms.epoch transactions
    executeBody env terms st transactions) := by
  simp only [applyTransactions, checkBlockLoad, checkBlockCounts, preflight, executeBody, bind_assoc]

theorem charge_of_minimumLoad {charge : TxCharge} (applied : exec (applyInBlock env terms tx) st = (.ok charge, post))
    (counted : st.minimumLoad env.gates tx = some load) :
    charge.gas = intrinsicGas load.2 load.1 ∧ charge.txBytes = load.1 := by
  cases tx with
  | transfer tx =>
    cases counted
    cases accepted_of_applyTransaction applied with
    | bridge kind => cases kind
    | transfer planned =>
      simp only [planTransfer, ok_iff] at planned
      obtain ⟨-, -, spent, -, root, -, -, rfl⟩ := planned
      exact ⟨rfl, rfl⟩
  | transferV2 tx =>
    cases counted
    cases accepted_of_applyTransaction applied with
    | bridge kind => cases kind
    | transferV2 planned =>
      simp only [planTransferV2, ok_iff] at planned
      obtain ⟨-, -, -, spent, -, -, root, -, -, rfl⟩ := planned
      exact ⟨rfl, rfl⟩
  | fundedDeposit tx =>
    cases counted
    cases accepted_of_applyTransaction applied with
    | bridge kind => cases kind
    | fundedDeposit planned =>
      simp only [planFundedDeposit, FundedTerms.plan, ok_iff] at planned
      obtain ⟨-, -, -, -, -, -, -, -, -, coins, ⟨-, spent, -, -, -, -, -, -, -, -, rfl⟩, -, rfl⟩ := planned
      exact ⟨rfl, rfl⟩
  | _ => cases counted

theorem loads_le_of_applied {entries : List (PosTransaction × ℕ)}
    (applied : entries.foldlM (BlockMeter.apply env terms) m = .ok m') (epoch : m.state.epoch = st.epoch)
    (gasCovered : gas ≤ m.gas) (gasFits : m.gas ≤ u64Max) (bytesCovered : bytes ≤ m.txBytes)
    (bytesFit : m.txBytes ≤ u64Max) :
    (((entries.map Prod.fst).filterMap (st.minimumLoad env.gates)).map
        (fun l => intrinsicGas l.2 l.1)).foldl (satAdd u64Max) gas ≤ m'.gas ∧
      (((entries.map Prod.fst).filterMap (st.minimumLoad env.gates)).map Prod.fst).foldl
        (satAdd u64Max) bytes ≤ m'.txBytes := by
  induction entries generalizing m gas bytes with
  | nil =>
    obtain rfl := Except.ok.inj applied
    exact ⟨gasCovered, bytesCovered⟩
  | cons entry rest ih =>
    simp only [List.foldlM_cons, ok_iff] at applied
    obtain ⟨next, first, later⟩ := applied
    obtain ⟨charge, accepted, same⟩ := apply_eq_ok first
    have step := step_of_applyInBlock accepted
    have epoch' : next.state.epoch = st.epoch := by
      rw [← epoch]
      refine step.epoch_eq ?_
      unfold Event.inBlock
      split <;> simp
    have gas' : next.gas = satAdd u64Max m.gas charge.gas := by rw [same]; rfl
    have bytes' : next.txBytes = satAdd u64Max m.txBytes charge.txBytes := by rw [same]; rfl
    unfold satAdd at gas' bytes'
    cases counted : st.minimumLoad env.gates entry.1 with
    | none =>
      rw [List.map_cons, List.filterMap_cons_none counted]
      exact ih later epoch' (by omega) (by omega) (by omega) (by omega)
    | some load =>
      have here : m.state.minimumLoad env.gates entry.1 = some load := by
        rw [← counted]
        simp only [minimumLoad, epoch]
      obtain ⟨gasEq, bytesEq⟩ := charge_of_minimumLoad accepted here
      rw [List.map_cons, List.filterMap_cons_some counted]
      exact ih later epoch' (by simp only [satAdd]; omega) (by omega) (by simp only [satAdd]; omega) (by omega)

theorem preflight_of_executeBody (ran : executeBody env terms st transactions = .ok m) :
    preflight env.gates st terms.epoch transactions = .ok () := by
  simp only [executeBody, ok_iff, not_lt] at ran
  obtain ⟨m, applied, gas, bytes, rfl⟩ := ran
  have covered := loads_le_of_applied applied rfl (Nat.zero_le _) (Nat.zero_le _) (Nat.zero_le _) (Nat.zero_le _)
  rw [List.zipIdx_map_fst] at covered
  simp only [preflight, ok_iff, not_lt]
  exact ⟨covered.1.trans gas, covered.2.trans bytes⟩

end

/-- The preflight never refuses a block that its body would let through, and no accepted
transaction is charged less than the preflight counts for it. -/
theorem preflight_refuses_nothing_good (env : Env) (terms : BlockTerms) (st : CommittedState)
    (transactions : List PosTransaction) :
    (applyTransactions env terms st transactions = do
      checkBlockCounts env.gates terms.epoch transactions
      preflight env.gates st terms.epoch transactions
      executeBody env terms st transactions) ∧
    (∀ why, preflight env.gates st terms.epoch transactions = .error why →
      ∃ why', executeBody env terms st transactions = .error why') ∧
    ∀ tx charge post load, exec (applyInBlock env terms tx) st = (.ok charge, post) →
      st.minimumLoad env.gates tx = some load →
      intrinsicGas load.2 load.1 ≤ charge.gas ∧ load.1 ≤ charge.txBytes := by
  refine ⟨applyTransactions_eq, ?_, ?_⟩
  · intro why refused
    cases ran : executeBody env terms st transactions with
    | error why' => exact ⟨why', rfl⟩
    | ok m => cases refused.symm.trans (preflight_of_executeBody ran)
  · intro tx charge post load applied counted
    obtain ⟨gas, bytes⟩ := charge_of_minimumLoad applied counted
    exact ⟨gas.ge, bytes.ge⟩

end CommittedState

end BlochPos
