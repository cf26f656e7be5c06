import BlochPos.Transition.State

/-! Transfers of coins, in the form with a key and signature for each input and
the form with a table of keys. -/
namespace BlochPos

open Attempt List

/-- A verifier held to the rules for transactions of an epoch. -/
def Env.gated (env : Env) (epoch : ℕ) : Env :=
  { env with verifier := env.verifier.under (.transaction env.gates epoch) }

/-- What an accepted transaction does to the coins, and what it is charged. -/
structure CoinPlan where
  spent : List Outpoint
  created : List EutxoEntry
  charge : TxCharge
deriving DecidableEq

namespace CoinPlan

def spentSat (plan : CoinPlan) (eutxos : Eutxos) : ℕ := (plan.spent.map eutxos.valueAt).sum

def createdSat (plan : CoinPlan) : ℕ := (plan.created.map EutxoEntry.value).sum

/-- What is spent or gained covers the outputs, the fee and what is moved. -/
structure Balances (plan : CoinPlan) (eutxos : Eutxos) (gained moved : ℕ) : Prop where
  distinct : plan.spent.Nodup
  paid : plan.spentSat eutxos + gained = plan.createdSat + plan.charge.feeSat + moved

def run (plan : CoinPlan) (eutxos : Eutxos) : Eutxos := eutxos.exchange plan.spent plan.created

theorem Balances.totalSat_run_le {plan : CoinPlan} (balances : plan.Balances eutxos gained moved) :
    (plan.run eutxos).totalSat + plan.charge.feeSat + moved ≤ eutxos.totalSat + gained := by
  have exchanged := eutxos.totalSat_exchange_le balances.distinct plan.created
  have paid := balances.paid
  simp only [spentSat, createdSat, run] at paid ⊢
  omega

end CoinPlan

def outputEntries (txid : Bytes32) (outputs : List TransferOutput) : List EutxoEntry :=
  outputs.zipIdx.map (fun o => ⟨txid, o.2, o.1.value, o.1.scriptHash⟩)

def outputsSat (outputs : List TransferOutput) : ℕ := (outputs.map TransferOutput.value).sum

theorem sum_value_outputEntries (txid : Bytes32) (outputs : List TransferOutput) :
    ((outputEntries txid outputs).map EutxoEntry.value).sum = outputsSat outputs := by
  have values : (outputEntries txid outputs).map EutxoEntry.value =
      (outputs.zipIdx.map Prod.fst).map TransferOutput.value := by
    simp only [outputEntries, map_map]
    rfl
  rw [values, zipIdx_map_fst, outputsSat]

/-- Walk the inputs of a transfer: each is new, known and opened by its key.
The result is the value spent. -/
def walkInputs {α : Type} (eutxos : Eutxos) (op : α → Outpoint)
    (keyHash : α → Except TransferReject Bytes32) :
    List Outpoint → ℕ → List α → Except TransferReject ℕ
  | _, spent, [] => .ok spent
  | seen, spent, input :: rest => do
    refuse (op input ∈ seen) .duplicateInput
    let entry ← orRefuse (eutxos.get? (op input)) .unknownInput
    let hash ← keyHash input
    refuse (owns hash entry.scriptHash = false) .scriptMismatch
    walkInputs eutxos op keyHash (op input :: seen) (spent + entry.value) rest

theorem walkInputs_eq_ok {op : α → Outpoint} {keyHash : α → Except TransferReject Bytes32} {inputs : List α} :
    ∀ {seen : List Outpoint} {spent total : ℕ}, walkInputs eutxos op keyHash seen spent inputs = .ok total →
      (inputs.map op).Nodup ∧ (∀ input ∈ inputs, op input ∉ seen) ∧
        total = spent + ((inputs.map op).map eutxos.valueAt).sum ∧
        ∀ input ∈ inputs, ∃ entry hash, eutxos.get? (op input) = some entry ∧ keyHash input = .ok hash ∧
          owns hash entry.scriptHash = true := by
  induction inputs with
  | nil =>
    intro seen spent total walked
    simp only [walkInputs, Except.ok.injEq] at walked
    simp [walked]
  | cons input inputs ih =>
    intro seen spent total walked
    simp only [walkInputs, ok_iff] at walked
    obtain ⟨fresh, entry, found, hash, hashed, owned, rest⟩ := walked
    obtain ⟨distinct, unseen, sum, opened⟩ := ih rest
    refine ⟨?_, ?_, ?_, forall_mem_cons.mpr ⟨⟨entry, hash, found, hashed, by simpa using owned⟩, opened⟩⟩
    · refine nodup_cons.mpr ⟨?_, distinct⟩
      intro again
      obtain ⟨other, member, same⟩ := mem_map.mp again
      exact unseen other member (same ▸ mem_cons_self)
    · intro other member
      rcases mem_cons.mp member with rfl | member
      · exact fresh
      · exact fun old => unseen other member (mem_cons_of_mem _ old)
    · simp only [map_cons, sum_cons, Eutxos.valueAt_of_get? found]
      omega

namespace CommittedState

def checkTransferOutputs (g : Gates) (epoch : ℕ) (outputs : List TransferOutput) :
    Except TransferReject Unit :=
  if g.dustRuleActive epoch then do
    refuse (MAX_TRANSFER_OUTPUTS < outputs.length) .tooManyOutputs
    refuse (∃ o ∈ outputs, o.value < MIN_TRANSFER_OUTPUT_SAT) .dustOutput
  else .ok ()

/-- The checks both forms make on the sizes and the tip they declare. -/
def checkDeclared (g : Gates) (epoch encodedLen txBytes tip : ℕ) (outputs : List TransferOutput)
    (cls : TxClass) : Except TransferReject Unit := do
  refuse (txBytes < encodedLen) .underdeclaredSize
  checkTransferOutputs g epoch outputs
  refuse (g.txBytesBoundActive epoch ∧ satAdd u64Max encodedLen TX_BYTES_DECLARE_SLACK < txBytes)
    .overdeclaredSize
  refuse (MAX_TIP_MILLISAT_PER_GAS < tip) .tipAboveCeiling
  refuse (MAX_TX_GAS < intrinsicGas cls txBytes) .txGasCeilingExceeded

section

variable (env : Env) (st : CommittedState)

/-- What both forms check once their inputs are known: the value balances and no output is there
yet. The result is the digest the witnesses sign. -/
def checkSettles (tx : PosTransaction)
    (outputs : List TransferOutput) (spent : ℕ) (charge : TxCharge) : Except TransferReject Bytes32 := do
  refuse (spent ≠ outputsSat outputs + charge.feeSat) .valueNotConserved
  refuse (∃ vout < outputs.length,
    st.eutxos.contains (outpoint (tx.txid env.crypto) vout) = true) .outputExists
  orRefuse (tx.checkedSigningRootForNetwork env.crypto env.gates st.epoch st.admissionNetworkDomain)
    .missingNetworkBinding

def spendWitnessVerifies (epoch : ℕ) (pubkey : Bytes) (signingRoot : Bytes32) (signature : Bytes) : Bool :=
  if env.gates.slhSuiteActive epoch then
    env.verifier.verifySpendAtEpoch pubkey signingRoot signature epoch
  else env.verifier.verifyWithKey pubkey signingRoot signature

def planTransfer (tx : Transfer) (baseFee : ℕ) : Except TransferReject CoinPlan := do
  refuse (tx.inputs = []) .noInputs
  let cls := eutxoClassForKeys env.gates st.epoch (tx.inputs.map TransferInput.pubkey)
  checkDeclared env.gates st.epoch tx.canonicalBytes.length tx.txBytes tx.tipMillisatPerGas tx.outputs
    cls
  let spent ← walkInputs st.eutxos (fun i => outpoint i.txid i.vout)
    (fun i => .ok (env.crypto.sha3 i.pubkey)) [] 0 tx.inputs
  let charge := chargeFor cls tx.txBytes baseFee tx.tipMillisatPerGas
  let root ← checkSettles env st (.transfer tx) tx.outputs spent charge
  refuse (∃ i ∈ tx.inputs, spendWitnessVerifies env st.epoch i.pubkey root i.signature = false)
    .badSignature
  pure ⟨tx.inputs.map (fun i => outpoint i.txid i.vout),
    outputEntries ((PosTransaction.transfer tx).txid env.crypto) tx.outputs, charge⟩

def checkWitnessTable : List WitnessKey → Except TransferReject Unit
  | a :: b :: rest => do
    refuse (a.pubkey = b.pubkey) .duplicateWitnessKey
    refuse (b.pubkey < a.pubkey) .witnessTableNotCanonical
    checkWitnessTable (b :: rest)
  | _ => .ok ()

def planTransferV2 (tx : TransferV2) (baseFee : ℕ) : Except TransferReject CoinPlan := do
  refuse (tx.inputs = []) .noInputs
  let cls := eutxoClassForKeys env.gates st.epoch (tx.keys.map WitnessKey.pubkey)
  checkDeclared env.gates st.epoch tx.canonicalBytes.length tx.txBytes tx.tipMillisatPerGas tx.outputs
    cls
  checkWitnessTable tx.keys
  let keyHashes := tx.keys.map (fun k => env.crypto.sha3 k.pubkey)
  let spent ← walkInputs st.eutxos (fun i => outpoint i.txid i.vout)
    (fun i => orRefuse keyHashes[i.keyIndex]? .badKeyIndex) [] 0 tx.inputs
  refuse (∃ k < tx.keys.length, ¬ ∃ i ∈ tx.inputs, i.keyIndex = k) .witnessKeyUnused
  let charge := chargeFor cls tx.txBytes baseFee tx.tipMillisatPerGas
  let root ← checkSettles env st (.transferV2 tx) tx.outputs spent charge
  refuse (∃ k ∈ tx.keys, spendWitnessVerifies env st.epoch k.pubkey root k.signature = false)
    .badSignature
  pure ⟨tx.inputs.map (fun i => outpoint i.txid i.vout),
    outputEntries ((PosTransaction.transferV2 tx).txid env.crypto) tx.outputs, charge⟩

def withCoins (plan : CoinPlan) : CommittedState :=
  { st with eutxos := plan.run st.eutxos }

end

def applyTransfer (env : Env) (tx : Transfer) (baseFee : ℕ) :
    Attempt CommittedState TransferReject TxCharge :=
  transact (fun st => planTransfer env st tx baseFee) withCoins CoinPlan.charge

def applyTransferV2 (env : Env) (tx : TransferV2) (baseFee : ℕ) :
    Attempt CommittedState TransferReject TxCharge :=
  transact (fun st => planTransferV2 env st tx baseFee) withCoins CoinPlan.charge

theorem checkSettles_eq_ok {charge : TxCharge} (settles : checkSettles env st tx outputs spent charge = .ok root) :
    spent = outputsSat outputs + charge.feeSat ∧
      (∀ vout < outputs.length, st.eutxos.get? (outpoint (tx.txid env.crypto) vout) = none) ∧
      tx.checkedSigningRootForNetwork env.crypto env.gates st.epoch st.admissionNetworkDomain = some root := by
  simp only [checkSettles, ok_iff, ne_eq, not_not] at settles
  obtain ⟨balance, free, signed⟩ := settles
  refine ⟨balance, fun vout inside => ?_, signed⟩
  by_contra held
  exact free ⟨vout, inside, Option.isSome_iff_ne_none.mpr held⟩

theorem transfer_balances {charge : TxCharge} {op : A → Outpoint} {keyHash : A → Except TransferReject Bytes32}
    {inputs : List A} (walked : walkInputs st.eutxos op keyHash [] 0 inputs = .ok spent)
    (settles : checkSettles env st tx outputs spent charge = .ok root) :
    CoinPlan.Balances ⟨inputs.map op, outputEntries (tx.txid env.crypto) outputs, charge⟩ st.eutxos 0 0 := by
  obtain ⟨distinct, -, total, -⟩ := walkInputs_eq_ok walked
  refine ⟨distinct, ?_⟩
  have balance := (checkSettles_eq_ok settles).1
  simp only [CoinPlan.spentSat, CoinPlan.createdSat, sum_value_outputEntries]
  omega

theorem planTransfer_balances {tx : Transfer}
    (planned : planTransfer env st tx baseFee = .ok plan) : plan.Balances st.eutxos 0 0 := by
  simp only [planTransfer, ok_iff] at planned
  obtain ⟨-, -, spent, walked, root, settles, -, rfl⟩ := planned
  exact transfer_balances walked settles

theorem planTransferV2_balances {tx : TransferV2}
    (planned : planTransferV2 env st tx baseFee = .ok plan) : plan.Balances st.eutxos 0 0 := by
  simp only [planTransferV2, ok_iff] at planned
  obtain ⟨-, -, -, spent, walked, -, root, settles, -, rfl⟩ := planned
  exact transfer_balances walked settles

end CommittedState

end BlochPos
