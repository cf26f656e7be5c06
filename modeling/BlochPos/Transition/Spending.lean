import BlochPos.Transition.Outpoints

/-! Transfers spend coins of keys they show, and move value without making any. -/
namespace BlochPos

open Attempt List

theorem mem_outputEntries_iff : e ∈ outputEntries txid outputs ↔
      ∃ o, outputs[e.vout]? = some o ∧ e = ⟨txid, e.vout, o.value, o.scriptHash⟩ := by
  rw [outputEntries, mem_map]
  constructor
  · rintro ⟨⟨o, vout⟩, listed, rfl⟩
    exact ⟨o, mem_zipIdx_iff_getElem?.mp listed, rfl⟩
  · rintro ⟨o, there, same⟩
    exact ⟨(o, e.vout), mem_zipIdx_iff_getElem?.mpr there, same.symm⟩

theorem map_outpoint_outputEntries (txid : Bytes32) (outputs : List TransferOutput) :
    (outputEntries txid outputs).map EutxoEntry.outpoint = (List.range outputs.length).map (outpoint txid) := by
  have places : outputs.zipIdx.map Prod.snd = List.range outputs.length := by
    rw [zipIdx_map_snd, range_eq_range']
  rw [← places, outputEntries, map_map, map_map]
  rfl

theorem nodup_outpoint_outputEntries (txid : Bytes32) (outputs : List TransferOutput) :
    ((outputEntries txid outputs).map EutxoEntry.outpoint).Nodup := by
  rw [map_outpoint_outputEntries]
  refine nodup_range.map ?_
  intro i j same
  exact congrArg (fun op => (ofLex op).2) same

theorem get?_exchange_outputs (s : Eutxos) (spent : List Outpoint) (txid : Bytes32)
    (outputs : List TransferOutput) (op : Outpoint) :
    (s.exchange spent (outputEntries txid outputs)).get? op =
      if (ofLex op).1 = txid ∧ (ofLex op).2 < outputs.length then
        (outputs[(ofLex op).2]?).map (fun o => ⟨txid, (ofLex op).2, o.value, o.scriptHash⟩)
      else if op ∈ spent then none else s.get? op := by
  rw [Eutxos.exchange, ← Eutxos.get?_foldl_remove]
  split_ifs with new
  · obtain ⟨rfl, inside⟩ := new
    have listed := getElem?_eq_getElem inside
    generalize outputs[(ofLex op).2] = o at listed
    have created : ⟨(ofLex op).1, (ofLex op).2, o.value, o.scriptHash⟩ ∈ outputEntries (ofLex op).1 outputs :=
      mem_outputEntries_iff.mpr ⟨o, listed, rfl⟩
    rw [listed, Option.map_some]
    exact Eutxos.get?_foldl_insert_of_nodup (nodup_outpoint_outputEntries _ _) created
  · refine Eutxos.get?_foldl_insert_of_notMem ?_
    rw [map_outpoint_outputEntries, mem_map]
    rintro ⟨vout, inside, rfl⟩
    exact new ⟨rfl, mem_range.mp inside⟩

namespace PosTransaction

def shows : PosTransaction → List (Outpoint × Option WitnessKey)
  | .transfer tx => tx.inputs.map (fun i => (outpoint i.txid i.vout, some ⟨i.pubkey, i.signature⟩))
  | .transferV2 tx => tx.inputs.map (fun i => (outpoint i.txid i.vout, tx.keys[i.keyIndex]?))
  | _ => []

def outputs : PosTransaction → List TransferOutput
  | .transfer tx | .transferV2 tx => tx.outputs
  | _ => []

def isTransfer : PosTransaction → Bool
  | .transfer _ | .transferV2 _ => true
  | _ => false

end PosTransaction

namespace CommittedState

section

variable {env : Env} {st post : CommittedState} {tx : PosTransaction} {totalActiveSat baseFee : ℕ}
  {charge : TxCharge} {root : Bytes32}

/-- The coin is there, and the key shown for it opens it and has signed the transaction. -/
def OpenedBy (env : Env) (st : CommittedState) (root : Bytes32) (op : Outpoint) (key : Option WitnessKey) :
    Prop :=
  ∃ entry k, st.eutxos.get? op = some entry ∧ key = some k ∧
    owns (env.crypto.sha3 k.pubkey) entry.scriptHash = true ∧
    spendWitnessVerifies env st.epoch k.pubkey root k.signature = true

/-- What an accepted transfer spends and leaves. -/
structure Transfers (env : Env) (st : CommittedState) (tx : PosTransaction) (charge : TxCharge)
    (post : CommittedState) : Prop where
  state : post = { st with eutxos := post.eutxos }
  distinct : (tx.shows.map Prod.fst).Nodup
  authorised : ∃ root, tx.checkedSigningRootForNetwork env.crypto env.gates st.epoch st.admissionNetworkDomain =
    some root ∧ ∀ spend ∈ tx.shows, st.OpenedBy env root spend.1 spend.2
  unused : ∀ vout < tx.outputs.length, st.eutxos.get? (outpoint (tx.txid env.crypto) vout) = none
  coins : ∀ op, post.eutxos.get? op =
    if (ofLex op).1 = tx.txid env.crypto ∧ (ofLex op).2 < tx.outputs.length then
      (tx.outputs[(ofLex op).2]?).map
        (fun o => ⟨tx.txid env.crypto, (ofLex op).2, o.value, o.scriptHash⟩)
    else if op ∈ tx.shows.map Prod.fst then none else st.eutxos.get? op
  total : post.eutxos.totalSat + charge.baseFeeSat + charge.priorityFeeSat = st.eutxos.totalSat

theorem transfers_of_walk {op : A → Outpoint} {keyHash : A → Except TransferReject Bytes32}
    {inputs : List A} (walked : walkInputs st.eutxos op keyHash [] 0 inputs = .ok spent)
    (settles : checkSettles env st tx tx.outputs spent charge = .ok root)
    (spends : tx.shows.map Prod.fst = inputs.map op)
    (authorised : ∀ spend ∈ tx.shows, st.OpenedBy env root spend.1 spend.2) :
    Transfers env st tx charge
      (st.withCoins ⟨inputs.map op, outputEntries (tx.txid env.crypto) tx.outputs, charge⟩) := by
  obtain ⟨distinct, -, walkedSat, -⟩ := walkInputs_eq_ok walked
  obtain ⟨balance, unused, signed⟩ := checkSettles_eq_ok settles
  refine ⟨rfl, spends ▸ distinct, ⟨root, signed, authorised⟩, unused, fun op => ?_, ?_⟩
  · rw [spends]
    exact get?_exchange_outputs ..
  · have free : ∀ e ∈ outputEntries (tx.txid env.crypto) tx.outputs, st.eutxos.get? e.outpoint = none := by
      intro e listed
      obtain ⟨o, there, same⟩ := mem_outputEntries_iff.mp listed
      rw [same]
      exact unused _ (List.getElem?_eq_some_iff.mp there).1
    have exchanged := Eutxos.totalSat_exchange_of_free distinct (nodup_outpoint_outputEntries _ _) free
    rw [sum_value_outputEntries] at exchanged
    simp only [withCoins, CoinPlan.run, TxCharge.feeSat] at balance ⊢
    omega

/-- An accepted transfer spends distinct coins that are there, each opened by a key that has signed it. They
are gone, the outputs are there under its id, nothing else changes, and the coins are worth less by the fee.
-/
theorem transfer_spends_own (transfer : tx.isTransfer = true)
    (applied : exec (applyTransaction env tx totalActiveSat baseFee) st = (.ok charge, post)) :
    Transfers (env.gated st.epoch) st tx charge post := by
  cases accepted_of_applyTransaction applied with
  | bridge kind =>
    cases tx with
    | transfer | transferV2 => cases kind
    | _ => cases transfer
  | transfer planned =>
    simp only [planTransfer, ok_iff] at planned
    obtain ⟨-, -, spent, walked, root, settles, signed, rfl⟩ := planned
    refine transfers_of_walk walked settles (map_map ..) ?_
    refine forall_mem_map.mpr fun i listed => ?_
    obtain ⟨entry, _, found, ⟨⟩, owned⟩ := (walkInputs_eq_ok walked).2.2.2 i listed
    refine ⟨entry, _, found, rfl, owned, ?_⟩
    by_contra bad
    exact signed ⟨i, listed, Bool.eq_false_iff.mpr bad⟩
  | @transferV2 tx plan planned =>
    simp only [planTransferV2, ok_iff] at planned
    obtain ⟨-, -, -, spent, walked, -, root, settles, signed, rfl⟩ := planned
    refine transfers_of_walk walked settles (map_map ..) ?_
    refine forall_mem_map.mpr fun i listed => ?_
    obtain ⟨entry, hash, found, hashed, owned⟩ := (walkInputs_eq_ok walked).2.2.2 i listed
    simp only [orRefuse_eq_ok_iff, getElem?_map, Option.map_eq_some_iff] at hashed
    obtain ⟨key, shown, rfl⟩ := hashed
    refine ⟨entry, key, found, shown, owned, ?_⟩
    by_contra bad
    exact signed ⟨key, mem_of_getElem? shown, Bool.eq_false_iff.mpr bad⟩
  | _ => cases transfer

/-- The coin the holder sends on is gone, and its value is in the new one and the fee. -/
theorem sent_coin_moved : let env := Env.accepting .shipped
    let start := genesisState env coinGenesis
    let sent := (exec (applyTransaction env (.transfer sentOn) 0 0) start).2
    sent.eutxos.get? (outpoint 1 0) = none ∧ ∃ charge : TxCharge,
      sent.eutxos.totalSat + charge.baseFeeSat + charge.priorityFeeSat = start.eutxos.totalSat := by
  intro env start sent
  have accepted : (exec (applyTransaction env (.transfer sentOn) 0 0) start).1.isOk = true := by decide +kernel
  obtain ⟨charge, applied⟩ : ∃ charge, exec (applyTransaction env (.transfer sentOn) 0 0) start = (.ok charge, sent) :=
    exists_exec_of_isOk accepted
  exact ⟨by decide +kernel, charge, (transfer_spends_own rfl applied).total⟩

end

end CommittedState

end BlochPos
