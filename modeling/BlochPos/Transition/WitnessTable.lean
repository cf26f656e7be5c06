import BlochPos.Transition.Transfers
import BlochPos.Ustav.Vm

/-! Putting the table of keys of a transfer in the order the rules ask for. -/

namespace BlochPos

open Attempt List

def entryAt (keys : List WitnessKey) (i : ℕ) : WitnessKey := keys.getD i ⟨[], []⟩

/-- The indices of a table by the keys they point at. Equal keys stay in their order, and the table
is counted with 32 bits. -/
def witnessOrder (keys : List WitnessKey) : List ℕ :=
  (List.range (keys.length % 2 ^ 32)).insertionSort
    (fun a b => (entryAt keys a).pubkey ≤ (entryAt keys b).pubkey)

def newIndex (keys : List WitnessKey) : List ℕ :=
  (List.range keys.length).map
    (fun old => if old ∈ witnessOrder keys then (witnessOrder keys).idxOf old else 0)

def canonicalizeWitnessTable (keys : List WitnessKey) (inputs : List TransferInputV2) :
    List WitnessKey × List TransferInputV2 :=
  ((witnessOrder keys).map (entryAt keys),
    inputs.map (fun i => { i with keyIndex := ((newIndex keys)[i.keyIndex]?).getD i.keyIndex }))

def TransferV2.canonicalized (tx : TransferV2) : TransferV2 :=
  let done := canonicalizeWitnessTable tx.keys tx.inputs
  { tx with keys := done.1, inputs := done.2 }

section

variable {keys : List WitnessKey}

theorem entryAt_eq_iff (inside : i < keys.length) : entryAt keys i = k ↔ keys[i]? = some k := by
  rw [entryAt, getD_eq_getElem _ _ inside, getElem?_eq_getElem inside, Option.some.injEq]

section

variable (counted : keys.length < 2 ^ 32)
include counted

theorem witnessOrder_perm : (witnessOrder keys).Perm (List.range keys.length) := by
  rw [witnessOrder, Nat.mod_eq_of_lt counted]
  exact perm_insertionSort _ _

theorem mem_witnessOrder : old ∈ witnessOrder keys ↔ old < keys.length := by
  rw [(witnessOrder_perm counted).mem_iff, mem_range]

theorem getElem?_newIndex (inside : old < keys.length) :
    (newIndex keys)[old]? = some ((witnessOrder keys).idxOf old) := by
  rw [newIndex, getElem?_map, getElem?_range inside, Option.map_some,
    if_pos ((mem_witnessOrder counted).mpr inside)]

/-- An index points at the same entry after the move. -/
theorem getElem?_moved (inside : old < keys.length) :
    ((witnessOrder keys).map (entryAt keys))[(witnessOrder keys).idxOf old]? = keys[old]? := by
  have listed := (mem_witnessOrder counted).mpr inside
  rw [getElem?_map, getElem?_eq_getElem (idxOf_lt_length_of_mem listed), getElem_idxOf, Option.map_some]
  exact ((entryAt_eq_iff inside).mp rfl).symm

omit counted in
theorem map_entryAt_range (keys : List WitnessKey) : (List.range keys.length).map (entryAt keys) = keys := by
  apply ext_getElem?
  intro i
  rcases lt_or_ge i keys.length with inside | outside
  · rw [getElem?_map, getElem?_range inside, Option.map_some]
    exact ((entryAt_eq_iff inside).mp rfl).symm
  · rw [getElem?_eq_none outside, getElem?_eq_none]
    rwa [length_map, length_range]

theorem table_perm : ((witnessOrder keys).map (entryAt keys)).Perm keys := by
  have moved := (witnessOrder_perm counted).map (entryAt keys)
  rwa [map_entryAt_range] at moved

omit counted in
theorem table_sorted (keys : List WitnessKey) :
    (((witnessOrder keys).map (entryAt keys)).map WitnessKey.pubkey).Pairwise (· ≤ ·) := by
  have total : Std.Total (fun a b : ℕ => (entryAt keys a).pubkey ≤ (entryAt keys b).pubkey) :=
    ⟨fun a b => le_total (entryAt keys a).pubkey (entryAt keys b).pubkey⟩
  have trans : IsTrans ℕ (fun a b => (entryAt keys a).pubkey ≤ (entryAt keys b).pubkey) :=
    ⟨fun _ _ _ => le_trans⟩
  rw [pairwise_map, pairwise_map]
  exact pairwise_insertionSort _ _

theorem witnessOrder_of_sorted
    (sorted : (keys.map WitnessKey.pubkey).Pairwise (· ≤ ·)) : witnessOrder keys = List.range keys.length := by
  rw [witnessOrder, Nat.mod_eq_of_lt counted]
  apply List.Pairwise.insertionSort_eq
  rw [← map_entryAt_range keys, pairwise_map, pairwise_map] at sorted
  exact sorted

end

end

namespace TransferV2

/-- Every entry of the table authorises an input. -/
def UsesAll (tx : TransferV2) : Prop := ∀ k < tx.keys.length, ∃ i ∈ tx.inputs, i.keyIndex = k

/-- Every input points into the table. -/
structure Indexed (tx : TransferV2) : Prop where
  counted : tx.keys.length < 2 ^ 32
  inside : ∀ i ∈ tx.inputs, i.keyIndex < tx.keys.length

variable {tx : TransferV2}

section

variable (indexed : tx.Indexed)
include indexed

theorem Indexed.inputs : tx.canonicalized.inputs =
    tx.inputs.map (fun i => { i with keyIndex := (witnessOrder tx.keys).idxOf i.keyIndex }) := by
  refine map_congr_left fun i used => ?_
  rw [getElem?_newIndex indexed.counted (indexed.inside i used), Option.getD_some]

theorem Indexed.keys_perm : tx.canonicalized.keys.Perm tx.keys :=
  table_perm indexed.counted

theorem Indexed.canonicalized : tx.canonicalized.Indexed := by
  have size := indexed.keys_perm.length_eq
  refine ⟨size ▸ indexed.counted, ?_⟩
  rw [indexed.inputs, forall_mem_map]
  intro i used
  have listed := (mem_witnessOrder indexed.counted).mpr (indexed.inside i used)
  rw [TransferV2.canonicalized, canonicalizeWitnessTable, length_map]
  exact idxOf_lt_length_of_mem listed

theorem Indexed.usesAll_iff : tx.canonicalized.UsesAll ↔ tx.UsesAll := by
  have size := indexed.keys_perm.length_eq
  have distinct := (witnessOrder_perm indexed.counted).nodup_iff.mpr nodup_range
  have long := (witnessOrder_perm indexed.counted).length_eq
  rw [length_range] at long
  unfold UsesAll
  rw [indexed.inputs, size]
  constructor
  · intro used k inside
    have listed := (mem_witnessOrder indexed.counted).mpr inside
    obtain ⟨moved, there, same⟩ := used _ (long ▸ idxOf_lt_length_of_mem listed)
    obtain ⟨i, spent, rfl⟩ := mem_map.mp there
    exact ⟨i, spent, ((idxOf_inj listed).mp same.symm).symm⟩
  · intro used p inside
    have place : p < (witnessOrder tx.keys).length := long ▸ inside
    have listed := (mem_witnessOrder indexed.counted).mp (getElem_mem place)
    obtain ⟨i, spent, same⟩ := used _ listed
    refine ⟨_, mem_map_of_mem spent, ?_⟩
    simp only [same, distinct.idxOf_getElem]

theorem Indexed.canonicalized_twice : tx.canonicalized.canonicalized = tx.canonicalized := by
  have again := indexed.canonicalized
  have order := witnessOrder_of_sorted again.counted (table_sorted tx.keys)
  have table : tx.canonicalized.canonicalized.keys = tx.canonicalized.keys := by
    rw [TransferV2.canonicalized, canonicalizeWitnessTable, order]
    exact map_entryAt_range _
  have inputs : tx.canonicalized.canonicalized.inputs = tx.canonicalized.inputs := by
    rw [again.inputs, order]
    refine (map_congr_left fun i used => ?_).trans (map_id _)
    have place : i.keyIndex < (List.range tx.canonicalized.keys.length).length := by
      rw [length_range]
      exact again.inside i used
    have stays := nodup_range.idxOf_getElem i.keyIndex place
    rw [getElem_range] at stays
    rw [stays]
    rfl
  exact congrArg₂ (fun keys inputs => { tx.canonicalized with keys, inputs }) table inputs

end

end TransferV2

theorem checkWitnessTable_of_sorted {keys : List WitnessKey}
    (sorted : (keys.map WitnessKey.pubkey).Pairwise (· ≤ ·)) :
    CommittedState.checkWitnessTable keys ≠ .error .witnessTableNotCanonical := by
  induction keys using CommittedState.checkWitnessTable.induct with
  | case1 a b rest ih =>
    rw [map_cons, pairwise_cons] at sorted
    have ordered : ¬ b.pubkey < a.pubkey := not_lt.mpr (sorted.1 _ mem_cons_self)
    rw [CommittedState.checkWitnessTable]
    refine bind_ne_error (refuse_ne_error (by simp)) fun _ => bind_ne_error ?_ fun _ => ih sorted.2
    rw [refuse, if_neg ordered]
    simp
  | case2 keys short =>
    rw [CommittedState.checkWitnessTable]
    · simp
    · exact short

theorem walkInputs_ne_error {op : α → Outpoint} {keyHash : α → Except TransferReject Bytes32}
    (other : reject ∉ [.duplicateInput, .unknownInput, .scriptMismatch])
    (hashes : ∀ input, keyHash input ≠ .error reject) {inputs : List α} :
    ∀ {seen : List Outpoint} {spent : ℕ}, walkInputs eutxos op keyHash seen spent inputs ≠ .error reject := by
  simp only [mem_cons, not_mem_nil, or_false, not_or] at other
  induction inputs with
  | nil => exact pure_ne_error
  | cons input inputs ih =>
    intro seen spent
    refine bind_ne_error (refuse_ne_error (Ne.symm other.1)) fun _ => ?_
    refine bind_ne_error (orRefuse_ne_error (Ne.symm other.2.1)) fun entry => ?_
    refine bind_ne_error (hashes input) fun hash => ?_
    exact bind_ne_error (refuse_ne_error (Ne.symm other.2.2)) fun _ => ih

namespace CommittedState

theorem planTransferV2_ordered (env : Env) (st : CommittedState) (baseFee : ℕ)
    (ordered : checkWitnessTable tx.keys ≠ .error .witnessTableNotCanonical) :
    planTransferV2 env st tx baseFee ≠ .error .witnessTableNotCanonical := by
  have apart : TransferReject.witnessTableNotCanonical ∉
      [.duplicateInput, .unknownInput, .scriptMismatch] := by decide
  have declared {g epoch encodedLen cls} : checkDeclared g epoch encodedLen tx.txBytes tx.tipMillisatPerGas
      tx.outputs cls ≠ .error .witnessTableNotCanonical := by
    refine bind_ne_error (refuse_ne_error (by simp)) fun _ => bind_ne_error ?_ fun _ => ?_
    · unfold checkTransferOutputs
      split_ifs
      · exact bind_ne_error (refuse_ne_error (by simp)) fun _ => refuse_ne_error (by simp)
      · simp
    · refine bind_ne_error (refuse_ne_error (by simp)) fun _ => ?_
      exact bind_ne_error (refuse_ne_error (by simp)) fun _ => refuse_ne_error (by simp)
  have settles {spent charge} : checkSettles env st (.transferV2 tx) tx.outputs spent charge ≠
      .error .witnessTableNotCanonical := by
    refine bind_ne_error (refuse_ne_error (by simp)) fun _ => ?_
    exact bind_ne_error (refuse_ne_error (by simp)) fun _ => orRefuse_ne_error (by simp)
  refine bind_ne_error (refuse_ne_error (by simp)) fun _ => bind_ne_error declared fun _ => ?_
  refine bind_ne_error ordered fun _ => ?_
  refine bind_ne_error (walkInputs_ne_error apart ?_) fun spent => ?_
  · exact fun _ => orRefuse_ne_error (by simp)
  refine bind_ne_error (refuse_ne_error (by simp)) fun _ => bind_ne_error settles fun root => ?_
  exact bind_ne_error (refuse_ne_error (by simp)) fun _ => pure_ne_error

end CommittedState

/-- The table keeps its entries and is sorted, strictly just when no key is listed twice, and has an unused
entry just when it had one. The inputs keep what they point at, and nothing that is signed changes. -/
theorem TransferV2.canonicalized_keeps (tx : TransferV2) (indexed : tx.Indexed) :
    tx.canonicalized.keys.Perm tx.keys ∧
    (tx.canonicalized.keys.map WitnessKey.pubkey).Pairwise (· ≤ ·) ∧
    ((tx.canonicalized.keys.map WitnessKey.pubkey).Pairwise (· < ·) ↔ (tx.keys.map WitnessKey.pubkey).Nodup) ∧
    (tx.canonicalized.UsesAll ↔ tx.UsesAll) ∧
    (∀ env st baseFee, CommittedState.planTransferV2 env st tx.canonicalized baseFee ≠
      .error .witnessTableNotCanonical) ∧
    tx.canonicalized.inputs.map (fun i => (i.txid, i.vout, tx.canonicalized.keys[i.keyIndex]?)) =
      tx.inputs.map (fun i => (i.txid, i.vout, tx.keys[i.keyIndex]?)) ∧
    tx.canonicalized.canonicalized = tx.canonicalized ∧
    ∀ c : Crypto, (PosTransaction.transferV2 tx.canonicalized).txid c = (PosTransaction.transferV2 tx).txid c ∧
      (PosTransaction.transferV2 tx.canonicalized).spendSigningRoot c =
        (PosTransaction.transferV2 tx).spendSigningRoot c ∧
      ∀ g epoch domain, (PosTransaction.transferV2 tx.canonicalized).checkedSigningRootForNetwork c g epoch domain =
        (PosTransaction.transferV2 tx).checkedSigningRootForNetwork c g epoch domain := by
  have sorted := table_sorted tx.keys
  have spends : tx.canonicalized.spends = tx.spends := by
    rw [TransferV2.spends, indexed.inputs, map_map]
    rfl
  have root (c : Crypto) : (PosTransaction.transferV2 tx.canonicalized).spendSigningRoot c =
      (PosTransaction.transferV2 tx).spendSigningRoot c := by
    simp only [PosTransaction.spendSigningRoot, spends]
    rfl
  refine ⟨indexed.keys_perm, sorted, ?_, indexed.usesAll_iff, fun env st baseFee => ?_, ?_,
    indexed.canonicalized_twice, fun c => ⟨?_, root c, fun g epoch domain => ?_⟩⟩
  · rw [← (indexed.keys_perm.map WitnessKey.pubkey).nodup_iff]
    constructor
    · exact fun strict => strict.imp ne_of_lt
    · exact fun distinct => (sorted.and distinct).imp fun both => lt_of_le_of_ne both.1 both.2
  · exact CommittedState.planTransferV2_ordered env st baseFee (checkWitnessTable_of_sorted sorted)
  · rw [indexed.inputs, map_map]
    refine map_congr_left fun i used => ?_
    have moved := getElem?_moved indexed.counted (indexed.inside i used)
    simp only [Function.comp_apply, Prod.mk.injEq, true_and]
    exact moved
  · rw [PosTransaction.txid, PosTransaction.txid, root]
  · rw [PosTransaction.checkedSigningRootForNetwork, PosTransaction.checkedSigningRootForNetwork, root]

/-- Two keys out of order, each for one input. -/
def swapped : TransferV2 := ⟨[⟨[2], []⟩, ⟨[1], [7]⟩], [⟨0, 0, 0⟩, ⟨0, 1, 1⟩], [], 0, 0⟩

theorem swapped_canonicalized : (swapped.canonicalized.keys.map WitnessKey.pubkey).Pairwise (· < ·) ∧
    swapped.canonicalized.UsesAll := by
  have kept := swapped.canonicalized_keeps ⟨by decide, by decide⟩
  refine ⟨kept.2.2.1.mpr (by decide), kept.2.2.2.1.mpr ?_⟩
  unfold TransferV2.UsesAll
  decide

def twins : TransferV2 := ⟨[⟨[1], []⟩, ⟨[1], [7]⟩], [⟨0, 0, 0⟩], [], 0, 0⟩

theorem twins_kept : twins.Indexed ∧ ¬ (twins.canonicalized.keys.map WitnessKey.pubkey).Pairwise (· < ·) ∧
    ¬ twins.canonicalized.UsesAll := by
  refine ⟨⟨by decide, by decide⟩, by decide, ?_⟩
  unfold TransferV2.UsesAll
  decide

end BlochPos
