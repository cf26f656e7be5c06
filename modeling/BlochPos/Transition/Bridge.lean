import BlochPos.L2.Run
import BlochPos.Transition.Funded

/-! Transactions between the chain and its execution layer: deposits, published batches, claims and
settlements. -/
namespace BlochPos

open Attempt

def MAX_DEPOSIT_INPUTS : ℕ := 128
def MAX_CLAIM_INPUTS : ℕ := 16
def MIN_L2_DEPOSIT_SAT : ℕ := 1000000
def MAX_L2_DEPOSIT_SAT : ℕ := 100000000000 * 100000000
def ESCROW_VOUT : ℕ := 1

/-- The reasons the payment of a bridge transaction is refused for. -/
structure BridgeRejects (E : Type) where
  (shape tipAboveCeiling gasCeiling missingInput ownership arithmetic conservation : E)

/-- What a bridge transaction pays with, and its change. -/
structure BridgeTerms where
  fundingPubkey : Bytes
  inputs : List FundingInput
  change : TransferOutput
  (txBytes tipMillisatPerGas : ℕ)
  signature : Bytes

/-- The outputs are created where no coin is. -/
def CoinPlan.Free (plan : CoinPlan) (eutxos : Eutxos) : Prop :=
  (plan.created.map EutxoEntry.outpoint).Nodup ∧ ∀ e ∈ plan.created, eutxos.get? e.outpoint = none

theorem Eutxos.get?_eq_none_of_contains {s : Eutxos} (free : s.contains op = false) :
    s.get? op = none := Option.isSome_eq_false_iff.mp free |> Option.isNone_iff_eq_none.mp

namespace BridgeTerms

def cls (t : BridgeTerms) : TxClass := .eutxo t.inputs.length

def charge (t : BridgeTerms) (baseFee : ℕ) : TxCharge :=
  chargeFor t.cls t.txBytes baseFee t.tipMillisatPerGas

def wellShaped (t : BridgeTerms) (maxInputs : ℕ) : Bool :=
  t.fundingPubkey.length = ADMISSION_PQ_KEY_BYTES ∧ t.signature ≠ [] ∧
    t.signature.length ≤ ADMISSION_PQ_SIGNATURE_MAX ∧ t.inputs ≠ [] ∧ t.inputs.length ≤ maxInputs ∧
    strictlyOrdered t.inputs

def checkFees {E : Type} (r : BridgeRejects E) (t : BridgeTerms) : Except E Unit := do
  refuse (MAX_TIP_MILLISAT_PER_GAS < t.tipMillisatPerGas) r.tipAboveCeiling
  refuse (MAX_TX_GAS < intrinsicGas t.cls t.txBytes) r.gasCeiling

def checkPaid {E : Type} (c : Crypto) (eutxos : Eutxos) (r : BridgeRejects E) (t : BridgeTerms)
    (movedSat baseFee : ℕ) : Except E Unit := do
  let spent ← fundingSat eutxos (owns (c.sha3 t.fundingPubkey)) r.missingInput r.ownership
    r.arithmetic 0 t.inputs
  let charge := t.charge baseFee
  let required := movedSat + t.change.value + charge.baseFeeSat + charge.priorityFeeSat
  refuse (u128Max < required) r.arithmetic
  refuse (spent ≠ required) r.conservation

def changeEntries (t : BridgeTerms) (txid : Bytes32) (vout : ℕ) : List EutxoEntry :=
  if 0 < t.change.value then [⟨txid, vout, t.change.value, t.change.scriptHash⟩] else []

theorem sum_value_changeEntries (t : BridgeTerms) (txid : Bytes32) (vout : ℕ) :
    ((t.changeEntries txid vout).map EutxoEntry.value).sum = t.change.value := by
  unfold changeEntries
  split_ifs with some
  · simp
  · simp only [List.map_nil, List.sum_nil]
    omega

/-- What the checks of a payment have established. -/
structure Paid (t : BridgeTerms) (eutxos : Eutxos) (movedSat baseFee : ℕ) : Prop where
  some : t.inputs ≠ []
  distinct : (t.inputs.map FundingInput.outpoint).Nodup
  held : ∀ i ∈ t.inputs, eutxos.get? i.outpoint ≠ none
  balance : ((t.inputs.map FundingInput.outpoint).map eutxos.valueAt).sum =
    movedSat + t.change.value + (t.charge baseFee).feeSat

section

variable {t : BridgeTerms}

theorem paid_of_checks {r : BridgeRejects E}
    (shaped : t.wellShaped maxInputs = true) (paid : t.checkPaid c eutxos r movedSat baseFee = .ok u) :
    t.Paid eutxos movedSat baseFee := by
  simp only [wellShaped, decide_eq_true_eq] at shaped
  simp only [checkPaid, ok_iff, ne_eq, not_not] at paid
  obtain ⟨-, -, -, some, -, ordered⟩ := shaped
  obtain ⟨spent, funded, -, rfl⟩ := paid
  obtain ⟨total, held⟩ := fundingSat_eq_ok funded
  refine ⟨some, nodup_of_strictlyOrdered ordered, held, ?_⟩
  simp only [TxCharge.feeSat]
  omega

theorem Paid.balances (paid : t.Paid eutxos movedSat baseFee) (released : List EutxoEntry) (txid : Bytes32)
    (vout : ℕ) : CoinPlan.Balances ⟨t.inputs.map FundingInput.outpoint, released ++ t.changeEntries txid vout,
      t.charge baseFee⟩ eutxos (released.map EutxoEntry.value).sum movedSat := by
  refine ⟨paid.distinct, ?_⟩
  have balance := paid.balance
  simp only [CoinPlan.spentSat, CoinPlan.createdSat, List.map_append, List.sum_append, sum_value_changeEntries]
  omega

theorem mem_changeEntries
    (member : e ∈ t.changeEntries txid vout) : e = ⟨txid, vout, t.change.value, t.change.scriptHash⟩ := by
  unfold changeEntries at member
  split_ifs at member
  · exact List.mem_singleton.mp member
  · cases member

theorem free_changeEntries (free : eutxos.contains (outpoint txid vout) = false) (spent : List Outpoint)
    (charge : TxCharge) : CoinPlan.Free ⟨spent, t.changeEntries txid vout, charge⟩ eutxos := by
  constructor
  · dsimp only [changeEntries]
    split_ifs <;> simp
  · intro e member
    rw [mem_changeEntries member]
    exact Eutxos.get?_eq_none_of_contains free

end

end BridgeTerms

namespace L2Deposit

def terms (tx : L2Deposit) : BridgeTerms :=
  ⟨tx.fundingPubkey, tx.inputs, tx.change, tx.txBytes, tx.tipMillisatPerGas, tx.signature⟩

def rejects : BridgeRejects L2DepositReject :=
  ⟨.shape, .tipAboveCeiling, .gasCeiling, .missingInput, .ownership, .arithmetic, .conservation⟩

def validateShape (tx : L2Deposit) : Except L2DepositReject Unit := do
  refuse (tx.terms.wellShaped MAX_DEPOSIT_INPUTS = false ∨ tx.recipient = List.replicate 20 0) .shape
  refuse (tx.amountSat < MIN_L2_DEPOSIT_SAT ∨ MAX_L2_DEPOSIT_SAT < tx.amountSat) .amount
  refuse (tx.txBytes < tx.canonicalBytes.length) .underdeclaredSize

end L2Deposit

namespace CommittedState

def putL2 (st : CommittedState) (l2 : L2.State) : CommittedState := { st with l2Settlement := some l2 }

def onL2 {E A : Type} (missing : E) (x : Attempt L2.State E A) : Attempt CommittedState E A :=
  zoom l2Settlement putL2 missing x

/-- A plan of coins with the deposit it records. -/
structure EscrowPlan where
  record : L2.InboxRecord
  coins : CoinPlan

def planL2Deposit (env : Env) (st : CommittedState) (tx : L2Deposit) (baseFee : ℕ) :
    Except L2DepositReject EscrowPlan := do
  refuse (st.l2Settlement.any L2.State.depositsEnabled = false) .notActive
  tx.validateShape
  refuse (st.admissionNetworkDomain ≠ some tx.networkDomain) .network
  tx.terms.checkFees L2Deposit.rejects
  tx.terms.checkPaid env.crypto st.eutxos L2Deposit.rejects tx.amountSat baseFee
  let txid := (PosTransaction.l2Deposit tx).txid env.crypto
  refuse (st.eutxos.contains (outpoint txid 0) = true) .outputCollision
  refuse (env.verifier.verifyWithKey tx.fundingPubkey (tx.intentRoot env.crypto) tx.signature = false)
    .signature
  let l2 ← orRefuse st.l2Settlement .notActive
  let height ← orRefuse (checkedAdd u64Max l2.nativeHeight 1) .arithmetic
  pure ⟨⟨height, l2.depositsAtHeight height, txid, ESCROW_VOUT, tx.amountSat, tx.recipient⟩,
    ⟨tx.inputs.map FundingInput.outpoint, tx.terms.changeEntries txid 0, tx.terms.charge baseFee⟩⟩

def applyL2Deposit (env : Env) (tx : L2Deposit) (baseFee : ℕ) :
    Attempt CommittedState L2DepositReject TxCharge := do
  let st ← get
  let plan ← check (planL2Deposit env st tx baseFee)
  onL2 .notActive (relabel (fun _ => .inbox) (L2.State.appendDeposit env.crypto plan.record))
  modify (fun st => st.withCoins plan.coins)
  pure plan.coins.charge

end CommittedState

namespace L2DataAvailability

def terms (tx : L2DataAvailability) : BridgeTerms :=
  ⟨tx.fundingPubkey, tx.inputs, tx.change, tx.txBytes, tx.tipMillisatPerGas, tx.signature⟩

def rejects : BridgeRejects L2DataAvailabilityReject :=
  ⟨.shape, .tipAboveCeiling, .gasCeiling, .missingInput, .ownership, .arithmetic, .conservation⟩

def validateShape (tx : L2DataAvailability) : Except L2DataAvailabilityReject Unit := do
  refuse (tx.terms.wellShaped L2.DA_MAX_INPUTS = false) .shape
  refuse (L2.batchCount tx.payload = none) .payload
  refuse (tx.txBytes < tx.canonicalBytes.length) .underdeclaredSize

end L2DataAvailability

def L2DataAvailabilityReject.ofRefusal : L2.DaRefusal → L2DataAvailabilityReject
  | .notActive => .notActive
  | .chain => .chain
  | .number => .number
  | .duplicate => .duplicate
  | .full => .full

namespace CommittedState

def planL2DataAvailability (env : Env) (st : CommittedState) (tx : L2DataAvailability) (baseFee : ℕ) :
    Except L2DataAvailabilityReject CoinPlan := do
  refuse (st.l2Settlement.any (fun l2 => l2.profile.userTransactions) = false) .notActive
  tx.validateShape
  refuse (st.admissionNetworkDomain ≠ some tx.networkDomain) .network
  tx.terms.checkFees L2DataAvailability.rejects
  tx.terms.checkPaid env.crypto st.eutxos L2DataAvailability.rejects 0 baseFee
  let txid := (PosTransaction.l2DataAvailability tx).txid env.crypto
  refuse (st.eutxos.contains (outpoint txid 0) = true) .outputCollision
  refuse (env.verifier.verifyWithKey tx.fundingPubkey (tx.intentRoot env.crypto) tx.signature = false)
    .signature
  pure ⟨tx.inputs.map FundingInput.outpoint, tx.terms.changeEntries txid 0, tx.terms.charge baseFee⟩

def applyL2DataAvailability (env : Env) (tx : L2DataAvailability) (baseFee : ℕ) :
    Attempt CommittedState L2DataAvailabilityReject TxCharge := do
  let st ← get
  let plan ← check (planL2DataAvailability env st tx baseFee)
  onL2 .notActive (relabel L2DataAvailabilityReject.ofRefusal
    (L2.State.recordDataAvailability tx.l2ChainId tx.l2BlockNumber (tx.commitment env.crypto)))
  modify (fun st => st.withCoins plan)
  pure plan.charge

end CommittedState

namespace ClaimAttestation

def setHash (c : Crypto) (a : ClaimAttestation) : Bytes32 := L2.attestorSetHash c a.threshold a.keys

def validateShape (a : ClaimAttestation) : Bool :=
  1 ≤ a.threshold ∧ a.threshold ≤ a.keys.length ∧ a.keys.length ≤ L2.MAX_ATTESTORS ∧
    (∀ key ∈ a.keys, key.length = ADMISSION_PQ_KEY_BYTES) ∧ a.keys.Nodup ∧
    a.threshold ≤ a.signatures.length ∧ a.signatures.length ≤ a.keys.length ∧
    (a.signatures.map Prod.fst).IsChain (· < ·) ∧
    ∀ s ∈ a.signatures, s.1 < a.keys.length ∧ s.2 ≠ [] ∧ s.2.length ≤ ADMISSION_PQ_SIGNATURE_MAX

def verify (env : Env) (a : ClaimAttestation) (networkDomain : Bytes32) (chainId : ℕ) (root : Bytes32) :
    Bool :=
  let digest := L2.attestationDigest env.crypto networkDomain chainId root
  a.validateShape = true ∧
    ∀ s ∈ a.signatures, env.verifier.verifyWithKey (a.keys.getD s.1 []) digest s.2 = true

end ClaimAttestation

namespace L2WithdrawClaim

def terms (tx : L2WithdrawClaim) : BridgeTerms :=
  ⟨tx.fundingPubkey, tx.inputs, tx.change, tx.txBytes, tx.tipMillisatPerGas, tx.signature⟩

def rejects : BridgeRejects L2WithdrawClaimReject :=
  ⟨.shape, .tipAboveCeiling, .gasCeiling, .missingInput, .ownership, .arithmetic, .conservation⟩

def validateShape (tx : L2WithdrawClaim) : Except L2WithdrawClaimReject Unit := do
  refuse (tx.terms.wellShaped MAX_CLAIM_INPUTS = false ∨ 2 ^ L2.TREE_DEPTH ≤ tx.index ∨
    tx.attestation.all ClaimAttestation.validateShape = false) .shape
  refuse (tx.sats < MIN_L2_DEPOSIT_SAT) .amount
  refuse (tx.release.value ≠ tx.sats ∨ tx.release.scriptHash ≠ tx.l1Recipient) .releaseOutput
  refuse (tx.txBytes < tx.canonicalBytes.length) .underdeclaredSize

def provenRoot (c : Crypto) (tx : L2WithdrawClaim) : Option Bytes32 :=
  L2.rootFromProof c (L2.withdrawalLeaf c tx.l2ChainId tx.index tx.l1Recipient tx.sats) tx.index
    tx.siblings

def verifyAttestation (env : Env) (tx : L2WithdrawClaim) : Bool :=
  match tx.attestation, tx.provenRoot env.crypto with
  | none, _ => true
  | some a, some root => a.verify env tx.networkDomain tx.l2ChainId root
  | some _, none => false

def claim (tx : L2WithdrawClaim) : L2.State.Claim :=
  ⟨tx.l2ChainId, tx.index, tx.l1Recipient, tx.sats, tx.siblings, tx.attestation.isSome⟩

/-- A large claim needs attestors, and only the pinned set will do. -/
def checkAttestors (c : Crypto) (l2 : L2.State) (tx : L2WithdrawClaim) : Except L2WithdrawClaimReject Unit :=
  match tx.attestation with
  | none => refuse (l2.attestationRequired tx.sats = true) .attestationRequired
  | some a =>
    refuse (l2.policy.attestorSet = 0 ∨ a.setHash c ≠ l2.policy.attestorSet) .attestation

end L2WithdrawClaim

namespace CommittedState

def l2RecordFinalizedForClaim (g : Gates) (st : CommittedState) (l2 : L2.State) (recordHeight : ℕ) : Bool :=
  let finalized := st.finalityEngine.finalized
  L2.recordFinalized recordHeight l2.nativeHeight st.slot finalized.epoch = true ∧
    (g.nativeClaimFinalityActive st.epoch = false ∨
      l2.checkpointRoots.get? finalized.epoch = some finalized.root)

def checkL2WithdrawClaim (env : Env) (st : CommittedState) (tx : L2WithdrawClaim) (baseFee : ℕ) :
    Except L2WithdrawClaimReject CoinPlan := do
  refuse (st.l2Settlement.any (fun l2 => l2.profile.userTransactions) = false) .notActive
  tx.validateShape
  refuse (st.admissionNetworkDomain ≠ some tx.networkDomain) .network
  tx.terms.checkFees L2WithdrawClaim.rejects
  let l2 ← orRefuse st.l2Settlement .notActive
  tx.checkAttestors env.crypto l2
  let record ← (l2.checkClaim env.crypto tx.claim).mapError L2WithdrawClaimReject.ofRefusal
  refuse (l2.profile.finalizedClaimsFromHeight ≤ satAdd u64Max l2.nativeHeight 1 ∧
    st.l2RecordFinalizedForClaim env.gates l2 record.height = false) .notFinalized
  tx.terms.checkPaid env.crypto st.eutxos L2WithdrawClaim.rejects 0 baseFee
  let txid := (PosTransaction.l2WithdrawClaim tx).txid env.crypto
  refuse (st.eutxos.contains (outpoint txid 0) = true ∨ st.eutxos.contains (outpoint txid 1) = true)
    .outputCollision
  pure ⟨tx.inputs.map FundingInput.outpoint,
    ⟨txid, 0, tx.sats, tx.l1Recipient⟩ :: tx.terms.changeEntries txid 1, tx.terms.charge baseFee⟩

def planL2WithdrawClaim (env : Env) (st : CommittedState) (tx : L2WithdrawClaim) (baseFee : ℕ) :
    Except L2WithdrawClaimReject CoinPlan := do
  let plan ← checkL2WithdrawClaim env st tx baseFee
  refuse (env.verifier.verifyWithKey tx.fundingPubkey (tx.intentRoot env.crypto) tx.signature = false)
    .signature
  refuse (tx.verifyAttestation env = false) .attestation
  pure plan

def applyL2WithdrawClaim (env : Env) (tx : L2WithdrawClaim) (baseFee : ℕ) :
    Attempt CommittedState L2WithdrawClaimReject TxCharge := do
  let st ← get
  let plan ← check (planL2WithdrawClaim env st tx baseFee)
  onL2 .notActive (relabel L2WithdrawClaimReject.ofRefusal (L2.State.releaseWithdrawal env.crypto tx.claim))
  modify (fun st => st.withCoins plan)
  pure plan.charge

def applyL2Settlement (env : Env) (tx : L2.Transaction) (asynchronous : Bool) :
    Attempt CommittedState L2.Reject TxCharge := do
  let st ← get
  onL2 .notActive (L2.State.apply env.crypto env.verifier tx st.head st.slot asynchronous)
  pure (.free BLOCK_GAS_LIMIT (1 + 32 + tx.statement.length + L2.PROOF_BYTES))

section

variable {st : CommittedState} {plan : CoinPlan}

theorem planL2Deposit_eq_ok {plan : EscrowPlan}
    (planned : planL2Deposit env st tx baseFee = .ok plan) :
    let txid := (PosTransaction.l2Deposit tx).txid env.crypto
    tx.terms.Paid st.eutxos tx.amountSat baseFee ∧ st.eutxos.contains (outpoint txid 0) = false ∧
      plan.record.sats = tx.amountSat ∧ plan.coins = ⟨tx.terms.inputs.map FundingInput.outpoint,
        tx.terms.changeEntries txid 0, tx.terms.charge baseFee⟩ := by
  simp only [planL2Deposit, L2Deposit.validateShape, ok_iff, not_or, Bool.not_eq_false,
    Bool.not_eq_true] at planned
  obtain ⟨-, ⟨shaped, -⟩, -, -, paid, free, -, l2, -, height, -, rfl⟩ := planned
  exact ⟨BridgeTerms.paid_of_checks shaped.1 paid, free, rfl, rfl⟩

theorem planL2DataAvailability_eq_ok {tx : L2DataAvailability}
    (planned : planL2DataAvailability env st tx baseFee = .ok plan) :
    let txid := (PosTransaction.l2DataAvailability tx).txid env.crypto
    tx.terms.Paid st.eutxos 0 baseFee ∧ st.eutxos.contains (outpoint txid 0) = false ∧
      plan = ⟨tx.terms.inputs.map FundingInput.outpoint, tx.terms.changeEntries txid 0,
        tx.terms.charge baseFee⟩ := by
  simp only [planL2DataAvailability, L2DataAvailability.validateShape, ok_iff, Bool.not_eq_false,
    Bool.not_eq_true] at planned
  obtain ⟨-, ⟨shaped, -⟩, -, -, paid, free, -, rfl⟩ := planned
  exact ⟨BridgeTerms.paid_of_checks shaped paid, free, rfl⟩

theorem planL2WithdrawClaim_eq_ok {tx : L2WithdrawClaim}
    (planned : planL2WithdrawClaim env st tx baseFee = .ok plan) :
    let txid := (PosTransaction.l2WithdrawClaim tx).txid env.crypto
    tx.terms.Paid st.eutxos 0 baseFee ∧ st.eutxos.contains (outpoint txid 0) = false ∧
      st.eutxos.contains (outpoint txid 1) = false ∧ plan = ⟨tx.terms.inputs.map FundingInput.outpoint,
        ⟨txid, 0, tx.sats, tx.l1Recipient⟩ :: tx.terms.changeEntries txid 1, tx.terms.charge baseFee⟩ := by
  simp only [planL2WithdrawClaim, checkL2WithdrawClaim, L2WithdrawClaim.validateShape, ok_iff, not_or,
    Bool.not_eq_false, Bool.not_eq_true] at planned
  obtain ⟨-, ⟨-, ⟨shaped, -⟩, -, -, l2, -, -, record, -, -, paid, ⟨first, second⟩, rfl⟩, -, -, rfl⟩ := planned
  exact ⟨BridgeTerms.paid_of_checks shaped.1 paid, first, second, rfl⟩

/-- An accepted bridge transaction: a call on the execution layer and an exchange of coins that pays
for what it moves. -/
structure Bridged (env : Env) (st : CommittedState) (charge : TxCharge) (post : CommittedState)
    (call : L2.Call) (plan : CoinPlan) (l2 l2' : L2.State) (gained moved : ℕ) : Prop where
  installed : st.l2Settlement = some l2
  accepts : L2.Accepts env.crypto env.verifier l2 call l2'
  balances : plan.Balances st.eutxos gained moved
  free : plan.Free st.eutxos
  escrow : l2'.escrowSat + gained = l2.escrowSat + moved
  charged : charge = plan.charge
  state : post = (st.putL2 l2').withCoins plan

theorem crossing_eq_ok {charge : TxCharge} {plan : CommittedState → Except E P} {dead : E} {label : F → E}
    {call : P → Attempt L2.State F Unit} {coins : P → CoinPlan}
    (applied : exec (do
      let st ← get
      let p ← check (plan st)
      onL2 dead (relabel label (call p))
      modify (fun st => st.withCoins (coins p))
      pure (coins p).charge) st = (.ok charge, post)) :
    ∃ p l2 l2', plan st = .ok p ∧ st.l2Settlement = some l2 ∧ exec (call p) l2 = (.ok (), l2') ∧
      charge = (coins p).charge ∧ post = (st.putL2 l2').withCoins (coins p) := by
  simp only [onL2, ok_iff] at applied
  obtain ⟨_, _, ⟨rfl, rfl⟩, p, _, ⟨planned, rfl⟩, _, ⟨l2, l2', installed, called, rfl⟩, _, rfl, rfl, rfl⟩ :=
    applied
  exact ⟨p, l2, l2', planned, installed, called, rfl, rfl⟩

theorem applyL2Deposit_bridged {charge : TxCharge}
    (applied : exec (applyL2Deposit env tx baseFee) st = (.ok charge, post)) :
    ∃ plan l2 l2', planL2Deposit env st tx baseFee = .ok plan ∧
      Bridged env st charge post (.deposit plan.record) plan.coins l2 l2' 0 tx.amountSat := by
  obtain ⟨plan, l2, l2', planned, installed, appended, rfl, rfl⟩ := crossing_eq_ok applied
  obtain ⟨paid, free, sats, coins⟩ := planL2Deposit_eq_ok planned
  have accepts : L2.Accepts env.crypto env.verifier l2 (.deposit plan.record) l2' := .deposit appended
  refine ⟨plan, l2, l2', planned, installed, accepts, ?_, ?_, ?_, rfl, rfl⟩
  · exact coins ▸ paid.balances [] _ _
  · exact coins ▸ BridgeTerms.free_changeEntries free _ _
  · cases accepts.change
    rw [← sats]
    rfl

theorem applyL2DataAvailability_bridged {charge : TxCharge} {tx : L2DataAvailability}
    (applied : exec (applyL2DataAvailability env tx baseFee) st = (.ok charge, post)) :
    ∃ plan l2 l2', planL2DataAvailability env st tx baseFee = .ok plan ∧ Bridged env st charge post
      (.data tx.l2ChainId tx.l2BlockNumber (tx.commitment env.crypto)) plan l2 l2' 0 0 := by
  obtain ⟨plan, l2, l2', planned, installed, recorded, rfl, rfl⟩ := crossing_eq_ok applied
  obtain ⟨paid, free, rfl⟩ := planL2DataAvailability_eq_ok planned
  have accepts : L2.Accepts env.crypto env.verifier l2 _ l2' := .data recorded
  refine ⟨_, l2, l2', planned, installed, accepts, paid.balances [] _ _,
    BridgeTerms.free_changeEntries free _ _, ?_, rfl, rfl⟩
  cases accepts.change
  rfl

theorem applyL2WithdrawClaim_bridged {charge : TxCharge} {tx : L2WithdrawClaim}
    (applied : exec (applyL2WithdrawClaim env tx baseFee) st = (.ok charge, post)) :
    ∃ plan l2 l2', planL2WithdrawClaim env st tx baseFee = .ok plan ∧
      Bridged env st charge post (.claim tx.claim) plan l2 l2' tx.sats 0 := by
  obtain ⟨plan, l2, l2', planned, installed, released, rfl, rfl⟩ := crossing_eq_ok applied
  obtain ⟨paid, first, second, rfl⟩ := planL2WithdrawClaim_eq_ok planned
  have accepts : L2.Accepts env.crypto env.verifier l2 (.claim tx.claim) l2' := .claim released
  obtain ⟨apart, absent⟩ := BridgeTerms.free_changeEntries (t := tx.terms) second [] (tx.terms.charge baseFee)
  refine ⟨_, l2, l2', planned, installed, accepts, paid.balances [_] _ _, ⟨?_, ?_⟩, ?_, rfl, rfl⟩
  · rw [List.map_cons, List.nodup_cons]
    refine ⟨fun among => ?_, apart⟩
    obtain ⟨e, member, same⟩ := List.mem_map.mp among
    rw [BridgeTerms.mem_changeEntries member] at same
    exact absurd (congrArg (fun op => (ofLex op).2) same) Nat.one_ne_zero
  · rintro e (_ | ⟨_, member⟩)
    · exact Eutxos.get?_eq_none_of_contains first
    · exact absent e member
  · cases accepts.change with
    | claim able => exact Nat.sub_add_cancel able.covered

theorem applyL2Settlement_bridged {charge : TxCharge} {tx : L2.Transaction}
    (applied : exec (applyL2Settlement env tx asynchronous) st = (.ok charge, post)) :
    ∃ plan l2 l2', plan.spent = [] ∧ plan.created = [] ∧
      Bridged env st charge post (.settle tx st.head st.slot asynchronous) plan l2 l2' 0 0 := by
  simp only [applyL2Settlement, onL2, ok_iff] at applied
  obtain ⟨_, _, ⟨rfl, rfl⟩, _, ⟨l2, l2', installed, settled, rfl⟩, rfl, rfl⟩ := applied
  refine ⟨⟨[], [], _⟩, l2, l2', rfl, rfl, installed, .settle settled, ⟨List.nodup_nil, rfl⟩,
    by simp [CoinPlan.Free], ?_, rfl, rfl⟩
  cases (L2.Accepts.settle settled).change
  rfl

end

end CommittedState

end BlochPos
