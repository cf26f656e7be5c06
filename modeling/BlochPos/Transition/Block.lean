import BlochPos.Transition.Apply
import BlochPos.Transition.CloseEpoch

/-! A block on a state: header checks, epoch closes, its proposer, votes and transactions, and their
fees. -/
namespace BlochPos

open Attempt

inductive RejectReason where
  | notInCommittee | futureSlot | nonMonotonicCheckpoints | unknownValidator | badSignature
deriving DecidableEq

inductive ProposalReject where
  | notScheduledProposer | badSignature | unknownProposer | badRandaoReveal | wrongVersion
deriving DecidableEq

inductive TransitionError where
  | proposal (r : ProposalReject)
  | attestation (position : ℕ)
  | duplicateAttestation (position : ℕ)
  | transaction (position : ℕ)
  | transfer (position : ℕ) (r : TransferReject)
  | stateRootMismatch | nonMonotonicSlot | finalityRegression | wrongParent | bodyRootMismatch
  | attestationRootMismatch | coherenceRootMismatch | supplyCapExceeded | epochAdvanceTooLarge
  | supplyNotConserved | tooManyTransactions | blockGasLimitExceeded | blockByteLimitExceeded
  | tooManyAttestations
deriving DecidableEq

def TransitionError.ofTxReject (position : ℕ) : TxReject → TransitionError
  | .transfer why => .transfer position why
  | _ => .transaction position

/-- The epoch whose key judges a vote is that of its target. -/
def Attestation.validate (env : Env) (keys : KeyLookup) (committee : List ℕ) (currentSlot : ℕ)
    (att : Attestation) : Except RejectReason Unit := do
  refuse (att.validator ∉ committee) .notInCommittee
  refuse (currentSlot < att.data.slot) .futureSlot
  refuse (att.data.targetEpoch ≤ att.data.sourceEpoch) .nonMonotonicCheckpoints
  let verifier := env.verifier.under (.consensus env.gates (epochOf att.data.slot))
  let valid ← orRefuse (Kes.verifyValidator env.crypto env.gates keys verifier att.validator
    att.data.targetEpoch (att.data.signingRoot env.crypto) att.signature) .unknownValidator
  refuse (valid = false) .badSignature

namespace CommittedState

def coherenceRoot (c : Crypto) (st : CommittedState) : Bytes32 :=
  Derive.coherenceBinding c st.coherenceAccumulatorRoot st.coherenceNullifierRoot

section

variable (env : Env)

def checkHeader (pre : CommittedState) (header : BlockHeaderV4)
    (attestations : List Attestation) (transactions : List PosTransaction) :
    Except TransitionError Unit := do
  let blockEpoch := epochOf header.slot
  refuse (header.slot ≤ pre.slot) .nonMonotonicSlot
  refuse (blockEpoch < pre.epoch) .nonMonotonicSlot
  refuse (header.parent ≠ pre.head) .wrongParent
  refuse (header.version ≠ VERSION_G4) (.proposal .wrongVersion)
  refuse (env.gates.stakingTxMeteringActive blockEpoch ∧
    MAX_TRANSACTIONS_PER_BLOCK < transactions.length) .tooManyTransactions
  refuse (header.bodyRoot ≠ Derive.bodyRoot env.crypto (transactions.map PosTransaction.canonicalBytes))
    .bodyRootMismatch
  refuse (header.attestationRoot ≠ Derive.attestationRoot env.crypto attestations)
    .attestationRootMismatch
  refuse (header.coherenceRoot ≠ pre.coherenceRoot env.crypto) .coherenceRootMismatch
  refuse (MAX_EPOCH_ADVANCE < blockEpoch - pre.epoch) .epochAdvanceTooLarge

section

variable (g : Gates) (st : CommittedState)

/-- Close epochs until the state is in the block's. -/
def advanceTo (epoch : ℕ) : CommittedState :=
  (closeEpoch env)^[epoch - st.epoch] st

/-- Step the proposer's randomness chain and mix its reveal in. -/
def processReveal (header : BlockHeaderV4) (record : ValidatorRecord) :
    Except TransitionError CommittedState := do
  let reveal : RevealState := ⟨record.randaoCommitment, st.revealsUsed.getD header.proposerIndex 0⟩
  let (next, mix) ← (BlochPos.processReveal env.crypto reveal st.randaoMix header.randaoReveal).mapError
    (fun _ => .proposal .badRandaoReveal)
  refuse (header.randaoMix ≠ mix) (.proposal .badRandaoReveal)
  pure { st with
    validators := st.validators.insert header.proposerIndex
      { record with randaoCommitment := next.commitment }
    revealsUsed := st.revealsUsed.insert header.proposerIndex next.revealsUsed
    randaoMix := mix }

def checkProposerSignature (envelope : ProposalEnvelope) : Except TransitionError Unit := do
  let header := envelope.header
  let verifier := env.verifier.under (.consensus env.gates (epochOf header.slot))
  let valid ← orRefuse (Kes.verifyValidator env.crypto env.gates st.keys verifier header.proposerIndex
    (epochOf header.slot) (header.proposalSigningRoot env.crypto) envelope.proposerSig)
    (.proposal .unknownProposer)
  refuse (valid = false) (.proposal .badSignature)

def seatProposer (envelope : ProposalEnvelope)
    (roster : List Validator) : Except TransitionError CommittedState := do
  let header := envelope.header
  refuse (proposer env.crypto (st.seedForEpoch env.gates st.epoch) header.slot roster
    ≠ some header.proposerIndex) (.proposal .notScheduledProposer)
  let record ← orRefuse (st.validators.get? header.proposerIndex) (.proposal .notScheduledProposer)
  let revealed ← st.processReveal env header record
  refuse (header.justifiedRoot ≠ revealed.finalityEngine.currentJustified.root ∨
    header.finalizedRoot ≠ revealed.finalityEngine.finalized.root) .finalityRegression
  revealed.checkProposerSignature env envelope
  pure (if env.gates.rewardsV2Active revealed.epoch then
      { revealed with currentProposed := revealed.currentProposed.insert header.proposerIndex true }
    else revealed)

/-- The votes of a block admitted so far, with what has been seen of it. -/
structure Admission where
  state : CommittedState
  seen : Finset (ℕ × Bytes32)
  validatedExact : Finset (ℕ × Bytes32 × Bytes)

def admitVote (validator : ℕ) (root : Bytes32) (data : AttestationData) : CommittedState :=
  { st with
    currentParticipation := st.currentParticipation.insert validator true
    pendingVotes := st.pendingVotes.insert (toLex (validator, root)) data }

/-- A vote already validated word for word in the block is passed over. -/
def admitAttestation (slot : ℕ) (partition : List (List ℕ)) (a : Admission)
    (entry : Attestation × ℕ) : Except TransitionError Admission := do
  let att := entry.1
  refuse (epochOf att.data.slot ≠ a.state.epoch) (.attestation entry.2)
  let root := att.data.signingRoot env.crypto
  refuse (env.gates.attestationDedupActive a.state.epoch ∧ (att.validator, root) ∈ a.seen)
    (.duplicateAttestation entry.2)
  let seen := insert (att.validator, root) a.seen
  if (att.validator, root, att.signature) ∈ a.validatedExact then pure { a with seen }
  else do
    let committee := (partition[att.data.slot % SLOTS_PER_EPOCH]?).getD []
    (att.validate env a.state.keys committee slot).mapError (fun _ => .attestation entry.2)
    pure
      { state := a.state.admitVote att.validator root att.data
        seen
        validatedExact := insert (att.validator, root, att.signature) a.validatedExact }

def admitAttestations (slot : ℕ) (roster : List Validator)
    (attestations : List Attestation) : Except TransitionError CommittedState := do
  refuse (MAX_ATTESTATIONS_PER_BLOCK < attestations.length) .tooManyAttestations
  let partition := epochCommittees env.crypto (st.seedForEpoch env.gates st.epoch) st.epoch roster
  let admitted ← attestations.zipIdx.foldlM (admitAttestation env slot partition) ⟨st, ∅, ∅⟩
  pure (admitted.state.accumulateForkchoice env.gates roster attestations slot)

/-- What the transactions of a block are applied under. -/
structure BlockTerms where
  (epoch proposerIndex : ℕ)
  roster : List Validator
  baseFee : ℕ

def minimumLoad (tx : PosTransaction) : Option (ℕ × TxClass) :=
  match tx with
  | .transfer t => some (t.txBytes, eutxoClassForKeys g st.epoch (t.inputs.map TransferInput.pubkey))
  | .transferV2 t => some (t.txBytes, eutxoClassForKeys g st.epoch (t.keys.map WitnessKey.pubkey))
  | .fundedDeposit t => some (t.txBytes, .eutxo 2)
  | _ => none

def isSettlement : PosTransaction → Bool
  | .l2Settlement _ | .l2SettlementAsync _ => true
  | _ => false

def isDataAvailability : PosTransaction → Bool
  | .l2DataAvailability _ => true
  | _ => false

def isRescueCommit : PosTransaction → Bool
  | .rescueCommit _ => true
  | _ => false

def checkBlockLoad (epoch : ℕ) (transactions : List PosTransaction) : Except TransitionError Unit := do
  refuse (1 < transactions.countP isSettlement) .blockGasLimitExceeded
  refuse (L2.DA_MAX_PER_BLOCK < transactions.countP isDataAvailability) .blockGasLimitExceeded
  refuse (g.latticeEmergencyActive epoch ∧
    RESCUE_COMMITS_MAX_PER_BLOCK < transactions.countP isRescueCommit) .blockGasLimitExceeded
  let loads := transactions.filterMap (st.minimumLoad g)
  let minimumGas := (loads.map (fun l => intrinsicGas l.2 l.1)).foldl (satAdd u64Max) 0
  let minimumBytes := (loads.map Prod.fst).foldl (satAdd u64Max) 0
  refuse (BLOCK_GAS_LIMIT < minimumGas) .blockGasLimitExceeded
  refuse (maxBlockTxBytes g epoch < minimumBytes) .blockByteLimitExceeded

end

/-- Evidence needs the proposer and the roster of the block, so the block itself
applies it. -/
def applyInBlock (terms : BlockTerms) (tx : PosTransaction) : Attempt CommittedState TxReject TxCharge :=
  match tx with
  | .slashingEvidence evidence => do
    check (refuse (env.gates.slashingEvidenceActive terms.epoch = false) .evidenceNotActive)
    check (refuse (env.gates.preActivationOffenceRefusalActive terms.epoch = true ∧
      evidence.predatesActivation env.gates = true) .evidenceNotActive)
    relabel (fun _ => .stakingRule)
      (applySlashingEvidence env evidence terms.proposerIndex terms.roster)
    let st ← get
    pure (stakingTxCharge env.gates st.epoch 2 tx.canonicalBytes.length)
  | tx => applyTransaction env tx (totalStake terms.roster) terms.baseFee

end

/-- Coins a transaction bonds without paying for them. -/
def unfundedBondSat : PosTransaction → ℕ
  | .deposit tx => tx.amountSat
  | .delegate _ _ amountSat _ => amountSat
  | _ => 0

/-- The transactions applied so far and what they have used and paid. -/
structure BlockMeter where
  state : CommittedState
  (baseFees priorityFees gas txBytes unfundedBonded : ℕ)

namespace BlockMeter

def start (state : CommittedState) : BlockMeter := ⟨state, 0, 0, 0, 0, 0⟩

def feeSat (m : BlockMeter) : ℕ := m.baseFees + m.priorityFees

def add (m : BlockMeter) (state : CommittedState) (charge : TxCharge) (tx : PosTransaction) : BlockMeter where
  state := state
  baseFees := m.baseFees + charge.baseFeeSat
  priorityFees := m.priorityFees + charge.priorityFeeSat
  gas := satAdd u64Max m.gas charge.gas
  txBytes := satAdd u64Max m.txBytes charge.txBytes
  unfundedBonded := satAdd u128Max m.unfundedBonded (unfundedBondSat tx)

def apply (env : Env) (terms : BlockTerms) (m : BlockMeter) (entry : PosTransaction × ℕ) :
    Except TransitionError BlockMeter := do
  let (result, state) := exec (applyInBlock env terms entry.1) m.state
  let charge ← result.mapError (TransitionError.ofTxReject entry.2)
  refuse (BLOCK_GAS_LIMIT < satAdd u64Max m.gas charge.gas) .blockGasLimitExceeded
  refuse (maxBlockTxBytes env.gates terms.epoch < satAdd u64Max m.txBytes charge.txBytes)
    .blockByteLimitExceeded
  pure (m.add state charge entry.1)

def producerCredit (g : Gates) (epoch slot : ℕ) (m : BlockMeter) : ℕ :=
  let toProducer := (splitFeesAt m.baseFees m.priorityFees slot).toProducer
  if g.feeStakeDecoupleActive epoch then min toProducer MAX_BLOCK_FEE_TO_PRODUCER_SAT else toProducer

def settleFees (g : Gates) (terms : BlockTerms) (slot : ℕ) (m : BlockMeter) : BlockMeter :=
  let credit := m.producerCredit g terms.epoch slot
  { m with
    state := { m.state with
      pendingFeeRewards := if 0 < credit then
        m.state.pendingFeeRewards.addAt terms.proposerIndex credit else m.state.pendingFeeRewards
      baseFeeMillisatPerGas := terms.baseFee
      blockGasUsed := m.gas
      blockTxBytes := m.txBytes } }

end BlockMeter

/-- The execution layer learns the parent before the first block that uses it. -/
def prepareL2 (st pre : CommittedState) : CommittedState :=
  { st with l2Settlement := st.l2Settlement.map (fun l2 => l2.prepareSource pre.head pre.slot) }

section

variable (env : Env) (pre : CommittedState) (envelope : ProposalEnvelope) (attestations : List Attestation)

def applyTransactions (terms : BlockTerms) (st : CommittedState)
    (transactions : List PosTransaction) : Except TransitionError BlockMeter := do
  checkBlockLoad env.gates st terms.epoch transactions
  let m ← transactions.zipIdx.foldlM (BlockMeter.apply env terms) (.start st)
  refuse (BLOCK_GAS_LIMIT < m.gas) .blockGasLimitExceeded
  refuse (maxBlockTxBytes env.gates terms.epoch < m.txBytes) .blockByteLimitExceeded
  pure m

variable (transactions : List PosTransaction)

/-- The state before a block's transactions and the terms they run under. -/
def openBlock : Except TransitionError (BlockTerms × CommittedState) := do
  let header := envelope.header
  let blockEpoch := epochOf header.slot
  pre.checkHeader env header attestations transactions
  let st := pre.advanceTo env blockEpoch
  refuse (TOTAL_SUPPLY_SAT < st.issuedSat) .supplyCapExceeded
  let roster := st.consensusRosterAt env.gates st.epoch
  let seated ← st.seatProposer env envelope roster
  let voted ← seated.admitAttestations env header.slot roster attestations
  pure (⟨blockEpoch, header.proposerIndex, roster, pre.nextBaseFeeAt env.gates blockEpoch⟩,
    voted.prepareL2 pre)

/-- The block up to the check of its supply. -/
def runBlock : Except TransitionError BlockMeter := do
  let (terms, st) ← pre.openBlock env envelope attestations transactions
  let m ← st.applyTransactions env terms transactions
  pure (m.settleFees env.gates terms envelope.header.slot)

def advanceL2 : Option L2.State → Except TransitionError (Option L2.State)
  | none => .ok none
  | some l2 => do
    let next ← l2.advanceHeight.mapError (fun _ => .stateRootMismatch)
    pure (some next)

def finishBlock (c : Crypto) (st : CommittedState) (header : BlockHeaderV4) :
    Except TransitionError CommittedState := do
  let l2 ← advanceL2 st.l2Settlement
  pure { st with l2Settlement := l2, slot := header.slot, head := header.id c }

def computePostState : Except TransitionError CommittedState := do
  let m ← pre.runBlock env envelope attestations transactions
  refuse (supplyConserved pre m.state m.unfundedBonded = false) .supplyNotConserved
  finishBlock env.crypto m.state envelope.header

end

section

variable {env : Env}

theorem seatProposer_eq_ok (seated : seatProposer env st envelope roster = .ok post) :
    ∃ record commitment reveals mix proposed, st.validators.get? envelope.header.proposerIndex = some record ∧
      post = { st with
        validators := st.validators.insert envelope.header.proposerIndex
          { record with randaoCommitment := commitment }
        revealsUsed := reveals
        randaoMix := mix
        currentProposed := proposed } := by
  simp only [seatProposer, processReveal, ok_iff] at seated
  obtain ⟨-, record, found, revealed, ⟨⟨next, mix⟩, -, -, rfl⟩, -, -, rfl⟩ := seated
  split_ifs
  · exact ⟨record, next.commitment, _, mix, _, found, rfl⟩
  · exact ⟨record, next.commitment, _, mix, st.currentProposed, found, rfl⟩

theorem escrowSat_advanceL2 (advanced : advanceL2 before = .ok after) :
    (after.map L2.State.escrowSat).getD 0 = (before.map L2.State.escrowSat).getD 0 := by
  cases before with
  | none =>
    cases advanced
    rfl
  | some l2 =>
    simp only [advanceL2, L2.State.advanceHeight, ok_iff] at advanced
    obtain ⟨_, ⟨height, -, rfl⟩, rfl⟩ := advanced
    rfl

theorem finishBlock_eq_ok (finished : finishBlock env.crypto st header = .ok post) :
    ∃ l2, post = { st with l2Settlement := l2, slot := header.slot, head := header.id env.crypto } ∧
      (l2.map L2.State.escrowSat).getD 0 = st.escrowSat := by
  simp only [finishBlock, ok_iff] at finished
  obtain ⟨l2, advanced, rfl⟩ := finished
  exact ⟨l2, rfl, escrowSat_advanceL2 advanced⟩

theorem escrowSat_prepareL2 (st pre : CommittedState) : (st.prepareL2 pre).escrowSat = st.escrowSat := by
  simp only [escrowSat, prepareL2, Option.map_map]
  cases st.l2Settlement with
  | none => rfl
  | some l2 =>
    simp only [Option.map_some, Function.comp_apply, L2.State.prepareSource]
    split_ifs <;> rfl

end

end CommittedState

end BlochPos
