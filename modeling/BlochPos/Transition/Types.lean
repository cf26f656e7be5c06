import BlochPos.L2Settlement

/-! What a block carries: its header, votes, evidence and transactions, with the reasons for their
refusal. -/
namespace BlochPos

def VERSION_G4 : ℕ := 0xB10C0005

/-- A block header. The slot is a 64-bit word, so an epoch stays far below the
range where epoch arithmetic saturates. -/
structure BlockHeaderV4 where
  version : ℕ
  (parent stateRoot bodyRoot : Bytes32)
  (slot proposerIndex : ℕ)
  (randaoReveal randaoMix justifiedRoot finalizedRoot attestationRoot coherenceRoot : Bytes32)
  slot_lt : slot < 2 ^ 64 := by decide
deriving DecidableEq

structure ProposalEnvelope where
  header : BlockHeaderV4
  proposerSig : Bytes
deriving DecidableEq

structure Attestation where
  validator : ℕ
  data : AttestationData
  signature : Bytes
deriving DecidableEq

inductive SlashingEvidence where
  | proposerEquivocation (first second : ProposalEnvelope)
  | attestationOffence (first second : Attestation)
deriving DecidableEq

structure TransferInput where
  txid : Bytes32
  vout : ℕ
  (pubkey signature : Bytes)
deriving DecidableEq

structure WitnessKey where
  (pubkey signature : Bytes)
deriving DecidableEq

structure TransferInputV2 where
  txid : Bytes32
  (vout keyIndex : ℕ)
deriving DecidableEq

structure TransferOutput where
  value : ℕ
  scriptHash : Bytes32
deriving DecidableEq

structure Transfer where
  inputs : List TransferInput
  outputs : List TransferOutput
  (txBytes tipMillisatPerGas : ℕ)
deriving DecidableEq

structure TransferV2 where
  keys : List WitnessKey
  inputs : List TransferInputV2
  outputs : List TransferOutput
  (txBytes tipMillisatPerGas : ℕ)
deriving DecidableEq

inductive TransferReject where
  | noInputs | underdeclaredSize | overdeclaredSize | tipAboveCeiling | txGasCeilingExceeded
  | duplicateInput | unknownInput | scriptMismatch | badSignature | missingNetworkBinding
  | valueNotConserved | outputExists | formatNotActive | badKeyIndex | duplicateWitnessKey
  | witnessKeyUnused | witnessTableNotCanonical | dustOutput | tooManyOutputs
deriving DecidableEq

structure FundingInput where
  txid : Bytes32
  vout : ℕ
deriving DecidableEq

structure FundedDeposit where
  networkDomain : Bytes32
  validUntilEpoch : ℕ
  fundingPubkey : Bytes
  inputs : List FundingInput
  validatorPubkey : Bytes
  amountSat : ℕ
  (randaoCommitment withdrawalCredentials : Bytes32)
  commissionBps : ℕ
  change : TransferOutput
  (maxBaseFeeMillisatPerGas tipMillisatPerGas txBytes : ℕ)
  (fundingSignature proofOfPossession : Bytes)
deriving DecidableEq

inductive FundedDepositReject where
  | notActive | network | expired | shape | signature | stake | alreadyRegistered | registryCapacity
  | missingInput | ownership | feeCap | conservation | outputCollision | registryFull | arithmetic
deriving DecidableEq

structure FundedDelegate where
  networkDomain : Bytes32
  validUntilEpoch : ℕ
  fundingPubkey : Bytes
  inputs : List FundingInput
  validatorPubkeyHash : Bytes32
  amountSat : ℕ
  change : TransferOutput
  (maxBaseFeeMillisatPerGas tipMillisatPerGas txBytes : ℕ)
  fundingSignature : Bytes
deriving DecidableEq

structure FundedUndelegate where
  networkDomain : Bytes32
  (epoch delegatorId position : ℕ)
  (fundingPubkey signature : Bytes)
deriving DecidableEq

structure FundedDelegationWithdraw where
  networkDomain : Bytes32
  (epoch delegatorId position : ℕ)
  fundingPubkey : Bytes
  destinationScriptHash : Bytes32
  maxBaseFeeMillisatPerGas : ℕ
  signature : Bytes
deriving DecidableEq

structure ValidatorCommissionUpdate where
  networkDomain : Bytes32
  (epoch validator commissionBps : ℕ)
  signature : Bytes
deriving DecidableEq

inductive FundedDelegationReject where
  | notActive | network | expired | epoch | shape | signature | validator | position | ownership
  | stake | delegationLimit | missingInput | feeCap | conservation | outputCollision
  | alreadyDeactivating | notInactive | withdrawalDelay | alreadyWithdrawn | commission
  | commissionIncreaseWithDelegations | arithmetic
deriving DecidableEq

structure L2Deposit where
  networkDomain : Bytes32
  fundingPubkey : Bytes
  inputs : List FundingInput
  amountSat : ℕ
  recipient : Bytes
  change : TransferOutput
  (txBytes tipMillisatPerGas : ℕ)
  signature : Bytes
deriving DecidableEq

inductive L2DepositReject where
  | notActive | network | shape | amount | missingInput | ownership | underdeclaredSize
  | tipAboveCeiling | gasCeiling | conservation | outputCollision | signature | inbox | arithmetic
deriving DecidableEq

structure L2DataAvailability where
  networkDomain : Bytes32
  fundingPubkey : Bytes
  inputs : List FundingInput
  (l2ChainId l2BlockNumber : ℕ)
  payload : Bytes
  change : TransferOutput
  (txBytes tipMillisatPerGas : ℕ)
  signature : Bytes
deriving DecidableEq

inductive L2DataAvailabilityReject where
  | notActive | network | shape | payload | missingInput | ownership | underdeclaredSize
  | tipAboveCeiling | gasCeiling | conservation | outputCollision | signature | chain | number
  | duplicate | full | arithmetic
deriving DecidableEq

/-- The attestors' signatures a large claim carries. -/
structure ClaimAttestation where
  threshold : ℕ
  keys : List Bytes
  signatures : List (ℕ × Bytes)
deriving DecidableEq

structure L2WithdrawClaim where
  networkDomain : Bytes32
  fundingPubkey : Bytes
  inputs : List FundingInput
  (l2ChainId index : ℕ)
  l1Recipient : Bytes32
  sats : ℕ
  siblings : List Bytes32
  (release change : TransferOutput)
  (txBytes tipMillisatPerGas : ℕ)
  attestation : Option ClaimAttestation
  signature : Bytes
deriving DecidableEq

inductive L2WithdrawClaimReject where
  | notActive | network | shape | amount | releaseOutput | missingInput | ownership
  | underdeclaredSize | tipAboveCeiling | gasCeiling | conservation | outputCollision | signature
  | chain | proof | notMatured | index | alreadyClaimed | escrow | rateLimited | notFinalized
  | attestationRequired | attestation | arithmetic
deriving DecidableEq

def L2WithdrawClaimReject.ofRefusal : L2.ClaimRefusal → L2WithdrawClaimReject
  | .notActive => .notActive
  | .chain => .chain
  | .proof => .proof
  | .notMatured => .notMatured
  | .index => .index
  | .claimed => .alreadyClaimed
  | .escrow => .escrow
  | .rateLimited => .rateLimited

structure WithdrawalCredentialRotation where
  networkDomain : Bytes32
  (epoch validator : ℕ)
  (authorizingPubkey newPubkey authorizingSignature newKeySignature : Bytes)
deriving DecidableEq

structure RescueCommit where
  (networkDomain commitment : Bytes32)
deriving DecidableEq

structure RescueReveal where
  networkDomain : Bytes32
  pubkey : Bytes
  inputs : List FundingInput
  destinationScriptHash : Bytes32
  (tipMillisatPerGas txBytes : ℕ)
  signature : Bytes
deriving DecidableEq

inductive PqMigrationReject where
  | notActive | network | epoch | shape | size | validator | credential | notHashBased | unchanged
  | signature | newKeySignature | latticeSpendFrozen | notLatticeKey | commitmentExists
  | commitmentUnknown | commitmentImmature | commitmentNotFinal | commitmentExpired | missingInput
  | duplicateInput | ownership | incompleteSweep | conservation | outputCollision
deriving DecidableEq

structure Deposit where
  pubkey : Bytes
  amountSat : ℕ
  randaoCommitment : Bytes32
  withdrawalCredentials : Bytes
  commissionBps : ℕ
  proofOfPossession : Bytes
deriving DecidableEq

inductive PosTransaction where
  | l2Settlement (tx : L2.Transaction)
  | l2SettlementAsync (tx : L2.Transaction)
  | fundedDeposit (tx : FundedDeposit)
  | fundedDelegate (tx : FundedDelegate)
  | fundedUndelegate (tx : FundedUndelegate)
  | fundedDelegationWithdraw (tx : FundedDelegationWithdraw)
  | validatorCommissionUpdate (tx : ValidatorCommissionUpdate)
  | l2Deposit (tx : L2Deposit)
  | l2DataAvailability (tx : L2DataAvailability)
  | l2WithdrawClaim (tx : L2WithdrawClaim)
  | withdrawalCredentialRotation (tx : WithdrawalCredentialRotation)
  | rescueCommit (tx : RescueCommit)
  | rescueReveal (tx : RescueReveal)
  | transfer (tx : Transfer)
  | transferV2 (tx : TransferV2)
  | deposit (tx : Deposit)
  | exit (validator : ℕ)
  | withdraw (validator : ℕ)
  | exitV2 (pubkeyHash : Bytes32) (epoch : ℕ) (signature : Bytes)
  | randaoRecommit (validator : ℕ) (newCommitment : Bytes32) (epoch : ℕ) (signature : Bytes)
  | kesRegister (validator depth : ℕ) (root : Bytes32) (signature : Bytes)
  | kesRotate (validator period depth : ℕ) (root : Bytes32) (signature : Bytes)
  | delegate (delegator validator amountSat : ℕ) (eligible : Bool)
  | slashingEvidence (evidence : SlashingEvidence)
deriving DecidableEq

inductive TxReject where
  | l2Settlement (r : L2.Reject)
  | fundedDeposit (r : FundedDepositReject)
  | fundedDelegation (r : FundedDelegationReject)
  | l2Deposit (r : L2DepositReject)
  | l2DataAvailability (r : L2DataAvailabilityReject)
  | l2WithdrawClaim (r : L2WithdrawClaimReject)
  | pqMigration (r : PqMigrationReject)
  | transfer (r : TransferReject)
  | stakingRule | stakingNotActive | misroutedEvidence | evidenceNotActive
deriving DecidableEq

end BlochPos
