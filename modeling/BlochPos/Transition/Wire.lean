import BlochPos.Transition.Types

/-! The bytes of headers, votes and transactions, and the digests signed and
committed over them. -/
namespace BlochPos

namespace BlockHeaderV4

def canonicalSerialize (h : BlockHeaderV4) : Bytes :=
  leBytes 4 h.version ++ hashBytes h.parent ++ hashBytes h.stateRoot ++ hashBytes h.bodyRoot ++
    leBytes 8 h.slot ++ leBytes 4 h.proposerIndex ++ hashBytes h.randaoReveal ++
    hashBytes h.randaoMix ++ hashBytes h.justifiedRoot ++ hashBytes h.finalizedRoot ++
    hashBytes h.attestationRoot ++ hashBytes h.coherenceRoot

def id (c : Crypto) (h : BlockHeaderV4) : Bytes32 :=
  c.sha3 (domainTag "BLCH4:BLOCK" ++ h.canonicalSerialize)

def proposalSigningRoot (c : Crypto) (h : BlockHeaderV4) : Bytes32 :=
  c.sha3 (domainTag "BLCH4:PROPOSE" ++ h.canonicalSerialize)

end BlockHeaderV4

def AttestationData.bytes (d : AttestationData) : Bytes :=
  leBytes 8 d.slot ++ hashBytes d.head ++ leBytes 8 d.sourceEpoch ++ hashBytes d.sourceRoot ++
    leBytes 8 d.targetEpoch ++ hashBytes d.targetRoot

def AttestationData.signingRoot (c : Crypto) (d : AttestationData) : Bytes32 :=
  c.sha3 (domainTag "BLCH4:ATTEST" ++ d.bytes)

namespace SlashingEvidence

def canonicalBytes : SlashingEvidence → Bytes
  | .proposerEquivocation first second =>
    0x01 :: [first, second].flatMap (fun e => e.header.canonicalSerialize ++ putBytes e.proposerSig)
  | .attestationOffence first second =>
    0x02 :: [first, second].flatMap
      (fun a => leBytes 4 a.validator ++ a.data.bytes ++ putBytes a.signature)

end SlashingEvidence

namespace Derive

def coherenceBinding (c : Crypto) (accumulatorRoot nullifierRoot : Bytes32) : Bytes32 :=
  c.sha3 (domainTag "BLCH4:COHERE" ++ hashBytes accumulatorRoot ++ hashBytes nullifierRoot)

def MARK_LEAF : UInt8 := 0x00
def MARK_NODE : UInt8 := 0x01
def MARK_EMPTY : UInt8 := 0x02
def KIND_TX : UInt8 := 0x01
def KIND_ATTESTATION : UInt8 := 0x02

def bodySha3 (c : Crypto) (b : Bytes) : Bytes32 := c.sha3 (domainTag "BLCH4:BODY" ++ b)

def pairUp (c : Crypto) (kind : UInt8) : List Bytes32 → List Bytes32
  | l :: r :: rest =>
    bodySha3 c ([MARK_NODE, kind] ++ hashBytes l ++ hashBytes r) :: pairUp c kind rest
  | rest => rest

def climbLevels (c : Crypto) (kind : UInt8) : ℕ → List Bytes32 → List Bytes32
  | 0, level => level
  | height + 1, level => climbLevels c kind height (pairUp c kind level)

/-- The root; a level is no longer than the number of levels below it allows. -/
def merkleRoot (c : Crypto) (kind : UInt8) (leaves : List Bytes32) : Bytes32 :=
  (climbLevels c kind leaves.length leaves).headD (bodySha3 c [MARK_EMPTY, kind])

def bodyRoot (c : Crypto) (transactions : List Bytes) : Bytes32 :=
  merkleRoot c KIND_TX (transactions.map (fun tx =>
    bodySha3 c ([MARK_LEAF, KIND_TX] ++ leBytes 8 tx.length ++ tx)))

def attestationLeaf (c : Crypto) (a : Attestation) : Bytes32 :=
  bodySha3 c ([MARK_LEAF, KIND_ATTESTATION] ++ a.data.bytes ++ leBytes 4 a.validator ++ putBytes a.signature)

def attestationRoot (c : Crypto) (attestations : List Attestation) : Bytes32 :=
  merkleRoot c KIND_ATTESTATION (attestations.map (attestationLeaf c))

end Derive

def outpointBytes (txid : Bytes32) (vout : ℕ) : Bytes := hashBytes txid ++ leBytes 4 vout

def TransferOutput.bytes (o : TransferOutput) : Bytes := leBytes 8 o.value ++ hashBytes o.scriptHash

def putList {α : Type} (item : α → Bytes) (l : List α) : Bytes := leBytes 4 l.length ++ l.flatMap item

def putOutputs (outputs : List TransferOutput) : Bytes := putList TransferOutput.bytes outputs

def putFunding (inputs : List FundingInput) : Bytes :=
  putList (fun i => outpointBytes i.txid i.vout) inputs

def roleRoot (c : Crypto) (domain : String) (intent : Bytes) : Bytes32 := c.sha3 (ascii domain ++ intent)

/-- What both transfer forms sign: the coins spent, the coins created and the
terms of the fee. Keys and signatures are left out. -/
def spendBytes (spends : List (Bytes32 × ℕ)) (outputs : List TransferOutput) (txBytes tip : ℕ) : Bytes :=
  putList (fun s => outpointBytes s.1 s.2) spends ++ putOutputs outputs ++ leBytes 8 txBytes ++ leBytes 16 tip

namespace Transfer

def canonicalBytes (tx : Transfer) : Bytes :=
  0x01 :: putList (fun i => outpointBytes i.txid i.vout ++ putBytes i.pubkey ++ putBytes i.signature)
      tx.inputs ++
    putOutputs tx.outputs ++ leBytes 8 tx.txBytes ++ leBytes 16 tx.tipMillisatPerGas

def spends (tx : Transfer) : List (Bytes32 × ℕ) := tx.inputs.map (fun i => (i.txid, i.vout))

end Transfer

namespace TransferV2

def canonicalBytes (tx : TransferV2) : Bytes :=
  0x06 :: putList (fun k => putBytes k.pubkey ++ putBytes k.signature) tx.keys ++
    putList (fun i => outpointBytes i.txid i.vout ++ leBytes 4 i.keyIndex) tx.inputs ++
    putOutputs tx.outputs ++ leBytes 8 tx.txBytes ++ leBytes 16 tx.tipMillisatPerGas

def spends (tx : TransferV2) : List (Bytes32 × ℕ) := tx.inputs.map (fun i => (i.txid, i.vout))

end TransferV2

namespace FundedDeposit

variable (c : Crypto) (tx : FundedDeposit)

def intentBytes : Bytes :=
  0x0b :: hashBytes tx.networkDomain ++ leBytes 8 tx.validUntilEpoch ++ putBytes tx.fundingPubkey ++
    putFunding tx.inputs ++ putBytes tx.validatorPubkey ++ leBytes 16 tx.amountSat ++
    hashBytes tx.randaoCommitment ++ hashBytes tx.withdrawalCredentials ++
    leBytes 16 tx.commissionBps ++ tx.change.bytes ++ leBytes 16 tx.maxBaseFeeMillisatPerGas ++
    leBytes 16 tx.tipMillisatPerGas ++ leBytes 8 tx.txBytes

def intentRoot : Bytes32 :=
  roleRoot c "BLOCH:VALIDATOR:DEPOSIT:V1" tx.intentBytes

def fundingRoot : Bytes32 :=
  roleRoot c "BLOCH:VALIDATOR:FUNDING:V1" (hashBytes (tx.intentRoot c))

def possessionRoot : Bytes32 :=
  roleRoot c "BLOCH:VALIDATOR:POSSESSION:V1" (hashBytes (tx.intentRoot c))

def canonicalBytes : Bytes :=
  tx.intentBytes ++ putBytes tx.fundingSignature ++ putBytes tx.proofOfPossession

end FundedDeposit

namespace FundedDelegate

def intentBytes (tx : FundedDelegate) : Bytes :=
  0x0e :: hashBytes tx.networkDomain ++ leBytes 8 tx.validUntilEpoch ++ putBytes tx.fundingPubkey ++
    putFunding tx.inputs ++ hashBytes tx.validatorPubkeyHash ++ leBytes 16 tx.amountSat ++
    tx.change.bytes ++ leBytes 16 tx.maxBaseFeeMillisatPerGas ++ leBytes 16 tx.tipMillisatPerGas ++
    leBytes 8 tx.txBytes

def signingRoot (c : Crypto) (tx : FundedDelegate) : Bytes32 :=
  roleRoot c "BLOCH:DELEGATION:FUND:V1" tx.intentBytes

def canonicalBytes (tx : FundedDelegate) : Bytes := tx.intentBytes ++ putBytes tx.fundingSignature

end FundedDelegate

namespace FundedUndelegate

def intentBytes (tx : FundedUndelegate) : Bytes :=
  0x0f :: hashBytes tx.networkDomain ++ leBytes 8 tx.epoch ++ leBytes 4 tx.delegatorId ++
    leBytes 4 tx.position ++ putBytes tx.fundingPubkey

def signingRoot (c : Crypto) (tx : FundedUndelegate) : Bytes32 :=
  roleRoot c "BLOCH:DELEGATION:DEACTIVATE:V1" tx.intentBytes

def canonicalBytes (tx : FundedUndelegate) : Bytes := tx.intentBytes ++ putBytes tx.signature

end FundedUndelegate

namespace FundedDelegationWithdraw

def intentBytes (tx : FundedDelegationWithdraw) : Bytes :=
  0x10 :: hashBytes tx.networkDomain ++ leBytes 8 tx.epoch ++ leBytes 4 tx.delegatorId ++
    leBytes 4 tx.position ++ putBytes tx.fundingPubkey ++ hashBytes tx.destinationScriptHash ++
    leBytes 16 tx.maxBaseFeeMillisatPerGas

def signingRoot (c : Crypto) (tx : FundedDelegationWithdraw) : Bytes32 :=
  roleRoot c "BLOCH:DELEGATION:WITHDRAW:V1" tx.intentBytes

def canonicalBytes (tx : FundedDelegationWithdraw) : Bytes := tx.intentBytes ++ putBytes tx.signature

end FundedDelegationWithdraw

namespace ValidatorCommissionUpdate

variable (c : Crypto) (tx : ValidatorCommissionUpdate)

def intentBytes : Bytes :=
  0x11 :: hashBytes tx.networkDomain ++ leBytes 8 tx.epoch ++ leBytes 4 tx.validator ++
    leBytes 16 tx.commissionBps

def signingRoot : Bytes32 :=
  roleRoot c "BLOCH:VALIDATOR:COMMISSION:V1" tx.intentBytes

def canonicalBytes : Bytes := tx.intentBytes ++ putBytes tx.signature

end ValidatorCommissionUpdate

namespace L2Deposit

def intentBytes (tx : L2Deposit) : Bytes :=
  0x14 :: hashBytes tx.networkDomain ++ putBytes tx.fundingPubkey ++ putFunding tx.inputs ++
    leBytes 8 tx.amountSat ++ tx.recipient ++ tx.change.bytes ++ leBytes 8 tx.txBytes ++
    leBytes 16 tx.tipMillisatPerGas

def intentRoot (c : Crypto) (tx : L2Deposit) : Bytes32 := roleRoot c "BLOCH:L2:DEPOSIT:V1" tx.intentBytes

def canonicalBytes (tx : L2Deposit) : Bytes := tx.intentBytes ++ putBytes tx.signature

end L2Deposit

namespace L2DataAvailability

variable (c : Crypto) (tx : L2DataAvailability)

def intentBytes : Bytes :=
  0x15 :: hashBytes tx.networkDomain ++ putBytes tx.fundingPubkey ++ putFunding tx.inputs ++
    leBytes 8 tx.l2ChainId ++ leBytes 8 tx.l2BlockNumber ++ putBytes tx.payload ++ tx.change.bytes ++
    leBytes 8 tx.txBytes ++ leBytes 16 tx.tipMillisatPerGas

def intentRoot : Bytes32 :=
  roleRoot c "BLOCH:L2:DA:V1" tx.intentBytes

def canonicalBytes : Bytes := tx.intentBytes ++ putBytes tx.signature

def commitment : Bytes32 :=
  L2.daCommitment c tx.l2ChainId tx.l2BlockNumber tx.payload

end L2DataAvailability

def ClaimAttestation.encode (a : ClaimAttestation) : Bytes :=
  leBytes 1 a.threshold ++ leBytes 1 a.keys.length ++ a.keys.flatten ++
    leBytes 1 a.signatures.length ++ a.signatures.flatMap (fun s => leBytes 1 s.1 ++ putBytes s.2)

namespace L2WithdrawClaim

variable (c : Crypto) (tx : L2WithdrawClaim)

def version : UInt8 := if tx.attestation.isSome then 2 else 1

def intentBytes : Bytes :=
  0x16 :: tx.version :: hashBytes tx.networkDomain ++ putBytes tx.fundingPubkey ++
    putFunding tx.inputs ++ leBytes 8 tx.l2ChainId ++ leBytes 8 tx.index ++
    hashBytes tx.l1Recipient ++ leBytes 8 tx.sats ++ tx.siblings.flatMap hashBytes ++
    tx.release.bytes ++ tx.change.bytes ++ leBytes 8 tx.txBytes ++ leBytes 16 tx.tipMillisatPerGas ++
    (tx.attestation.map ClaimAttestation.encode).getD []

def intentRoot : Bytes32 :=
  roleRoot c "BLOCH:L2:CLAIM:V1" tx.intentBytes

def canonicalBytes : Bytes := tx.intentBytes ++ putBytes tx.signature

end L2WithdrawClaim

namespace WithdrawalCredentialRotation

variable (c : Crypto) (tx : WithdrawalCredentialRotation)

def intentBytes : Bytes :=
  0x18 :: hashBytes tx.networkDomain ++ leBytes 8 tx.epoch ++ leBytes 4 tx.validator ++
    putBytes tx.authorizingPubkey ++ putBytes tx.newPubkey

def signingRoot : Bytes32 :=
  roleRoot c "BLOCH:VALIDATOR:WITHDRAWAL-CREDENTIAL:V1" tx.intentBytes

def canonicalBytes : Bytes :=
  tx.intentBytes ++ putBytes tx.authorizingSignature ++ putBytes tx.newKeySignature

end WithdrawalCredentialRotation

namespace RescueCommit

def canonicalBytes (tx : RescueCommit) : Bytes :=
  0x19 :: hashBytes tx.networkDomain ++ hashBytes tx.commitment

def signingRoot (c : Crypto) (tx : RescueCommit) : Bytes32 :=
  roleRoot c "BLOCH:PQ-RESCUE:COMMIT-ID:V1" tx.canonicalBytes

end RescueCommit

namespace RescueReveal

def intentBytes (tx : RescueReveal) : Bytes :=
  0x1A :: hashBytes tx.networkDomain ++ putBytes tx.pubkey ++ putFunding tx.inputs ++
    hashBytes tx.destinationScriptHash ++ leBytes 16 tx.tipMillisatPerGas ++ leBytes 8 tx.txBytes

def signingRoot (c : Crypto) (tx : RescueReveal) : Bytes32 :=
  roleRoot c "BLOCH:PQ-RESCUE:REVEAL:V1" tx.intentBytes

def canonicalBytes (tx : RescueReveal) : Bytes := tx.intentBytes ++ putBytes tx.signature

end RescueReveal

def Deposit.canonicalBytes (tx : Deposit) : Bytes :=
  0x02 :: putBytes tx.pubkey ++ leBytes 16 tx.amountSat ++ hashBytes tx.randaoCommitment ++
    putBytes tx.withdrawalCredentials ++ leBytes 16 tx.commissionBps ++ putBytes tx.proofOfPossession

namespace PosTransaction

def canonicalBytes : PosTransaction → Bytes
  | .l2Settlement tx => tx.encodeTag 0x12
  | .l2SettlementAsync tx => tx.encodeTag 0x13
  | .fundedDeposit tx | .fundedDelegate tx | .fundedUndelegate tx | .fundedDelegationWithdraw tx
  | .validatorCommissionUpdate tx | .l2Deposit tx | .l2DataAvailability tx | .l2WithdrawClaim tx
  | .withdrawalCredentialRotation tx | .rescueCommit tx | .rescueReveal tx | .transfer tx | .transferV2 tx
  | .deposit tx => tx.canonicalBytes
  | .exit validator => 0x03 :: leBytes 4 validator
  | .withdraw validator => 0x0D :: leBytes 4 validator
  | .exitV2 pubkeyHash epoch signature =>
    0x0C :: hashBytes pubkeyHash ++ leBytes 8 epoch ++ putBytes signature
  | .randaoRecommit validator newCommitment epoch signature =>
    0x0A :: leBytes 4 validator ++ hashBytes newCommitment ++ leBytes 8 epoch ++ putBytes signature
  | .kesRegister validator depth root signature =>
    0x17 :: leBytes 4 validator ++ leBytes 1 depth ++ hashBytes root ++ putBytes signature
  | .kesRotate validator period depth root signature =>
    0x1B :: leBytes 4 validator ++ leBytes 8 period ++ leBytes 1 depth ++ hashBytes root ++ putBytes signature
  | .delegate delegator validator amountSat eligible =>
    0x04 :: leBytes 4 delegator ++ leBytes 4 validator ++ leBytes 16 amountSat ++ [if eligible then 1 else 0]
  | .slashingEvidence evidence => 0x05 :: evidence.canonicalBytes

def spendSigningRoot (c : Crypto) : PosTransaction → Bytes32
  | .fundedDeposit tx => tx.intentRoot c
  | .fundedDelegate tx | .fundedUndelegate tx | .fundedDelegationWithdraw tx | .validatorCommissionUpdate tx =>
    tx.signingRoot c
  | .l2Deposit tx | .l2DataAvailability tx | .l2WithdrawClaim tx => tx.intentRoot c
  | .withdrawalCredentialRotation tx | .rescueCommit tx | .rescueReveal tx => tx.signingRoot c
  | .transfer tx | .transferV2 tx =>
    c.sha3 (domainTag "BLCH4:SPEND" ++ spendBytes tx.spends tx.outputs tx.txBytes tx.tipMillisatPerGas)
  | tx => c.sha3 (domainTag "BLCH4:SPEND" ++ tx.canonicalBytes)

def txid (c : Crypto) (tx : PosTransaction) : Bytes32 :=
  c.sha3 (domainTag "BLCH4:TXID" ++ hashBytes (tx.spendSigningRoot c))

def checkedSigningRootForNetwork (c : Crypto) (g : Gates) (tx : PosTransaction) (epoch : ℕ)
    (networkDomain : Option Bytes32) : Option Bytes32 :=
  if g.sighashNetworkBindingActive epoch then
    networkDomain.map (fun domain =>
      c.sha3 (domainTag "BLCH4:SPEND2" ++ hashBytes domain ++ hashBytes (tx.spendSigningRoot c)))
  else some (tx.spendSigningRoot c)

end PosTransaction

end BlochPos
