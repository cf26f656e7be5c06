import BlochPos.Transition.PqMigration
import BlochPos.Lib.Reader

/-! Reading transactions back from their bytes. The bounds a reader checks come
before the bytes they bound. -/
namespace BlochPos

inductive TxDecodeError where
  | truncated
  | unknownTag (tag : ℕ)
  | evidenceNotDecodable
  | notCanonical (value : ℕ)
  | trailingBytes
deriving DecidableEq

abbrev TxReader := Reader UInt8 TxDecodeError

def slice (b : Bytes) (offset width : ℕ) : Bytes := (b.drop offset).take width

theorem ofLeBytes_slice_lt (b : Bytes) (offset width : ℕ) : ofLeBytes (slice b offset width) < 256 ^ width :=
  (ofLeBytes_lt _).trans_le (Nat.pow_le_pow_right (by decide) (List.length_take_le _ _))

namespace TxReader

def take (n : ℕ) : TxReader Bytes := Reader.take .truncated n

def number (width : ℕ) : TxReader ℕ := do
  let b ← take width
  pure (ofLeBytes b)

def u8 : TxReader ℕ := number 1
def u32 : TxReader ℕ := number 4
def u64 : TxReader ℕ := number 8
def u128 : TxReader ℕ := number 16

def h32 : TxReader Bytes32 := do
  let b ← take 32
  pure (toHash b)

def bytes : TxReader Bytes := do
  let n ← u32
  take n

/-- Bytes behind a length that is checked before they are read. -/
def sized (bad : ℕ → Prop) [DecidablePred bad] (tag : ℕ) : TxReader Bytes := do
  let n ← u32
  Reader.refuse (bad n) (.notCanonical tag)
  take n

def bounded (max tag : ℕ) : TxReader Bytes := sized (fun n => max < n) tag

def exactly (size tag : ℕ) : TxReader Bytes := sized (fun n => n ≠ size) tag

def listOf {A : Type} (item : TxReader A) : TxReader (List A) := do
  let n ← u32
  Reader.many item n

/-- Values behind a number that is checked before they are read. -/
def counted {A : Type} (bad : ℕ → Prop) [DecidablePred bad] (tag : ℕ) (item : TxReader A) :
    TxReader (List A) := do
  let n ← u32
  Reader.refuse (bad n) (.notCanonical tag)
  Reader.many item n

def fundingInput : TxReader FundingInput := do
  let txid ← h32
  let vout ← u32
  pure ⟨txid, vout⟩

def transferOutput : TxReader TransferOutput := do
  let value ← u64
  let scriptHash ← h32
  pure ⟨value, scriptHash⟩

end TxReader

open TxReader

def TransferInput.decode : TxReader TransferInput := do
  let txid ← h32
  let vout ← u32
  let pubkey ← bytes
  let signature ← bytes
  pure ⟨txid, vout, pubkey, signature⟩

def WitnessKey.decode : TxReader WitnessKey := do
  let pubkey ← bytes
  let signature ← bytes
  pure ⟨pubkey, signature⟩

def TransferInputV2.decode : TxReader TransferInputV2 := do
  let txid ← h32
  let vout ← u32
  let keyIndex ← u32
  pure ⟨txid, vout, keyIndex⟩

def Transfer.decode : TxReader Transfer := do
  let inputs ← listOf TransferInput.decode
  let outputs ← listOf transferOutput
  let txBytes ← u64
  let tipMillisatPerGas ← u128
  pure { inputs, outputs, txBytes, tipMillisatPerGas }

def TransferV2.decode : TxReader TransferV2 := do
  let keys ← listOf WitnessKey.decode
  let inputs ← listOf TransferInputV2.decode
  let outputs ← listOf transferOutput
  let txBytes ← u64
  let tipMillisatPerGas ← u128
  pure { keys, inputs, outputs, txBytes, tipMillisatPerGas }

def FundedDeposit.decode : TxReader FundedDeposit := do
  let networkDomain ← h32
  let validUntilEpoch ← u64
  let fundingPubkey ← bounded ADMISSION_PQ_KEY_BYTES 0x0b
  let inputs ← counted (fun n => MAX_FUNDING_INPUTS < n) 0x0b fundingInput
  let validatorPubkey ← bounded ADMISSION_PQ_KEY_BYTES 0x0b
  let amountSat ← u128
  let randaoCommitment ← h32
  let withdrawalCredentials ← h32
  let commissionBps ← u128
  let change ← transferOutput
  let maxBaseFeeMillisatPerGas ← u128
  let tipMillisatPerGas ← u128
  let txBytes ← u64
  let fundingSignature ← bounded ADMISSION_PQ_SIGNATURE_MAX 0x0b
  let proofOfPossession ← bounded ADMISSION_PQ_SIGNATURE_MAX 0x0b
  pure { networkDomain, validUntilEpoch, fundingPubkey, inputs, validatorPubkey, amountSat,
         randaoCommitment, withdrawalCredentials, commissionBps, change, maxBaseFeeMillisatPerGas,
         tipMillisatPerGas, txBytes, fundingSignature, proofOfPossession }

def FundedDelegate.decode : TxReader FundedDelegate := do
  let networkDomain ← h32
  let validUntilEpoch ← u64
  let fundingPubkey ← bounded ADMISSION_PQ_KEY_BYTES 0x0e
  let inputs ← counted (fun n => MAX_FUNDING_INPUTS < n) 0x0e fundingInput
  let validatorPubkeyHash ← h32
  let amountSat ← u128
  let change ← transferOutput
  let maxBaseFeeMillisatPerGas ← u128
  let tipMillisatPerGas ← u128
  let txBytes ← u64
  let fundingSignature ← bounded ADMISSION_PQ_SIGNATURE_MAX 0x0e
  pure { networkDomain, validUntilEpoch, fundingPubkey, inputs, validatorPubkeyHash, amountSat, change,
         maxBaseFeeMillisatPerGas, tipMillisatPerGas, txBytes, fundingSignature }

def FundedUndelegate.decode : TxReader FundedUndelegate := do
  let networkDomain ← h32
  let epoch ← u64
  let delegatorId ← u32
  let position ← u32
  let fundingPubkey ← bounded ADMISSION_PQ_KEY_BYTES 0x0f
  let signature ← bounded ADMISSION_PQ_SIGNATURE_MAX 0x0f
  pure { networkDomain, epoch, delegatorId, position, fundingPubkey, signature }

def FundedDelegationWithdraw.decode : TxReader FundedDelegationWithdraw := do
  let networkDomain ← h32
  let epoch ← u64
  let delegatorId ← u32
  let position ← u32
  let fundingPubkey ← bounded ADMISSION_PQ_KEY_BYTES 0x10
  let destinationScriptHash ← h32
  let maxBaseFeeMillisatPerGas ← u128
  let signature ← bounded ADMISSION_PQ_SIGNATURE_MAX 0x10
  pure { networkDomain, epoch, delegatorId, position, fundingPubkey, destinationScriptHash,
         maxBaseFeeMillisatPerGas, signature }

def ValidatorCommissionUpdate.decode : TxReader ValidatorCommissionUpdate := do
  let networkDomain ← h32
  let epoch ← u64
  let validator ← u32
  let commissionBps ← u128
  let signature ← bounded ADMISSION_PQ_SIGNATURE_MAX 0x11
  pure { networkDomain, epoch, validator, commissionBps, signature }

/-- A settlement is its tag, a policy, a statement of one of two lengths and a proof. -/
def L2.Transaction.decodeTag (bytes : Bytes) (tag : UInt8) : Option L2.Transaction := do
  let statementBytes ←
    if bytes.length = 1 + 32 + L2.STATEMENT_BYTES + L2.PROOF_BYTES then some L2.STATEMENT_BYTES
    else if bytes.length = 1 + 32 + L2.STATEMENT_V3_BYTES + L2.PROOF_BYTES then some L2.STATEMENT_V3_BYTES
    else none
  guard (bytes.head? = some tag)
  let statement := slice bytes 33 statementBytes
  guard (L2.StatementVersion.of statement).isSome
  pure ⟨toHash (slice bytes 1 32), statement, bytes.drop (33 + statementBytes)⟩

def L2Deposit.decode : TxReader L2Deposit := do
  let networkDomain ← h32
  let fundingPubkey ← exactly ADMISSION_PQ_KEY_BYTES 0x14
  let inputs ← counted (fun n => n = 0 ∨ MAX_DEPOSIT_INPUTS < n) 0x14 fundingInput
  let amountSat ← u64
  let recipient ← take 20
  let change ← transferOutput
  let txBytes ← u64
  let tipMillisatPerGas ← u128
  let signature ← bounded ADMISSION_PQ_SIGNATURE_MAX 0x14
  pure { networkDomain, fundingPubkey, inputs, amountSat, recipient, change, txBytes, tipMillisatPerGas,
         signature }

def L2DataAvailability.decode : TxReader L2DataAvailability := do
  let networkDomain ← h32
  let fundingPubkey ← exactly ADMISSION_PQ_KEY_BYTES 0x15
  let inputs ← counted (fun n => n = 0 ∨ L2.DA_MAX_INPUTS < n) 0x15 fundingInput
  let l2ChainId ← u64
  let l2BlockNumber ← u64
  let payload ← bounded L2.DA_MAX_PAYLOAD_BYTES 0x15
  let change ← transferOutput
  let txBytes ← u64
  let tipMillisatPerGas ← u128
  let signature ← bounded ADMISSION_PQ_SIGNATURE_MAX 0x15
  pure { networkDomain, fundingPubkey, inputs, l2ChainId, l2BlockNumber, payload, change, txBytes,
         tipMillisatPerGas, signature }

/-- A signature of an attestor, behind its place in the set. -/
def ClaimAttestation.decodeSignature : TxReader (ℕ × Bytes) := do
  let index ← u8
  let signature ← bounded ADMISSION_PQ_SIGNATURE_MAX 0x16
  pure (index, signature)

def ClaimAttestation.decode : TxReader ClaimAttestation := do
  let threshold ← u8
  let n ← u8
  Reader.refuse (n = 0 ∨ L2.MAX_ATTESTORS < n) (.notCanonical 0x16)
  let keys ← Reader.many (take ADMISSION_PQ_KEY_BYTES) n
  let m ← u8
  Reader.refuse (n < m) (.notCanonical 0x16)
  let signatures ← Reader.many decodeSignature m
  pure { threshold, keys, signatures }

/-- Only the second version of a claim carries attestations. -/
def L2WithdrawClaim.decodeAttestation (version : ℕ) : TxReader (Option ClaimAttestation) :=
  if version = 2 then some <$> ClaimAttestation.decode else pure none

def L2WithdrawClaim.decode : TxReader L2WithdrawClaim := do
  let version ← u8
  Reader.refuse (version ≠ 1 ∧ version ≠ 2) (.notCanonical 0x16)
  let networkDomain ← h32
  let fundingPubkey ← exactly ADMISSION_PQ_KEY_BYTES 0x16
  let inputs ← counted (fun n => n = 0 ∨ MAX_CLAIM_INPUTS < n) 0x16 fundingInput
  let l2ChainId ← u64
  let index ← u64
  let l1Recipient ← h32
  let sats ← u64
  let siblings ← Reader.many h32 L2.TREE_DEPTH
  let release ← transferOutput
  let change ← transferOutput
  let txBytes ← u64
  let tipMillisatPerGas ← u128
  let attestation ← decodeAttestation version
  let signature ← bounded ADMISSION_PQ_SIGNATURE_MAX 0x16
  pure { networkDomain, fundingPubkey, inputs, l2ChainId, index, l1Recipient, sats, siblings, release,
         change, txBytes, tipMillisatPerGas, attestation, signature }

def WithdrawalCredentialRotation.decode : TxReader WithdrawalCredentialRotation := do
  let networkDomain ← h32
  let epoch ← u64
  let validator ← u32
  let authorizingPubkey ← bounded PUBKEY_MAX 0x18
  let newPubkey ← bounded PUBKEY_MAX 0x18
  let authorizingSignature ← bounded SLH_SUITE_SIGNATURE_MAX 0x18
  let newKeySignature ← bounded SLH_SUITE_SIGNATURE_MAX 0x18
  pure { networkDomain, epoch, validator, authorizingPubkey, newPubkey, authorizingSignature,
         newKeySignature }

def RescueCommit.decode : TxReader RescueCommit := do
  let networkDomain ← h32
  let commitment ← h32
  pure { networkDomain, commitment }

def RescueReveal.decode : TxReader RescueReveal := do
  let networkDomain ← h32
  let pubkey ← bounded PUBKEY_MAX 0x1A
  let inputs ← listOf fundingInput
  let destinationScriptHash ← h32
  let tipMillisatPerGas ← u128
  let txBytes ← u64
  let signature ← bounded SLH_SUITE_SIGNATURE_MAX 0x1A
  pure { networkDomain, pubkey, inputs, destinationScriptHash, tipMillisatPerGas, txBytes, signature }

def Deposit.decode : TxReader Deposit := do
  let pubkey ← bytes
  let amountSat ← u128
  let randaoCommitment ← h32
  let withdrawalCredentials ← bytes
  let commissionBps ← u128
  let proofOfPossession ← bytes
  pure { pubkey, amountSat, randaoCommitment, withdrawalCredentials, commissionBps, proofOfPossession }

namespace BlockHeaderV4

def ENCODED_LEN : ℕ := 304

def canonicalDeserialize (b : Bytes) : Option BlockHeaderV4 :=
  if b.length ≠ ENCODED_LEN then none
  else some
    { version := ofLeBytes (slice b 0 4)
      parent := toHash (slice b 4 32)
      stateRoot := toHash (slice b 36 32)
      bodyRoot := toHash (slice b 68 32)
      slot := ofLeBytes (slice b 100 8)
      proposerIndex := ofLeBytes (slice b 108 4)
      randaoReveal := toHash (slice b 112 32)
      randaoMix := toHash (slice b 144 32)
      justifiedRoot := toHash (slice b 176 32)
      finalizedRoot := toHash (slice b 208 32)
      attestationRoot := toHash (slice b 240 32)
      coherenceRoot := toHash (slice b 272 32)
      slot_lt := ofLeBytes_slice_lt b 100 8 }

end BlockHeaderV4

def BlockHeaderV4.decode : TxReader BlockHeaderV4 := do
  let raw ← take ENCODED_LEN
  Reader.orRefuse (canonicalDeserialize raw) .truncated

def ProposalEnvelope.decode : TxReader ProposalEnvelope := do
  let header ← BlockHeaderV4.decode
  let proposerSig ← bytes
  pure { header, proposerSig }

def AttestationData.decode : TxReader AttestationData := do
  let slot ← u64
  let head ← h32
  let sourceEpoch ← u64
  let sourceRoot ← h32
  let targetEpoch ← u64
  let targetRoot ← h32
  pure { slot, head, sourceEpoch, sourceRoot, targetEpoch, targetRoot }

def Attestation.decode : TxReader Attestation := do
  let validator ← u32
  let data ← AttestationData.decode
  let signature ← bytes
  pure { validator, data, signature }

def SlashingEvidence.decode : TxReader SlashingEvidence := do
  let family ← u8
  match family with
  | 0x01 =>
    let first ← ProposalEnvelope.decode
    let second ← ProposalEnvelope.decode
    pure (.proposerEquivocation first second)
  | 0x02 =>
    let first ← Attestation.decode
    let second ← Attestation.decode
    pure (.attestationOffence first second)
  | other => throw (.notCanonical other)

namespace PosTransaction

/-- A truth value has one byte for each of its values. -/
def decodeFlag : TxReader Bool := do
  let flag ← u8
  match flag with
  | 0 => pure false
  | 1 => pure true
  | other => throw (.notCanonical other)

def decodeDelegate : TxReader PosTransaction := do
  let delegator ← u32
  let validator ← u32
  let amountSat ← u128
  let eligible ← decodeFlag
  pure (.delegate delegator validator amountSat eligible)

def decodeExitV2 : TxReader PosTransaction := do
  let pubkeyHash ← h32
  let epoch ← u64
  let signature ← bytes
  pure (.exitV2 pubkeyHash epoch signature)

def decodeKesRegister : TxReader PosTransaction := do
  let validator ← u32
  let depth ← u8
  let root ← h32
  let signature ← bytes
  pure (.kesRegister validator depth root signature)

def decodeKesRotate : TxReader PosTransaction := do
  let validator ← u32
  let period ← u64
  let depth ← u8
  let root ← h32
  let signature ← bytes
  pure (.kesRotate validator period depth root signature)

def decodeRandaoRecommit : TxReader PosTransaction := do
  let validator ← u32
  let newCommitment ← h32
  let epoch ← u64
  let signature ← bytes
  pure (.randaoRecommit validator newCommitment epoch signature)

def decodeBody : ℕ → TxReader PosTransaction
  | 0x0b => .fundedDeposit <$> FundedDeposit.decode
  | 0x0e => .fundedDelegate <$> FundedDelegate.decode
  | 0x0f => .fundedUndelegate <$> FundedUndelegate.decode
  | 0x10 => .fundedDelegationWithdraw <$> FundedDelegationWithdraw.decode
  | 0x11 => .validatorCommissionUpdate <$> ValidatorCommissionUpdate.decode
  | 0x14 => .l2Deposit <$> L2Deposit.decode
  | 0x15 => .l2DataAvailability <$> L2DataAvailability.decode
  | 0x16 => .l2WithdrawClaim <$> L2WithdrawClaim.decode
  | 0x18 => .withdrawalCredentialRotation <$> WithdrawalCredentialRotation.decode
  | 0x19 => .rescueCommit <$> RescueCommit.decode
  | 0x1A => .rescueReveal <$> RescueReveal.decode
  | 0x01 => .transfer <$> Transfer.decode
  | 0x02 => .deposit <$> Deposit.decode
  | 0x03 => .exit <$> u32
  | 0x04 => decodeDelegate
  | 0x0C => decodeExitV2
  | 0x0D => .withdraw <$> u32
  | 0x17 => decodeKesRegister
  | 0x1B => decodeKesRotate
  | 0x0A => decodeRandaoRecommit
  | 0x05 => .slashingEvidence <$> SlashingEvidence.decode
  | 0x06 => .transferV2 <$> TransferV2.decode
  | other => throw (.unknownTag other)

def decode : TxReader PosTransaction := do
  let tag ← u8
  decodeBody tag

/-- Settlements are recognised by their first byte and decoded as a whole. -/
def fromCanonicalBytes (bytes : Bytes) : Except TxDecodeError PosTransaction :=
  if bytes.head? = some 0x12 then
    Attempt.orRefuse ((L2.Transaction.decodeTag bytes 0x12).map .l2Settlement) .truncated
  else if bytes.head? = some 0x13 then
    Attempt.orRefuse ((L2.Transaction.decodeTag bytes 0x13).map .l2SettlementAsync) .truncated
  else Reader.whole decode .trailingBytes bytes

end PosTransaction

end BlochPos
