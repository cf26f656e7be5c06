import BlochPos.Transition.Decode

/-! The transaction codec: each decoder accepts exactly the bytes its encoder makes of a value
within bounds. -/
namespace BlochPos

open Reader TxReader List

variable {b : Bytes} {width n : ℕ} {tag : UInt8}

/-- The length fits its prefix. -/
def BytesFit (b : Bytes) : Prop := b.length < 2 ^ 32

def BoundedBy (max : ℕ) (b : Bytes) : Prop := BytesFit b ∧ b.length ≤ max

/-- The count fits its prefix, and each entry its own. -/
def ListFits {A : Type} (fits : A → Prop) (l : List A) : Prop := l.length < 2 ^ 32 ∧ ∀ a ∈ l, fits a

theorem drop_eq_append_iff {x rest : Bytes} (width : ℕ) (size : x.length = width) :
    b.drop offset = x ++ rest ↔ slice b offset width = x ∧ b.drop (offset + width) = rest := by
  rw [slice, ← drop_drop]
  constructor
  · intro parts
    rw [parts]
    exact ⟨take_left' size, drop_left' size⟩
  · rintro ⟨rfl, rfl⟩
    exact (take_append_drop width _).symm

theorem length_slice (inside : offset + width ≤ b.length) : (slice b offset width).length = width := by
  rw [slice, length_take, length_drop]
  omega

theorem slice_eq_leBytes_iff (inside : offset + width ≤ b.length) :
    n < 256 ^ width ∧ slice b offset width = leBytes width n ↔ ofLeBytes (slice b offset width) = n := by
  constructor
  · rintro ⟨fits, same⟩
    rw [same, ofLeBytes_leBytes fits]
  · rintro rfl
    have again := leBytes_ofLeBytes (slice b offset width)
    rw [length_slice inside] at again
    exact ⟨ofLeBytes_slice_lt b offset width, again.symm⟩

theorem slice_eq_hashBytes_iff (inside : offset + 32 ≤ b.length) :
    slice b offset 32 = hashBytes h ↔ toHash (slice b offset 32) = h := by
  constructor
  · intro same
    rw [same, toHash_hashBytes]
  · rintro rfl
    rw [hashBytes_toHash (length_slice inside)]

def FundingInput.Fits (i : FundingInput) : Prop := i.vout < 2 ^ 32

def TransferOutput.Fits (o : TransferOutput) : Prop := o.value < 2 ^ 64

namespace TxReader

instance reads_take (n : ℕ) : Reads (TxReader.take n) (fun b => b) (fun b => b.length = n) :=
  Reader.reads_take _ n

instance reads_number (width : ℕ) : Reads (number width) (leBytes width) (fun n => n < 256 ^ width) where
  run_eq_ok_iff s n rest := by
    simp only [number, run_reads_bind_eq_ok_iff, run_pure_eq_ok_iff]
    constructor
    · rintro ⟨b, _, rfl, rfl, rfl, rfl⟩
      exact ⟨ofLeBytes_lt b, by rw [leBytes_ofLeBytes]⟩
    · rintro ⟨fits, rfl⟩
      exact ⟨leBytes width n, rest, rfl, length_leBytes width n, ofLeBytes_leBytes fits, rfl⟩

instance reads_u8 : Reads u8 (leBytes 1) (fun n => n < 2 ^ 8) := reads_number 1
instance reads_u32 : Reads u32 (leBytes 4) (fun n => n < 2 ^ 32) := reads_number 4
instance reads_u64 : Reads u64 (leBytes 8) (fun n => n < 2 ^ 64) := reads_number 8
instance reads_u128 : Reads u128 (leBytes 16) (fun n => n < 2 ^ 128) := reads_number 16

instance reads_h32 : Reads h32 hashBytes (fun _ => True) where
  run_eq_ok_iff s h rest := by
    simp only [h32, run_reads_bind_eq_ok_iff, run_pure_eq_ok_iff]
    constructor
    · rintro ⟨b, _, rfl, size, rfl, rfl⟩
      exact ⟨trivial, by rw [hashBytes_toHash size]⟩
    · rintro ⟨-, rfl⟩
      exact ⟨hashBytes h, rest, rfl, length_hashBytes h, toHash_hashBytes h, rfl⟩

theorem run_length_take_eq_ok_iff {s b rest : Bytes} (bad : ℕ → Prop) [DecidablePred bad] (tag : ℕ) :
    (sized bad tag).run s = .ok (b, rest) ↔ (BytesFit b ∧ ¬ bad b.length) ∧ s = putBytes b ++ rest := by
  simp only [sized, run_reads_bind_eq_ok_iff, run_refuse_bind_eq_ok_iff, Reads.run_eq_ok_iff, putBytes,
    append_assoc]
  constructor
  · rintro ⟨_, _, rfl, fits, good, rfl, rfl⟩
    exact ⟨⟨fits, good⟩, rfl⟩
  · rintro ⟨⟨fits, good⟩, rfl⟩
    exact ⟨b.length, b ++ rest, rfl, fits, good, rfl, rfl⟩

instance reads_bytes : Reads TxReader.bytes putBytes BytesFit where
  run_eq_ok_iff s b rest := by
    simp only [TxReader.bytes, run_reads_bind_eq_ok_iff, Reads.run_eq_ok_iff, putBytes, append_assoc]
    constructor
    · rintro ⟨_, _, rfl, fits, rfl, rfl⟩
      exact ⟨fits, rfl⟩
    · rintro ⟨fits, rfl⟩
      exact ⟨b.length, b ++ rest, rfl, fits, rfl, rfl⟩

instance reads_bounded (max tag : ℕ) : Reads (bounded max tag) putBytes (BoundedBy max) where
  run_eq_ok_iff s b rest := by
    rw [bounded, run_length_take_eq_ok_iff, not_lt]
    rfl

instance reads_exactly (size tag : ℕ) :
    Reads (exactly size tag) putBytes (fun b => BytesFit b ∧ b.length = size) where
  run_eq_ok_iff s b rest := by rw [exactly, run_length_take_eq_ok_iff, not_not]

section

variable {item : TxReader A} {write : A → Bytes} {fits : A → Prop} [Reads item write fits]

instance reads_counted (bad : ℕ → Prop) [DecidablePred bad] (tag : ℕ) :
    Reads (counted bad tag item) (putList write) (fun l => ListFits fits l ∧ ¬ bad l.length) where
  run_eq_ok_iff s l rest := by
    simp only [counted, run_reads_bind_eq_ok_iff, run_refuse_bind_eq_ok_iff, Reads.run_eq_ok_iff, putList,
      append_assoc]
    constructor
    · rintro ⟨_, _, rfl, size, good, ⟨rfl, each⟩, rfl⟩
      exact ⟨⟨⟨size, each⟩, good⟩, rfl⟩
    · rintro ⟨⟨⟨size, each⟩, good⟩, rfl⟩
      exact ⟨l.length, l.flatMap write ++ rest, rfl, size, good, ⟨rfl, each⟩, rfl⟩

instance reads_listOf : Reads (listOf item) (putList write) (ListFits fits) where
  run_eq_ok_iff s l rest := by
    simp only [listOf, run_reads_bind_eq_ok_iff, Reads.run_eq_ok_iff, putList, append_assoc]
    constructor
    · rintro ⟨_, _, rfl, size, ⟨rfl, each⟩, rfl⟩
      exact ⟨⟨size, each⟩, rfl⟩
    · rintro ⟨⟨size, each⟩, rfl⟩
      exact ⟨l.length, l.flatMap write ++ rest, rfl, size, ⟨rfl, each⟩, rfl⟩

end

instance reads_fundingInput :
    Reads fundingInput (fun i => outpointBytes i.txid i.vout) FundingInput.Fits where
  run_eq_ok_iff s i rest := by
    cases i
    rw [and_comm, fundingInput]
    simp [outpointBytes, FundingInput.Fits]

instance reads_transferOutput : Reads transferOutput TransferOutput.bytes TransferOutput.Fits where
  run_eq_ok_iff s o rest := by
    cases o
    rw [and_comm, transferOutput]
    simp [TransferOutput.bytes, TransferOutput.Fits]

end TxReader

def TransferInput.Fits (i : TransferInput) : Prop :=
  i.vout < 2 ^ 32 ∧ BytesFit i.pubkey ∧ BytesFit i.signature

def WitnessKey.Fits (k : WitnessKey) : Prop := BytesFit k.pubkey ∧ BytesFit k.signature

def TransferInputV2.Fits (i : TransferInputV2) : Prop := i.vout < 2 ^ 32 ∧ i.keyIndex < 2 ^ 32

def Transfer.Fits (tx : Transfer) : Prop :=
  ListFits TransferInput.Fits tx.inputs ∧ ListFits TransferOutput.Fits tx.outputs ∧
    tx.txBytes < 2 ^ 64 ∧ tx.tipMillisatPerGas < 2 ^ 128

def TransferV2.Fits (tx : TransferV2) : Prop :=
  ListFits WitnessKey.Fits tx.keys ∧ ListFits TransferInputV2.Fits tx.inputs ∧
    ListFits TransferOutput.Fits tx.outputs ∧ tx.txBytes < 2 ^ 64 ∧ tx.tipMillisatPerGas < 2 ^ 128

instance TransferInput.reads :
    Reads TransferInput.decode
      (fun i => outpointBytes i.txid i.vout ++ putBytes i.pubkey ++ putBytes i.signature)
      TransferInput.Fits where
  run_eq_ok_iff s i rest := by
    cases i
    rw [and_comm, decode]
    simp [outpointBytes, Fits]

instance WitnessKey.reads :
    Reads WitnessKey.decode (fun k => putBytes k.pubkey ++ putBytes k.signature) WitnessKey.Fits where
  run_eq_ok_iff s k rest := by
    cases k
    rw [and_comm, decode]
    simp [Fits]

instance TransferInputV2.reads :
    Reads TransferInputV2.decode (fun i => outpointBytes i.txid i.vout ++ leBytes 4 i.keyIndex)
      TransferInputV2.Fits where
  run_eq_ok_iff s i rest := by
    cases i
    rw [and_comm, decode]
    simp [outpointBytes, Fits]

instance Transfer.reads : Reads decode (fun tx => tx.canonicalBytes.tail) Fits where
  run_eq_ok_iff s tx rest := by
    cases tx
    rw [and_comm, decode]
    simp [canonicalBytes, putOutputs, Fits]

instance TransferV2.reads : Reads decode (fun tx => tx.canonicalBytes.tail) Fits where
  run_eq_ok_iff s tx rest := by
    cases tx
    rw [and_comm, decode]
    simp [canonicalBytes, putOutputs, Fits]

def FundedDeposit.Fits (tx : FundedDeposit) : Prop :=
  tx.validUntilEpoch < 2 ^ 64 ∧ BoundedBy ADMISSION_PQ_KEY_BYTES tx.fundingPubkey ∧
    (ListFits FundingInput.Fits tx.inputs ∧ ¬ MAX_FUNDING_INPUTS < tx.inputs.length) ∧
    BoundedBy ADMISSION_PQ_KEY_BYTES tx.validatorPubkey ∧ tx.amountSat < 2 ^ 128 ∧
    tx.commissionBps < 2 ^ 128 ∧ tx.change.Fits ∧ tx.maxBaseFeeMillisatPerGas < 2 ^ 128 ∧
    tx.tipMillisatPerGas < 2 ^ 128 ∧ tx.txBytes < 2 ^ 64 ∧
    BoundedBy ADMISSION_PQ_SIGNATURE_MAX tx.fundingSignature ∧
    BoundedBy ADMISSION_PQ_SIGNATURE_MAX tx.proofOfPossession

def FundedDelegate.Fits (tx : FundedDelegate) : Prop :=
  tx.validUntilEpoch < 2 ^ 64 ∧ BoundedBy ADMISSION_PQ_KEY_BYTES tx.fundingPubkey ∧
    (ListFits FundingInput.Fits tx.inputs ∧ ¬ MAX_FUNDING_INPUTS < tx.inputs.length) ∧
    tx.amountSat < 2 ^ 128 ∧ tx.change.Fits ∧ tx.maxBaseFeeMillisatPerGas < 2 ^ 128 ∧
    tx.tipMillisatPerGas < 2 ^ 128 ∧ tx.txBytes < 2 ^ 64 ∧
    BoundedBy ADMISSION_PQ_SIGNATURE_MAX tx.fundingSignature

def FundedUndelegate.Fits (tx : FundedUndelegate) : Prop :=
  tx.epoch < 2 ^ 64 ∧ tx.delegatorId < 2 ^ 32 ∧ tx.position < 2 ^ 32 ∧
    BoundedBy ADMISSION_PQ_KEY_BYTES tx.fundingPubkey ∧ BoundedBy ADMISSION_PQ_SIGNATURE_MAX tx.signature

def FundedDelegationWithdraw.Fits (tx : FundedDelegationWithdraw) : Prop :=
  tx.epoch < 2 ^ 64 ∧ tx.delegatorId < 2 ^ 32 ∧ tx.position < 2 ^ 32 ∧
    BoundedBy ADMISSION_PQ_KEY_BYTES tx.fundingPubkey ∧ tx.maxBaseFeeMillisatPerGas < 2 ^ 128 ∧
    BoundedBy ADMISSION_PQ_SIGNATURE_MAX tx.signature

def ValidatorCommissionUpdate.Fits (tx : ValidatorCommissionUpdate) : Prop :=
  tx.epoch < 2 ^ 64 ∧ tx.validator < 2 ^ 32 ∧ tx.commissionBps < 2 ^ 128 ∧
    BoundedBy ADMISSION_PQ_SIGNATURE_MAX tx.signature

instance FundedDeposit.reads : Reads decode (fun tx => tx.canonicalBytes.tail) Fits where
  run_eq_ok_iff s tx rest := by
    cases tx
    rw [and_comm, decode]
    simp [canonicalBytes, intentBytes, putFunding, Fits]

instance FundedDelegate.reads : Reads decode (fun tx => tx.canonicalBytes.tail) Fits where
  run_eq_ok_iff s tx rest := by
    cases tx
    rw [and_comm, decode]
    simp [canonicalBytes, intentBytes, putFunding, Fits]

instance FundedUndelegate.reads : Reads decode (fun tx => tx.canonicalBytes.tail) Fits where
  run_eq_ok_iff s tx rest := by
    cases tx
    rw [and_comm, decode]
    simp [canonicalBytes, intentBytes, Fits]

instance FundedDelegationWithdraw.reads : Reads decode (fun tx => tx.canonicalBytes.tail) Fits where
  run_eq_ok_iff s tx rest := by
    cases tx
    rw [and_comm, decode]
    simp [canonicalBytes, intentBytes, Fits]

instance ValidatorCommissionUpdate.reads : Reads decode (fun tx => tx.canonicalBytes.tail) Fits where
  run_eq_ok_iff s tx rest := by
    cases tx
    rw [and_comm, decode]
    simp [canonicalBytes, intentBytes, Fits]

def L2Deposit.Fits (tx : L2Deposit) : Prop :=
  (BytesFit tx.fundingPubkey ∧ tx.fundingPubkey.length = ADMISSION_PQ_KEY_BYTES) ∧
    (ListFits FundingInput.Fits tx.inputs ∧ ¬ (tx.inputs.length = 0 ∨ MAX_DEPOSIT_INPUTS < tx.inputs.length)) ∧
    tx.amountSat < 2 ^ 64 ∧ tx.recipient.length = 20 ∧ tx.change.Fits ∧ tx.txBytes < 2 ^ 64 ∧
    tx.tipMillisatPerGas < 2 ^ 128 ∧ BoundedBy ADMISSION_PQ_SIGNATURE_MAX tx.signature

def L2DataAvailability.Fits (tx : L2DataAvailability) : Prop :=
  (BytesFit tx.fundingPubkey ∧ tx.fundingPubkey.length = ADMISSION_PQ_KEY_BYTES) ∧
    (ListFits FundingInput.Fits tx.inputs ∧ ¬ (tx.inputs.length = 0 ∨ L2.DA_MAX_INPUTS < tx.inputs.length)) ∧
    tx.l2ChainId < 2 ^ 64 ∧ tx.l2BlockNumber < 2 ^ 64 ∧ BoundedBy L2.DA_MAX_PAYLOAD_BYTES tx.payload ∧
    tx.change.Fits ∧ tx.txBytes < 2 ^ 64 ∧ tx.tipMillisatPerGas < 2 ^ 128 ∧
    BoundedBy ADMISSION_PQ_SIGNATURE_MAX tx.signature

def ClaimAttestation.SignatureFits (s : ℕ × Bytes) : Prop :=
  s.1 < 2 ^ 8 ∧ BoundedBy ADMISSION_PQ_SIGNATURE_MAX s.2

def ClaimAttestation.Fits (a : ClaimAttestation) : Prop :=
  a.threshold < 2 ^ 8 ∧ a.keys.length < 2 ^ 8 ∧ ¬ (a.keys.length = 0 ∨ L2.MAX_ATTESTORS < a.keys.length) ∧
    (∀ key ∈ a.keys, key.length = ADMISSION_PQ_KEY_BYTES) ∧
    a.signatures.length < 2 ^ 8 ∧ ¬ a.keys.length < a.signatures.length ∧
    ∀ s ∈ a.signatures, ClaimAttestation.SignatureFits s

def L2WithdrawClaim.Fits (tx : L2WithdrawClaim) : Prop :=
  (BytesFit tx.fundingPubkey ∧ tx.fundingPubkey.length = ADMISSION_PQ_KEY_BYTES) ∧
    (ListFits FundingInput.Fits tx.inputs ∧ ¬ (tx.inputs.length = 0 ∨ MAX_CLAIM_INPUTS < tx.inputs.length)) ∧
    tx.l2ChainId < 2 ^ 64 ∧ tx.index < 2 ^ 64 ∧ tx.sats < 2 ^ 64 ∧ tx.siblings.length = L2.TREE_DEPTH ∧
    tx.release.Fits ∧ tx.change.Fits ∧ tx.txBytes < 2 ^ 64 ∧ tx.tipMillisatPerGas < 2 ^ 128 ∧
    (∀ a ∈ tx.attestation, a.Fits) ∧ BoundedBy ADMISSION_PQ_SIGNATURE_MAX tx.signature

instance L2Deposit.reads : Reads decode (fun tx => tx.canonicalBytes.tail) Fits where
  run_eq_ok_iff s tx rest := by
    cases tx
    rw [and_comm, decode]
    simp [canonicalBytes, intentBytes, putFunding, Fits]

instance L2DataAvailability.reads : Reads decode (fun tx => tx.canonicalBytes.tail) Fits where
  run_eq_ok_iff s tx rest := by
    cases tx
    rw [and_comm, decode]
    simp [canonicalBytes, intentBytes, putFunding, Fits]

instance ClaimAttestation.reads_signature :
    Reads ClaimAttestation.decodeSignature (fun s => leBytes 1 s.1 ++ putBytes s.2)
      ClaimAttestation.SignatureFits where
  run_eq_ok_iff s pair rest := by
    cases pair
    rw [and_comm, ClaimAttestation.decodeSignature]
    simp [ClaimAttestation.SignatureFits]

instance ClaimAttestation.reads :
    Reads ClaimAttestation.decode ClaimAttestation.encode ClaimAttestation.Fits where
  run_eq_ok_iff s a rest := by
    obtain ⟨-, keys, -⟩ := a
    simp only [ClaimAttestation.decode, run_reads_bind_eq_ok_iff, run_refuse_bind_eq_ok_iff,
      run_pure_eq_ok_iff, ClaimAttestation.mk.injEq, existsAndEq, true_and, and_true,
      ClaimAttestation.encode, ClaimAttestation.Fits, and_assoc, append_assoc, flatMap_id']
    exact and_comm.trans (by simp only [and_assoc])

instance L2WithdrawClaim.reads_attestation (version : ℕ) :
    Reads (L2WithdrawClaim.decodeAttestation version) (fun a => (a.map ClaimAttestation.encode).getD [])
      (fun a => (version = 2 ↔ a.isSome) ∧ ∀ present ∈ a, present.Fits) where
  run_eq_ok_iff s a rest := by
    unfold L2WithdrawClaim.decodeAttestation
    by_cases second : version = 2
    · rw [if_pos second, run_map_eq_ok_iff]
      simp only [Reads.run_eq_ok_iff]
      cases a <;> simp [second]
    · rw [if_neg second, run_pure_eq_ok_iff]
      cases a <;> simp [second]

instance L2WithdrawClaim.reads :
    Reads L2WithdrawClaim.decode (fun tx => tx.canonicalBytes.tail) L2WithdrawClaim.Fits where
  run_eq_ok_iff s tx rest := by
    obtain ⟨-, key, inputs, chain, index, -, sats, siblings, release, change, size, tip, attestation, -⟩ := tx
    simp only [L2WithdrawClaim.decode, run_reads_bind_eq_ok_iff, run_refuse_bind_eq_ok_iff,
      run_pure_eq_ok_iff, L2WithdrawClaim.mk.injEq, existsAndEq, true_and, and_true, implies_true]
    constructor
    · rintro ⟨version, written, -, known, key, inputs, chain, index, sats, siblings, release, change, size, tip,
        ⟨second, each⟩, signed⟩
      refine ⟨⟨key, inputs, chain, index, sats, siblings, release, change, size, tip, each, signed⟩, ?_⟩
      have byte : leBytes 1 version = [if attestation.isSome then 2 else 1] := by
        by_cases attested : attestation.isSome
        · rw [if_pos attested, second.mpr attested]
          rfl
        · have first : version = 1 := by
            have other := mt second.mp attested
            omega
          rw [if_neg attested, first]
          rfl
      rw [written, byte]
      simp [L2WithdrawClaim.canonicalBytes, L2WithdrawClaim.intentBytes, L2WithdrawClaim.version, putFunding]
    · rintro ⟨⟨key, inputs, chain, index, sats, siblings, release, change, size, tip, each, signed⟩, written⟩
      refine ⟨if attestation.isSome then 2 else 1, ?_, by split <;> decide, by split <;> decide, key, inputs,
        chain, index, sats, siblings, release, change, size, tip, ⟨by split <;> simp_all, each⟩, signed⟩
      have byte : leBytes 1 (if attestation.isSome then 2 else 1) = [if attestation.isSome then 2 else 1] := by
        split <;> rfl
      rw [written, byte]
      simp [L2WithdrawClaim.canonicalBytes, L2WithdrawClaim.intentBytes, L2WithdrawClaim.version, putFunding]

def WithdrawalCredentialRotation.Fits (tx : WithdrawalCredentialRotation) : Prop :=
  tx.epoch < 2 ^ 64 ∧ tx.validator < 2 ^ 32 ∧ BoundedBy PUBKEY_MAX tx.authorizingPubkey ∧
    BoundedBy PUBKEY_MAX tx.newPubkey ∧ BoundedBy SLH_SUITE_SIGNATURE_MAX tx.authorizingSignature ∧
    BoundedBy SLH_SUITE_SIGNATURE_MAX tx.newKeySignature

def RescueReveal.Fits (tx : RescueReveal) : Prop :=
  BoundedBy PUBKEY_MAX tx.pubkey ∧ ListFits FundingInput.Fits tx.inputs ∧ tx.tipMillisatPerGas < 2 ^ 128 ∧
    tx.txBytes < 2 ^ 64 ∧ BoundedBy SLH_SUITE_SIGNATURE_MAX tx.signature

def Deposit.Fits (tx : Deposit) : Prop :=
  BytesFit tx.pubkey ∧ tx.amountSat < 2 ^ 128 ∧ BytesFit tx.withdrawalCredentials ∧
    tx.commissionBps < 2 ^ 128 ∧ BytesFit tx.proofOfPossession

instance WithdrawalCredentialRotation.reads : Reads decode (fun tx => tx.canonicalBytes.tail) Fits where
  run_eq_ok_iff s tx rest := by
    cases tx
    rw [and_comm, decode]
    simp [canonicalBytes, intentBytes, Fits]

instance RescueReveal.reads : Reads decode (fun tx => tx.canonicalBytes.tail) Fits where
  run_eq_ok_iff s tx rest := by
    cases tx
    rw [and_comm, decode]
    simp [canonicalBytes, intentBytes, putFunding, Fits]

instance Deposit.reads : Reads decode (fun tx => tx.canonicalBytes.tail) Fits where
  run_eq_ok_iff s tx rest := by
    cases tx
    rw [and_comm, decode]
    simp [canonicalBytes, Fits]

instance RescueCommit.reads :
    Reads RescueCommit.decode (fun tx => tx.canonicalBytes.tail) (fun _ => True) where
  run_eq_ok_iff s tx rest := by
    obtain ⟨-, -⟩ := tx
    simp only [RescueCommit.decode, run_reads_bind_eq_ok_iff, run_pure_eq_ok_iff, RescueCommit.mk.injEq,
      existsAndEq, true_and, and_true, RescueCommit.canonicalBytes, cons_append, tail_cons,
      append_assoc]

namespace BlockHeaderV4

def Fits (h : BlockHeaderV4) : Prop := h.version < 2 ^ 32 ∧ h.proposerIndex < 2 ^ 32
deriving Decidable

theorem length_canonicalSerialize (h : BlockHeaderV4) : h.canonicalSerialize.length = ENCODED_LEN := by
  simp only [canonicalSerialize, length_append, length_leBytes, length_hashBytes, ENCODED_LEN]

theorem canonicalDeserialize_eq_some_iff :
    canonicalDeserialize b = some h ↔ h.Fits ∧ b = h.canonicalSerialize := by
  by_cases size : b.length = ENCODED_LEN
  · have end_ : b.drop 304 = [] := drop_eq_nil_of_le size.le
    have parts : b = h.canonicalSerialize ↔ b.drop 0 = h.canonicalSerialize ++ [] := by
      rw [drop_zero, append_nil]
    rw [canonicalDeserialize, if_neg (not_not.mpr size), parts, Option.some.injEq]
    unfold ENCODED_LEN at size
    obtain ⟨-, -, -, -, slot, -, -, mix, -, -, -, -, slot_lt⟩ := h
    simp only [canonicalSerialize, Fits, BlockHeaderV4.mk.injEq, append_assoc]
    rw [drop_eq_append_iff 4 (length_leBytes _ _), drop_eq_append_iff 32 (length_hashBytes _),
      drop_eq_append_iff 32 (length_hashBytes _), drop_eq_append_iff 32 (length_hashBytes _),
      drop_eq_append_iff 8 (length_leBytes _ _), drop_eq_append_iff 4 (length_leBytes _ _),
      drop_eq_append_iff 32 (length_hashBytes _), drop_eq_append_iff 32 (length_hashBytes _),
      drop_eq_append_iff 32 (length_hashBytes _), drop_eq_append_iff 32 (length_hashBytes _),
      drop_eq_append_iff 32 (length_hashBytes _), drop_eq_append_iff 32 (length_hashBytes _)]
    simp only [Nat.zero_add, Nat.reduceAdd, end_, and_true]
    have small : slot < 18446744073709551616 := slot_lt
    simp (disch := omega) only [← slice_eq_hashBytes_iff, ← slice_eq_leBytes_iff, Nat.reducePow, small,
      true_and, and_assoc, and_left_comm]
  · rw [canonicalDeserialize, if_pos size]
    constructor
    · intro impossible
      cases impossible
    · rintro ⟨-, rfl⟩
      exact absurd (length_canonicalSerialize h) size

end BlockHeaderV4

instance BlockHeaderV4.reads :
    Reads BlockHeaderV4.decode BlockHeaderV4.canonicalSerialize BlockHeaderV4.Fits where
  run_eq_ok_iff s h rest := by
    simp only [BlockHeaderV4.decode, run_reads_bind_eq_ok_iff, run_orRefuse_eq_ok_iff,
      BlockHeaderV4.canonicalDeserialize_eq_some_iff]
    constructor
    · rintro ⟨_, _, rfl, -, ⟨fits, rfl⟩, rfl⟩
      exact ⟨fits, rfl⟩
    · rintro ⟨fits, rfl⟩
      exact ⟨h.canonicalSerialize, rest, rfl, h.length_canonicalSerialize, ⟨fits, rfl⟩, rfl⟩

def ProposalEnvelope.Fits (e : ProposalEnvelope) : Prop := e.header.Fits ∧ BytesFit e.proposerSig

def AttestationData.Fits (d : AttestationData) : Prop :=
  d.slot < 2 ^ 64 ∧ d.sourceEpoch < 2 ^ 64 ∧ d.targetEpoch < 2 ^ 64

def Attestation.Fits (a : Attestation) : Prop := a.validator < 2 ^ 32 ∧ a.data.Fits ∧ BytesFit a.signature

def SlashingEvidence.Fits : SlashingEvidence → Prop
  | .proposerEquivocation first second => first.Fits ∧ second.Fits
  | .attestationOffence first second => first.Fits ∧ second.Fits

instance ProposalEnvelope.reads :
    Reads ProposalEnvelope.decode (fun e => e.header.canonicalSerialize ++ putBytes e.proposerSig)
      ProposalEnvelope.Fits where
  run_eq_ok_iff s e rest := by
    cases e
    rw [and_comm, decode]
    simp [Fits]

instance AttestationData.reads : Reads AttestationData.decode AttestationData.bytes AttestationData.Fits where
  run_eq_ok_iff s d rest := by
    cases d
    rw [and_comm, decode]
    simp [bytes, Fits]

instance Attestation.reads :
    Reads Attestation.decode (fun a => leBytes 4 a.validator ++ a.data.bytes ++ putBytes a.signature)
      Attestation.Fits where
  run_eq_ok_iff s a rest := by
    cases a
    rw [and_comm, decode]
    simp [Fits]

theorem leBytes_one (n : ℕ) : leBytes 1 n = [UInt8.ofNat n] := rfl

/-- The family byte picks the decoder of what follows it. -/
instance SlashingEvidence.reads :
    Reads SlashingEvidence.decode SlashingEvidence.canonicalBytes SlashingEvidence.Fits where
  run_eq_ok_iff s e rest := by
    simp only [SlashingEvidence.decode, run_reads_bind_eq_ok_iff]
    constructor
    · rintro ⟨family, mid, rfl, -, body⟩
      split at body
      · simp only [run_reads_bind_eq_ok_iff, run_pure_eq_ok_iff, existsAndEq, true_and, and_true] at body
        obtain ⟨first, second, written, fits, fits', rfl⟩ := body
        exact ⟨⟨fits, fits'⟩, by simp [written, SlashingEvidence.canonicalBytes, leBytes_one]⟩
      · simp only [run_reads_bind_eq_ok_iff, run_pure_eq_ok_iff, existsAndEq, true_and, and_true] at body
        obtain ⟨first, second, written, fits, fits', rfl⟩ := body
        exact ⟨⟨fits, fits'⟩, by simp [written, SlashingEvidence.canonicalBytes, leBytes_one]⟩
      · exact absurd body run_throw_ne_ok
    · rintro ⟨fits, rfl⟩
      cases e with
      | proposerEquivocation first second =>
        refine ⟨1, [first, second].flatMap (fun e => e.header.canonicalSerialize ++ putBytes e.proposerSig) ++ rest,
          by simp only [SlashingEvidence.canonicalBytes, leBytes_one, cons_append, nil_append]; rfl,
          by decide, ?_⟩
        simp only [run_reads_bind_eq_ok_iff, run_pure_eq_ok_iff]
        exact ⟨first, _, by simp, fits.1, second, rest, rfl, fits.2, rfl, rfl⟩
      | attestationOffence first second =>
        refine ⟨2, [first, second].flatMap
          (fun a => leBytes 4 a.validator ++ a.data.bytes ++ putBytes a.signature) ++ rest,
          by simp only [SlashingEvidence.canonicalBytes, leBytes_one, cons_append, nil_append]; rfl,
          by decide, ?_⟩
        simp only [run_reads_bind_eq_ok_iff, run_pure_eq_ok_iff]
        exact ⟨first, _, by simp, fits.1, second, rest, rfl, fits.2, rfl, rfl⟩

/-- A settlement carries a statement of a known version and a proof of its fixed length. -/
def L2.Transaction.Fits (tx : L2.Transaction) : Prop :=
  (L2.StatementVersion.of tx.statement).isSome ∧ tx.proof.length = L2.PROOF_BYTES

variable {bytes : Bytes} {tx : L2.Transaction}

theorem L2.Transaction.parts_eq_iff
    (size : bytes.length = 1 + 32 + n + L2.PROOF_BYTES) :
    (bytes.head? = some tag ∧ ⟨toHash (slice bytes 1 32), slice bytes 33 n, bytes.drop (33 + n)⟩ = tx) ↔
      (tx.statement.length = n ∧ tx.proof.length = L2.PROOF_BYTES) ∧ bytes = tx.encodeTag tag := by
  constructor
  · rintro ⟨first, rfl⟩
    have policy : (slice bytes 1 32).length = 32 := length_slice (by omega)
    have statement : (slice bytes 33 n).length = n := length_slice (by omega)
    have start : slice bytes 0 1 = [tag] := by
      rw [slice, drop_zero, take_one, first]
      rfl
    have parts : bytes.drop 0 = [tag] ++ (slice bytes 1 32 ++ (slice bytes 33 n ++ bytes.drop (33 + n))) := by
      rw [drop_eq_append_iff 1 rfl, drop_eq_append_iff 32 policy, drop_eq_append_iff n statement]
      exact ⟨start, rfl, rfl, rfl⟩
    refine ⟨⟨statement, by rw [length_drop]; omega⟩, ?_⟩
    rw [drop_zero] at parts
    rw [encodeTag, hashBytes_toHash policy]
    exact parts.trans (by simp)
  · rintro ⟨⟨statement, -⟩, written⟩
    have parts : bytes.drop 0 = [tag] ++ (hashBytes tx.proofPolicy ++ (tx.statement ++ tx.proof)) := by
      rw [drop_zero, written]
      simp [encodeTag]
    rw [drop_eq_append_iff 1 rfl, drop_eq_append_iff 32 (length_hashBytes _),
      drop_eq_append_iff n statement] at parts
    obtain ⟨-, policy, body, proof⟩ := parts
    simp only [Nat.zero_add, Nat.reduceAdd] at policy body proof
    refine ⟨by rw [written]; rfl, ?_⟩
    rw [policy, body, proof, toHash_hashBytes]

theorem L2.StatementVersion.isSome_of (known : (L2.StatementVersion.of statement).isSome) :
    statement.length = L2.STATEMENT_BYTES ∨ statement.length = L2.STATEMENT_V3_BYTES := by
  unfold L2.StatementVersion.of at known
  split at known
  next second => exact .inl second.1
  next =>
    split at known
    next third => exact .inr third.1
    next => cases known

theorem L2.Transaction.decodeParts_eq_some_iff
    (size : bytes.length = 1 + 32 + n + L2.PROOF_BYTES) :
    (do guard (bytes.head? = some tag)
        guard (L2.StatementVersion.of (slice bytes 33 n)).isSome
        pure ⟨toHash (slice bytes 1 32), slice bytes 33 n, bytes.drop (33 + n)⟩) = some tx ↔
      tx.Fits ∧ tx.statement.length = n ∧ bytes = tx.encodeTag tag := by
  have peeled : (do guard (bytes.head? = some tag)
                    guard (L2.StatementVersion.of (slice bytes 33 n)).isSome
                    pure ⟨toHash (slice bytes 1 32), slice bytes 33 n, bytes.drop (33 + n)⟩) = some tx ↔
      bytes.head? = some tag ∧ (L2.StatementVersion.of (slice bytes 33 n)).isSome ∧
        ⟨toHash (slice bytes 1 32), slice bytes 33 n, bytes.drop (33 + n)⟩ = tx := by
    simp [guard, Option.bind_eq_some_iff, Option.isSome_iff_ne_none]
  rw [peeled]
  constructor
  · rintro ⟨first, known, same⟩
    obtain ⟨⟨statement, proof⟩, written⟩ := (parts_eq_iff size).mp ⟨first, same⟩
    subst same
    exact ⟨⟨known, proof⟩, statement, written⟩
  · rintro ⟨⟨known, proof⟩, statement, written⟩
    obtain ⟨first, same⟩ := (parts_eq_iff size).mpr ⟨⟨statement, proof⟩, written⟩
    subst same
    exact ⟨first, known, rfl⟩

theorem L2.Transaction.decodeTag_eq_some_iff :
    L2.Transaction.decodeTag bytes tag = some tx ↔ tx.Fits ∧ bytes = tx.encodeTag tag := by
  have length_of (fits : tx.Fits) (written : bytes = tx.encodeTag tag) :
      bytes.length = 1 + 32 + tx.statement.length + L2.PROOF_BYTES := by
    rw [written, ← fits.2]
    simp only [encodeTag, length_append, length_cons, length_hashBytes]
  unfold decodeTag
  split_ifs with second third
  · refine (decodeParts_eq_some_iff second).trans ?_
    constructor
    · exact fun all => ⟨all.1, all.2.2⟩
    · rintro ⟨fits, written⟩
      exact ⟨fits, by have := length_of fits written; omega, written⟩
  · refine (decodeParts_eq_some_iff third).trans ?_
    constructor
    · exact fun all => ⟨all.1, all.2.2⟩
    · rintro ⟨fits, written⟩
      exact ⟨fits, by have := length_of fits written; omega, written⟩
  · constructor
    · intro impossible
      cases impossible
    · rintro ⟨fits, written⟩
      have size := length_of fits written
      rcases L2.StatementVersion.isSome_of fits.1 with short | long
      · rw [short] at size
        exact absurd size second
      · rw [long] at size
        exact absurd size third

namespace PosTransaction

variable {A : Type} {tag : ℕ} {R : TxReader A} {write : A → Bytes} {fits : A → Prop} {wrap : A → PosTransaction}

/-- The words fit their widths and the variable parts keep the decoder's bounds. -/
def Fits : PosTransaction → Prop
  | .l2Settlement tx | .l2SettlementAsync tx | .fundedDeposit tx | .fundedDelegate tx | .fundedUndelegate tx
  | .fundedDelegationWithdraw tx | .validatorCommissionUpdate tx | .l2Deposit tx | .l2DataAvailability tx
  | .l2WithdrawClaim tx | .withdrawalCredentialRotation tx => tx.Fits
  | .rescueCommit _ => True
  | .rescueReveal tx | .transfer tx | .transferV2 tx | .deposit tx => tx.Fits
  | .exit validator | .withdraw validator => validator < 2 ^ 32
  | .exitV2 _ epoch signature => epoch < 2 ^ 64 ∧ BytesFit signature
  | .randaoRecommit validator _ epoch signature => validator < 2 ^ 32 ∧ epoch < 2 ^ 64 ∧ BytesFit signature
  | .kesRegister validator depth _ signature => validator < 2 ^ 32 ∧ depth < 2 ^ 8 ∧ BytesFit signature
  | .kesRotate validator period depth _ signature =>
    validator < 2 ^ 32 ∧ period < 2 ^ 64 ∧ depth < 2 ^ 8 ∧ BytesFit signature
  | .delegate delegator validator amountSat _ =>
    delegator < 2 ^ 32 ∧ validator < 2 ^ 32 ∧ amountSat < 2 ^ 128
  | .slashingEvidence evidence => evidence.Fits

def wireTag : PosTransaction → ℕ
  | .l2Settlement _ => 0x12
  | .l2SettlementAsync _ => 0x13
  | .fundedDeposit _ => 0x0b
  | .fundedDelegate _ => 0x0e
  | .fundedUndelegate _ => 0x0f
  | .fundedDelegationWithdraw _ => 0x10
  | .validatorCommissionUpdate _ => 0x11
  | .l2Deposit _ => 0x14
  | .l2DataAvailability _ => 0x15
  | .l2WithdrawClaim _ => 0x16
  | .withdrawalCredentialRotation _ => 0x18
  | .rescueCommit _ => 0x19
  | .rescueReveal _ => 0x1A
  | .transfer _ => 0x01
  | .transferV2 _ => 0x06
  | .deposit _ => 0x02
  | .exit _ => 0x03
  | .withdraw _ => 0x0D
  | .exitV2 .. => 0x0C
  | .randaoRecommit .. => 0x0A
  | .kesRegister .. => 0x17
  | .kesRotate .. => 0x1B
  | .delegate .. => 0x04
  | .slashingEvidence _ => 0x05

theorem wireTag_lt (tx : PosTransaction) : tx.wireTag < 2 ^ 8 := by
  cases tx <;> exact of_decide_eq_true rfl

theorem head?_canonicalBytes (tx : PosTransaction) :
    tx.canonicalBytes.head? = some (UInt8.ofNat tx.wireTag) := by
  cases tx <;> rfl

theorem canonicalBytes_eq_cons (tx : PosTransaction) :
    tx.canonicalBytes = UInt8.ofNat tx.wireTag :: tx.canonicalBytes.tail :=
  eq_cons_of_mem_head? tx.head?_canonicalBytes

/-- Settlements are read as a whole, the rest behind their tag. -/
def isSettlement : PosTransaction → Bool
  | .l2Settlement _ | .l2SettlementAsync _ => true
  | _ => false

instance reads_flag : Reads decodeFlag (fun b => [if b then 1 else 0]) (fun _ => True) where
  run_eq_ok_iff s b rest := by
    simp only [decodeFlag, run_reads_bind_eq_ok_iff]
    constructor
    · rintro ⟨flag, mid, rfl, -, body⟩
      split at body
      · obtain ⟨rfl, rfl⟩ := run_pure_eq_ok_iff.mp body
        exact ⟨trivial, rfl⟩
      · obtain ⟨rfl, rfl⟩ := run_pure_eq_ok_iff.mp body
        exact ⟨trivial, rfl⟩
      · exact absurd body run_throw_ne_ok
    · rintro ⟨-, rfl⟩
      cases b with
      | false => exact ⟨0, rest, rfl, by decide, rfl⟩
      | true => exact ⟨1, rest, rfl, by decide, rfl⟩

variable {s rest : Bytes} {tx : PosTransaction}

theorem sound_of_map [Reads R write fits] (read : (wrap <$> R).run s = .ok (tx, rest)) :
    ∃ t, fits t ∧ wrap t = tx ∧ s = write t ++ rest := by
  obtain ⟨t, done, rfl⟩ := run_map_eq_ok_iff.mp read
  obtain ⟨fit, rfl⟩ := (Reads.run_eq_ok_iff _ _ _).mp done
  exact ⟨t, fit, rfl, rfl⟩

theorem decodeBody_sound (read : (decodeBody tag).run s = .ok (tx, rest)) :
    tx.wireTag = tag ∧ tx.Fits ∧ tx.isSettlement = false ∧ s = tx.canonicalBytes.tail ++ rest := by
  unfold decodeBody at read
  split at read
  all_goals try (obtain ⟨t, fits, rfl, written⟩ := sound_of_map read; exact ⟨rfl, fits, rfl, written⟩)
  any_goals
    simp only [decodeDelegate, decodeExitV2, decodeKesRegister, decodeKesRotate, decodeRandaoRecommit,
      run_reads_bind_eq_ok_iff, run_pure_eq_ok_iff, existsAndEq, true_and, and_true] at read
  · obtain ⟨delegator, validator, amount, eligible, written, fits, fits', fits'', rfl⟩ := read
    exact ⟨rfl, ⟨fits, fits', fits''⟩, rfl, by simp [written, canonicalBytes]⟩
  · obtain ⟨pubkeyHash, epoch, signature, written, fits, signed, rfl⟩ := read
    exact ⟨rfl, ⟨fits, signed⟩, rfl, by simp [written, canonicalBytes]⟩
  · obtain ⟨validator, depth, root, signature, written, fits, deep, signed, rfl⟩ := read
    exact ⟨rfl, ⟨fits, deep, signed⟩, rfl, by simp [written, canonicalBytes]⟩
  · obtain ⟨validator, period, depth, root, signature, written, fits, fits', deep, signed, rfl⟩ := read
    exact ⟨rfl, ⟨fits, fits', deep, signed⟩, rfl, by simp [written, canonicalBytes]⟩
  · obtain ⟨validator, commitment, epoch, signature, written, fits, fits', signed, rfl⟩ := read
    exact ⟨rfl, ⟨fits, fits', signed⟩, rfl, by simp [written, canonicalBytes]⟩
  · exact absurd read run_throw_ne_ok

theorem complete_of_map [Reads R write fits] {t : A} (fit : fits t) :
    (wrap <$> R).run (write t ++ rest) = .ok (wrap t, rest) :=
  run_map_eq_ok_iff.mpr ⟨t, (Reads.run_eq_ok_iff _ _ _).mpr ⟨fit, rfl⟩, rfl⟩

theorem decodeBody_complete (fits : tx.Fits) (plain : tx.isSettlement = false) (rest : Bytes) :
    (decodeBody tx.wireTag).run (tx.canonicalBytes.tail ++ rest) = .ok (tx, rest) := by
  cases tx with
  | l2Settlement tx | l2SettlementAsync tx => cases plain
  | fundedDeposit tx => exact complete_of_map (R := FundedDeposit.decode) fits
  | fundedDelegate tx => exact complete_of_map (R := FundedDelegate.decode) fits
  | fundedUndelegate tx => exact complete_of_map (R := FundedUndelegate.decode) fits
  | fundedDelegationWithdraw tx => exact complete_of_map (R := FundedDelegationWithdraw.decode) fits
  | validatorCommissionUpdate tx => exact complete_of_map (R := ValidatorCommissionUpdate.decode) fits
  | l2Deposit tx => exact complete_of_map (R := L2Deposit.decode) fits
  | l2DataAvailability tx => exact complete_of_map (R := L2DataAvailability.decode) fits
  | l2WithdrawClaim tx => exact complete_of_map (R := L2WithdrawClaim.decode) fits
  | withdrawalCredentialRotation tx => exact complete_of_map (R := WithdrawalCredentialRotation.decode) fits
  | rescueCommit tx => exact complete_of_map (R := RescueCommit.decode) fits
  | rescueReveal tx => exact complete_of_map (R := RescueReveal.decode) fits
  | transfer tx => exact complete_of_map (R := Transfer.decode) fits
  | transferV2 tx => exact complete_of_map (R := TransferV2.decode) fits
  | deposit tx => exact complete_of_map (R := Deposit.decode) fits
  | exit validator | withdraw validator => exact complete_of_map (R := u32) fits
  | slashingEvidence evidence => exact complete_of_map (R := SlashingEvidence.decode) fits
  | delegate delegator validator amount eligible =>
    obtain ⟨fits, fits', fits''⟩ := fits
    simp only [wireTag, decodeBody, decodeDelegate, run_reads_bind_eq_ok_iff, run_pure_eq_ok_iff,
      delegate.injEq, existsAndEq, true_and, and_true, fits, fits', fits'']
    simp [canonicalBytes]
  | exitV2 | kesRegister | kesRotate | randaoRecommit =>
    simp only [wireTag, decodeBody, decodeExitV2, decodeKesRegister, decodeKesRotate, decodeRandaoRecommit]
    simp_all [Fits, canonicalBytes]

theorem run_decode_eq_ok_iff :
    decode.run s = .ok (tx, rest) ↔ (tx.Fits ∧ tx.isSettlement = false) ∧ s = tx.canonicalBytes ++ rest := by
  simp only [decode, run_reads_bind_eq_ok_iff]
  constructor
  · rintro ⟨tag, mid, written, -, read⟩
    obtain ⟨same, fits, plain, body⟩ := decodeBody_sound read
    refine ⟨⟨fits, plain⟩, ?_⟩
    rw [written, body, tx.canonicalBytes_eq_cons, same, leBytes_one, tail_cons]
    rfl
  · rintro ⟨⟨fits, plain⟩, written⟩
    refine ⟨tx.wireTag, tx.canonicalBytes.tail ++ rest, ?_, tx.wireTag_lt, decodeBody_complete fits plain rest⟩
    rw [written, leBytes_one, cons_append, nil_append, ← cons_append, ← tx.canonicalBytes_eq_cons]

theorem wireTag_of_head (small : tag < 2 ^ 8)
    (head : tx.canonicalBytes.head? = some (UInt8.ofNat tag)) : tx.wireTag = tag := by
  rw [head?_canonicalBytes, Option.some.injEq] at head
  have same := congrArg UInt8.toNat head
  rwa [UInt8.toNat_ofNat_of_lt' tx.wireTag_lt, UInt8.toNat_ofNat_of_lt' small] at same

theorem eq_l2Settlement_of_wireTag (tag : tx.wireTag = 0x12) : ∃ t, tx = .l2Settlement t := by
  cases tx with
  | l2Settlement t => exact ⟨t, rfl⟩
  | _ => cases tag

theorem eq_l2SettlementAsync_of_wireTag (tag : tx.wireTag = 0x13) : ∃ t, tx = .l2SettlementAsync t := by
  cases tx with
  | l2SettlementAsync t => exact ⟨t, rfl⟩
  | _ => cases tag

/-- The decoder accepts the encodings of the transactions that fit, and nothing else. -/
theorem fromCanonicalBytes_eq_ok_iff : fromCanonicalBytes s = .ok tx ↔ tx.Fits ∧ s = tx.canonicalBytes := by
  unfold fromCanonicalBytes
  split_ifs with settlement async
  · rw [Attempt.orRefuse_eq_ok_iff, Option.map_eq_some_iff]
    constructor
    · rintro ⟨t, read, rfl⟩
      exact L2.Transaction.decodeTag_eq_some_iff.mp read
    · rintro ⟨fits, rfl⟩
      obtain ⟨t, rfl⟩ := eq_l2Settlement_of_wireTag (wireTag_of_head (by decide) settlement)
      exact ⟨t, L2.Transaction.decodeTag_eq_some_iff.mpr ⟨fits, rfl⟩, rfl⟩
  · rw [Attempt.orRefuse_eq_ok_iff, Option.map_eq_some_iff]
    constructor
    · rintro ⟨t, read, rfl⟩
      exact L2.Transaction.decodeTag_eq_some_iff.mp read
    · rintro ⟨fits, rfl⟩
      obtain ⟨t, rfl⟩ := eq_l2SettlementAsync_of_wireTag (wireTag_of_head (by decide) async)
      exact ⟨t, L2.Transaction.decodeTag_eq_some_iff.mpr ⟨fits, rfl⟩, rfl⟩
  · rw [whole_eq_ok_iff, run_decode_eq_ok_iff, append_nil]
    constructor
    · exact fun read => ⟨read.1.1, read.2⟩
    · rintro ⟨fits, rfl⟩
      refine ⟨⟨fits, ?_⟩, rfl⟩
      cases tx with
      | l2Settlement t => exact absurd rfl settlement
      | l2SettlementAsync t => exact absurd rfl async
      | _ => rfl

/-- A transaction within the decoder's bounds is read back from its encoding, and whatever is accepted is
the encoding of what it is read as. So no two strings are read as one transaction, and no two transactions
within the bounds share an encoding. -/
theorem codec_bijective : (∀ tx : PosTransaction, tx.Fits → fromCanonicalBytes tx.canonicalBytes = .ok tx) ∧
    (∀ s tx, fromCanonicalBytes s = .ok tx → tx.canonicalBytes = s) ∧
    (∀ s s' tx, fromCanonicalBytes s = .ok tx → fromCanonicalBytes s' = .ok tx → s = s') ∧
    (∀ tx tx' : PosTransaction, tx.Fits → tx'.Fits → tx.canonicalBytes = tx'.canonicalBytes → tx = tx') := by
  have round (tx : PosTransaction) (fits : tx.Fits) : fromCanonicalBytes tx.canonicalBytes = .ok tx :=
    fromCanonicalBytes_eq_ok_iff.mpr ⟨fits, rfl⟩
  have canonical (s : Bytes) (tx : PosTransaction) (read : fromCanonicalBytes s = .ok tx) :
      tx.canonicalBytes = s :=
    (fromCanonicalBytes_eq_ok_iff.mp read).2.symm
  refine ⟨round, canonical, ?_, ?_⟩
  · intro s s' tx read read'
    rw [← canonical s tx read, canonical s' tx read']
  · intro tx tx' fits fits' same
    have read := round tx fits
    rw [same, round tx' fits'] at read
    exact (Except.ok.inj read).symm

/-- A transfer of one coin, read back. -/
theorem transfer_read_back :
    fromCanonicalBytes (transfer ⟨[⟨7, 1, [1, 2, 3], [4, 5]⟩], [⟨900, 11⟩], 200, 3⟩).canonicalBytes =
      .ok (transfer ⟨[⟨7, 1, [1, 2, 3], [4, 5]⟩], [⟨900, 11⟩], 200, 3⟩) :=
  codec_bijective.1 _ (by simp [Fits, Transfer.Fits, ListFits, TransferInput.Fits, TransferOutput.Fits, BytesFit])

end PosTransaction

end BlochPos
