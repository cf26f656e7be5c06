import BlochPos.Transition.Codec

/-! What the id of a transaction stands for: content without witnesses that names something used up
for good. -/
namespace BlochPos

open List

/-- What a transaction that pays coins out can only use once. -/
inductive Resource where
  | coin (op : Outpoint)
  | bond (validator : ℕ)
  | position (position : ℕ)
deriving DecidableEq

/-- The digests a transaction may be signed under. -/
inductive SigningRole where
  | spend | validatorDeposit | delegationFund | delegationDeactivate | delegationWithdraw
  | commission | l2Deposit | l2Data | l2Claim | credential | rescueCommit | rescueReveal
deriving DecidableEq

def SigningRole.domain : SigningRole → Bytes
  | .spend => domainTag "BLCH4:SPEND"
  | .validatorDeposit => ascii "BLOCH:VALIDATOR:DEPOSIT:V1"
  | .delegationFund => ascii "BLOCH:DELEGATION:FUND:V1"
  | .delegationDeactivate => ascii "BLOCH:DELEGATION:DEACTIVATE:V1"
  | .delegationWithdraw => ascii "BLOCH:DELEGATION:WITHDRAW:V1"
  | .commission => ascii "BLOCH:VALIDATOR:COMMISSION:V1"
  | .l2Deposit => ascii "BLOCH:L2:DEPOSIT:V1"
  | .l2Data => ascii "BLOCH:L2:DA:V1"
  | .l2Claim => ascii "BLOCH:L2:CLAIM:V1"
  | .credential => ascii "BLOCH:VALIDATOR:WITHDRAWAL-CREDENTIAL:V1"
  | .rescueCommit => ascii "BLOCH:PQ-RESCUE:COMMIT-ID:V1"
  | .rescueReveal => ascii "BLOCH:PQ-RESCUE:REVEAL:V1"

def SigningRole.all : List SigningRole :=
  [.spend, .validatorDeposit, .delegationFund, .delegationDeactivate, .delegationWithdraw, .commission,
    .l2Deposit, .l2Data, .l2Claim, .credential, .rescueCommit, .rescueReveal]

theorem SigningRole.eq_of_begins {r r' : SigningRole} (begins : r.domain <+: r'.domain) : r = r' := by
  have listed : ∀ r : SigningRole, r ∈ all := by
    intro r
    cases r <;> decide
  have table : ∀ r ∈ all, ∀ r' ∈ all, r.domain <+: r'.domain → r = r' := by decide +kernel
  exact table r (listed r) r' (listed r') begins

namespace PosTransaction

variable {tx tx' w : PosTransaction}

def role : PosTransaction → SigningRole
  | .fundedDeposit _ => .validatorDeposit
  | .fundedDelegate _ => .delegationFund
  | .fundedUndelegate _ => .delegationDeactivate
  | .fundedDelegationWithdraw _ => .delegationWithdraw
  | .validatorCommissionUpdate _ => .commission
  | .l2Deposit _ => .l2Deposit
  | .l2DataAvailability _ => .l2Data
  | .l2WithdrawClaim _ => .l2Claim
  | .withdrawalCredentialRotation _ => .credential
  | .rescueCommit _ => .rescueCommit
  | .rescueReveal _ => .rescueReveal
  | _ => .spend

/-- What a transaction says under its role, without its witnesses. -/
def content : PosTransaction → Bytes
  | .fundedDeposit tx | .fundedDelegate tx | .fundedUndelegate tx | .fundedDelegationWithdraw tx
  | .validatorCommissionUpdate tx | .l2Deposit tx | .l2DataAvailability tx | .l2WithdrawClaim tx
  | .withdrawalCredentialRotation tx => tx.intentBytes
  | .rescueCommit tx => tx.canonicalBytes
  | .rescueReveal tx => tx.intentBytes
  | .transfer tx | .transferV2 tx => spendBytes tx.spends tx.outputs tx.txBytes tx.tipMillisatPerGas
  | tx => tx.canonicalBytes

def preimage (tx : PosTransaction) : Bytes := tx.role.domain ++ tx.content

/-- What a transaction that may pay coins out uses up: its first coin, or what it closes. -/
def resource : PosTransaction → Option Resource
  | .transfer tx | .transferV2 tx => tx.spends.head?.map (fun s => .coin (outpoint s.1 s.2))
  | .fundedDeposit tx | .fundedDelegate tx | .l2Deposit tx | .l2DataAvailability tx | .l2WithdrawClaim tx
  | .rescueReveal tx => tx.inputs.head?.map (fun i => .coin i.outpoint)
  | .fundedDelegationWithdraw tx => some (.position tx.position)
  | .withdraw validator => some (.bond validator)
  | _ => none

theorem eq_of_canonicalBytes_eq (fits : tx.Fits) (fits' : tx'.Fits)
    (same : tx.canonicalBytes = tx'.canonicalBytes) : tx = tx' := by
  have read := fromCanonicalBytes_eq_ok_iff.mpr ⟨fits, rfl⟩
  have read' := fromCanonicalBytes_eq_ok_iff.mpr ⟨fits', rfl⟩
  rw [same, read'] at read
  exact (Except.ok.inj read).symm

theorem eq_of_preimage_eq (same : tx.preimage = tx'.preimage) :
    tx.role = tx'.role ∧ tx.content = tx'.content := by
  have role : tx.role = tx'.role := by
    have begins : tx.role.domain <+: tx'.preimage := same ▸ prefix_append _ _
    obtain before | after := prefix_or_prefix_of_prefix begins (prefix_append _ _)
    · exact SigningRole.eq_of_begins before
    · exact (SigningRole.eq_of_begins after).symm
  refine ⟨role, ?_⟩
  unfold preimage at same
  rw [role] at same
  exact append_cancel_left same

def witnessedBy : PosTransaction → PosTransaction → PosTransaction
  | .fundedDeposit tx, .fundedDeposit w => .fundedDeposit { tx with
      fundingSignature := w.fundingSignature
      proofOfPossession := w.proofOfPossession }
  | .fundedDelegate tx, .fundedDelegate w => .fundedDelegate { tx with fundingSignature := w.fundingSignature }
  | .fundedDelegationWithdraw tx, .fundedDelegationWithdraw w =>
    .fundedDelegationWithdraw { tx with signature := w.signature }
  | .l2Deposit tx, .l2Deposit w => .l2Deposit { tx with signature := w.signature }
  | .l2DataAvailability tx, .l2DataAvailability w => .l2DataAvailability { tx with signature := w.signature }
  | .l2WithdrawClaim tx, .l2WithdrawClaim w => .l2WithdrawClaim { tx with signature := w.signature }
  | .rescueReveal tx, .rescueReveal w => .rescueReveal { tx with signature := w.signature }
  | tx, _ => tx

theorem resource_witnessedBy (tx w : PosTransaction) : (tx.witnessedBy w).resource = tx.resource := by
  unfold witnessedBy
  split <;> rfl

theorem Fits.witnessedBy (fits : tx.Fits) (fits' : w.Fits) : (tx.witnessedBy w).Fits := by
  unfold PosTransaction.witnessedBy
  split
  case h_8 => exact fits
  all_goals
    simp only [Fits, FundedDeposit.Fits, FundedDelegate.Fits, FundedDelegationWithdraw.Fits, L2Deposit.Fits,
      L2DataAvailability.Fits, L2WithdrawClaim.Fits, RescueReveal.Fits] at fits fits' ⊢
    tauto

theorem canonicalBytes_witnessedBy (apart : w.role ≠ .spend)
    (uses : w.resource = some r) (role : tx.role = w.role) (content : tx.content = w.content) :
    (tx.witnessedBy w).canonicalBytes = w.canonicalBytes := by
  cases w with
  | fundedDeposit w =>
    cases tx with
    | fundedDeposit tx => exact congrArg (· ++ putBytes w.fundingSignature ++ putBytes w.proofOfPossession) content
    | _ => cases role
  | fundedDelegate w =>
    cases tx with
    | fundedDelegate tx => exact congrArg (· ++ putBytes w.fundingSignature) content
    | _ => cases role
  | fundedDelegationWithdraw w =>
    cases tx with
    | fundedDelegationWithdraw tx => exact congrArg (· ++ putBytes w.signature) content
    | _ => cases role
  | l2Deposit w =>
    cases tx with
    | l2Deposit tx => exact congrArg (· ++ putBytes w.signature) content
    | _ => cases role
  | l2DataAvailability w =>
    cases tx with
    | l2DataAvailability tx => exact congrArg (· ++ putBytes w.signature) content
    | _ => cases role
  | l2WithdrawClaim w =>
    cases tx with
    | l2WithdrawClaim tx => exact congrArg (· ++ putBytes w.signature) content
    | _ => cases role
  | rescueReveal w =>
    cases tx with
    | rescueReveal tx => exact congrArg (· ++ putBytes w.signature) content
    | _ => cases role
  | transfer | transferV2 | withdraw => exact absurd rfl apart
  | _ => cases uses

theorem spends_eq_of_spendBytes_eq (fits : ListFits (fun s => s.2 < 2 ^ 32) spends)
    (fits' : ListFits (fun s => s.2 < 2 ^ 32) spends')
    (same : spendBytes spends outputs txBytes tip = spendBytes spends' outputs' txBytes' tip') :
    spends = spends' := by
  have written : ∀ l : List (Bytes32 × ℕ), putList (fun s => outpointBytes s.1 s.2) l =
      putList (fun i => outpointBytes i.txid i.vout) (l.map (fun s => FundingInput.mk s.1 s.2)) := by
    intro l
    simp [putList, flatMap_map]
  have carried : ∀ {l : List (Bytes32 × ℕ)}, ListFits (fun s => s.2 < 2 ^ 32) l →
      ListFits FundingInput.Fits (l.map (fun s => FundingInput.mk s.1 s.2)) := by
    rintro l ⟨size, each⟩
    refine ⟨by rwa [length_map], fun i among => ?_⟩
    obtain ⟨s, member, rfl⟩ := mem_map.mp among
    exact each s member
  simp only [spendBytes, append_assoc, written] at same
  have reads : Reader.Reads (TxReader.listOf TxReader.fundingInput) _ _ := TxReader.reads_listOf
  have mapped := (reads.eq_of_append_eq (carried fits) (carried fits') same).1
  refine map_injective_iff.mpr ?_ mapped
  rintro ⟨txid, vout⟩ ⟨txid', vout'⟩ equal
  cases equal
  rfl

theorem length_spendBytes (some : spends ≠ []) (outputs : List TransferOutput)
    (txBytes tip : ℕ) : 32 < (spendBytes spends outputs txBytes tip).length := by
  obtain ⟨s, rest, rfl⟩ := exists_cons_of_ne_nil some
  simp only [spendBytes, putList, flatMap_cons, outpointBytes, length_append, length_leBytes,
    length_hashBytes]
  omega

theorem spend_cases (spend : tx.role = .spend) (fits : tx.Fits)
    (uses : tx.resource = some r) :
    (∃ s rest outputs txBytes tip, ListFits (fun s => s.2 < 2 ^ 32) (s :: rest) ∧
      r = .coin (outpoint s.1 s.2) ∧ tx.content = spendBytes (s :: rest) outputs txBytes tip) ∨
    ∃ validator, tx = .withdraw validator ∧ r = .bond validator := by
  cases tx with
  | transfer tx =>
    obtain ⟨s, first, rfl⟩ := Option.map_eq_some_iff.mp uses
    obtain ⟨rest, spends⟩ := head?_eq_some_iff.mp first
    obtain ⟨⟨size, each⟩, -⟩ := fits
    refine .inl ⟨s, rest, _, _, _, ?_, rfl, by rw [← spends]; rfl⟩
    rw [← spends]
    refine ⟨by rwa [Transfer.spends, length_map], fun s among => ?_⟩
    obtain ⟨i, member, rfl⟩ := mem_map.mp among
    exact (each i member).1
  | transferV2 tx =>
    obtain ⟨s, first, rfl⟩ := Option.map_eq_some_iff.mp uses
    obtain ⟨rest, spends⟩ := head?_eq_some_iff.mp first
    obtain ⟨-, ⟨size, each⟩, -⟩ := fits
    refine .inl ⟨s, rest, _, _, _, ?_, rfl, by rw [← spends]; rfl⟩
    rw [← spends]
    refine ⟨by rwa [TransferV2.spends, length_map], fun s among => ?_⟩
    obtain ⟨i, member, rfl⟩ := mem_map.mp among
    exact (each i member).1
  | withdraw validator =>
    cases uses
    exact .inr ⟨validator, rfl, rfl⟩
  | fundedDeposit | fundedDelegate | fundedDelegationWithdraw | l2Deposit | l2DataAvailability
  | l2WithdrawClaim | rescueReveal => cases spend
  | _ => cases uses

theorem resource_eq (fits : tx.Fits) (fits' : tx'.Fits)
    (uses : tx.resource = some r) (uses' : tx'.resource = some r') (same : tx.preimage = tx'.preimage) :
    r = r' := by
  obtain ⟨role, content⟩ := eq_of_preimage_eq same
  by_cases spend : tx'.role = .spend
  · obtain ⟨s, rest, outputs, txBytes, tip, sized, rfl, bytes⟩ | ⟨validator, rfl, rfl⟩ :=
      spend_cases (role.trans spend) fits uses
    · obtain ⟨s', rest', _, _, _, sized', rfl, bytes'⟩ | ⟨validator', rfl, rfl⟩ :=
        spend_cases spend fits' uses'
      · rw [bytes, bytes'] at content
        cases spends_eq_of_spendBytes_eq sized sized' content
        rfl
      · -- a withdrawal is five bytes long
        have long := length_spendBytes (cons_ne_nil s rest) outputs txBytes tip
        rw [← bytes, content] at long
        simp [PosTransaction.content, canonicalBytes, length_leBytes] at long
    · obtain ⟨s', rest', outputs, txBytes, tip, sized', rfl, bytes'⟩ | ⟨validator', rfl, rfl⟩ :=
        spend_cases spend fits' uses'
      · have long := length_spendBytes (cons_ne_nil s' rest') outputs txBytes tip
        rw [← bytes', ← content] at long
        simp [PosTransaction.content, canonicalBytes, length_leBytes] at long
      · cases eq_of_canonicalBytes_eq fits fits' content
        rfl
  · have witnessed := eq_of_canonicalBytes_eq (fits.witnessedBy fits') fits'
      (canonicalBytes_witnessedBy spend uses' role content)
    rw [← witnessed, resource_witnessedBy, uses] at uses'
    exact Option.some.inj uses'

end PosTransaction

end BlochPos
