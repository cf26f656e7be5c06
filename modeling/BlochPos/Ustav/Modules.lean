import BlochPos.Ustav.Vm

/-! Token charters and the validator programs their modules compile to. -/
namespace BlochPos.Ustav

def FIELD_SIGHASH : ℕ := 0
def FIELD_HEIGHT : ℕ := 1
def FIELD_KYC_ROOT : ℕ := 2
def MINT_CTX_SIGHASH : ℕ := 0
def MINT_CTX_DELTA : ℕ := 1
def MINT_CTX_PRIOR_SUPPLY : ℕ := 3

structure SupplyConfig where
  cap : ℕ
  issuerPubkey : Bytes
deriving DecidableEq

structure TransferPolicyConfig where
  authorityPubkey : Bytes
deriving DecidableEq

structure VestingConfig where
  unlockHeight : ℤ
  beneficiaryPubkey : Bytes
deriving DecidableEq

structure GovernanceConfig where
  signers : List Bytes
  threshold : ℕ
deriving DecidableEq

structure CustodyConfig where
  (btcPubkey pqPubkey : Bytes)
deriving DecidableEq

inductive ModuleKind where
  | supply (c : SupplyConfig)
  | transferPolicy (c : TransferPolicyConfig)
  | complianceKycGate
  | vesting (c : VestingConfig)
  | governance (c : GovernanceConfig)
  | custody (c : CustodyConfig)
deriving DecidableEq

inductive Tag where
  | supply | transferPolicy | kycGate | vesting | governance | custody
deriving DecidableEq

def Tag.name : Tag → String
  | .supply => "supply"
  | .transferPolicy => "transfer-policy"
  | .kycGate => "kyc-gate"
  | .vesting => "vesting"
  | .governance => "governance"
  | .custody => "custody"

structure TokenCharter where
  tokenName : Bytes
  modules : List ModuleKind
deriving DecidableEq

namespace ModuleKind

def tag : ModuleKind → Tag
  | .supply _ => .supply
  | .transferPolicy _ => .transferPolicy
  | .complianceKycGate => .kycGate
  | .vesting _ => .vesting
  | .governance _ => .governance
  | .custody _ => .custody

def tagByte : ModuleKind → UInt8
  | .supply _ => 0x01
  | .transferPolicy _ => 0x02
  | .complianceKycGate => 0x03
  | .vesting _ => 0x04
  | .governance _ => 0x05
  | .custody _ => 0x06

/-- The keys of a module in order, each with whether it is a classical one. -/
def keys : ModuleKind → List (Bool × Bytes)
  | .supply c => [(false, c.issuerPubkey)]
  | .transferPolicy c => [(false, c.authorityPubkey)]
  | .complianceKycGate => []
  | .vesting c => [(false, c.beneficiaryPubkey)]
  | .governance c => c.signers.map (fun key => (false, key))
  | .custody c => [(true, c.btcPubkey), (false, c.pqPubkey)]

end ModuleKind

/-- Stack `[sig]`: the cap on the supply after the change, then the issuer. -/
def compileSupply (c : SupplyConfig) : List Op :=
  [.expectDepth 1, .pushInt c.cap, .ctxField MINT_CTX_PRIOR_SUPPLY, .ctxField MINT_CTX_DELTA, .add, .lt,
    .not, .verify, .ctxField MINT_CTX_SIGHASH, .swap, .pushBytes c.issuerPubkey, .swap, .verifySig]

/-- Stack `[frozen, sig]`: not frozen, or signed by the authority. -/
def compileTransferPolicy (c : TransferPolicyConfig) : List Op :=
  [.expectDepth 2, .ctxField FIELD_SIGHASH, .pushBytes c.authorityPubkey, .pick 2, .verifySig, .pick 2,
    .not, .add, .pushInt 0, .swap, .lt]

/-- Stack `[datum, witness]`: the witness hashes to the root. -/
def compileKyc : List Op := [.expectDepth 2, .sha256d, .ctxField FIELD_KYC_ROOT, .eq]

/-- Stack `[datum, sig]`: the height has come, then the beneficiary. -/
def compileVesting (c : VestingConfig) : List Op :=
  [.expectDepth 2, .ctxField FIELD_HEIGHT, .pushInt c.unlockHeight, .lt, .not, .verify,
    .ctxField FIELD_SIGHASH, .pushBytes c.beneficiaryPubkey, .pick 2, .verifySig]

/-- Counts one signer's signature. At the copy the stack is `[datum, sigs.., count, msg, key]`. -/
def compileSigner (m : ℕ) (signer : Bytes × ℕ) : List Op :=
  [.ctxField FIELD_SIGHASH, .pushBytes signer.1, .pick (m + 3 - (signer.2 + 1)), .verifySig, .add]

/-- Stack `[datum, sig_1, .., sig_m]`: enough of the signers. A set no stack depth can
address, a repeated signer and a vacuous threshold give a program that always refuses. -/
def compileGovernance (c : GovernanceConfig) : List Op :=
  let m := c.signers.length
  if (c.signers ≠ [] ∧ c.threshold = 0) ∨ ¬ c.signers.Nodup ∨ 253 < m then [.pushInt 0]
  else
    .expectDepth (1 + m) :: .pushInt 0 :: c.signers.zipIdx.flatMap (compileSigner m) ++
      [.pushInt c.threshold, .lt, .not]

/-- Stack `[datum, ecdsa_sig, pq_sig]`: both keys. -/
def compileCustody (c : CustodyConfig) : List Op :=
  [.expectDepth 3, .ctxField FIELD_SIGHASH, .pushBytes c.btcPubkey, .pick 3, .verifyEcdsa, .verify,
    .ctxField FIELD_SIGHASH, .pushBytes c.pqPubkey, .pick 2, .verifySig]

def ModuleKind.compile : ModuleKind → List Op
  | .supply c => compileSupply c
  | .transferPolicy c => compileTransferPolicy c
  | .complianceKycGate => compileKyc
  | .vesting c => compileVesting c
  | .governance c => compileGovernance c
  | .custody c => compileCustody c

structure CompiledModule where
  kind : Tag
  program : List Op
  validatorHash : Bytes32
deriving DecidableEq

structure CompiledToken where
  charterId : Bytes32
  validators : List CompiledModule
deriving DecidableEq

def compileModule (h : Hashes) (m : ModuleKind) : CompiledModule :=
  ⟨m.tag, m.compile, validatorHash h m.compile⟩

def compileCharter (h : Hashes) (charter : TokenCharter) : CompiledToken where
  charterId := h.sha256d (ascii "USTAV-CHARTER-v1" ++ leBytes 4 charter.tokenName.length ++
    charter.tokenName ++
    charter.modules.flatMap (fun m => m.tagByte :: hashBytes (validatorHash h m.compile)))
  validators := charter.modules.map (compileModule h)

end BlochPos.Ustav
