import BlochPos.FeeMarket
import BlochPos.Lib.Atomic
import BlochPos.Lib.Metered
import BlochPos.Ustav.Audit
import BlochPos.Ustav.SparseTree

/-! The transition kernel of registered tokens: one asset is moved, minted or burned under its
charter's validators. -/
namespace BlochPos.Ustav

open Attempt

def KERNEL_VERSION : ℕ := 3
def MAX_INPUTS : ℕ := 128
def MAX_OUTPUTS : ℕ := 128
def MAX_WITNESS_BYTES : ℕ := 1024 * 1024
def MAX_SIGNATURE_BYTES : ℕ := 8192
def MAX_LEDGER_TOKENS : ℕ := 1024
def MAX_LEDGER_OUTPUTS : ℕ := 65536
def SIGNATURE_GAS : ℕ := 1000

structure Verifier where
  validPqKey : Bytes → Bool
  verifyPq : Bytes → Bytes → Bytes → Bool

/-- What the machine may call: there are no classical signatures here. -/
def Verifier.native (v : Verifier) : SigVerifier := ⟨v.verifyPq, fun _ _ _ => false⟩

inductive Error where
  | audit (report : AuditReport)
  | resourceLimit (what : String)
  | invalidCharter (why : String)
  | classicalPolicyNotAllowed | invalidKey | invalidSignature | alreadyRegistered | unknownAsset
  | missingInput | wrongAsset | nonCanonicalInputs | invalidAmount | valueNotConserved
  | supplyOutOfRange | invalidMintNonce | stalePolicy | expired | invalidWitness
  | invalidEligibility
  | moduleRejected (index : ℕ)
  | moduleVm (index : ℕ) (error : VmError)
  | outOfGas | arithmeticOverflow | outputCollision | invalidSnapshot | snapshotRootMismatch
deriving DecidableEq

/-- A check that is paid for in gas. -/
abbrev Metered (A : Type) := Attempt ℕ Error A

structure Registration where
  charter : TokenCharter
  nonce : Bytes32
  initialKycRoot : Option Bytes32
deriving DecidableEq

abbrev OutPoint := Bytes32 ×ₗ ℕ

def outPoint (transaction : Bytes32) (index : ℕ) : OutPoint := toLex (transaction, index)

structure Output where
  owner : Bytes
  amount : ℕ
deriving DecidableEq

structure UnspentOutput where
  asset : AssetId
  output : Output
deriving DecidableEq

structure Transaction where
  asset : AssetId
  inputs : List OutPoint
  outputs : List Output
  delta : ℤ
  (mintNonce policyRevision validUntil : ℕ)
deriving DecidableEq

structure Witnesses where
  owners : List Bytes
  modules : List (List Val)
  eligibility : List Proof
deriving DecidableEq

inductive PolicyAction where
  | setFrozen (frozen : Bool)
  | setKycRoot (root : Bytes32)
deriving DecidableEq

def PolicyAction.setsRoot : PolicyAction → Bool
  | .setFrozen _ => false
  | .setKycRoot _ => true

structure PolicyUpdate where
  asset : AssetId
  (revision validUntil : ℕ)
  action : PolicyAction
deriving DecidableEq

def putLong (b : Bytes) : Bytes := leBytes 8 b.length ++ b

def optionalHash : Option Bytes32 → Bytes
  | some hash => 1 :: hashBytes hash
  | none => [0]

section

variable (h : Hashes)

/-- The digest of a tagged encoding. -/
def tagged (tag : String) (body : Bytes) : Bytes32 := h.sha256d (putLong (ascii tag) ++ body)

def ModuleKind.bytes : ModuleKind → Bytes
  | .supply c => 1 :: leBytes 8 c.cap ++ putLong c.issuerPubkey
  | .transferPolicy c => 2 :: putLong c.authorityPubkey
  | .complianceKycGate => [3]
  | .vesting c => 4 :: leBytesInt 16 c.unlockHeight ++ putLong c.beneficiaryPubkey
  | .governance c => 5 :: leBytes 4 c.threshold ++ leBytes 8 c.signers.length ++ c.signers.flatMap putLong
  | .custody c => 6 :: putLong c.btcPubkey ++ putLong c.pqPubkey

section

variable (domain : Bytes32) (tx : Transaction) (r : Registration)

def assetHash : AssetId :=
  tagged h "USTAV-ASSET-v3" (hashBytes domain ++ leBytes 4 KERNEL_VERSION ++ leBytes 4 RULESET_VERSION ++
    hashBytes r.nonce ++ putLong r.charter.tokenName ++ leBytes 8 r.charter.modules.length ++
    r.charter.modules.flatMap ModuleKind.bytes)

def registrationHash : Bytes32 :=
  tagged h "USTAV-REGISTER-v3" (hashBytes (assetHash h domain r) ++ optionalHash r.initialKycRoot)

def OutPoint.bytes (id : OutPoint) : Bytes := hashBytes (ofLex id).1 ++ leBytes 4 (ofLex id).2

def Output.bytes (o : Output) : Bytes := putLong o.owner ++ leBytes 8 o.amount

def Transaction.bytes : Bytes :=
  hashBytes domain ++ leBytes 4 KERNEL_VERSION ++ hashBytes tx.asset ++
    leBytes 8 tx.inputs.length ++ tx.inputs.flatMap OutPoint.bytes ++
    leBytes 8 tx.outputs.length ++ tx.outputs.flatMap Output.bytes ++
    leBytesInt 16 tx.delta ++ leBytes 8 tx.mintNonce ++ leBytes 8 tx.policyRevision ++
    leBytes 8 tx.validUntil

def transactionHash : Bytes32 :=
  tagged h "USTAV-TRANSACTION-v3" (tx.bytes domain)

def PolicyAction.bytes : PolicyAction → Bytes
  | .setFrozen frozen => [1, if frozen then 1 else 0]
  | .setKycRoot root => 2 :: hashBytes root

def PolicyUpdate.signingHash (update : PolicyUpdate) : Bytes32 :=
  tagged h "USTAV-POLICY-UPDATE-v3" (hashBytes domain ++ leBytes 4 KERNEL_VERSION ++
    hashBytes update.asset ++ leBytes 8 update.revision ++ leBytes 8 update.validUntil ++
    update.action.bytes)

end

/-- The leaf a holder has in the register of eligible owners. -/
def eligibilityKey (domain asset : Bytes32) (owner : Bytes) : Bytes32 :=
  tagged h "USTAV-ELIGIBILITY-v3" (hashBytes domain ++ hashBytes asset ++ putLong owner)

end

namespace Registration

def checkLimits (r : Registration) : Except Error Unit :=
  match resourceError r.charter with
  | some (_, reason) => .error (.resourceLimit reason)
  | none => .ok ()

def signingHash (h : Hashes) (domain : Bytes32) (r : Registration) : Except Error Bytes32 := do
  r.checkLimits
  pure (registrationHash h domain r)

def assetId (h : Hashes) (domain : Bytes32) (r : Registration) : Except Error AssetId := do
  r.checkLimits
  pure (assetHash h domain r)

end Registration

namespace Transaction

def checkOwner (bytes : ℕ) (output : Output) : Except Error ℕ := do
  refuse (output.owner = [] ∨ MAX_KEY_BYTES < output.owner.length) .invalidKey
  pure (satAdd u64Max bytes output.owner.length)

def checkShape (tx : Transaction) : Except Error Unit := do
  refuse (MAX_INPUTS < tx.inputs.length ∨ MAX_OUTPUTS < tx.outputs.length)
    (.resourceLimit "transaction input/output count")
  refuse (¬ tx.inputs.IsChain (· < ·)) .nonCanonicalInputs
  refuse (∃ o ∈ tx.outputs, o.amount = 0) .invalidAmount
  let bytes ← tx.outputs.foldlM checkOwner 0
  refuse (MAX_WITNESS_BYTES < bytes) (.resourceLimit "output key bytes")
  refuse (tx.inputs = [] ∧ tx.delta ≤ 0) .invalidAmount
  refuse (u64Max < tx.delta.natAbs) .supplyOutOfRange
  refuse (tx.delta ≤ 0 ∧ tx.mintNonce ≠ 0) .invalidMintNonce

def signingHash (h : Hashes) (domain : Bytes32) (tx : Transaction) : Except Error Bytes32 := do
  tx.checkShape
  pure (transactionHash h domain tx)

end Transaction

namespace Witnesses

def checkOwner (bytes : ℕ) (sig : Bytes) : Except Error ℕ := do
  refuse (MAX_SIGNATURE_BYTES < sig.length) (.resourceLimit "owner signature")
  pure (satAdd u64Max bytes sig.length)

def checkValue (bytes : ℕ) : Val → Except Error ℕ
  | .bytes b => do
    refuse (MAX_SIGNATURE_BYTES < b.length) (.resourceLimit "module signature")
    pure (satAdd u64Max bytes b.length)
  | .int _ => .error .invalidWitness

def checkRedeemer (bytes : ℕ) (redeemer : List Val) : Except Error ℕ := do
  refuse (253 < redeemer.length) (.resourceLimit "module witness arity")
  redeemer.foldlM checkValue bytes

def checkProof (bytes : ℕ) (proof : Proof) : Except Error ℕ := do
  refuse (proof.key.length ≠ 32 ∨ proof.value.map List.length ≠ some 8 ∨
    proof.siblings.length ≠ TREE_DEPTH) .invalidEligibility
  pure (satAdd u64Max bytes (40 + TREE_DEPTH * 32))

/-- The bytes of the witnesses of a transition with so many validators and inputs. -/
def check (w : Witnesses) (modules owners : ℕ) : Except Error ℕ := do
  refuse (w.modules.length ≠ modules ∨ w.owners.length ≠ owners ∨
    MAX_INPUTS + MAX_OUTPUTS < w.eligibility.length) .invalidWitness
  let bytes ← w.owners.foldlM checkOwner 0
  let bytes ← w.modules.foldlM checkRedeemer bytes
  let bytes ← w.eligibility.foldlM checkProof bytes
  refuse (MAX_WITNESS_BYTES < bytes) (.resourceLimit "total witness bytes")
  pure bytes

end Witnesses

structure Token where
  registration : Registration
  compiled : CompiledToken
  audit : AuditReport
  (supply mintNonce revision : ℕ)
  frozen : Bool
  kycRoot : Option Bytes32
deriving DecidableEq

namespace Token

def supplyConfig (token : Token) : Except Error SupplyConfig :=
  orRefuse (token.registration.charter.modules.findSome? (fun m => match m with
    | .supply c => some c
    | _ => none)) (.invalidCharter "missing Supply module")

def issuer (token : Token) : Except Error Bytes := do
  let c ← token.supplyConfig
  pure c.issuerPubkey

def cap (token : Token) : Except Error ℕ := do
  let c ← token.supplyConfig
  pure c.cap

end Token

def words (bytes : ℕ) : ℕ := satAdd u64Max bytes 31 / 32

def registrationCost (r : Registration) : ℕ :=
  let bytes := (r.charter.modules.flatMap ModuleKind.keys).foldl
    (fun bytes key => satAdd u64Max bytes key.2.length) r.charter.tokenName.length
  satAdd u64Max (satAdd u64Max 1000 (satMul u64Max (words bytes) 16))
    (satMul u64Max r.charter.modules.length 100)

def ModuleKind.tooLate : ModuleKind → Bool
  | .vesting c => (u64Max : ℤ) < c.unlockHeight
  | _ => false

def checkKey (v : Verifier) (key : Bool × Bytes) : Except Error Unit := do
  refuse (key.1 = true) .classicalPolicyNotAllowed
  refuse (v.validPqKey key.2 = false) .invalidKey

/-- One module of a charter, with the kinds before it. -/
def checkModule (v : Verifier) (tags : Finset Tag) (m : ModuleKind) : Except Error (Finset Tag) := do
  refuse (m.tag = .custody) .classicalPolicyNotAllowed
  refuse (m.tag ∈ tags) (.invalidCharter "duplicate module")
  refuse (m.tooLate = true) (.invalidCharter "vesting height exceeds host u64 range")
  forM m.keys (checkKey v)
  pure (insert m.tag tags)

def validateRegistration (h : Hashes) (r : Registration) (v : Verifier) : Except Error Token := do
  r.checkLimits
  refuse (r.charter.tokenName = []) (.invalidCharter "empty token name")
  let tags ← r.charter.modules.foldlM (checkModule v) ∅
  refuse (.supply ∉ tags) (.invalidCharter "missing Supply module")
  refuse (¬ (.kycGate ∈ tags ↔ r.initialKycRoot.isSome)) (.invalidCharter "KYC module/root mismatch")
  refuse (.kycGate ∈ tags ∧ .transferPolicy ∉ tags)
    (.invalidCharter "KYC requires an explicit update authority")
  let (compiled, audit) ← (compileCharterWithReport h r.charter).mapError .audit
  refuse (∃ m ∈ compiled.validators, .verifyEcdsa ∈ m.program) .classicalPolicyNotAllowed
  pure ⟨r, compiled, audit, 0, 0, 0, false, r.initialKycRoot⟩

section

variable (h : Hashes) (token : Token) (message : Bytes32) (height : ℕ)

/-- Whether a module has a say on a change of supply, on a spend, or on an update. -/
def ModuleKind.applicable (delta : ℤ) (spends admin : Bool) : ModuleKind → Bool
  | .supply _ => delta ≠ 0 ∧ admin = false
  | .complianceKycGate => false
  | .vesting _ => spends = true ∧ admin = false
  | _ => true

def ModuleKind.arity : ModuleKind → ℕ
  | .governance c => c.signers.length
  | _ => 1

def ModuleKind.fields (delta : ℤ) : ModuleKind → List Val
  | .supply _ => [.bytes (hashBytes message), .int delta, .int height, .int token.supply]
  | _ => [.bytes (hashBytes message), .int height, .bytes (hashBytes (token.kycRoot.getD 0))]

def ModuleKind.seed (admin : Bool) (redeemer : List Val) : ModuleKind → List Val
  | .supply _ => redeemer
  | _ => ofBool (token.frozen || admin) :: redeemer

def runMetered (index : ℕ) (program : List Op) (initial : List Val) (ctx : Ctx) (v : Verifier) :
    Metered Unit := do
  let gas ← get
  match run h ctx v.native program initial gas with
  | .ok (true, left) => set left
  | .ok (false, left) => do
    set left
    Attempt.check (.error (.moduleRejected index))
  | .error .outOfGas => Attempt.check (.error .outOfGas)
  | .error e => Attempt.check (.error (.moduleVm index e))

def runModule (delta : ℤ) (spends admin : Bool) (v : Verifier)
    (entry : ((ModuleKind × CompiledModule) × List Val) × ℕ) : Metered Unit :=
  let (((m, compiled), redeemer), index) := entry
  if m.tag = .custody then Attempt.check (.error .classicalPolicyNotAllowed)
  else if m.applicable delta spends admin then do
    Attempt.check (refuse (redeemer.length ≠ m.arity) .invalidWitness)
    runMetered h index compiled.program (m.seed token admin redeemer)
      (.ofFields (m.fields token message height delta)) v
  else Attempt.check (refuse (redeemer ≠ []) .invalidWitness)

/-- Each module of the charter on its own redeemer. -/
def runModules (w : Witnesses) (delta : ℤ) (spends admin : Bool) (v : Verifier) : Metered Unit :=
  forM (((token.registration.charter.modules.zip token.compiled.validators).zip w.modules).zipIdx)
    (runModule h token message height delta spends admin v)

def checkSubject (root : Bytes32) (entry : Bytes32 × Proof) : Metered Unit := do
  charge verifyGas .outOfGas
  Attempt.check (refuse (entry.2.key ≠ hashBytes entry.1 ∨ entry.2.verify h root = false)
    .invalidEligibility)
  let value ← Attempt.check (orRefuse entry.2.value .invalidEligibility)
  Attempt.check (refuse (value.length ≠ 8) .invalidEligibility)
  Attempt.check (refuse (ofLeBytes value < height) .invalidEligibility)

/-- Every owner named needs a proof under the root, if there is one. -/
def checkEligibility (subjects : Finset Bytes32) (w : Witnesses) : Metered Unit :=
  match token.kycRoot with
  | none => Attempt.check (refuse (w.eligibility ≠ []) .invalidWitness)
  | some root => do
    Attempt.check (refuse (subjects.card ≠ w.eligibility.length) .invalidEligibility)
    forM ((subjects.sort (· ≤ ·)).zip w.eligibility) (checkSubject h height root)

end

structure Ledger where
  domain : Bytes32
  tokens : SortedMap AssetId Token
  outputs : SortedMap OutPoint UnspentOutput
deriving DecidableEq

structure TokenSnapshot where
  registration : Registration
  (supply mintNonce revision : ℕ)
  frozen : Bool
  kycRoot : Option Bytes32

structure Snapshot where
  version : ℕ
  domain : Bytes32
  tokens : List (AssetId × TokenSnapshot)
  outputs : List (OutPoint × UnspentOutput)

def Token.snapshot (t : Token) : TokenSnapshot :=
  ⟨t.registration, t.supply, t.mintNonce, t.revision, t.frozen, t.kycRoot⟩

structure Receipt where
  transaction : Bytes32
  outputs : List OutPoint
  (supply gasUsed : ℕ)
deriving DecidableEq

namespace Ledger

def new (domain : Bytes32) : Ledger := ⟨domain, .empty, .empty⟩

def supply (l : Ledger) (asset : AssetId) : Option ℕ := (l.tokens.get? asset).map Token.supply

def nextMintNonce (l : Ledger) (asset : AssetId) : Option ℕ := (l.tokens.get? asset).map Token.mintNonce

def registration (l : Ledger) (asset : AssetId) : Option Registration :=
  (l.tokens.get? asset).map Token.registration

section

variable (h : Hashes)

def checkRegister (l : Ledger) (r : Registration) (signature : Bytes) (v : Verifier) :
    Metered (AssetId × Token) := do
  Attempt.check (refuse (MAX_LEDGER_TOKENS ≤ l.tokens.size) (.resourceLimit "ledger token count"))
  let _ ← Attempt.check (r.signingHash h l.domain)
  Attempt.check (refuse (MAX_SIGNATURE_BYTES < signature.length) (.resourceLimit "registration signature"))
  charge (registrationCost r) .outOfGas
  let token ← Attempt.check (validateRegistration h r v)
  let asset ← Attempt.check (token.registration.assetId h l.domain)
  Attempt.check (refuse (l.tokens.contains asset) .alreadyRegistered)
  let message ← Attempt.check (token.registration.signingHash h l.domain)
  charge SIGNATURE_GAS .outOfGas
  let issuer ← Attempt.check token.issuer
  Attempt.check (refuse (v.verifyPq (hashBytes message) issuer signature = false) .invalidSignature)
  pure (asset, token)

def register (r : Registration) (signature : Bytes) (v : Verifier) (gasLimit : ℕ) :
    Attempt Ledger Error AssetId :=
  transact (fun l => metered (l.checkRegister h r signature v) gasLimit)
    (fun l plan => { l with tokens := l.tokens.insert plan.1.1 plan.1.2 }) (fun plan => plan.1.1)

/-- Amounts and owners of the inputs, or of the outputs as well. -/
structure Side where
  total : ℤ
  subjects : Finset Bytes32

section

variable (l : Ledger) (tx : Transaction)

def spendInput (message : Bytes32) (v : Verifier) (seen : Side)
    (input : OutPoint × Bytes) : Metered Side := do
  let held ← Attempt.check (orRefuse (l.outputs.get? input.1) .missingInput)
  Attempt.check (refuse (held.asset ≠ tx.asset) .wrongAsset)
  let total ← Attempt.check (orRefuse (checkedI128 (seen.total + held.output.amount)) .arithmeticOverflow)
  charge SIGNATURE_GAS .outOfGas
  Attempt.check (refuse (v.verifyPq (hashBytes message) held.output.owner input.2 = false)
    .invalidSignature)
  pure ⟨total, insert (eligibilityKey h l.domain tx.asset held.output.owner) seen.subjects⟩

def createOutput (v : Verifier) (seen : Side) (output : Output) : Metered Side := do
  charge (satAdd u64Max (words output.owner.length) 1) .outOfGas
  Attempt.check (refuse (v.validPqKey output.owner = false) .invalidKey)
  let total ← Attempt.check (orRefuse (checkedI128 (seen.total + output.amount)) .arithmeticOverflow)
  pure ⟨total, insert (eligibilityKey h l.domain tx.asset output.owner) seen.subjects⟩

/-- A transaction ready to be carried out. -/
structure Planned where
  message : Bytes32
  token : Token
  (supply nextNonce : ℕ)

def Planned.ids (p : Planned) (tx : Transaction) : List OutPoint :=
  (List.range tx.outputs.length).map (outPoint p.message)

def checkSupply (token : Token) (delta : ℤ) : Except Error ℕ := do
  let supply ← orRefuse (checkedI128 (token.supply + delta)) .arithmeticOverflow
  refuse (supply < 0) .supplyOutOfRange
  let cap ← token.cap
  refuse ((cap : ℤ) < supply) .supplyOutOfRange
  pure supply.toNat

/-- Minting uses up the next nonce. -/
def checkNonce (token : Token) (tx : Transaction) : Except Error ℕ :=
  if 0 < tx.delta then do
    refuse (tx.mintNonce ≠ token.mintNonce) .invalidMintNonce
    orRefuse (checkedAdd u64Max token.mintNonce 1) .arithmeticOverflow
  else pure token.mintNonce

def outputBytes : ℕ :=
  tx.outputs.foldl (fun n o => satAdd u64Max (satAdd u64Max n o.owner.length) 16) 0

/-- The checks of a transaction in their order, metered. -/
def checkApply (w : Witnesses) (height : ℕ) (v : Verifier) : Metered Planned := do
  Attempt.check tx.checkShape
  let token ← Attempt.check (orRefuse (l.tokens.get? tx.asset) .unknownAsset)
  Attempt.check (refuse (tx.validUntil < height) .expired)
  Attempt.check (refuse (tx.policyRevision ≠ token.revision) .stalePolicy)
  let witnessBytes ← Attempt.check (w.check token.compiled.validators.length tx.inputs.length)
  let bytes := satAdd u64Max witnessBytes (outputBytes tx)
  Attempt.check (refuse (MAX_WITNESS_BYTES < bytes) (.resourceLimit "transaction and witness bytes"))
  charge (satAdd u64Max (satAdd u64Max 100 (words bytes)) tx.inputs.length) .outOfGas
  let message ← Attempt.check (tx.signingHash h l.domain)
  let spent ← (tx.inputs.zip w.owners).foldlM (l.spendInput h tx message v) ⟨0, ∅⟩
  let made ← tx.outputs.foldlM (l.createOutput h tx v) ⟨0, spent.subjects⟩
  Attempt.check (refuse (checkedI128 (spent.total + tx.delta) ≠ some made.total) .valueNotConserved)
  let supply ← Attempt.check (checkSupply token tx.delta)
  let nextNonce ← Attempt.check (checkNonce token tx)
  runModules h token message height w tx.delta (tx.inputs ≠ []) false v
  checkEligibility h token height made.subjects w
  let planned : Planned := ⟨message, token, supply, nextNonce⟩
  Attempt.check (refuse (∃ id ∈ planned.ids tx, l.outputs.contains id) .outputCollision)
  let count ← Attempt.check (orRefuse ((checkedSub l.outputs.size tx.inputs.length).bind
    (checkedAdd u64Max · tx.outputs.length)) .arithmeticOverflow)
  Attempt.check (refuse (MAX_LEDGER_OUTPUTS < count) (.resourceLimit "ledger output count"))
  pure planned

def commitApply (p : Planned) : Ledger :=
  { l with
    tokens := l.tokens.insert tx.asset { p.token with supply := p.supply, mintNonce := p.nextNonce }
    outputs := ((p.ids tx).zip tx.outputs).foldl (fun m e => m.insert e.1 ⟨tx.asset, e.2⟩)
      (tx.inputs.foldl SortedMap.erase l.outputs) }

end

def apply (tx : Transaction) (w : Witnesses) (height : ℕ) (v : Verifier) (gasLimit : ℕ) :
    Attempt Ledger Error Receipt :=
  transact (fun l => metered (l.checkApply h tx w height v) gasLimit)
    (fun l plan => l.commitApply tx plan.1)
    (fun plan => ⟨plan.1.message, plan.1.ids tx, plan.1.supply, gasLimit - plan.2⟩)

def checkUpdate (l : Ledger) (update : PolicyUpdate) (w : Witnesses) (height : ℕ) (v : Verifier) :
    Metered (Token × ℕ) := do
  let token ← Attempt.check (orRefuse (l.tokens.get? update.asset) .unknownAsset)
  Attempt.check (refuse (update.revision ≠ token.revision) .stalePolicy)
  Attempt.check (refuse (update.validUntil < height) .expired)
  Attempt.check (refuse (¬ ∃ m ∈ token.registration.charter.modules, m.tag = .transferPolicy)
    (.invalidCharter "no policy update authority"))
  Attempt.check (refuse (update.action.setsRoot ∧ token.kycRoot = none)
    (.invalidCharter "no KYC module"))
  let bytes ← Attempt.check (w.check token.compiled.validators.length 0)
  Attempt.check (refuse (w.eligibility ≠ []) .invalidWitness)
  let next ← Attempt.check (orRefuse (checkedAdd u64Max token.revision 1) .arithmeticOverflow)
  charge (satAdd u64Max 100 (words bytes)) .outOfGas
  runModules h token (update.signingHash h l.domain) height w 0 false true v
  pure (token, next)

def commitUpdate (l : Ledger) (update : PolicyUpdate) (token : Token) (next : ℕ) : Ledger :=
  let changed := match update.action with
    | .setFrozen frozen => { token with frozen := frozen }
    | .setKycRoot root => { token with kycRoot := some root }
  { l with tokens := l.tokens.insert update.asset { changed with revision := next } }

def updatePolicy (update : PolicyUpdate) (w : Witnesses) (height : ℕ) (v : Verifier) (gasLimit : ℕ) :
    Attempt Ledger Error ℕ :=
  transact (fun l => metered (l.checkUpdate h update w height v) gasLimit)
    (fun l plan => l.commitUpdate update plan.1.1 plan.1.2) (fun plan => gasLimit - plan.2)

def tokenLeaf (domain : Bytes32) (token : Token) : Bytes32 :=
  tagged h "USTAV-TOKEN-STATE-v3" (hashBytes (registrationHash h domain token.registration) ++
    hashBytes token.compiled.charterId ++ leBytes 8 token.supply ++ leBytes 8 token.mintNonce ++
    leBytes 8 token.revision ++ [if token.frozen then 1 else 0] ++ optionalHash token.kycRoot)

def outputLeaf (output : UnspentOutput) : Bytes32 :=
  tagged h "USTAV-OUTPUT-v3" (hashBytes output.asset ++ output.output.bytes)

def configLeaf (domain : Bytes32) : Bytes32 :=
  tagged h "USTAV-LEDGER-v3" (hashBytes domain ++ leBytes 4 KERNEL_VERSION ++ leBytes 4 RULESET_VERSION)

def stateTree (l : Ledger) : SparseMerkleTree :=
  let config := SparseMerkleTree.new.insert (ascii "config") (hashBytes (configLeaf h l.domain))
  let tokens := l.tokens.entries.foldl
    (fun tree e => tree.insert (1 :: hashBytes e.1) (hashBytes (tokenLeaf h l.domain e.2))) config
  l.outputs.entries.foldl
    (fun tree e => tree.insert (2 :: e.1.bytes) (hashBytes (outputLeaf h e.2))) tokens

def stateRoot (l : Ledger) : Bytes32 := (l.stateTree h).root h

def snapshot (l : Ledger) : Snapshot :=
  ⟨KERNEL_VERSION, l.domain, l.tokens.entries.map (fun e => (e.1, e.2.snapshot)), l.outputs.entries⟩

def restoreToken (v : Verifier) (l : Ledger) (entry : AssetId × TokenSnapshot) : Except Error Ledger := do
  let state := entry.2
  let token ← validateRegistration h state.registration v
  let asset ← token.registration.assetId h l.domain
  let cap ← token.cap
  refuse (asset ≠ entry.1 ∨ cap < state.supply ∨ token.kycRoot.isSome ≠ state.kycRoot.isSome ∨
    state.revision = 0 ∧ (state.frozen = true ∨ state.kycRoot ≠ token.kycRoot)) .invalidSnapshot
  pure { l with tokens := l.tokens.insert entry.1 { token with
    supply := state.supply
    mintNonce := state.mintNonce
    revision := state.revision
    frozen := state.frozen
    kycRoot := state.kycRoot } }

/-- The outputs read so far, with what each asset adds up to. -/
structure Restoring where
  ledger : Ledger
  totals : SortedMap AssetId ℕ

def restoreOutput (v : Verifier) (r : Restoring) (entry : OutPoint × UnspentOutput) :
    Except Error Restoring := do
  let output := entry.2
  refuse (output.output.amount = 0 ∨ MAX_KEY_BYTES < output.output.owner.length ∨
    v.validPqKey output.output.owner = false ∨ r.ledger.tokens.contains output.asset = false)
    .invalidSnapshot
  let total ← orRefuse (checkedAdd u128Max (r.totals.getD output.asset 0) output.output.amount)
    .arithmeticOverflow
  pure ⟨{ r.ledger with outputs := r.ledger.outputs.insert entry.1 output },
    r.totals.insert output.asset total⟩

def restore (s : Snapshot) (expectedRoot : Bytes32) (v : Verifier) : Except Error Ledger := do
  refuse (s.version ≠ KERNEL_VERSION ∨ MAX_LEDGER_TOKENS < s.tokens.length ∨
    MAX_LEDGER_OUTPUTS < s.outputs.length) .invalidSnapshot
  refuse (¬ (s.tokens.map Prod.fst).IsChain (· < ·) ∨ ¬ (s.outputs.map Prod.fst).IsChain (· < ·))
    .invalidSnapshot
  let ledger ← s.tokens.foldlM (restoreToken h v) (.new s.domain)
  let read ← s.outputs.foldlM (restoreOutput v) ⟨ledger, .empty⟩
  refuse (∃ e ∈ read.ledger.tokens.entries, read.totals.getD e.1 0 ≠ e.2.supply) .invalidSnapshot
  refuse (read.ledger.stateRoot h ≠ expectedRoot) .snapshotRootMismatch
  pure read.ledger

end

end Ledger

end BlochPos.Ustav
