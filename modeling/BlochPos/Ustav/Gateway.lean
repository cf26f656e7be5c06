import BlochPos.Ustav.Pairs

/-! Deposits of an external token and their redemption, on top of the ledger. -/
namespace BlochPos.Ustav.Gateway

open Attempt

def VERSION : ℕ := 1
def MAX_ROUTES : ℕ := 32
def MAX_RECORDS : ℕ := 65536
def MAX_COMMITTEE : ℕ := 16

inductive GatewayError where
  | native (e : Error)
  | pair (e : PairError)
  | invalidRoute | unknownRoute | invalidRequest | replay | unauthorized
  | supplyChangeRequiresBridge | insufficientBacking | resourceLimit | invalidSnapshot
deriving DecidableEq

abbrev Address := Fin (2 ^ 160)

instance neZero_address : NeZero (2 ^ 160) := inferInstance

def wordTag (name : String) : Bytes := ascii name ++ List.replicate (32 - (ascii name).length) 0

def wordNumber (n : ℕ) : Bytes := beBytes 32 n

def wordAddress (a : Address) : Bytes := beBytes 32 a.val

section

variable (h : Hashes)

def hashWords (parts : List Bytes) : Bytes32 := h.sha256 parts.flatten

def recipientHash (key : Bytes) : Bytes32 := h.sha256 key

structure Route where
  (sourceDomain nativeDomain : Bytes32)
  nativeAsset : AssetId
  (token vault : Address)
  (decimals cap : ℕ)
  vaultCodeHash : Bytes32
deriving DecidableEq

/-- The words a route is known by. The hash of the vault's code is not among them. -/
def Route.words (r : Route) : List Bytes :=
  [wordTag "BLOCH-USDT-ROUTE-v1", hashBytes r.sourceDomain, hashBytes r.nativeDomain, hashBytes r.nativeAsset,
    wordAddress r.token, wordAddress r.vault, wordNumber r.decimals, wordNumber r.cap]

def Route.id (r : Route) : Bytes32 := hashWords h r.words

structure RouteConfig where
  route : Route
  committee : List Bytes
  threshold : ℕ
deriving DecidableEq

def RouteConfig.signingHash (c : RouteConfig) : Bytes32 :=
  tagged h "USTAV-USDT-ENABLE-v1" (hashBytes (c.route.id h) ++ hashBytes c.route.vaultCodeHash ++
    leBytes 4 c.threshold ++ leBytes 8 c.committee.length ++ c.committee.flatMap putLong)

structure Deposit where
  route : Bytes32
  nonce : ℕ
  sender : Address
  amount : ℕ
  pqRecipientHash : Bytes32
deriving DecidableEq

def Deposit.id (d : Deposit) : Bytes32 :=
  hashWords h [wordTag "BLOCH-USDT-DEPOSIT-v1", hashBytes d.route, wordNumber d.nonce, wordAddress d.sender,
    wordNumber d.amount, hashBytes d.pqRecipientHash]

structure ImportRequest where
  deposit : Deposit
  (sourceTransaction sourceBlock : Bytes32)
  (eventIndex validUntil : ℕ)
  transaction : Transaction
deriving DecidableEq

def ImportRequest.signingHash (domain : Bytes32) (r : ImportRequest) : Except GatewayError Bytes32 := do
  let native ← (r.transaction.signingHash h domain).mapError .native
  pure (tagged h "USTAV-USDT-IMPORT-v1" (hashBytes domain ++ hashBytes (r.deposit.id h) ++
    hashBytes r.sourceTransaction ++ hashBytes r.sourceBlock ++ leBytes 4 r.eventIndex ++
    leBytes 8 r.validUntil ++ hashBytes native))

structure WithdrawalRequest where
  route : Bytes32
  nonce : ℕ
  recipient : Address
  transaction : Transaction
deriving DecidableEq

def WithdrawalRequest.signingHash (domain : Bytes32) (r : WithdrawalRequest) :
    Except GatewayError Bytes32 := do
  let native ← (r.transaction.signingHash h domain).mapError .native
  pure (tagged h "USTAV-USDT-WITHDRAW-v1" (hashBytes domain ++ hashBytes r.route ++ leBytes 8 r.nonce ++
    beBytes 20 r.recipient.val ++ hashBytes native))

structure Release where
  route : Bytes32
  nonce : ℕ
  recipient : Address
  amount : ℕ
  nativeBurn : Bytes32
deriving DecidableEq

def Release.id (r : Release) : Bytes32 :=
  hashWords h [wordTag "BLOCH-USDT-RELEASE-v1", hashBytes r.route, wordNumber r.nonce, wordAddress r.recipient,
    wordNumber r.amount, hashBytes r.nativeBurn]

structure RouteState where
  config : RouteConfig
  (imported burned nextReleaseNonce : ℕ)
deriving DecidableEq

structure ImportRecord where
  deposit : Deposit
  (sourceTransaction sourceBlock : Bytes32)
  eventIndex : ℕ
  nativeTransaction : Bytes32
deriving DecidableEq

/-- A source event: its chain, the vault, the transaction and the place there. -/
abbrev EventKey := Bytes32 × Address × Bytes32 × ℕ

/-- A record by its route and its number there. -/
abbrev RecordKey := Bytes32 ×ₗ ℕ

def ImportRecord.key (r : ImportRecord) : RecordKey := toLex (r.deposit.route, r.deposit.nonce)

def Release.key (r : Release) : RecordKey := toLex (r.route, r.nonce)

def ImportRecord.event (route : Route) (r : ImportRecord) : EventKey :=
  (route.sourceDomain, route.vault, r.sourceTransaction, r.eventIndex)

structure Snapshot where
  version : ℕ
  native : Ustav.Snapshot
  nativeRoot : Bytes32
  routes : List RouteState
  imports : List ImportRecord
  releases : List Release

structure GatewayLedger where
  native : Ledger
  routes : SortedMap Bytes32 RouteState
  imports : SortedMap RecordKey ImportRecord
  events : Finset EventKey
  releases : SortedMap RecordKey Release
deriving DecidableEq

def RouteState.bytes (s : RouteState) : Bytes :=
  hashBytes (s.config.signingHash h) ++ leBytes 16 s.imported ++ leBytes 16 s.burned ++
    leBytes 8 s.nextReleaseNonce

def ImportRecord.bytes (r : ImportRecord) : Bytes :=
  hashBytes (r.deposit.id h) ++ hashBytes r.sourceTransaction ++ hashBytes r.sourceBlock ++
    leBytes 4 r.eventIndex ++ hashBytes r.nativeTransaction

/-- Whether the transaction of an import is anything but the issue of the deposit to its recipient. -/
def ImportRequest.mismatched (route : Route) (height : ℕ) (r : ImportRequest) : Bool :=
  r.deposit.amount = 0 || r.deposit.sender = 0 || r.deposit.pqRecipientHash = 0 || r.sourceTransaction = 0 ||
    r.sourceBlock = 0 || r.validUntil < height || r.validUntil < r.transaction.validUntil ||
    r.transaction.asset ≠ route.nativeAsset || r.transaction.inputs ≠ [] ||
    match r.transaction.outputs with
    | [o] => r.transaction.delta ≠ r.deposit.amount || o.amount ≠ r.deposit.amount ||
        recipientHash h o.owner ≠ r.deposit.pqRecipientHash
    | _ => true

end

def ImportRequest.record (r : ImportRequest) (nativeTransaction : Bytes32) : ImportRecord :=
  ⟨r.deposit, r.sourceTransaction, r.sourceBlock, r.eventIndex, nativeTransaction⟩

/-- Signatures under a transaction's digest are checked against the digest of the request. -/
def scopeTo (v : Verifier) (nativeMessage message : Bytes32) : Verifier where
  validPqKey := v.validPqKey
  verifyPq m key sig := m = hashBytes nativeMessage && v.verifyPq (hashBytes message) key sig

/-- The issuer of an asset whose charter is a supply and nothing else. -/
def supplyProfile (native : Ledger) (asset : AssetId) : Except GatewayError SupplyConfig :=
  match native.registration asset with
  | some r => match r.charter.modules with
    | [.supply c] => .ok c
    | _ => .error .invalidRoute
  | none => .error .invalidRoute

def validateConfig (native : Ledger) (c : RouteConfig) (v : Verifier) : Except GatewayError Unit := do
  let r := c.route
  refuse (r.nativeDomain ≠ native.domain ∨ r.sourceDomain = 0 ∨ r.sourceDomain = r.nativeDomain ∨
    r.nativeAsset = BLCH ∨ r.token = 0 ∨ r.vault = 0 ∨ r.token = r.vault ∨ r.vaultCodeHash = 0 ∨
    r.decimals ≠ 6 ∨ r.cap = 0 ∨ MAX_COMMITTEE < c.committee.length ∨ c.threshold < 2 ∨
    c.committee.length < c.threshold ∨ ¬ c.committee.IsChain (· < ·) ∨
    ∃ key ∈ c.committee, MAX_KEY_BYTES < key.length ∨ v.validPqKey key = false) .invalidRoute
  let supply ← supplyProfile native r.nativeAsset
  refuse (supply.cap < r.cap) .invalidRoute

/-- One member's approval, which may be left out. -/
def checkApproval (message : Bytes32) (v : Verifier) (accepted : ℕ) (entry : Bytes × Bytes) :
    Attempt ℕ GatewayError ℕ :=
  if entry.2 = [] then pure accepted
  else do
    charge (satAdd u64Max 1000 (words (entry.1.length + entry.2.length))) (.native .outOfGas)
    check (refuse (v.verifyPq (hashBytes message) entry.1 entry.2 = false) .unauthorized)
    pure (satAdd 65535 accepted 1)

def verifyQuorum (c : RouteConfig) (message : Bytes32) (approvals : List Bytes) (v : Verifier) :
    Attempt ℕ GatewayError Unit := do
  check (refuse (approvals.length ≠ c.committee.length ∨
    ∃ sig ∈ approvals, MAX_SIGNATURE_BYTES < sig.length) .unauthorized)
  charge 200 (.native .outOfGas)
  let accepted ← (c.committee.zip approvals).foldlM (checkApproval message v) 0
  check (refuse (accepted < c.threshold) .unauthorized)

namespace GatewayLedger

variable (h : Hashes)

def new (domain : Bytes32) : GatewayLedger := ⟨.new domain, .empty, .empty, ∅, .empty⟩

def onNative {E A : Type} (f : E → GatewayError) (x : Attempt Ledger E A) : Attempt GatewayLedger GatewayError A :=
  transact (fun l => (outcome x l.native).mapError f) (fun l plan => { l with native := plan.2 }) Prod.fst

def register (r : Registration) (signature : Bytes) (v : Verifier) (gasLimit : ℕ) :
    Attempt GatewayLedger GatewayError AssetId :=
  onNative .native (Ledger.register h r signature v gasLimit)

def checkEnable (l : GatewayLedger) (c : RouteConfig) (issuerSignature : Bytes) (approvals : List Bytes)
    (v : Verifier) : Attempt ℕ GatewayError Unit := do
  check (refuse (MAX_ROUTES ≤ l.routes.size) .resourceLimit)
  check (validateConfig l.native c v)
  check (refuse (l.native.supply c.route.nativeAsset ≠ some 0 ∨
    l.native.nextMintNonce c.route.nativeAsset ≠ some 0 ∨ ∃ s ∈ l.routes.values,
      s.config.route.sourceDomain = c.route.sourceDomain ∧ s.config.route.vault = c.route.vault) .invalidRoute)
  let message := c.signingHash h
  verifyQuorum c message approvals v
  let supply ← check (supplyProfile l.native c.route.nativeAsset)
  check (refuse (MAX_SIGNATURE_BYTES < issuerSignature.length) .resourceLimit)
  charge 1000 (.native .outOfGas)
  check (refuse (v.verifyPq (hashBytes message) supply.issuerPubkey issuerSignature = false) .unauthorized)

def enable (c : RouteConfig) (issuerSignature : Bytes) (approvals : List Bytes) (v : Verifier) (gasLimit : ℕ) :
    Attempt GatewayLedger GatewayError Bytes32 :=
  transact (fun l => metered (l.checkEnable h c issuerSignature approvals v) gasLimit)
    (fun l _ => { l with routes := l.routes.insert (c.route.id h) ⟨c, 0, 0, 0⟩ }) (fun _ => c.route.id h)

def bridged (l : GatewayLedger) (asset : AssetId) : Bool :=
  l.routes.values.any (fun s => s.config.route.nativeAsset = asset)

def apply (tx : Transaction) (w : Witnesses) (height : ℕ) (v : Verifier) (gasLimit : ℕ) :
    Attempt GatewayLedger GatewayError Receipt := do
  let l ← get
  check (refuse (tx.delta ≠ 0 ∧ l.bridged tx.asset = true) .supplyChangeRequiresBridge)
  onNative .native (Ledger.apply h tx w height v gasLimit)

def settlePair (swap : PairSwap) (w : Witnesses × Witnesses) (height : ℕ) (v : Verifier) (gasLimit : ℕ) :
    Attempt GatewayLedger GatewayError PairReceipt :=
  onNative .pair (Ledger.settlePair h swap w height v gasLimit)

/-- A change of supply that is attested: the route's counters after it and what the ledger below makes of it. -/
structure Attested where
  route : RouteState
  receipt : Receipt
  native : Ledger

/-- The quorum's approval, and the transaction under it on what gas is left. -/
def attest (l : GatewayLedger) (c : RouteConfig) (message nativeMessage : Bytes32) (approvals : List Bytes)
    (tx : Transaction) (w : Witnesses) (height : ℕ) (v : Verifier) (gasLimit : ℕ) :
    Except GatewayError (Receipt × Ledger) := do
  let (_, gas) ← metered (verifyQuorum c message approvals v) gasLimit
  let verificationGas ← orRefuse (checkedSub gasLimit gas) (.native .arithmeticOverflow)
  let (receipt, native) ←
    (outcome (Ledger.apply h tx w height (scopeTo v nativeMessage message) gas) l.native).mapError .native
  pure ({ receipt with gasUsed := satAdd u64Max receipt.gasUsed verificationGas }, native)

def checkImport (l : GatewayLedger) (r : ImportRequest) (w : Witnesses) (approvals : List Bytes) (height : ℕ)
    (v : Verifier) (gasLimit : ℕ) : Except GatewayError Attested := do
  refuse (MAX_RECORDS ≤ l.imports.size) .resourceLimit
  let state ← orRefuse (l.routes.get? r.deposit.route) .unknownRoute
  let route := state.config.route
  let message ← r.signingHash h l.native.domain
  refuse (r.mismatched h route height = true) .invalidRequest
  refuse (l.imports.contains (toLex (r.deposit.route, r.deposit.nonce)) = true ∨
    (route.sourceDomain, route.vault, r.sourceTransaction, r.eventIndex) ∈ l.events) .replay
  let imported ← orRefuse (checkedAdd u128Max state.imported r.deposit.amount) (.native .arithmeticOverflow)
  let outstanding ← orRefuse (checkedSub imported state.burned) .insufficientBacking
  refuse (route.cap < outstanding) .insufficientBacking
  let nativeMessage ← (r.transaction.signingHash h l.native.domain).mapError .native
  let (receipt, native) ←
    l.attest h state.config message nativeMessage approvals r.transaction w height v gasLimit
  pure ⟨{ state with imported := imported }, receipt, native⟩

def commitImport (r : ImportRequest) (l : GatewayLedger) (plan : Attested) : GatewayLedger :=
  let record := r.record plan.receipt.transaction
  { l with
    native := plan.native
    routes := l.routes.insert r.deposit.route plan.route
    events := insert (record.event plan.route.config.route) l.events
    imports := l.imports.insert record.key record }

/-- An import; the name is a keyword here. -/
def importDeposit (r : ImportRequest) (w : Witnesses) (approvals : List Bytes) (height : ℕ) (v : Verifier)
    (gasLimit : ℕ) : Attempt GatewayLedger GatewayError Receipt :=
  transact (fun l => l.checkImport h r w approvals height v gasLimit) (commitImport r) Attested.receipt

def checkWithdraw (l : GatewayLedger) (r : WithdrawalRequest) (w : Witnesses) (approvals : List Bytes)
    (height : ℕ) (v : Verifier) (gasLimit : ℕ) : Except GatewayError (Attested × Release) := do
  refuse (MAX_RECORDS ≤ l.releases.size) .resourceLimit
  let state ← orRefuse (l.routes.get? r.route) .unknownRoute
  let route := state.config.route
  let tx := r.transaction
  let message ← r.signingHash h l.native.domain
  refuse (tx.asset ≠ route.nativeAsset ∨ 0 ≤ tx.delta ∨ r.nonce ≠ state.nextReleaseNonce ∨
    r.recipient = 0 ∨ r.recipient = route.vault ∨ r.recipient = route.token) .invalidRequest
  let amount := tx.delta.natAbs
  refuse (u64Max < amount) .invalidRequest
  let burned ← orRefuse (checkedAdd u128Max state.burned amount) (.native .arithmeticOverflow)
  refuse (state.imported < burned) .insufficientBacking
  let nextNonce ← orRefuse (checkedAdd u64Max state.nextReleaseNonce 1) (.native .arithmeticOverflow)
  let nativeMessage ← (tx.signingHash h l.native.domain).mapError .native
  let (receipt, native) ← l.attest h state.config message nativeMessage approvals tx w height v gasLimit
  pure (⟨{ state with burned := burned, nextReleaseNonce := nextNonce }, receipt, native⟩,
    ⟨r.route, r.nonce, r.recipient, amount, nativeMessage⟩)

def commitWithdraw (l : GatewayLedger) (plan : Attested × Release) : GatewayLedger :=
  { l with
    native := plan.1.native
    routes := l.routes.insert plan.2.route plan.1.route
    releases := l.releases.insert plan.2.key plan.2 }

def withdraw (r : WithdrawalRequest) (w : Witnesses) (approvals : List Bytes) (height : ℕ) (v : Verifier)
    (gasLimit : ℕ) : Attempt GatewayLedger GatewayError (Release × Receipt) :=
  transact (fun l => l.checkWithdraw h r w approvals height v gasLimit) commitWithdraw
    (fun plan => (plan.2, plan.1.receipt))

def stateRoot (l : GatewayLedger) : Bytes32 :=
  tagged h "USTAV-USDT-STATE-v1" (leBytes 4 VERSION ++ hashBytes (l.native.stateRoot h) ++
    leBytes 8 l.routes.size ++ l.routes.values.flatMap (RouteState.bytes h) ++
    leBytes 8 l.imports.size ++ l.imports.values.flatMap (ImportRecord.bytes h) ++
    leBytes 8 l.releases.size ++ l.releases.values.flatMap (fun r => hashBytes (r.id h)))

def snapshot (l : GatewayLedger) : Snapshot :=
  ⟨VERSION, l.native.snapshot, l.native.stateRoot h, l.routes.values, l.imports.values, l.releases.values⟩

/-- What the records read so far come to on a route. -/
structure Count where
  (imported burned releases mints : ℕ)
deriving DecidableEq

/-- A gateway as far as it is read, with what is checked across records. -/
structure Restoring where
  ledger : GatewayLedger
  endpoints : Finset (Bytes32 × Address)
  counts : SortedMap Bytes32 Count
  nativeIds : Finset Bytes32

def restoreRoute (v : Verifier) (r : Restoring) (state : RouteState) : Except GatewayError Restoring := do
  validateConfig r.ledger.native state.config v
  let route := state.config.route
  refuse ((route.sourceDomain, route.vault) ∈ r.endpoints) .invalidSnapshot
  pure { r with
    ledger := { r.ledger with routes := r.ledger.routes.insert (route.id h) state }
    endpoints := insert (route.sourceDomain, route.vault) r.endpoints
    counts := r.counts.insert (route.id h) ⟨0, 0, 0, 0⟩ }

def restoreImport (r : Restoring) (record : ImportRecord) : Except GatewayError Restoring := do
  let state ← orRefuse (r.ledger.routes.get? record.deposit.route) .invalidSnapshot
  let event := record.event state.config.route
  refuse (record.deposit.amount = 0 ∨ record.deposit.sender = 0 ∨ record.deposit.pqRecipientHash = 0 ∨
    record.sourceTransaction = 0 ∨ record.sourceBlock = 0 ∨ record.nativeTransaction = 0 ∨
    record.nativeTransaction ∈ r.nativeIds ∨ event ∈ r.ledger.events) .invalidSnapshot
  let count ← orRefuse (r.counts.get? record.deposit.route) .invalidSnapshot
  let imported ← orRefuse (checkedAdd u128Max count.imported record.deposit.amount) .invalidSnapshot
  let mints ← orRefuse (checkedAdd u64Max count.mints 1) .invalidSnapshot
  pure { r with
    ledger := { r.ledger with
      events := insert event r.ledger.events
      imports := r.ledger.imports.insert record.key record }
    counts := r.counts.insert record.deposit.route { count with imported := imported, mints := mints }
    nativeIds := insert record.nativeTransaction r.nativeIds }

def restoreRelease (r : Restoring) (release : Release) : Except GatewayError Restoring := do
  let state ← orRefuse (r.ledger.routes.get? release.route) .invalidSnapshot
  let route := state.config.route
  let count ← orRefuse (r.counts.get? release.route) .invalidSnapshot
  refuse (release.amount = 0 ∨ release.recipient = 0 ∨ release.recipient = route.vault ∨
    release.recipient = route.token ∨ release.nativeBurn = 0 ∨ release.nativeBurn ∈ r.nativeIds ∨
    release.nonce ≠ count.releases) .invalidSnapshot
  let burned ← orRefuse (checkedAdd u128Max count.burned release.amount) .invalidSnapshot
  let releases ← orRefuse (checkedAdd u64Max count.releases 1) .invalidSnapshot
  pure { r with
    ledger := { r.ledger with releases := r.ledger.releases.insert release.key release }
    counts := r.counts.insert release.route { count with burned := burned, releases := releases }
    nativeIds := insert release.nativeBurn r.nativeIds }

/-- What the routes of an asset have outstanding, and how often they issued it. -/
def tallyRoute (counts : SortedMap Bytes32 Count) (byAsset : SortedMap AssetId (ℕ × ℕ))
    (entry : Bytes32 × RouteState) : Except GatewayError (SortedMap AssetId (ℕ × ℕ)) := do
  let count ← orRefuse (counts.get? entry.1) .invalidSnapshot
  let outstanding ← orRefuse (checkedSub count.imported count.burned) .invalidSnapshot
  let state := entry.2
  refuse (state.imported ≠ count.imported ∨ state.burned ≠ count.burned ∨
    state.nextReleaseNonce ≠ count.releases ∨ state.config.route.cap < outstanding) .invalidSnapshot
  let tally := byAsset.getD state.config.route.nativeAsset (0, 0)
  let supply ← orRefuse (checkedAdd u128Max tally.1 outstanding) .invalidSnapshot
  let mints ← orRefuse (checkedAdd u64Max tally.2 count.mints) .invalidSnapshot
  pure (byAsset.insert state.config.route.nativeAsset (supply, mints))

def restore (s : Snapshot) (expectedRoot : Bytes32) (v : Verifier) : Except GatewayError GatewayLedger := do
  refuse (s.version ≠ VERSION ∨ MAX_ROUTES < s.routes.length ∨ MAX_RECORDS < s.imports.length ∨
    MAX_RECORDS < s.releases.length ∨ ¬ (s.routes.map (fun r => r.config.route.id h)).IsChain (· < ·) ∨
    ¬ (s.imports.map ImportRecord.key).IsChain (· < ·) ∨
    ¬ (s.releases.map Release.key).IsChain (· < ·)) .invalidSnapshot
  let native ← (Ledger.restore h s.native s.nativeRoot v).mapError .native
  let read ← s.routes.foldlM (restoreRoute h v) ⟨{ new native.domain with native := native }, ∅, .empty, ∅⟩
  let read ← s.imports.foldlM restoreImport read
  let read ← s.releases.foldlM restoreRelease read
  let byAsset ← read.ledger.routes.entries.foldlM (tallyRoute read.counts) .empty
  refuse (∃ e ∈ byAsset.entries, read.ledger.native.supply e.1 ≠ some e.2.1 ∨
    read.ledger.native.nextMintNonce e.1 ≠ some e.2.2) .invalidSnapshot
  refuse (read.ledger.stateRoot h ≠ expectedRoot) .invalidSnapshot
  pure read.ledger

end GatewayLedger

end BlochPos.Ustav.Gateway
