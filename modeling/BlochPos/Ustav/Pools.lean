import BlochPos.Ustav.Amm
import BlochPos.Ustav.Gateway

/-! Pools of two native assets. Reserves are outputs of the ledger below, kept by a map of locks;
shares are held in positions. -/
namespace BlochPos.Ustav.Pools

open Attempt Gateway

def VERSION : ℕ := 1
def MAX_POOLS : ℕ := 128
def MAX_POSITIONS : ℕ := 65536

inductive PoolError where
  | native (e : Error)
  | gateway (e : GatewayError)
  | amm (e : Amm.Error)
  | invalidPool | unsupportedAsset | unauthorized | lockedInput | invalidFunding
  | insufficientPosition | resourceLimit | invalidSnapshot
deriving DecidableEq

structure PoolAction where
  request : Amm.Request
  owner : Bytes
  funding : Fin 2 → List OutPoint

structure PoolReceipt where
  authorization : Bytes32
  reserves : Fin 2 → OutPoint
  payouts : Fin 2 → Option OutPoint
  (lpBalance gasUsed : ℕ)

structure PoolSnapshot where
  state : Amm.Snapshot
  root : Bytes32
  reserves : Option (Fin 2 → OutPoint)

structure Snapshot where
  version : ℕ
  gateway : Gateway.Snapshot
  gatewayRoot : Bytes32
  pools : List PoolSnapshot
  positions : List (Bytes32 × Bytes × ℕ)

structure Pool where
  state : Amm.PoolState
  reserves : Option (Fin 2 → OutPoint)

abbrev PositionKey := Bytes32 ×ₗ Bytes

structure PoolLedger where
  gateway : GatewayLedger
  pools : SortedMap Bytes32 Pool
  positions : SortedMap PositionKey ℕ
  locks : SortedMap OutPoint Bytes32

/-- A transfer that is validated; dropped, it changes nothing. -/
structure TransferPlan where
  inputs : List OutPoint
  outputs : SortedMap OutPoint UnspentOutput
  receipt : Receipt

section

variable (h : Hashes)

def checkKeySize (key : Bytes) : Except PoolError Unit :=
  refuse (key = [] ∨ MAX_KEY_BYTES < key.length) .resourceLimit

def creationHash (state : Amm.PoolState) (creator : Bytes) : Except PoolError Bytes32 := do
  checkKeySize creator
  pure (tagged h "USTAV-POOL-CREATE-v1" (hashBytes (state.stateRoot h.sha256) ++ putLong creator))

def checkFunding (inputs : List OutPoint) : Except PoolError Unit :=
  refuse (MAX_INPUTS < inputs.length ∨ ¬ inputs.IsChain (· < ·)) .invalidFunding

def fundingBytes (inputs : List OutPoint) : Bytes := leBytes 8 inputs.length ++ inputs.flatMap OutPoint.bytes

def fundingDigest (action : PoolAction) : Bytes32 :=
  tagged h "USTAV-POOL-FUNDING-v1"
    (putLong action.owner ++ fundingBytes (action.funding 0) ++ fundingBytes (action.funding 1))

def fundingHash (action : PoolAction) : Except PoolError Bytes32 := do
  checkKeySize action.owner
  checkFunding (action.funding 0)
  checkFunding (action.funding 1)
  pure (fundingDigest h action)

end

namespace PoolLedger

variable (h : Hashes)

def new (domain : Bytes32) : PoolLedger := ⟨.new domain, .empty, .empty, .empty⟩

def position (l : PoolLedger) (id : Bytes32) (owner : Bytes) : ℕ :=
  match checkKeySize owner with
  | .ok _ => l.positions.getD (toLex (id, owner)) 0
  | .error _ => 0

def isLocked (l : PoolLedger) (id : OutPoint) : Bool := l.locks.contains id

def unlocked (l : PoolLedger) (inputs : List OutPoint) : Except PoolError Unit := do
  refuse (MAX_INPUTS < inputs.length) .resourceLimit
  refuse (∃ id ∈ inputs, l.isLocked id = true) .lockedInput

/-- Only assets whose charter is a supply and nothing else are pooled. -/
def asset (l : PoolLedger) (asset : AssetId) : Except PoolError Unit := do
  refuse (asset = BLCH) .unsupportedAsset
  let registration ← orRefuse (l.gateway.native.registration asset) .unsupportedAsset
  refuse (registration.initialKycRoot.isSome = true) .unsupportedAsset
  match registration.charter.modules with
  | [.supply _] => .ok ()
  | _ => .error .unsupportedAsset

def onGateway {A : Type} (spends : List (List OutPoint)) (x : Attempt GatewayLedger GatewayError A) :
    Attempt PoolLedger PoolError A :=
  transact (fun l => do
      forM spends l.unlocked
      (outcome x l.gateway).mapError .gateway)
    (fun l plan => { l with gateway := plan.2 }) Prod.fst

def register (r : Registration) (signature : Bytes) (v : Verifier) (gas : ℕ) :
    Attempt PoolLedger PoolError AssetId :=
  onGateway [] (GatewayLedger.register h r signature v gas)

def enable (c : RouteConfig) (issuer : Bytes) (approvals : List Bytes) (v : Verifier) (gas : ℕ) :
    Attempt PoolLedger PoolError Bytes32 :=
  onGateway [] (GatewayLedger.enable h c issuer approvals v gas)

def apply (tx : Transaction) (w : Witnesses) (height : ℕ) (v : Verifier) (gas : ℕ) :
    Attempt PoolLedger PoolError Receipt :=
  onGateway [tx.inputs] (GatewayLedger.apply h tx w height v gas)

def importDeposit (r : ImportRequest) (w : Witnesses) (approvals : List Bytes) (height : ℕ) (v : Verifier)
    (gas : ℕ) : Attempt PoolLedger PoolError Receipt :=
  onGateway [r.transaction.inputs] (GatewayLedger.importDeposit h r w approvals height v gas)

def withdraw (r : WithdrawalRequest) (w : Witnesses) (approvals : List Bytes) (height : ℕ) (v : Verifier)
    (gas : ℕ) : Attempt PoolLedger PoolError (Release × Receipt) :=
  onGateway [r.transaction.inputs] (GatewayLedger.withdraw h r w approvals height v gas)

def settlePair (swap : PairSwap) (w : Witnesses × Witnesses) (height : ℕ) (v : Verifier) (gas : ℕ) :
    Attempt PoolLedger PoolError PairReceipt :=
  onGateway [swap.legs.1.inputs, swap.legs.2.inputs] (GatewayLedger.settlePair h swap w height v gas)

/-- The token and the inputs of a transfer on a ledger of their own. -/
def stageTransfer (native : Ledger) (tx : Transaction) (w : Witnesses) (hash : Bytes32) : Metered Ledger := do
  let token ← check (orRefuse (native.tokens.get? tx.asset) .unknownAsset)
  let _ ← check (w.check token.compiled.validators.length tx.inputs.length)
  charge (satAdd u64Max 100 (registrationCost token.registration)) .outOfGas
  let staged ← tx.inputs.foldlM (native.stageInput tx)
    { Ledger.new native.domain with tokens := SortedMap.empty.insert tx.asset token }
  check (native.checkCollisions tx hash)
  pure staged

def planTransfer (l : PoolLedger) (tx : Transaction) (w : Witnesses) (height : ℕ) (v : Verifier) (gasLimit : ℕ) :
    Except PoolError TransferPlan := do
  refuse (tx.delta ≠ 0) .invalidFunding
  let native := l.gateway.native
  let hash ← (tx.signingHash h native.domain).mapError .native
  l.unlocked tx.inputs
  let (staged, gas) ← (metered (stageTransfer native tx w hash) gasLimit).mapError .native
  let size ← orRefuse ((checkedSub native.outputs.size tx.inputs.length).bind
    (checkedAdd u64Max · tx.outputs.length)) (.native .arithmeticOverflow)
  refuse (MAX_LEDGER_OUTPUTS < size) .resourceLimit
  let (receipt, staged) ← (outcome (Ledger.apply h tx w height v gas) staged).mapError .native
  let verificationGas ← orRefuse (checkedSub gasLimit gas) (.native .arithmeticOverflow)
  let gasUsed ← orRefuse (checkedAdd u64Max receipt.gasUsed verificationGas) (.native .arithmeticOverflow)
  pure ⟨tx.inputs, staged.outputs, { receipt with gasUsed := gasUsed }⟩

def withOutputs (l : PoolLedger) (outputs : SortedMap OutPoint UnspentOutput) : PoolLedger :=
  { l with gateway := { l.gateway with native := { l.gateway.native with outputs := outputs } } }

def commitTransfer (l : PoolLedger) (plan : TransferPlan) : PoolLedger :=
  l.withOutputs (l.gateway.native.outputs.exchange plan.inputs plan.outputs.entries)

def checkCreate (l : PoolLedger) (state : Amm.PoolState) (creator signature : Bytes) (v : Verifier) :
    Attempt ℕ PoolError Unit := do
  let message ← check (creationHash h state creator)
  check (refuse (MAX_POOLS ≤ l.pools.size) .resourceLimit)
  check (refuse (state.domain ≠ l.gateway.native.domain ∨ state.revision ≠ 0 ∨ state.lpSupply ≠ 0 ∨
    state.reserves ≠ 0 ∨ l.pools.contains state.id = true) .invalidPool)
  check (l.asset (state.assets 0))
  check (l.asset (state.assets 1))
  check (refuse (MAX_SIGNATURE_BYTES < signature.length) .resourceLimit)
  charge (satAdd u64Max 1200 (words (creator.length + signature.length))) (.native .outOfGas)
  check (refuse (v.validPqKey creator = false ∨ v.verifyPq (hashBytes message) creator signature = false)
    .unauthorized)

def create (state : Amm.PoolState) (creator signature : Bytes) (v : Verifier) (gasLimit : ℕ) :
    Attempt PoolLedger PoolError Bytes32 :=
  transact (fun l => metered (l.checkCreate h state creator signature v) gasLimit)
    (fun l _ => { l with pools := l.pools.insert state.id ⟨state, none⟩ }) (fun _ => state.id)

section

variable (l : PoolLedger) (action : PoolAction)

def signingHash : Except PoolError Bytes32 := do
  let commitment ← fundingHash h action
  let pool ← orRefuse (l.pools.get? action.request.pool) .invalidPool
  (pool.state.signingHash h.sha256 action.request commitment).mapError .amm

/-- One funding input, of the asset asked for and of the signer. -/
def gatherInput (asset : AssetId) (owner : Bytes) (gathered : List OutPoint × ℕ)
    (id : OutPoint) : Except PoolError (List OutPoint × ℕ) := do
  refuse (id ∈ gathered.1) .invalidFunding
  let output ← orRefuse (l.gateway.native.outputs.get? id) .invalidFunding
  refuse (output.asset ≠ asset ∨ output.output.owner ≠ owner) .invalidFunding
  let available ← orRefuse (checkedAdd u64Max gathered.2 output.output.amount) (.native .arithmeticOverflow)
  pure (gathered.1 ++ [id], available)

/-- The funding of one side, with what is spent so far. -/
def gather (asset : AssetId) (side : Fin 2) (spent : List OutPoint) :
    Except PoolError (List OutPoint × ℕ) := do
  l.asset asset
  l.unlocked (action.funding side)
  (action.funding side).foldlM (l.gatherInput asset action.owner) (spent, 0)

/-- The reserve of one side, which has to be locked for this pool and worth what the pool says. -/
def takeReserve (pool : Bytes32) (state : Amm.PoolState) (ids : Fin 2 → OutPoint) (side : Fin 2)
    (spent : List OutPoint) : Except PoolError (List OutPoint) := do
  let output ← orRefuse (l.gateway.native.outputs.get? (ids side)) .invalidPool
  refuse (l.locks.get? (ids side) ≠ some pool ∨ output.asset ≠ state.assets side ∨
    output.output.amount ≠ state.reserves side ∨ ids side ∈ spent) .invalidPool
  pure (spent ++ [ids side])

def takeReserves (id : Bytes32) (pool : Pool) (spent : List OutPoint) : Except PoolError (List OutPoint) :=
  match pool.reserves with
  | some ids => do
    let spent ← l.takeReserve id pool.state ids 0 spent
    l.takeReserve id pool.state ids 1 spent
  | none => do
    refuse (pool.state.reserves ≠ 0) .invalidPool
    pure spent

end

def payout (state : Amm.PoolState) (t : Amm.Transition) (side : Fin 2) (available : ℕ) : Except PoolError ℕ := do
  let left ← orRefuse (checkedSub available (t.userDebit side)) .invalidFunding
  let payout ← orRefuse (checkedAdd u64Max left (t.userCredit side)) (.native .arithmeticOverflow)
  let before ← orRefuse (checkedAdd u128Max (state.reserves side) available) (.native .arithmeticOverflow)
  let after ← orRefuse (checkedAdd u128Max (t.next.reserves side) payout) (.native .arithmeticOverflow)
  refuse (before ≠ after) .invalidFunding
  pure payout

def sideOutputs (message : Bytes32) (owner : Bytes) (t : Amm.Transition) (asset : AssetId) (side : Fin 2)
    (payout : ℕ) : List (OutPoint × UnspentOutput) :=
  (outPoint message side.val, ⟨asset, ⟨owner, t.next.reserves side⟩⟩) ::
    if 0 < payout then [(outPoint message (side.val + 2), ⟨asset, ⟨owner, payout⟩⟩)] else []

/-- An action that is validated. -/
structure Executed where
  message : Bytes32
  next : Amm.PoolState
  spent : List OutPoint
  outputs : List (OutPoint × UnspentOutput)
  payouts : Fin 2 → ℕ
  newPosition : ℕ

def checkExecute (l : PoolLedger) (action : PoolAction) (signature : Bytes) (height : ℕ) (v : Verifier) :
    Attempt ℕ PoolError Executed := do
  let message ← check (l.signingHash h action)
  check (refuse (MAX_SIGNATURE_BYTES < signature.length) .resourceLimit)
  let count := (action.funding 0).length + (action.funding 1).length
  charge (satAdd u64Max (satAdd u64Max 1500 (words (action.owner.length + signature.length)))
    (satMul u64Max (satAdd u64Max 50 (words action.owner.length)) count)) (.native .outOfGas)
  check (refuse (v.validPqKey action.owner = false ∨
    v.verifyPq (hashBytes message) action.owner signature = false) .unauthorized)
  let id := action.request.pool
  let pool ← check (orRefuse (l.pools.get? id) .invalidPool)
  let t ← check ((pool.state.transition action.request height).mapError .amm)
  let first ← check (l.gather action (pool.state.assets 0) 0 [])
  let second ← check (l.gather action (pool.state.assets 1) 1 first.1)
  let spent ← check (l.takeReserves id pool second.1)
  let oldPosition := l.position id action.owner
  let left ← check (orRefuse (checkedSub oldPosition t.lpBurn) .insufficientPosition)
  let newPosition ← check (orRefuse (checkedAdd u64Max left t.lpMint) (.native .arithmeticOverflow))
  check (refuse (oldPosition = 0 ∧ 0 < newPosition ∧ MAX_POSITIONS ≤ l.positions.size) .resourceLimit)
  let paid₀ ← check (payout pool.state t 0 first.2)
  let paid₁ ← check (payout pool.state t 1 second.2)
  let outputs := sideOutputs message action.owner t (pool.state.assets 0) 0 paid₀ ++
    sideOutputs message action.owner t (pool.state.assets 1) 1 paid₁
  check (refuse (∃ e ∈ outputs, l.gateway.native.outputs.contains e.1 = true) (.native .outputCollision))
  let finalCount ← check (orRefuse ((checkedSub l.gateway.native.outputs.size spent.length).bind
    (checkedAdd u64Max · outputs.length)) (.native .arithmeticOverflow))
  check (refuse (MAX_LEDGER_OUTPUTS < finalCount) .resourceLimit)
  charge (satAdd u64Max (satMul u64Max 100 outputs.length)
    (satMul u64Max (words action.owner.length) outputs.length)) (.native .outOfGas)
  pure ⟨message, t.next, spent, outputs, ![paid₀, paid₁], newPosition⟩

def Executed.reserveIds (x : Executed) (side : Fin 2) : OutPoint := outPoint x.message side.val

def commitExecute (action : PoolAction) (l : PoolLedger) (x : Executed) : PoolLedger :=
  let id := action.request.pool
  let key : PositionKey := toLex (id, action.owner)
  { l.withOutputs (l.gateway.native.outputs.exchange x.spent x.outputs) with
    locks := l.locks.exchange x.spent [(x.reserveIds 0, id), (x.reserveIds 1, id)]
    positions := if x.newPosition = 0 then l.positions.erase key else l.positions.insert key x.newPosition
    pools := l.pools.insert id ⟨x.next, some x.reserveIds⟩ }

def execute (action : PoolAction) (signature : Bytes) (height : ℕ) (v : Verifier) (gasLimit : ℕ) :
    Attempt PoolLedger PoolError PoolReceipt :=
  transact (fun l => metered (l.checkExecute h action signature height v) gasLimit)
    (fun l plan => commitExecute action l plan.1)
    (fun plan => ⟨plan.1.message, plan.1.reserveIds,
      fun side => if 0 < plan.1.payouts side then some (outPoint plan.1.message (side.val + 2)) else none,
      plan.1.newPosition, gasLimit - plan.2⟩)

def snapshot (l : PoolLedger) : Snapshot :=
  ⟨VERSION, l.gateway.snapshot h, l.gateway.stateRoot h,
    l.pools.values.map (fun p => ⟨p.state.snapshot, p.state.stateRoot h.sha256, p.reserves⟩),
    l.positions.entries.map (fun e => ((ofLex e.1).1, (ofLex e.1).2, e.2))⟩

def reserveBytes : Option (Fin 2 → OutPoint) → Bytes
  | some ids => leBytes 4 1 ++ (ids 0).bytes ++ (ids 1).bytes
  | none => leBytes 4 0

def stateRoot (l : PoolLedger) : Bytes32 :=
  tagged h "USTAV-POOL-CUSTODY-v1" (leBytes 4 VERSION ++ hashBytes (l.gateway.stateRoot h) ++
    leBytes 8 l.pools.size ++ l.pools.entries.flatMap (fun e =>
      hashBytes e.1 ++ hashBytes (e.2.state.stateRoot h.sha256) ++ reserveBytes e.2.reserves) ++
    leBytes 8 l.positions.size ++ l.positions.entries.flatMap (fun e =>
      hashBytes (ofLex e.1).1 ++ putLong (ofLex e.1).2 ++ leBytes 8 e.2))

/-- The reserve of one side is there and is locked once. -/
def restoreReserve (l : PoolLedger) (state : Amm.PoolState) (ids : Fin 2 → OutPoint) (side : Fin 2) :
    Except PoolError PoolLedger := do
  let output ← orRefuse (l.gateway.native.outputs.get? (ids side)) .invalidSnapshot
  refuse (output.asset ≠ state.assets side ∨ output.output.amount ≠ state.reserves side ∨
    l.locks.contains (ids side) = true) .invalidSnapshot
  pure { l with locks := l.locks.insert (ids side) state.id }

def restorePool (l : PoolLedger) (record : PoolSnapshot) : Except PoolError PoolLedger := do
  let state ← (Amm.PoolState.restore h.sha256 record.state record.root).mapError .amm
  refuse (state.domain ≠ l.gateway.native.domain) .invalidSnapshot
  l.asset (state.assets 0)
  l.asset (state.assets 1)
  let l ← (match record.reserves with
    | some ids => do
      refuse (state.lpSupply = 0) .invalidSnapshot
      let l ← l.restoreReserve state ids 0
      l.restoreReserve state ids 1
    | none => do
      refuse (state.lpSupply ≠ 0) .invalidSnapshot
      pure l)
  pure { l with pools := l.pools.insert state.id ⟨state, record.reserves⟩ }

/-- A position, with the shares read so far of each pool. -/
def restorePosition (v : Verifier) (read : PoolLedger × SortedMap Bytes32 ℕ) (entry : Bytes32 × Bytes × ℕ) :
    Except PoolError (PoolLedger × SortedMap Bytes32 ℕ) := do
  let (pool, key, amount) := entry
  checkKeySize key
  refuse (amount = 0 ∨ v.validPqKey key = false ∨ read.1.pools.contains pool = false) .invalidSnapshot
  let total ← orRefuse (checkedAdd u128Max (read.2.getD pool 0) amount) .invalidSnapshot
  pure ({ read.1 with positions := read.1.positions.insert (toLex (pool, key)) amount }, read.2.insert pool total)

def restore (s : Snapshot) (trustedRoot : Bytes32) (v : Verifier) : Except PoolError PoolLedger := do
  refuse (s.version ≠ VERSION ∨ MAX_POOLS < s.pools.length ∨ MAX_POSITIONS < s.positions.length ∨
    ¬ (s.pools.map (fun p => p.state.id)).IsChain (· < ·) ∨
    ¬ (s.positions.map (fun p => (toLex (p.1, p.2.1) : PositionKey))).IsChain (· < ·)) .invalidSnapshot
  let gateway ← (GatewayLedger.restore h s.gateway s.gatewayRoot v).mapError .gateway
  let l ← s.pools.foldlM (restorePool h) ⟨gateway, .empty, .empty, .empty⟩
  let (l, totals) ← s.positions.foldlM (restorePosition v) (l, .empty)
  refuse (∃ e ∈ l.pools.entries, totals.getD e.1 0 ≠ e.2.state.lpSupply - Amm.MINIMUM_LIQUIDITY)
    .invalidSnapshot
  refuse (l.stateRoot h ≠ trustedRoot) .invalidSnapshot
  pure l

end PoolLedger

end BlochPos.Ustav.Pools
