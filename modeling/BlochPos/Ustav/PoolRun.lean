import BlochPos.Ustav.GatewayRun
import BlochPos.Ustav.Pools

/-! What the calls of the pool ledger do when they are accepted. -/
namespace BlochPos.Ustav.Pools

open Attempt Gateway PoolLedger SortedMap

variable {h : Hashes} {l l' : PoolLedger} {v : Verifier} {w : Witnesses} {height gasLimit : ℕ}

def Pool.reserveList (pool : Pool) : List OutPoint :=
  match pool.reserves with
  | some ids => [ids 0, ids 1]
  | none => []

/-- An output that may fund an action. -/
structure Funds (l : PoolLedger) (asset : AssetId) (owner : Bytes) (id : OutPoint) : Prop where
  held : ∃ o, l.gateway.native.outputs.get? id = some o ∧ o.asset = asset ∧ o.output.owner = owner

theorem nodup_snoc {l : List OutPoint} {id : OutPoint} (once : l.Nodup) (new : id ∉ l) : (l ++ [id]).Nodup :=
  once.append (List.nodup_singleton id) (by simpa using new)

theorem gatherInputs_eq_ok {asset : AssetId} {inputs spent : List OutPoint}
    (done : inputs.foldlM (l.gatherInput asset owner) (spent, n) = .ok result) :
    result = (spent ++ inputs, n + (inputs.map l.gateway.native.amountAt).sum) ∧
      (∀ id ∈ inputs, Funds l asset owner id) ∧ (spent.Nodup → (spent ++ inputs).Nodup) := by
  induction inputs generalizing spent n with
  | nil =>
    rw [List.foldlM_nil, pure_eq_ok_iff] at done
    simp [← done]
  | cons id rest ih =>
    simp only [List.foldlM_cons, gatherInput, ok_iff, not_or, not_not] at done
    obtain ⟨_, ⟨new, o, held, ⟨asset_eq, owner_eq⟩, available, added, rfl⟩, later⟩ := done
    obtain ⟨rfl, -⟩ := checkedAdd_eq_some added
    obtain ⟨rfl, funds, distinct⟩ := ih later
    refine ⟨?_, List.forall_mem_cons.mpr ⟨⟨o, held, asset_eq, owner_eq⟩, funds⟩, fun once => ?_⟩
    · rw [List.map_cons, List.sum_cons, List.append_assoc, Ledger.amountAt, held, Nat.add_assoc]
      rfl
    · simpa using distinct (nodup_snoc once new)

theorem unlocked_eq_ok (done : l.unlocked inputs = .ok ()) :
    ∀ id ∈ inputs, l.locks.get? id = none := by
  simp only [unlocked, ok_iff, not_exists, not_and] at done
  intro id among
  simpa [isLocked, contains] using done.2 id among

/-- A locked output that holds one side of a pool. -/
structure Reserve (l : PoolLedger) (pool : Bytes32) (state : Amm.PoolState) (id : OutPoint) (side : Fin 2) :
    Prop where
  held : ∃ o, l.gateway.native.outputs.get? id = some o ∧ o.asset = state.assets side ∧
    o.output.amount = state.reserves side
  locked : l.locks.get? id = some pool

theorem takeReserve_eq_ok (done : l.takeReserve pool state ids side spent = .ok spent') :
    spent' = spent ++ [ids side] ∧ Reserve l pool state (ids side) side ∧ ids side ∉ spent := by
  simp only [takeReserve, ok_iff, not_or, not_not] at done
  obtain ⟨o, held, ⟨locked, asset, amount, new⟩, rfl⟩ := done
  exact ⟨rfl, ⟨⟨o, held, asset, amount⟩, locked⟩, new⟩

theorem takeReserves_eq_ok {id : Bytes32} (done : l.takeReserves id pool spent = .ok spent') :
    spent' = spent ++ pool.reserveList ∧ (spent.Nodup → spent'.Nodup) ∧
      (∀ ids, pool.reserves = some ids → ∀ i, Reserve l id pool.state (ids i) i) ∧
      (pool.reserves = none → pool.state.reserves = 0) := by
  unfold takeReserves at done
  unfold Pool.reserveList
  split at done
  next ids some_eq =>
    rw [bind_eq_ok_iff] at done
    obtain ⟨mid, first, second⟩ := done
    obtain ⟨rfl, reserve₀, new₀⟩ := takeReserve_eq_ok first
    obtain ⟨rfl, reserve₁, new₁⟩ := takeReserve_eq_ok second
    rw [some_eq]
    refine ⟨by simp, fun once => ?_, fun ids' same i => ?_, fun other => by cases other⟩
    · exact nodup_snoc (nodup_snoc once new₀) new₁
    · cases same
      fin_cases i
      · exact reserve₀
      · exact reserve₁
  next none_eq =>
    simp only [ok_iff, not_not] at done
    obtain ⟨zero, rfl⟩ := done
    rw [none_eq]
    exact ⟨by simp, fun once => once, (fun _ other => by cases other), fun _ => zero⟩

theorem Reserve.of_mem {id : Bytes32} {pool : Pool}
    (reserves : ∀ ids, pool.reserves = some ids → ∀ i, Reserve l id pool.state (ids i) i)
    (listed : op ∈ pool.reserveList) : ∃ i, Reserve l id pool.state op i := by
  unfold Pool.reserveList at listed
  split at listed
  next ids some_eq =>
    simp only [List.mem_cons, List.not_mem_nil, or_false] at listed
    obtain rfl | rfl := listed
    · exact ⟨0, reserves ids some_eq 0⟩
    · exact ⟨1, reserves ids some_eq 1⟩
  next => cases listed

theorem payout_eq_ok (done : payout state t side available = .ok paid) :
    state.reserves side + available = t.next.reserves side + paid := by
  simp only [payout, ok_iff, not_not] at done
  obtain ⟨_, -, _, -, before, added, after, summed, same, rfl⟩ := done
  obtain ⟨rfl, -⟩ := checkedAdd_eq_some added
  obtain ⟨rfl, -⟩ := checkedAdd_eq_some summed
  exact same

/-- What an accepted action has been checked for. -/
structure Executes (h : Hashes) (l : PoolLedger) (action : PoolAction) (height : ℕ) (v : Verifier) (pool : Pool)
    (t : Amm.Transition) (x : Executed) : Prop where
  known : l.pools.get? action.request.pool = some pool
  signed : pool.state.signingHash h.sha256 action.request (fundingDigest h action) = .ok x.message
  owner : checkKeySize action.owner = .ok () ∧ v.validPqKey action.owner = true
  moved : pool.state.transition action.request height = .ok t
  next : x.next = t.next
  assets : ∀ i, l.asset (pool.state.assets i) = .ok ()
  unlocked : ∀ i, ∀ id ∈ action.funding i, l.locks.get? id = none
  funds : ∀ i, ∀ id ∈ action.funding i, Funds l (pool.state.assets i) action.owner id
  spent : x.spent = action.funding 0 ++ action.funding 1 ++ pool.reserveList
  once : x.spent.Nodup
  reserves : ∀ ids, pool.reserves = some ids → ∀ i, Reserve l action.request.pool pool.state (ids i) i
  empty : pool.reserves = none → pool.state.reserves = 0
  burns : t.lpBurn ≤ l.position action.request.pool action.owner
  position : x.newPosition = l.position action.request.pool action.owner - t.lpBurn + t.lpMint
  room : l.position action.request.pool action.owner = 0 → 0 < x.newPosition → l.positions.size < MAX_POSITIONS
  paid : ∀ i, pool.state.reserves i + ((action.funding i).map l.gateway.native.amountAt).sum =
    t.next.reserves i + x.payouts i
  outputs : x.outputs = sideOutputs x.message action.owner t (pool.state.assets 0) 0 (x.payouts 0) ++
    sideOutputs x.message action.owner t (pool.state.assets 1) 1 (x.payouts 1)
  free : ∀ e ∈ x.outputs, l.gateway.native.outputs.get? e.1 = none
  few : l.gateway.native.outputs.size + x.outputs.length ≤ MAX_LEDGER_OUTPUTS + x.spent.length

theorem gather_eq_ok {asset : AssetId} (done : l.gather action asset side spent = .ok result) :
    l.asset asset = .ok () ∧ (∀ id ∈ action.funding side, l.locks.get? id = none) ∧
      (∀ id ∈ action.funding side, Funds l asset action.owner id) ∧ result.1 = spent ++ action.funding side ∧
      result.2 = ((action.funding side).map l.gateway.native.amountAt).sum ∧
      (spent.Nodup → result.1.Nodup) := by
  simp only [gather, ok_iff] at done
  obtain ⟨allowed, unlocked, gathered⟩ := done
  obtain ⟨rfl, funds, distinct⟩ := gatherInputs_eq_ok gathered
  exact ⟨allowed, unlocked_eq_ok unlocked, funds, rfl, Nat.zero_add _, distinct⟩

theorem executes_of_checkExecute (done : exec (l.checkExecute h action signature height v) g = (.ok x, g')) :
    ∃ pool t, Executes h l action height v pool t x := by
  simp only [checkExecute, signingHash, ok_iff, existsAndEq, and_true, exec_charge_eq_ok_iff,
    Option.bind_eq_some_iff, not_or, not_and, not_lt, not_le, not_exists] at done
  obtain ⟨message, ⟨commitment, funding, pool', known', signed⟩, -, pool, t, first, second, spent, left, newPosition,
    paid₀, paid₁, count, -, ⟨valid, -⟩, known, moved, gathered₀, gathered₁, reserved, taken, added, room,
    payout₀, payout₁, free, ⟨rest, removed, counted⟩, within, -, rfl⟩ := done
  obtain rfl := Option.some.inj (known.symm.trans known')
  obtain ⟨allowed₀, unlocked₀, funds₀, spent₀, available₀, once₀⟩ := gather_eq_ok gathered₀
  obtain ⟨allowed₁, unlocked₁, funds₁, spent₁, available₁, once₁⟩ := gather_eq_ok gathered₁
  obtain ⟨rfl, once, reserves, empty⟩ := takeReserves_eq_ok reserved
  obtain ⟨rfl, -⟩ := checkedAdd_eq_some added
  obtain ⟨rfl, -⟩ := checkedAdd_eq_some counted
  have burned := checkedSub_eq_some taken
  have sized := checkedSub_eq_some removed
  have spent_eq : second.1 = action.funding 0 ++ action.funding 1 := by rw [spent₁, spent₀, List.nil_append]
  simp only [fundingHash, ok_iff] at funding
  obtain ⟨short, -, -, rfl⟩ := funding
  refine ⟨pool, t, ?_⟩
  exact {
    known, moved, reserves, empty, room, signed
    owner := ⟨short, by simpa using valid⟩
    next := rfl
    assets := Fin.forall_fin_two.mpr ⟨allowed₀, allowed₁⟩
    unlocked := Fin.forall_fin_two.mpr ⟨unlocked₀, unlocked₁⟩
    funds := Fin.forall_fin_two.mpr ⟨funds₀, funds₁⟩
    spent := by dsimp only; rw [spent_eq]
    once := once (once₁ (once₀ List.nodup_nil))
    burns := by omega
    position := by dsimp only; omega
    paid := Fin.forall_fin_two.mpr
      ⟨by rw [← available₀]; exact payout_eq_ok payout₀, by rw [← available₁]; exact payout_eq_ok payout₁⟩
    outputs := rfl
    free := fun e among => by simpa [contains] using free e among
    few := by dsimp only; omega }

theorem commitApply_transfer (accepted : Ledger.Accepts h native tx w height v p) (still : tx.delta = 0) :
    native.commitApply tx p = { native with outputs := native.outputs.exchange tx.inputs (p.made tx) } := by
  have supply := accepted.supply
  have nonce := accepted.nonce
  rw [still] at supply nonce
  have same : { p.token with supply := p.supply, mintNonce := p.nextNonce } = p.token := by
    have supply_eq : p.supply = p.token.supply := by exact_mod_cast supply
    have nonce_eq : p.nextNonce = p.token.mintNonce := nonce
    rw [supply_eq, nonce_eq]
  rw [← Ledger.commitApply_outputs, Ledger.commitApply, same, insert_of_get? accepted.known]

theorem transfers_of_planTransfer (done : l.planTransfer h tx w height v gasLimit = .ok plan) :
    ∃ p, Ledger.Accepts h l.gateway.native tx w height v p ∧ tx.delta = 0 ∧
      l.gateway.native.outputs.size + tx.outputs.length ≤ MAX_LEDGER_OUTPUTS + tx.inputs.length ∧
      (∀ id ∈ tx.inputs, l.locks.get? id = none) ∧
      l.commitTransfer plan = { l with gateway := { l.gateway with
        native := l.gateway.native.commitApply tx p } } := by
  simp only [planTransfer, stageTransfer, ok_iff, outcome_eq_ok_iff, metered_eq_ok_iff, Prod.exists,
    exec_charge_eq_ok_iff, existsAndEq, and_true, Option.bind_eq_some_iff, not_not, not_lt] at done
  obtain ⟨still, hash, signing, unlocked, staged, gas, ⟨token, known, _, -, _, -, copied, free⟩, count,
    ⟨rest, removed, counted⟩, within, receipt, after, applied, _, -, _, -, rfl⟩ := done
  have signed : hash = transactionHash h l.gateway.native.domain tx := by
    simp only [Transaction.signingHash, ok_iff] at signing
    exact signing.2.symm
  have start : Ledger.Staged l.gateway.native
      { Ledger.new l.gateway.native.domain with tokens := empty.insert tx.asset token } [] :=
    ⟨rfl, fun id => by simp [Ledger.new], by simp⟩
  obtain ⟨stage, tokens⟩ := Ledger.stageInputs_eq_ok start copied
  rw [List.nil_append] at stage
  obtain ⟨p, accepted, -, rfl, -⟩ := Ledger.apply_accepts applied
  have ids := Ledger.ids_eq accepted
  rw [stage.domain, ← signed] at ids
  have whole := accepted.transfer stage.domain.symm
    (by rw [tokens, get?_insert_self, known])
    (fun id among => by rw [stage.outputs, if_pos among])
    (fun id among => Ledger.checkCollisions_eq_ok free id (ids ▸ among))
  refine ⟨p, whole, still, ?_, unlocked_eq_ok unlocked, ?_⟩
  · have left := checkedSub_eq_some removed
    obtain ⟨rfl, -⟩ := checkedAdd_eq_some counted
    omega
  · have exchanged : l.gateway.native.outputs.exchange tx.inputs (staged.commitApply tx p).outputs.entries =
        (l.gateway.native.commitApply tx p).outputs := by
      apply ext_get?
      intro id
      rw [get?_exchange_eq (keys_nodup _), ofList_entries]
      simp only [Ledger.commitApply_get?, stage.outputs]
      cases (ofList (p.made tx)).get? id <;> by_cases here : id ∈ tx.inputs <;> simp [here]
    rw [commitTransfer, exchanged, commitApply_transfer whole still]
    rfl

/-- What an accepted new pool has been checked for. -/
structure Creates (l : PoolLedger) (state : Amm.PoolState) : Prop where
  room : l.pools.size < MAX_POOLS
  domain : state.domain = l.gateway.native.domain
  unused : state.lpSupply = 0
  free : l.pools.get? state.id = none
  assets : ∀ i, l.asset (state.assets i) = .ok ()

theorem creates_of_checkCreate
    (done : exec (l.checkCreate h state creator signature v) g = (.ok (), g')) : Creates l state := by
  simp only [checkCreate, ok_iff, existsAndEq, and_true, not_le, not_or, not_not] at done
  obtain ⟨_, -, room, ⟨domain, -, unused, -, free⟩, allowed₀, allowed₁, -⟩ := done
  exact ⟨room, domain, unused, by simpa [contains] using free, Fin.forall_fin_two.mpr ⟨allowed₀, allowed₁⟩⟩

/-- A pool as the pool module hands it out; its fields are private to that module. -/
abbrev BuiltPool (h : Hashes) := {pool : Amm.PoolState // Amm.PoolState.Reached h.sha256 pool}

/-- A call on the pool ledger, with the verifier it is made under. A transfer that is planned is
committed or dropped. -/
inductive Call (h : Hashes) where
  | register (r : Registration) (signature : Bytes) (v : Verifier) (gas : ℕ)
  | enable (c : RouteConfig) (issuer : Bytes) (approvals : List Bytes) (v : Verifier) (gas : ℕ)
  | apply (tx : Transaction) (w : Witnesses) (height : ℕ) (v : Verifier) (gas : ℕ)
  | importDeposit (r : ImportRequest) (w : Witnesses) (approvals : List Bytes) (height : ℕ) (v : Verifier) (gas : ℕ)
  | withdraw (r : WithdrawalRequest) (w : Witnesses) (approvals : List Bytes) (height : ℕ) (v : Verifier) (gas : ℕ)
  | settlePair (swap : PairSwap) (w : Witnesses × Witnesses) (height : ℕ) (v : Verifier) (gas : ℕ)
  | transfer (tx : Transaction) (w : Witnesses) (height : ℕ) (v : Verifier) (gasLimit : ℕ) (commit : Bool)
  | create (state : BuiltPool h) (creator signature : Bytes) (v : Verifier) (gasLimit : ℕ)
  | execute (action : PoolAction) (signature : Bytes) (height : ℕ) (v : Verifier) (gasLimit : ℕ)

namespace Call

def verifier : Call h → Verifier
  | .register _ _ v _ | .enable _ _ _ v _ | .apply _ _ _ v _ | .importDeposit _ _ _ _ v _
  | .withdraw _ _ _ _ v _ | .settlePair _ _ _ v _ | .transfer _ _ _ v _ _ | .create _ _ _ v _
  | .execute _ _ _ v _ => v

def below : Call h → Option Gateway.Call
  | .register r signature v gas => some (.register r signature v gas)
  | .enable c issuer approvals v gas => some (.enable c issuer approvals v gas)
  | .apply tx w height v gas => some (.apply tx w height v gas)
  | .importDeposit r w approvals height v gas => some (.importDeposit r w approvals height v gas)
  | .withdraw r w approvals height v gas => some (.withdraw r w approvals height v gas)
  | .settlePair swap w height v gas => some (.settlePair swap w height v gas)
  | .transfer .. | .create .. | .execute .. => none

/-- A transfer that is planned, and committed or dropped. -/
def performTransfer (tx : Transaction) (w : Witnesses) (height : ℕ) (v : Verifier) (gasLimit : ℕ)
    (commit : Bool) : Attempt PoolLedger PoolError Unit :=
  transact (fun l => l.planTransfer h tx w height v gasLimit)
    (fun l plan => if commit then l.commitTransfer plan else l) (fun _ => ())

def perform : Call h → Attempt PoolLedger PoolError Unit
  | .register r signature v gas => do
    let _ ← PoolLedger.register h r signature v gas
    pure ()
  | .enable c issuer approvals v gas => do
    let _ ← PoolLedger.enable h c issuer approvals v gas
    pure ()
  | .apply tx w height v gas => do
    let _ ← PoolLedger.apply h tx w height v gas
    pure ()
  | .importDeposit r w approvals height v gas => do
    let _ ← PoolLedger.importDeposit h r w approvals height v gas
    pure ()
  | .withdraw r w approvals height v gas => do
    let _ ← PoolLedger.withdraw h r w approvals height v gas
    pure ()
  | .settlePair swap w height v gas => do
    let _ ← PoolLedger.settlePair h swap w height v gas
    pure ()
  | .transfer tx w height v gasLimit commit => performTransfer (h := h) tx w height v gasLimit commit
  | .create state creator signature v gasLimit => do
    let _ ← PoolLedger.create h state.val creator signature v gasLimit
    pure ()
  | .execute action signature height v gasLimit => do
    let _ ← PoolLedger.execute h action signature height v gasLimit
    pure ()

theorem atomic_perform (call : Call h) : Atomic call.perform := by
  cases call with
  | transfer => exact atomic_transact _ _ _
  | _ => exact (atomic_transact _ _ _).bind_unfailing (fun _ => unfailing_pure ())

end Call

def Step (h : Hashes) (l : PoolLedger) (call : Call h) (l' : PoolLedger) : Prop :=
  exec call.perform l = (.ok (), l')

/-- What an accepted call does. -/
inductive Change (h : Hashes) (l : PoolLedger) : Call h → PoolLedger → Prop where
  | gateway {call inner g} (below : call.below = some inner)
      (taken : Gateway.Step h l.gateway inner g)
      (unlocked : ∀ tx ∈ inner.transactions, ∀ id ∈ tx.inputs, l.locks.get? id = none) :
      Change h l call { l with gateway := g }
  | transfer {tx w height v gasLimit p}
      (accepted : Ledger.Accepts h l.gateway.native tx w height v p) (still : tx.delta = 0)
      (room : l.gateway.native.outputs.size + tx.outputs.length ≤ MAX_LEDGER_OUTPUTS + tx.inputs.length)
      (unlocked : ∀ id ∈ tx.inputs, l.locks.get? id = none) :
      Change h l (.transfer tx w height v gasLimit true)
        { l with gateway := { l.gateway with native := l.gateway.native.commitApply tx p } }
  | drop {tx w height v gasLimit} : Change h l (.transfer tx w height v gasLimit false) l
  | create {state creator signature v gasLimit}
      (accepted : Creates l state.val) : Change h l (.create state creator signature v gasLimit)
        { l with pools := l.pools.insert state.val.id ⟨state.val, none⟩ }
  | execute {action signature height v gasLimit pool t x}
      (accepted : Executes h l action height v pool t x) :
      Change h l (.execute action signature height v gasLimit) (commitExecute action l x)

theorem onGateway_eq_ok {a : A}
    (done : exec (onGateway spends x) l = (.ok a, l')) :
    ∃ g, exec x l.gateway = (.ok a, g) ∧ (∀ inputs ∈ spends, ∀ id ∈ inputs, l.locks.get? id = none) ∧
      l' = { l with gateway := g } := by
  simp only [onGateway, ok_iff, outcome_eq_ok_iff, Prod.exists] at done
  obtain ⟨a', g, ⟨checked, taken⟩, rfl, rfl⟩ := done
  refine ⟨g, taken, fun inputs among => ?_, rfl⟩
  have all : ∀ {spends : List (List OutPoint)}, forM spends l.unlocked = .ok () →
      ∀ inputs ∈ spends, l.unlocked inputs = .ok () := by
    intro spends passed
    induction spends with
    | nil => simp
    | cons first rest ih =>
      rw [List.forM_cons, bind_eq_ok_iff] at passed
      obtain ⟨_, one, others⟩ := passed
      exact List.forall_mem_cons.mpr ⟨one, ih others⟩
  exact unlocked_eq_ok (all checked inputs among)

theorem change_of_onGateway {inner : Gateway.Call} (below : call.below = some inner)
    (same : inner.perform h = (do let _ ← x; pure ()))
    (spent : ∀ tx ∈ inner.transactions, tx.inputs ∈ spends)
    (taken : exec (do let _ ← onGateway spends x; pure () : Attempt PoolLedger PoolError Unit) l = (.ok (), l')) :
    Change h l call l' := by
  simp only [ok_iff] at taken
  obtain ⟨a, _, passed, -, rfl⟩ := taken
  obtain ⟨g, done, unlocked, rfl⟩ := onGateway_eq_ok passed
  refine .gateway below ?_ (fun tx among => unlocked _ (spent tx among))
  rw [Gateway.Step, same]
  simp only [ok_iff]
  exact ⟨a, g, done, trivial, rfl⟩

theorem Step.change (taken : Step h l call l') : Change h l call l' := by
  unfold Step at taken
  cases call with
  | register | enable | apply | importDeposit | withdraw | settlePair =>
    exact change_of_onGateway rfl rfl (by simp [Gateway.Call.transactions]) taken
  | transfer tx w height v gasLimit commit =>
    simp only [Call.perform, Call.performTransfer, exec_transact_eq_ok_iff] at taken
    obtain ⟨plan, planned, -, rfl⟩ := taken
    obtain ⟨p, accepted, still, room, unlocked, committed⟩ := transfers_of_planTransfer planned
    cases commit with
    | true =>
      rw [if_pos rfl, committed]
      exact .transfer accepted still room unlocked
    | false => exact .drop
  | create state creator signature v gasLimit =>
    obtain ⟨⟨_, left⟩, planned, rfl⟩ := committed_of_transact taken
    exact .create (creates_of_checkCreate (metered_eq_ok_iff.mp planned))
  | execute action signature height v gasLimit =>
    obtain ⟨⟨x, left⟩, planned, rfl⟩ := committed_of_transact taken
    obtain ⟨pool, t, accepted⟩ := executes_of_checkExecute (metered_eq_ok_iff.mp planned)
    exact .execute accepted

end BlochPos.Ustav.Pools
