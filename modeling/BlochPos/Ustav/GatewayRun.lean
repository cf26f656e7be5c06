import BlochPos.Ustav.Settlement
import BlochPos.Ustav.Gateway

/-! What the accepted calls of the gateway do to the ledger below, the routes and the records. -/
namespace BlochPos.Ustav

open Attempt

namespace Ledger

variable {h : Hashes} {v : Verifier} {l : Ledger}

/-- What a call carries out on the ledger below. -/
inductive Moves (h : Hashes) (v : Verifier) (l : Ledger) : List Transaction → Ledger → Prop where
  | idle : Moves h v l [] l
  | register {r asset token} (accepted : Registers h l r v asset token) :
      Moves h v l [] { l with tokens := l.tokens.insert asset token }
  | apply {v' tx w height p} (alike : v.Alike v') (accepted : Accepts h l tx w height v' p)
      (room : l.outputs.size + tx.outputs.length ≤ MAX_LEDGER_OUTPUTS + tx.inputs.length) :
      Moves h v l [tx] (l.commitApply tx p)
  | settle {v' swap w height p q}
      (alike : v.Alike v') (settles : Settles h l swap w height v' p q) :
      Moves h v l [swap.legs.1, swap.legs.2] ((l.commitApply swap.legs.1 p).commitApply swap.legs.2 q)

theorem Moves.domain_eq (moves : Moves h v l txs l') : l'.domain = l.domain := by
  cases moves <;> rfl

theorem Moves.sound (moves : Moves h v l txs l') (sound : Sound h P l)
    (among : ∀ v', v.Alike v' → P v') : Sound h P l' := by
  cases moves with
  | idle => exact sound
  | register accepted => exact sound.register accepted (among v rfl)
  | apply alike accepted => exact sound.apply accepted (among _ alike)
  | settle alike settles =>
    exact (sound.apply settles.first (among _ alike)).apply settles.second (among _ alike)

theorem Moves.few (moves : Moves h v l txs l') (few : l.outputs.size ≤ MAX_LEDGER_OUTPUTS) :
    l'.outputs.size ≤ MAX_LEDGER_OUTPUTS := by
  cases moves with
  | idle | register => exact few
  | apply _ accepted room =>
    have sized := accepted.size
    omega
  | settle _ settles =>
    have first := settles.first.size
    have second := settles.second.size
    have room := settles.room
    omega

theorem CollisionFree.mono {domain : Bytes32}
    (free : CollisionFree h domain txs') (fewer : txs ⊆ txs') : CollisionFree h domain txs :=
  Set.InjOn.mono (fun _ member => member.imp (fun _ made => ⟨fewer made.1, made.2⟩)) free

theorem Recorded.register (recorded : Recorded h done l) (accepted : Registers h l r v asset token) :
    Recorded h done { l with tokens := l.tokens.insert asset token } := by
  refine recorded.retoken (fun {other held} found => ⟨held, ?_, rfl⟩)
  have ne : other ≠ asset := SortedMap.ne_of_absent found accepted.free
  rw [SortedMap.get?_insert_of_ne _ _ ne, found]

theorem Moves.recorded (moves : Moves h v l txs l') (recorded : Recorded h done l)
    (free : CollisionFree h l.domain (done ++ txs)) : Recorded h (done ++ txs) l' := by
  cases moves with
  | idle => rwa [List.append_nil]
  | register accepted =>
    rw [List.append_nil]
    exact recorded.register accepted
  | apply _ accepted => exact recorded.apply accepted free
  | settle _ settles =>
    rw [List.append_cons] at free ⊢
    exact (recorded.apply settles.first (free.mono (List.subset_append_left _ _))).apply settles.second free

end Ledger

namespace Gateway

open Ledger GatewayLedger

variable {h : Hashes} {l l' : GatewayLedger} {v : Verifier} {w : Witnesses} {height gasLimit : ℕ}
  {approvals : List Bytes} {c : RouteConfig} {r : ImportRequest} {call : Call}

theorem attest_eq_ok {native : Ledger}
    (done : l.attest h c message nativeMessage approvals tx w height v gasLimit = .ok (receipt, native)) :
    ∃ v' p, v.Alike v' ∧ Accepts h l.native tx w height v' p ∧
      l.native.outputs.size + tx.outputs.length ≤ MAX_LEDGER_OUTPUTS + tx.inputs.length ∧
      native = l.native.commitApply tx p ∧ receipt.transaction = p.message := by
  simp only [attest, ok_iff, Prod.exists, outcome_eq_ok_iff, Prod.mk.injEq] at done
  obtain ⟨_, -, _, -, inner, _, applied, rfl, rfl⟩ := done
  obtain ⟨p, accepted, room, rfl, same⟩ := apply_accepts applied
  exact ⟨scopeTo v nativeMessage message, p, rfl, accepted, room, rfl, same⟩

/-- What an accepted import has been checked for. -/
structure Imports (h : Hashes) (l : GatewayLedger) (r : ImportRequest) (w : Witnesses) (height : ℕ) (v : Verifier)
    (s : RouteState) (p : Planned) : Prop where
  room : l.imports.size < MAX_RECORDS
  known : l.routes.get? r.deposit.route = some s
  accepted : Accepts h l.native r.transaction w height v p
  outputs : l.native.outputs.size + r.transaction.outputs.length ≤
    MAX_LEDGER_OUTPUTS + r.transaction.inputs.length
  asset : r.transaction.asset = s.config.route.nativeAsset
  issues : r.transaction.delta = r.deposit.amount
  nonzero : r.deposit.amount ≠ 0 ∧ r.deposit.sender ≠ 0 ∧ r.deposit.pqRecipientHash ≠ 0 ∧
    r.sourceTransaction ≠ 0 ∧ r.sourceBlock ≠ 0
  key : l.imports.get? (toLex (r.deposit.route, r.deposit.nonce)) = none
  event : (s.config.route.sourceDomain, s.config.route.vault, r.sourceTransaction, r.eventIndex) ∉ l.events
  fits : s.imported + r.deposit.amount ≤ u128Max
  backed : s.burned ≤ s.imported + r.deposit.amount ∧
    s.imported + r.deposit.amount - s.burned ≤ s.config.route.cap

theorem matches_of_not_mismatched
    (meets : ¬ r.mismatched h route height = true) : r.transaction.asset = route.nativeAsset ∧
      r.transaction.delta = r.deposit.amount ∧ r.deposit.amount ≠ 0 ∧ r.deposit.sender ≠ 0 ∧
      r.deposit.pqRecipientHash ≠ 0 ∧ r.sourceTransaction ≠ 0 ∧ r.sourceBlock ≠ 0 := by
  simp only [ImportRequest.mismatched, Bool.or_eq_true, decide_eq_true_eq, not_or, not_not] at meets
  obtain ⟨⟨⟨⟨⟨⟨⟨⟨⟨amount, sender⟩, recipient⟩, transaction⟩, block⟩, -⟩, -⟩, asset⟩, -⟩, sole⟩ := meets
  split at sole
  · simp only [Bool.or_eq_true, decide_eq_true_eq, not_or, not_not] at sole
    exact ⟨asset, sole.1.1, amount, sender, recipient, transaction, block⟩
  · exact absurd rfl sole

theorem imports_of_checkImport (done : l.checkImport h r w approvals height v gasLimit = .ok plan) :
    ∃ v' s p, v.Alike v' ∧ Imports h l r w height v' s p ∧
      plan.route = { s with imported := s.imported + r.deposit.amount } ∧
      plan.native = l.native.commitApply r.transaction p ∧ plan.receipt.transaction = p.message := by
  simp only [checkImport, ok_iff, Prod.exists, not_le, not_lt, not_or] at done
  obtain ⟨room, s, known, message, -, meets, ⟨key, event⟩, imported, added, outstanding, left, capped,
    nativeMessage, -, receipt, native, attested, rfl⟩ := done
  obtain ⟨asset, issues, nonzero⟩ := matches_of_not_mismatched meets
  obtain ⟨rfl, fits⟩ := checkedAdd_eq_some added
  have taken := checkedSub_eq_some left
  obtain ⟨v', p, alike, accepted, outputs, rfl, same⟩ := attest_eq_ok attested
  refine ⟨v', s, p, alike, ?_, rfl, rfl, same⟩
  exact {
    room, known, accepted, outputs, asset, issues, nonzero, event, fits
    key := by simpa [SortedMap.contains] using key
    backed := ⟨by omega, by omega⟩ }

/-- What an accepted withdrawal has been checked for. -/
structure Withdraws (h : Hashes) (l : GatewayLedger) (r : WithdrawalRequest) (w : Witnesses) (height : ℕ)
    (v : Verifier) (s : RouteState) (p : Planned) : Prop where
  room : l.releases.size < MAX_RECORDS
  known : l.routes.get? r.route = some s
  accepted : Accepts h l.native r.transaction w height v p
  outputs : l.native.outputs.size + r.transaction.outputs.length ≤
    MAX_LEDGER_OUTPUTS + r.transaction.inputs.length
  asset : r.transaction.asset = s.config.route.nativeAsset
  retires : r.transaction.delta < 0
  nonce : r.nonce = s.nextReleaseNonce
  recipient : r.recipient ≠ 0 ∧ r.recipient ≠ s.config.route.vault ∧ r.recipient ≠ s.config.route.token
  backed : s.burned + r.transaction.delta.natAbs ≤ s.imported
  next : s.nextReleaseNonce < u64Max

theorem withdraws_of_checkWithdraw {r : WithdrawalRequest}
    (done : l.checkWithdraw h r w approvals height v gasLimit = .ok plan) :
    ∃ v' s p, v.Alike v' ∧ Withdraws h l r w height v' s p ∧
      plan.1.route = { s with burned := s.burned + r.transaction.delta.natAbs,
                              nextReleaseNonce := s.nextReleaseNonce + 1 } ∧
      plan.1.native = l.native.commitApply r.transaction p ∧
      plan.2 = ⟨r.route, r.nonce, r.recipient, r.transaction.delta.natAbs, p.message⟩ := by
  simp only [checkWithdraw, WithdrawalRequest.signingHash, Transaction.signingHash, ok_iff, Prod.exists,
    existsAndEq, and_true, not_le, not_lt, not_or, not_not] at done
  obtain ⟨room, s, known, -, ⟨asset, retires, nonce, recipient⟩, -, burned, added, backed, next, advanced, -,
    receipt, native, attested, rfl⟩ := done
  obtain ⟨rfl, -⟩ := checkedAdd_eq_some added
  obtain ⟨rfl, next⟩ := checkedAdd_eq_some advanced
  obtain ⟨v', p, alike, accepted, outputs, rfl, -⟩ := attest_eq_ok attested
  refine ⟨v', s, p, alike, ?_, rfl, rfl, ?_⟩
  · exact { room, known, accepted, outputs, asset, retires, nonce, recipient, backed, next }
  · rw [accepted.message]

def GatewayLedger.afterEnable (h : Hashes) (l : GatewayLedger) (c : RouteConfig) : GatewayLedger :=
  { l with routes := l.routes.insert (c.route.id h) ⟨c, 0, 0, 0⟩ }

def GatewayLedger.afterImport (l : GatewayLedger) (r : ImportRequest) (s : RouteState) (p : Planned) : GatewayLedger :=
  let record := r.record p.message
  { l with
    native := l.native.commitApply r.transaction p
    routes := l.routes.insert r.deposit.route { s with imported := s.imported + r.deposit.amount }
    events := insert (record.event s.config.route) l.events
    imports := l.imports.insert record.key record }

def GatewayLedger.afterWithdraw (l : GatewayLedger) (r : WithdrawalRequest) (s : RouteState) (p : Planned) :
    GatewayLedger :=
  let release : Release := ⟨r.route, r.nonce, r.recipient, r.transaction.delta.natAbs, p.message⟩
  { l with
    native := l.native.commitApply r.transaction p
    routes := l.routes.insert r.route { s with burned := s.burned + r.transaction.delta.natAbs,
                                               nextReleaseNonce := s.nextReleaseNonce + 1 }
    releases := l.releases.insert release.key release }

/-- What an accepted route has been checked for. -/
structure Enables (l : GatewayLedger) (c : RouteConfig) (v : Verifier) : Prop where
  room : l.routes.size < MAX_ROUTES
  valid : validateConfig l.native c v = .ok ()
  supply : l.native.supply c.route.nativeAsset = some 0
  nonce : l.native.nextMintNonce c.route.nativeAsset = some 0
  endpoint : ∀ {id s}, l.routes.get? id = some s →
    ¬ (s.config.route.sourceDomain = c.route.sourceDomain ∧ s.config.route.vault = c.route.vault)

theorem enables_of_checkEnable
    (done : exec (l.checkEnable h c signature approvals v) g = (.ok (), g')) : Enables l c v := by
  simp only [checkEnable, ok_iff, existsAndEq, and_true, not_le, not_or, not_not, not_exists] at done
  obtain ⟨room, valid, ⟨supply, nonce, endpoint⟩, -⟩ := done
  exact ⟨room, valid, supply, nonce, fun found same =>
    endpoint _ ⟨SortedMap.mem_values_iff.mpr ⟨_, found⟩, same⟩⟩

/-- A call on the gateway, with the verifier it is made under. -/
inductive Call where
  | register (r : Registration) (signature : Bytes) (v : Verifier) (gasLimit : ℕ)
  | enable (c : RouteConfig) (issuerSignature : Bytes) (approvals : List Bytes) (v : Verifier) (gasLimit : ℕ)
  | apply (tx : Transaction) (w : Witnesses) (height : ℕ) (v : Verifier) (gasLimit : ℕ)
  | settlePair (swap : PairSwap) (w : Witnesses × Witnesses) (height : ℕ) (v : Verifier) (gasLimit : ℕ)
  | importDeposit (r : ImportRequest) (w : Witnesses) (approvals : List Bytes) (height : ℕ) (v : Verifier)
      (gasLimit : ℕ)
  | withdraw (r : WithdrawalRequest) (w : Witnesses) (approvals : List Bytes) (height : ℕ) (v : Verifier)
      (gasLimit : ℕ)

namespace Call

def verifier : Call → Verifier
  | .register _ _ v _ | .enable _ _ _ v _ | .apply _ _ _ v _ | .settlePair _ _ _ v _
  | .importDeposit _ _ _ _ v _ | .withdraw _ _ _ _ v _ => v

def transactions : Call → List Transaction
  | .register .. | .enable .. => []
  | .apply tx .. => [tx]
  | .settlePair swap .. => [swap.legs.1, swap.legs.2]
  | .importDeposit r .. | .withdraw r .. => [r.transaction]

def route? : Call → Option Route
  | .enable c .. => some c.route
  | _ => none

def import? : Call → Option ImportRequest
  | .importDeposit r .. => some r
  | _ => none

def perform (h : Hashes) : Call → Attempt GatewayLedger GatewayError Unit
  | .register r signature v gasLimit => do
    let _ ← GatewayLedger.register h r signature v gasLimit
    pure ()
  | .enable c issuerSignature approvals v gasLimit => do
    let _ ← GatewayLedger.enable h c issuerSignature approvals v gasLimit
    pure ()
  | .apply tx w height v gasLimit => do
    let _ ← GatewayLedger.apply h tx w height v gasLimit
    pure ()
  | .settlePair swap w height v gasLimit => do
    let _ ← GatewayLedger.settlePair h swap w height v gasLimit
    pure ()
  | .importDeposit r w approvals height v gasLimit => do
    let _ ← GatewayLedger.importDeposit h r w approvals height v gasLimit
    pure ()
  | .withdraw r w approvals height v gasLimit => do
    let _ ← GatewayLedger.withdraw h r w approvals height v gasLimit
    pure ()

theorem atomic_apply (tx : Transaction) (w : Witnesses) (height : ℕ) (v : Verifier) (gasLimit : ℕ) :
    Atomic (GatewayLedger.apply h tx w height v gasLimit) := by
  unfold GatewayLedger.apply
  refine readOnly_get.bind_atomic (fun l => (readOnly_check _).bind_atomic (fun _ => ?_))
  exact atomic_transact _ _ _

theorem atomic_perform (call : Call) : Atomic (call.perform h) := by
  cases call with
  | apply tx w height v gasLimit =>
    exact Atomic.bind_unfailing (atomic_apply tx w height v gasLimit) (fun _ => unfailing_pure ())
  | _ => exact (atomic_transact _ _ _).bind_unfailing (fun _ => unfailing_pure ())

end Call

def Step (h : Hashes) (l : GatewayLedger) (call : Call) (l' : GatewayLedger) : Prop :=
  exec (call.perform h) l = (.ok (), l')

/-- What an accepted call does to the gateway. -/
inductive Change (h : Hashes) (l : GatewayLedger) : Call → GatewayLedger → Prop where
  | register {r signature v gasLimit asset token}
      (accepted : Registers h l.native r v asset token) :
      Change h l (.register r signature v gasLimit)
        { l with native := { l.native with tokens := l.native.tokens.insert asset token } }
  | enable {c signature approvals v gasLimit}
      (accepted : Enables l c v) : Change h l (.enable c signature approvals v gasLimit) (l.afterEnable h c)
  | apply {tx w height v gasLimit p} (accepted : Accepts h l.native tx w height v p)
      (room : l.native.outputs.size + tx.outputs.length ≤ MAX_LEDGER_OUTPUTS + tx.inputs.length)
      (outside : tx.delta ≠ 0 → l.bridged tx.asset = false) :
      Change h l (.apply tx w height v gasLimit) { l with native := l.native.commitApply tx p }
  | settlePair {swap w height v v' gasLimit p q}
      (alike : v.Alike v') (settles : Settles h l.native swap w height v' p q) :
      Change h l (.settlePair swap w height v gasLimit)
        { l with native := (l.native.commitApply swap.legs.1 p).commitApply swap.legs.2 q }
  | importDeposit {r w approvals height v v' gasLimit s p} (alike : v.Alike v')
      (accepted : Imports h l r w height v' s p) :
      Change h l (.importDeposit r w approvals height v gasLimit) (l.afterImport r s p)
  | withdraw {r w approvals height v v' gasLimit s p} (alike : v.Alike v')
      (accepted : Withdraws h l r w height v' s p) :
      Change h l (.withdraw r w approvals height v gasLimit) (l.afterWithdraw r s p)

theorem onNative_eq_ok {f : E → GatewayError} {x : Attempt Ledger E A} {a : A}
    (done : exec (onNative f x) l = (.ok a, l')) :
    ∃ native, exec x l.native = (.ok a, native) ∧ l' = { l with native := native } := by
  simp only [onNative, ok_iff, outcome_eq_ok_iff, Prod.exists] at done
  obtain ⟨a', native, taken, rfl, rfl⟩ := done
  exact ⟨native, taken, rfl⟩

theorem Step.change (taken : Step h l call l') : Change h l call l' := by
  unfold Step Call.perform at taken
  cases call with
  | register r signature v gasLimit =>
    simp only [GatewayLedger.register, ok_iff] at taken
    obtain ⟨_, _, taken, -, rfl⟩ := taken
    obtain ⟨native, below, rfl⟩ := onNative_eq_ok taken
    simp only [Ledger.register, exec_transact_eq_ok_iff] at below
    obtain ⟨⟨plan, left⟩, planned, -, rfl⟩ := below
    exact .register (registers_of_checkRegister (metered_eq_ok_iff.mp planned))
  | enable c signature approvals v gasLimit =>
    obtain ⟨⟨_, left⟩, planned, rfl⟩ := committed_of_transact taken
    exact .enable (enables_of_checkEnable (metered_eq_ok_iff.mp planned))
  | apply tx w height v gasLimit =>
    simp only [GatewayLedger.apply, ok_iff, existsAndEq, and_true, true_and, not_and] at taken
    obtain ⟨_, outside, taken⟩ := taken
    obtain ⟨native, below, rfl⟩ := onNative_eq_ok taken
    obtain ⟨p, accepted, room, rfl, -⟩ := apply_accepts below
    exact .apply accepted room (fun changes => Bool.eq_false_of_not_eq_true (outside changes))
  | settlePair swap w height v gasLimit =>
    simp only [GatewayLedger.settlePair, ok_iff] at taken
    obtain ⟨_, _, taken, -, rfl⟩ := taken
    obtain ⟨native, below, rfl⟩ := onNative_eq_ok taken
    simp only [Ledger.settlePair, exec_transact_eq_ok_iff] at below
    obtain ⟨⟨plan, left⟩, planned, -, rfl⟩ := below
    obtain ⟨v', p, q, alike, settles, same⟩ := settles_of_checkSettle (metered_eq_ok_iff.mp planned)
    rw [same]
    exact .settlePair alike settles
  | importDeposit r w approvals height v gasLimit =>
    obtain ⟨plan, planned, rfl⟩ := committed_of_transact taken
    obtain ⟨v', s, p, alike, accepted, route, native, same⟩ := imports_of_checkImport planned
    rw [commitImport, route, native, same]
    exact .importDeposit alike accepted
  | withdraw r w approvals height v gasLimit =>
    obtain ⟨plan, planned, rfl⟩ := committed_of_transact taken
    obtain ⟨v', s, p, alike, accepted, route, native, release⟩ := withdraws_of_checkWithdraw planned
    rw [commitWithdraw, route, native, release]
    exact .withdraw alike accepted

theorem Step.moves (taken : Step h l call l') :
    Moves h call.verifier l.native call.transactions l'.native := by
  cases taken.change with
  | register accepted => exact .register accepted
  | enable => exact .idle
  | apply accepted room => exact .apply rfl accepted room
  | settlePair alike settles => exact .settle alike settles
  | importDeposit alike accepted | withdraw alike accepted => exact .apply alike accepted.accepted accepted.outputs

end Gateway

end BlochPos.Ustav
