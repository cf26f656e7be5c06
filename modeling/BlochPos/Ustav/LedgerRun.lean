import BlochPos.Lib.Codes
import BlochPos.Lib.Exchange
import BlochPos.Ustav.Kernel

/-! The integrity of the ledger along any run. -/
namespace BlochPos.Ustav

open Attempt List

theorem delimits_leBytes (width : ℕ) : Delimits (leBytes width) (· < 256 ^ width) :=
  .of_length (fun n _ => length_leBytes width n) (fun a b here there same => by
    rw [← ofLeBytes_leBytes here, ← ofLeBytes_leBytes there, same])

theorem delimits_hashBytes : Delimits hashBytes (fun _ => True) :=
  .of_length (fun b _ => length_hashBytes b) (fun a b _ _ same => by
    rw [← toHash_hashBytes a, ← toHash_hashBytes b, same])

theorem delimits_putLong : Delimits putLong (fun b => b.length < 256 ^ 8) :=
  (delimits_leBytes 8).measured

theorem delimits_leBytesInt : Delimits (leBytesInt 16) (fun n => -2 ^ 127 ≤ n ∧ n < 2 ^ 127) :=
  .of_length (fun n _ => length_leBytes 16 _) (fun a b here there same => by
    have fits : ∀ n : ℤ, (n % 2 ^ (8 * 16)).toNat < 256 ^ 16 := fun n => by
      have := Int.emod_lt_of_pos n (b := 2 ^ (8 * 16)) (by norm_num)
      have := Int.emod_nonneg n (b := 2 ^ (8 * 16)) (by norm_num)
      omega
    have residue := (delimits_leBytes 16).inj (fits a) (fits b) same
    omega)

theorem delimits_outPoint : Delimits OutPoint.bytes (fun id => (ofLex id).2 < 256 ^ 4) :=
  (delimits_hashBytes.pair (delimits_leBytes 4)).comap ofLex (fun _ small => ⟨trivial, small⟩)
    ofLex.injective

theorem delimits_output : Delimits (fun p : Bytes × Bytes => putLong p.1 ++ p.2)
    (fun p => p.1.length < 256 ^ 8 ∧ p.2.length = 8) :=
  delimits_putLong.pair (.of_length (fun _ long => long) (fun _ _ _ _ same => same))

theorem flatMap_outputBytes (outputs : List Output) : outputs.flatMap Output.bytes =
    (outputs.map (fun o => (o.owner, leBytes 8 o.amount))).flatMap (fun p => putLong p.1 ++ p.2) := by
  rw [flatMap_map]
  rfl

namespace Transaction

variable {tx tx' : Transaction}

/-- What an accepted shape says of a transaction. -/
structure Shaped (tx : Transaction) : Prop where
  inputs : tx.inputs.length ≤ MAX_INPUTS
  outputs : tx.outputs.length ≤ MAX_OUTPUTS
  sorted : tx.inputs.IsChain (· < ·)
  amounts : ∀ o ∈ tx.outputs, 0 < o.amount
  owners : ∀ o ∈ tx.outputs, o.owner.length ≤ MAX_KEY_BYTES
  mints : tx.inputs = [] → 0 < tx.delta
  delta : tx.delta.natAbs ≤ u64Max

theorem checkOwner_all {outputs : List Output} {bytes bytes' : ℕ}
    (done : outputs.foldlM checkOwner bytes = .ok bytes') :
    ∀ o ∈ outputs, o.owner.length ≤ MAX_KEY_BYTES := by
  induction outputs generalizing bytes with
  | nil => simp
  | cons o rest ih =>
    rw [foldlM_cons, bind_eq_ok_iff] at done
    obtain ⟨mid, first, later⟩ := done
    simp only [checkOwner, ok_iff, not_or, not_lt] at first
    exact forall_mem_cons.mpr ⟨first.1.2, ih later⟩

theorem shaped_of_check (checked : tx.checkShape = .ok ()) : tx.Shaped := by
  simp only [checkShape, ok_iff, not_or, not_lt, not_not, not_exists, not_and, not_le] at checked
  obtain ⟨⟨inputs, outputs⟩, sorted, amounts, bytes, owners, -, mints, delta, -⟩ := checked
  exact ⟨inputs, outputs, sorted, fun o among => Nat.pos_of_ne_zero (amounts o among),
    checkOwner_all owners, mints, delta⟩

theorem fields_of_bytes_eq (shaped : tx.Shaped) (shaped' : tx'.Shaped)
    (small : ∀ id ∈ tx.inputs, (ofLex id).2 < 256 ^ 4) (small' : ∀ id ∈ tx'.inputs, (ofLex id).2 < 256 ^ 4)
    (same : tx.bytes domain = tx'.bytes domain) :
    tx.asset = tx'.asset ∧ tx.inputs = tx'.inputs ∧ tx.delta = tx'.delta ∧
      leBytes 8 tx.mintNonce = leBytes 8 tx'.mintNonce := by
  have few : ∀ {t : Transaction}, t.Shaped → t.inputs.length < 256 ^ 8 ∧ t.outputs.length < 256 ^ 8 :=
    fun s => ⟨s.inputs.trans_lt (by decide), s.outputs.trans_lt (by decide)⟩
  have short : ∀ {t : Transaction}, t.Shaped → ∀ o ∈ t.outputs, o.owner.length < 256 ^ 8 :=
    fun s o among => (s.owners o among).trans_lt (by decide)
  have narrow : ∀ {t : Transaction}, t.Shaped → -2 ^ 127 ≤ t.delta ∧ t.delta < 2 ^ 127 := fun s => by
    have bound : u64Max < 2 ^ 127 := by decide
    have := s.delta
    omega
  simp only [bytes, append_assoc, append_cancel_left_eq] at same
  obtain ⟨asset, same⟩ := delimits_hashBytes trivial trivial same
  obtain ⟨count, same⟩ := delimits_leBytes 8 (few shaped).1 (few shaped').1 same
  obtain ⟨inputs, same⟩ := delimits_outPoint.flatMap small small' count same
  obtain ⟨made, same⟩ := delimits_leBytes 8 (few shaped).2 (few shaped').2 same
  have worded : ∀ {t : Transaction}, t.Shaped →
      ∀ p ∈ t.outputs.map (fun o => (o.owner, leBytes 8 o.amount)), p.1.length < 256 ^ 8 ∧ p.2.length = 8 := by
    intro t s p among
    obtain ⟨o, listed, rfl⟩ := mem_map.mp among
    exact ⟨short s o listed, length_leBytes 8 _⟩
  rw [flatMap_outputBytes, flatMap_outputBytes] at same
  obtain ⟨-, same⟩ := delimits_output.flatMap (worded shaped) (worded shaped')
    (by rw [length_map, length_map, made]) same
  obtain ⟨delta, same⟩ := delimits_leBytesInt (narrow shaped) (narrow shaped') same
  exact ⟨asset, inputs, delta, (append_inj same (by rw [length_leBytes, length_leBytes])).1⟩

end Transaction

theorem checkedI128_eq_some (fits : checkedI128 n = some m) : m = n ∧ m < 2 ^ 127 := by
  unfold checkedI128 at fits
  split_ifs at fits with within
  cases fits
  exact ⟨rfl, within.2⟩

namespace Ledger

variable {h : Hashes} {l : Ledger} {tx : Transaction} {w : Witnesses} {height : ℕ} {v : Verifier}
  {p : Planned} {g g' : ℕ} {token : Token}

def amountAt (l : Ledger) (id : OutPoint) : ℕ := (l.outputs.get? id).elim 0 (·.output.amount)

def ownerAt (l : Ledger) (id : OutPoint) : Bytes := (l.outputs.get? id).elim [] (·.output.owner)

def Side.add {A : Type} (amount : A → ℕ) (subject : A → Bytes32) (side : Side) (a : A) : Side :=
  ⟨side.total + amount a, insert (subject a) side.subjects⟩

theorem Side.foldl_add (amount : A → ℕ) (subject : A → Bytes32) (items : List A) (side : Side) :
    (items.foldl (Side.add amount subject) side).total = side.total + (items.map amount).sum ∧
      ∀ s, s ∈ (items.foldl (Side.add amount subject) side).subjects ↔
        s ∈ side.subjects ∨ s ∈ items.map subject := by
  induction items generalizing side with
  | nil => simp
  | cons a rest ih =>
    obtain ⟨total, subjects⟩ := ih (side.add amount subject a)
    rw [foldl_cons]
    refine ⟨?_, fun s => ?_⟩
    · rw [total, Side.add, map_cons, sum_cons]
      push_cast
      ring
    · rw [subjects s, Side.add, Finset.mem_insert, map_cons, mem_cons]
      tauto

/-- The input is held and its owner has signed. -/
structure Spendable (l : Ledger) (tx : Transaction) (message : Bytes32) (v : Verifier)
    (input : OutPoint × Bytes) : Prop where
  held : ∃ o, l.outputs.get? input.1 = some o ∧ o.asset = tx.asset
  signed : v.verifyPq (hashBytes message) (l.ownerAt input.1) input.2 = true

theorem spendInput_eq_ok (done : exec (l.spendInput h tx message v seen input) g = (.ok seen', g')) :
    l.Spendable tx message v input ∧ seen' = Side.add (fun e => l.amountAt e.1)
      (fun e => eligibilityKey h l.domain tx.asset (l.ownerAt e.1)) seen input := by
  simp only [spendInput, ok_iff, exec_charge_eq_ok_iff, not_not, Bool.not_eq_false] at done
  obtain ⟨o, _, ⟨found, rfl⟩, _, ⟨asset, rfl⟩, total, _, ⟨sum, rfl⟩, _, paid, _, ⟨signed, rfl⟩, rfl, rfl⟩ := done
  have owner : l.ownerAt input.1 = o.output.owner := by rw [ownerAt, found]; rfl
  have amount : l.amountAt input.1 = o.output.amount := by rw [amountAt, found]; rfl
  refine ⟨⟨⟨o, found, asset⟩, by rw [owner]; exact signed⟩, ?_⟩
  rw [Side.add, owner, amount, (checkedI128_eq_some sum).1]

theorem createOutput_eq_ok (done : exec (l.createOutput h tx v seen output) g = (.ok seen', g')) :
    v.validPqKey output.owner = true ∧ seen' = Side.add Output.amount
      (fun o => eligibilityKey h l.domain tx.asset o.owner) seen output := by
  simp only [createOutput, ok_iff, exec_charge_eq_ok_iff, Bool.not_eq_false] at done
  obtain ⟨_, paid, _, ⟨valid, rfl⟩, total, _, ⟨sum, rfl⟩, rfl, rfl⟩ := done
  exact ⟨valid, by rw [Side.add, (checkedI128_eq_some sum).1]⟩

/-- What the checks of a transaction establish about it. -/
structure Accepts (h : Hashes) (l : Ledger) (tx : Transaction) (w : Witnesses) (height : ℕ) (v : Verifier)
    (p : Planned) : Prop where
  shaped : tx.Shaped
  known : l.tokens.get? tx.asset = some p.token
  message : p.message = transactionHash h l.domain tx
  inputs : ∀ input ∈ tx.inputs.zip w.owners, l.Spendable tx p.message v input
  owners : w.owners.length = tx.inputs.length
  modules : w.modules.length = p.token.compiled.validators.length
  outputs : ∀ o ∈ tx.outputs, v.validPqKey o.owner = true
  conserved : ((tx.inputs.map l.amountAt).sum : ℤ) + tx.delta = (tx.outputs.map Output.amount).sum
  supply : (p.supply : ℤ) = p.token.supply + tx.delta
  capped : ∃ cap, p.token.cap = .ok cap ∧ p.supply ≤ cap
  fits : p.supply < 2 ^ 127
  nonce : p.nextNonce = p.token.mintNonce + (if 0 < tx.delta then 1 else 0)
  minted : 0 < tx.delta → tx.mintNonce = p.token.mintNonce ∧ p.token.mintNonce < u64Max
  ran : ∃ g g', exec (runModules h p.token p.message height w tx.delta (tx.inputs ≠ []) false v) g =
    (.ok (), g')
  eligible : ∃ subjects g g', (∀ id ∈ tx.inputs, eligibilityKey h l.domain tx.asset (l.ownerAt id) ∈ subjects) ∧
    (∀ o ∈ tx.outputs, eligibilityKey h l.domain tx.asset o.owner ∈ subjects) ∧
    exec (checkEligibility h p.token height subjects w) g = (.ok (), g')
  fresh : ∀ id ∈ p.ids tx, l.outputs.get? id = none

theorem checkSupply_eq_ok {supply : ℕ} (done : checkSupply token delta = .ok supply) :
    (supply : ℤ) = token.supply + delta ∧ supply < 2 ^ 127 ∧ ∃ cap, token.cap = .ok cap ∧ supply ≤ cap := by
  simp only [checkSupply, ok_iff, not_lt] at done
  obtain ⟨sum, fits, positive, cap, capped, within, rfl⟩ := done
  obtain ⟨same, small⟩ := checkedI128_eq_some fits
  exact ⟨by omega, by omega, cap, capped, by omega⟩

theorem checkNonce_eq_ok {next : ℕ} (done : checkNonce token tx = .ok next) :
    next = token.mintNonce + (if 0 < tx.delta then 1 else 0) ∧
      (0 < tx.delta → tx.mintNonce = token.mintNonce ∧ token.mintNonce < u64Max) := by
  unfold checkNonce at done
  split_ifs at done with mints
  · simp only [ok_iff, not_not] at done
    obtain ⟨same, advanced⟩ := done
    obtain ⟨rfl, fits⟩ := checkedAdd_eq_some advanced
    exact ⟨by rw [if_pos mints], fun _ => ⟨same, by omega⟩⟩
  · rw [pure_eq_ok_iff] at done
    exact ⟨by rw [if_neg mints, ← done, Nat.add_zero], fun minting => absurd minting mints⟩

theorem check_eq_ok (done : w.check modules owners = .ok bytes) :
    w.modules.length = modules ∧ w.owners.length = owners := by
  simp only [Witnesses.check, ok_iff, not_or, not_not] at done
  exact ⟨done.1.1, done.1.2.1⟩

theorem accepts_of_checkApply (done : exec (l.checkApply h tx w height v) g = (.ok p, g')) :
    Accepts h l tx w height v p ∧
      l.outputs.size + tx.outputs.length ≤ MAX_LEDGER_OUTPUTS + tx.inputs.length := by
  simp only [checkApply, ok_iff, existsAndEq, and_true, exec_charge_eq_ok_iff, not_not, not_lt, not_exists,
    not_and, Option.bind_eq_some_iff] at done
  obtain ⟨shape, token, known, -, -, bytes, witnessed, -, _, -, message, signing, spent, _, inputs, made, _,
    outputs, conserved, supply, supplied, nextNonce, numbered, _, ran, count, eligible, fresh,
    ⟨rest, taken, counted⟩, within, rfl⟩ := done
  obtain ⟨spendable, spent_eq⟩ := foldlM_rounds (fun round => spendInput_eq_ok round) inputs
  obtain ⟨valid, made_eq⟩ := foldlM_rounds (fun round => createOutput_eq_ok round) outputs
  obtain ⟨sameModules, sameOwners⟩ := check_eq_ok witnessed
  have signed : message = transactionHash h l.domain tx := by
    simp only [Transaction.signingHash, ok_iff] at signing
    exact signing.2.symm
  obtain ⟨added, fits, capped⟩ := checkSupply_eq_ok supplied
  obtain ⟨nonce, minted⟩ := checkNonce_eq_ok numbered
  have paired : (tx.inputs.zip w.owners).map Prod.fst = tx.inputs := map_fst_zip sameOwners.ge
  obtain ⟨totalIn, subjectsIn⟩ := Side.foldl_add (fun e => l.amountAt e.1)
    (fun e => eligibilityKey h l.domain tx.asset (l.ownerAt e.1)) (tx.inputs.zip w.owners) ⟨0, ∅⟩
  rw [← spent_eq] at totalIn subjectsIn
  obtain ⟨totalOut, subjectsOut⟩ := Side.foldl_add Output.amount
    (fun o => eligibilityKey h l.domain tx.asset o.owner) tx.outputs ⟨0, spent.subjects⟩
  rw [← made_eq] at totalOut subjectsOut
  have amounts : (tx.inputs.zip w.owners).map (fun e => l.amountAt e.1) = tx.inputs.map l.amountAt := by
    rw [← paired, map_map, paired]
    rfl
  have sum := (checkedI128_eq_some conserved).1
  rw [totalIn, totalOut, amounts] at sum
  have room : l.outputs.size + tx.outputs.length ≤ MAX_LEDGER_OUTPUTS + tx.inputs.length := by
    have left := checkedSub_eq_some taken
    obtain ⟨rfl, -⟩ := checkedAdd_eq_some counted
    omega
  exact ⟨{
    shaped := Transaction.shaped_of_check shape
    known := known
    message := signed
    inputs := spendable
    owners := sameOwners
    modules := sameModules
    outputs := valid
    conserved := by simpa using sum.symm
    supply := added
    capped := capped
    fits := fits
    nonce := nonce
    minted := minted
    ran := ⟨_, _, ran⟩
    eligible := by
      refine ⟨_, _, _, fun id among => ?_, fun o among => ?_, eligible⟩
      · rw [← paired] at among
        obtain ⟨e, listed, rfl⟩ := mem_map.mp among
        exact (subjectsOut _).mpr (.inl ((subjectsIn _).mpr (.inr (mem_map.mpr ⟨e, listed, rfl⟩))))
      · exact (subjectsOut _).mpr (.inr (mem_map.mpr ⟨o, among, rfl⟩))
    fresh := fun id among => by simpa [SortedMap.contains] using fresh id among }, room⟩

/-- What the checks of a registration establish about it. -/
structure Registers (h : Hashes) (l : Ledger) (r : Registration) (v : Verifier) (asset : AssetId)
    (token : Token) : Prop where
  valid : validateRegistration h r v = .ok token
  named : token.registration.assetId h l.domain = .ok asset
  supplied : ∃ c, token.supplyConfig = .ok c
  free : l.tokens.get? asset = none
  room : l.tokens.size < MAX_LEDGER_TOKENS

theorem registers_of_checkRegister (done : exec (l.checkRegister h r signature v) g = (.ok plan, g')) :
    Registers h l r v plan.1 plan.2 := by
  simp only [checkRegister, ok_iff, existsAndEq, and_true, exec_charge_eq_ok_iff, not_lt, not_le] at done
  obtain ⟨room, _, -, -, token, asset, _, issuer, -, valid, named, free, -, -, issued, -, rfl⟩ := done
  simp only [Token.issuer, ok_iff] at issued
  obtain ⟨c, supplied, -⟩ := issued
  exact ⟨valid, named, ⟨c, supplied⟩, by simpa [SortedMap.contains] using free, room⟩

/-- What an accepted update has been checked for. -/
structure Updates (l : Ledger) (update : PolicyUpdate) (token : Token) (next : ℕ) : Prop where
  known : l.tokens.get? update.asset = some token
  next : next = token.revision + 1
  gated : update.action.setsRoot = true → token.kycRoot.isSome

theorem updates_of_checkUpdate (done : exec (l.checkUpdate h update w height v) g = (.ok plan, g')) :
    Updates l update plan.1 plan.2 := by
  simp only [checkUpdate, ok_iff, existsAndEq, and_true, exec_charge_eq_ok_iff, not_and] at done
  obtain ⟨token, known, -, -, -, gated, _, -, -, next, advanced, _, -, _, -, rfl, -⟩ := done
  exact ⟨known, (checkedAdd_eq_some advanced).1, fun sets => Option.isSome_iff_ne_none.mpr (gated sets)⟩

/-- A call on a ledger, with the verifier it is made under. -/
inductive Call where
  | register (r : Registration) (signature : Bytes) (v : Verifier) (gasLimit : ℕ)
  | apply (tx : Transaction) (w : Witnesses) (height : ℕ) (v : Verifier) (gasLimit : ℕ)
  | updatePolicy (update : PolicyUpdate) (w : Witnesses) (height : ℕ) (v : Verifier) (gasLimit : ℕ)

namespace Call

def verifier : Call → Verifier
  | .register _ _ v _ | .apply _ _ _ v _ | .updatePolicy _ _ _ v _ => v

def perform (h : Hashes) : Call → Attempt Ledger Error Unit
  | .register r signature v gasLimit => do
    let _ ← Ledger.register h r signature v gasLimit
    pure ()
  | .apply tx w height v gasLimit => do
    let _ ← Ledger.apply h tx w height v gasLimit
    pure ()
  | .updatePolicy update w height v gasLimit => do
    let _ ← Ledger.updatePolicy h update w height v gasLimit
    pure ()

theorem atomic_perform (call : Call) : Atomic (call.perform h) := by
  cases call <;> exact (atomic_transact _ _ _).bind_unfailing (fun _ => unfailing_pure ())

end Call

def Step (h : Hashes) (l : Ledger) (call : Call) (l' : Ledger) : Prop := exec (call.perform h) l = (.ok (), l')

/-- What an accepted call does to the ledger. -/
inductive Change (h : Hashes) (l : Ledger) : Call → Ledger → Prop where
  | register {r signature v gasLimit asset token} (accepted : Registers h l r v asset token) :
      Change h l (.register r signature v gasLimit) { l with tokens := l.tokens.insert asset token }
  | apply {tx w height v gasLimit p} (accepted : Accepts h l tx w height v p)
      (room : l.outputs.size + tx.outputs.length ≤ MAX_LEDGER_OUTPUTS + tx.inputs.length) :
      Change h l (.apply tx w height v gasLimit) (l.commitApply tx p)
  | updatePolicy {update w height v gasLimit token next} (accepted : Updates l update token next) :
      Change h l (.updatePolicy update w height v gasLimit) (l.commitUpdate update token next)

theorem Step.change (taken : Step h l call l') : Change h l call l' := by
  unfold Step Call.perform at taken
  cases call with
  | register r signature v gasLimit =>
    obtain ⟨⟨plan, left⟩, planned, rfl⟩ := committed_of_transact taken
    exact .register (registers_of_checkRegister (metered_eq_ok_iff.mp planned))
  | apply tx w height v gasLimit =>
    obtain ⟨⟨plan, left⟩, planned, rfl⟩ := committed_of_transact taken
    obtain ⟨accepted, room⟩ := accepts_of_checkApply (metered_eq_ok_iff.mp planned)
    exact .apply accepted room
  | updatePolicy update w height v gasLimit =>
    obtain ⟨⟨plan, left⟩, planned, rfl⟩ := committed_of_transact taken
    exact .updatePolicy (updates_of_checkUpdate (metered_eq_ok_iff.mp planned))

end Ledger

end BlochPos.Ustav
