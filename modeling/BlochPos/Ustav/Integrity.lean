import BlochPos.Ustav.LedgerRun

/-! What holds of a ledger after any accepted calls. -/
namespace BlochPos.Ustav

open Attempt SortedMap

def Token.atStart (token : Token) : Token :=
  { token with supply := 0, mintNonce := 0, revision := 0, frozen := false,
               kycRoot := token.registration.initialKycRoot }

/-- Verifiers that take the same keys. -/
def Verifier.Alike (v v' : Verifier) : Prop := v'.validPqKey = v.validPqKey

theorem validateRegistration_alike (alike : v.Alike v') (r : Registration) :
    validateRegistration h r v' = validateRegistration h r v := by
  have keys : checkKey v' = checkKey v := by
    funext key
    rw [checkKey, checkKey, alike]
  have modules : checkModule v' = checkModule v := by
    funext tags m
    rw [checkModule, checkModule, keys]
  rw [validateRegistration, validateRegistration, modules]

theorem validateRegistration_atStart
    (valid : validateRegistration h r v = .ok token) : token.registration = r ∧ token.atStart = token := by
  simp only [validateRegistration, ok_iff] at valid
  obtain ⟨-, -, tags, -, -, -, -, ⟨-, audit⟩, -, -, rfl⟩ := valid
  exact ⟨rfl, rfl⟩

namespace Ledger

variable {h : Hashes} {P : Verifier → Prop} {l : Ledger} {asset : AssetId} {token token' : Token}
  {tokens : SortedMap AssetId Token} {call : Call} {calls : List Call} {domain : Bytes32} {v : Verifier}
  {txs : List Transaction} {tx tx' : Transaction}

def unspent (l : Ledger) (asset : AssetId) : ℕ :=
  l.outputs.sum (fun _ o => if o.asset = asset then o.output.amount else 0)

/-- A token is as its registration allows. -/
structure TokenSound (h : Hashes) (P : Verifier → Prop) (domain : Bytes32) (asset : AssetId)
    (token : Token) : Prop where
  valid : ∃ v, P v ∧ validateRegistration h token.registration v = .ok token.atStart
  named : token.registration.assetId h domain = .ok asset
  capped : ∃ cap, token.cap = .ok cap ∧ token.supply ≤ cap
  fits : token.supply < 2 ^ 127
  gated : token.registration.initialKycRoot.isSome = token.kycRoot.isSome
  initial : token.revision = 0 → token.frozen = false ∧ token.kycRoot = token.registration.initialKycRoot

/-- An output is of a registered asset, to a valid key. -/
structure OutputSound (P : Verifier → Prop) (tokens : SortedMap AssetId Token) (o : UnspentOutput) :
    Prop where
  registered : ∃ token, tokens.get? o.asset = some token
  positive : 0 < o.output.amount
  short : o.output.owner.length ≤ MAX_KEY_BYTES
  valid : ∃ v, P v ∧ v.validPqKey o.output.owner = true

/-- Tokens and outputs agree. -/
structure Sound (h : Hashes) (P : Verifier → Prop) (l : Ledger) : Prop where
  tokens : ∀ {asset token}, l.tokens.get? asset = some token → TokenSound h P l.domain asset token
  outputs : ∀ {id o}, l.outputs.get? id = some o → OutputSound P l.tokens o
  balanced : ∀ {asset token}, l.tokens.get? asset = some token → l.unspent asset = token.supply
  fewTokens : l.tokens.size ≤ MAX_LEDGER_TOKENS

theorem sound_new (domain : Bytes32) : Sound h P (.new domain) where
  tokens found := by simp [new] at found
  outputs found := by simp [new] at found
  balanced found := by simp [new] at found
  fewTokens := Nat.zero_le _

theorem OutputSound.insert (sound : OutputSound P tokens o) (asset : AssetId) (token : Token) :
    OutputSound P (tokens.insert asset token) o where
  registered := by
    obtain ⟨held, found⟩ := sound.registered
    rw [get?_insert]
    split_ifs
    · exact ⟨token, rfl⟩
    · exact ⟨held, found⟩
  positive := sound.positive
  short := sound.short
  valid := sound.valid

theorem Sound.unspent_of_absent (sound : Sound h P l) (absent : l.tokens.get? asset = none) :
    l.unspent asset = 0 := by
  have none : ∀ e ∈ l.outputs.entries, (if e.2.asset = asset then e.2.output.amount else 0) = 0 := by
    intro e among
    obtain ⟨token, found⟩ := (sound.outputs (get?_eq_some_iff.mpr among)).registered
    refine if_neg (fun same => ?_)
    simp [same, absent] at found
  rw [unspent, sum, List.map_congr_left none]
  simp

theorem Sound.restate (sound : Sound h P l) (known : l.tokens.get? asset = some token)
    (within : TokenSound h P l.domain asset token') (same : token'.supply = token.supply) :
    Sound h P { l with tokens := l.tokens.insert asset token' } where
  tokens {asset' held} found := by
    obtain ⟨here, rfl⟩ | ⟨here, found⟩ := get?_insert_cases found
    · exact here ▸ within
    · exact sound.tokens found
  outputs found := (sound.outputs found).insert _ _
  balanced {asset' held} found := by
    obtain ⟨here, rfl⟩ | ⟨here, found⟩ := get?_insert_cases found
    · rw [same, here]
      exact sound.balanced known
    · exact sound.balanced found
  fewTokens := by
    rw [size_insert, if_pos (contains_iff.mpr ⟨_, known⟩)]
    exact sound.fewTokens

theorem TokenSound.of_registers
    (accepted : Registers h l r v asset token) (among : P v) : TokenSound h P l.domain asset token := by
  obtain ⟨registered, fresh⟩ := validateRegistration_atStart accepted.valid
  obtain ⟨c, supplied⟩ := accepted.supplied
  have start : ∀ {A : Type} (f : Token → A), f token = f token.atStart := fun f => by rw [fresh]
  have supply := start Token.supply
  have root := start Token.kycRoot
  refine ⟨⟨v, among, ?_⟩, accepted.named, ⟨c.cap, ?_, ?_⟩, ?_, ?_, fun _ => ⟨start Token.frozen, root⟩⟩
  · rw [registered, fresh, accepted.valid]
  · rw [Token.cap, supplied]
    rfl
  · rw [supply]
    exact Nat.zero_le _
  · rw [supply]
    exact Nat.pos_of_ne_zero (by decide)
  · rw [root]
    rfl

theorem Sound.register (sound : Sound h P l)
    (accepted : Registers h l r v asset token) (among : P v) :
    Sound h P { l with tokens := l.tokens.insert asset token } where
  tokens {asset' held} found := by
    have registered : TokenSound h P l.domain asset token := .of_registers accepted among
    obtain ⟨here, rfl⟩ | ⟨here, found⟩ := get?_insert_cases found
    · exact here ▸ registered
    · exact sound.tokens found
  outputs found := (sound.outputs found).insert _ _
  balanced {asset' held} found := by
    obtain ⟨here, rfl⟩ | ⟨here, found⟩ := get?_insert_cases found
    · obtain ⟨-, fresh⟩ := validateRegistration_atStart accepted.valid
      rw [here, ← fresh]
      exact sound.unspent_of_absent accepted.free
    · exact sound.balanced found
  fewTokens := by
    have := accepted.room
    rw [size_insert]
    split_ifs <;> omega

theorem Sound.updatePolicy (sound : Sound h P l)
    (accepted : Updates l update token next) : Sound h P (l.commitUpdate update token next) := by
  have held := sound.tokens accepted.known
  have later : next ≠ 0 := by rw [accepted.next]; exact Nat.succ_ne_zero _
  unfold commitUpdate
  refine sound.restate accepted.known ?_ ?_
  · cases action : update.action with
    | setFrozen frozen =>
      exact ⟨held.valid, held.named, held.capped, held.fits, held.gated, fun zero => absurd zero later⟩
    | setKycRoot root =>
      have gated := accepted.gated (by rw [action]; rfl)
      exact ⟨held.valid, held.named, held.capped, held.fits, held.gated.trans gated,
        fun zero => absurd zero later⟩
  · cases update.action <;> rfl

section

variable {tx : Transaction} {w : Witnesses} {height : ℕ} {v : Verifier} {p : Planned}

def Planned.made (p : Planned) (tx : Transaction) : List (OutPoint × UnspentOutput) :=
  ((p.ids tx).zip tx.outputs).map (fun e => (e.1, ⟨tx.asset, e.2⟩))

theorem commitApply_outputs (l : Ledger) (tx : Transaction) (p : Planned) :
    (l.commitApply tx p).outputs = l.outputs.exchange tx.inputs (p.made tx) := by
  rw [exchange, Planned.made, List.foldl_map]
  rfl

theorem length_ids (p : Planned) (tx : Transaction) : (p.ids tx).length = tx.outputs.length := by
  rw [Planned.ids, List.length_map, List.length_range]

theorem made_keys (p : Planned) (tx : Transaction) : (p.made tx).map Prod.fst = p.ids tx := by
  rw [Planned.made, List.map_map]
  exact List.map_fst_zip (length_ids p tx).le

theorem made_values (p : Planned) (tx : Transaction) :
    (p.made tx).map Prod.snd = tx.outputs.map (UnspentOutput.mk tx.asset) := by
  have paired : ((p.ids tx).zip tx.outputs).map Prod.snd = tx.outputs := List.map_snd_zip (length_ids p tx).ge
  conv_rhs => rw [← paired]
  rw [Planned.made, List.map_map, List.map_map]
  rfl

theorem outPoints_nodup (transaction : Bytes32) (count : ℕ) :
    ((List.range count).map (outPoint transaction)).Nodup := by
  refine List.nodup_range.map (fun i j same => ?_)
  exact (Prod.ext_iff.mp (toLex.injective same)).2

theorem made_nodup (p : Planned) (tx : Transaction) : ((p.made tx).map Prod.fst).Nodup := by
  rw [made_keys]
  exact outPoints_nodup p.message tx.outputs.length

theorem Shaped.inputs_nodup (shaped : tx.Shaped) : tx.inputs.Nodup :=
  (List.isChain_iff_pairwise.mp shaped.sorted).imp ne_of_lt

section

variable (accepted : Accepts h l tx w height v p)
include accepted

theorem Accepts.free : ∀ e ∈ p.made tx, l.outputs.get? e.1 = none := fun e among =>
  accepted.fresh e.1 (made_keys p tx ▸ List.mem_map_of_mem among)

theorem Accepts.held {id : OutPoint} (among : id ∈ tx.inputs) :
    ∃ o, l.outputs.get? id = some o ∧ o.asset = tx.asset := by
  have paired : (tx.inputs.zip w.owners).map Prod.fst = tx.inputs := List.map_fst_zip accepted.owners.ge
  rw [← paired] at among
  obtain ⟨e, listed, rfl⟩ := List.mem_map.mp among
  exact (accepted.inputs e listed).held

theorem Accepts.unspent (asset : AssetId) : ((l.commitApply tx p).unspent asset : ℤ) =
    l.unspent asset + if asset = tx.asset then tx.delta else 0 := by
  let amount : OutPoint → UnspentOutput → ℕ := fun _ o => if asset = o.asset then o.output.amount else 0
  have traded := sum_exchange (m := l.outputs) amount
    (Shaped.inputs_nodup accepted.shaped) (made_nodup p tx) accepted.free
  have taken : tx.inputs.map (fun id => (l.outputs.get? id).elim 0 (amount id)) =
      tx.inputs.map (fun id => if asset = tx.asset then l.amountAt id else 0) := by
    apply List.map_congr_left
    intro id among
    obtain ⟨o, found, here⟩ := accepted.held among
    rw [amountAt, found, ← here]
    rfl
  have put : (p.made tx).map (fun e => amount e.1 e.2) =
      tx.outputs.map (fun o => if asset = tx.asset then o.amount else 0) := by
    have values := congrArg (List.map (fun o => if asset = o.asset then o.output.amount else 0)) (made_values p tx)
    rwa [List.map_map, List.map_map] at values
  rw [← commitApply_outputs, taken, put] at traded
  have held : ∀ l : Ledger, l.unspent asset = l.outputs.sum amount := fun l => by
    simp only [Ledger.unspent, eq_comm, amount]
  have conserved := accepted.conserved
  rw [held, held]
  split_ifs at traded ⊢ with here
  · change _ + (tx.inputs.map l.amountAt).sum = _ + (tx.outputs.map Output.amount).sum at traded
    omega
  · simp only [List.map_const', List.sum_replicate, smul_zero, add_zero] at traded
    rw [traded, add_zero]

theorem Accepts.tokenSound (sound : Sound h P l) :
    TokenSound h P l.domain tx.asset { p.token with supply := p.supply, mintNonce := p.nextNonce } := by
  have held := sound.tokens accepted.known
  exact ⟨held.valid, held.named, accepted.capped, accepted.fits, held.gated, held.initial⟩

omit accepted in
theorem Sound.apply (sound : Sound h P l) (accepted : Accepts h l tx w height v p) (among : P v) :
    Sound h P (l.commitApply tx p) where
  tokens {asset held} found := by
    have changed := accepted.tokenSound sound
    obtain ⟨here, rfl⟩ | ⟨here, found⟩ := get?_insert_cases found
    · exact here ▸ changed
    · exact sound.tokens found
  outputs {id o} found := by
    rw [commitApply_outputs, get?_exchange (made_nodup p tx)] at found
    refine OutputSound.insert ?_ _ _
    obtain made | ⟨-, -, kept⟩ := found
    · have value : o ∈ (p.made tx).map Prod.snd := List.mem_map_of_mem made
      rw [made_values] at value
      obtain ⟨output, listed, rfl⟩ := List.mem_map.mp value
      exact ⟨⟨_, accepted.known⟩, accepted.shaped.amounts _ listed, accepted.shaped.owners _ listed,
        ⟨v, among, accepted.outputs _ listed⟩⟩
    · exact sound.outputs kept
  balanced {asset held} found := by
    have changed := accepted.unspent asset
    obtain ⟨rfl, rfl⟩ | ⟨here, found⟩ := get?_insert_cases found
    · rw [if_pos rfl, sound.balanced accepted.known] at changed
      have supplied := accepted.supply
      show (l.commitApply tx p).unspent tx.asset = p.supply
      omega
    · rw [if_neg here, add_zero, sound.balanced found] at changed
      exact_mod_cast changed
  fewTokens := by
    rw [commitApply, size_insert, if_pos (contains_iff.mpr ⟨_, accepted.known⟩)]
    exact sound.fewTokens

theorem Accepts.size :
    (l.commitApply tx p).outputs.size + tx.inputs.length = l.outputs.size + tx.outputs.length := by
  have sized := size_exchange (Shaped.inputs_nodup accepted.shaped)
    (fun id among => (accepted.held among).imp fun _ => And.left) (made_nodup p tx) accepted.free
  rw [commitApply_outputs, sized, ← List.length_map Prod.fst, made_keys, length_ids]

end

end

theorem Sound.step (sound : Sound h P l) (taken : Step h l call l') (among : P call.verifier) :
    Sound h P l' := by
  cases taken.change with
  | register accepted => exact sound.register accepted among
  | apply accepted => exact sound.apply accepted among
  | updatePolicy accepted => exact sound.updatePolicy accepted

theorem Step.few (taken : Step h l call l') (few : l.outputs.size ≤ MAX_LEDGER_OUTPUTS) :
    l'.outputs.size ≤ MAX_LEDGER_OUTPUTS := by
  cases taken.change with
  | register => exact few
  | apply accepted room =>
    have sized := accepted.size
    omega
  | updatePolicy => exact few

theorem Sound.run (sound : Sound h P l) (run : Run (Step h) l calls l')
    (among : ∀ call ∈ calls, P call.verifier) : Sound h P l' := by
  induction run with
  | nil => exact sound
  | cons taken _ ih =>
    rw [List.forall_mem_cons] at among
    exact ih (sound.step taken among.1) among.2

/-- What an asset's later state keeps of an earlier one. -/
structure Continues (token token' : Token) : Prop where
  registration : token'.registration = token.registration
  mintNonce : token.mintNonce ≤ token'.mintNonce
  revision : token.revision ≤ token'.revision

theorem Continues.refl (token : Token) : Continues token token := ⟨rfl, le_rfl, le_rfl⟩

theorem Continues.trans (first : Continues token token') (second : Continues token' token'') :
    Continues token token'' :=
  ⟨second.registration.trans first.registration, first.mintNonce.trans second.mintNonce,
    first.revision.trans second.revision⟩

theorem continues_insert (found : l.tokens.get? asset = some token)
    (later : ∀ held, l.tokens.get? changed = some held → Continues held next) :
    ∃ token', (l.tokens.insert changed next).get? asset = some token' ∧ Continues token token' := by
  rw [get?_insert]
  split_ifs with here
  · exact ⟨next, rfl, later token (here ▸ found)⟩
  · exact ⟨token, found, .refl token⟩

theorem Step.continues (taken : Step h l call l') (found : l.tokens.get? asset = some token) :
    ∃ token', l'.tokens.get? asset = some token' ∧ Continues token token' := by
  cases taken.change with
  | register accepted =>
    refine continues_insert found (fun held known => ?_)
    simp [accepted.free] at known
  | apply accepted =>
    refine continues_insert found (fun held known => ?_)
    rw [accepted.known] at known
    cases known
    exact ⟨rfl, by rw [accepted.nonce]; exact Nat.le_add_right _ _, le_rfl⟩
  | @updatePolicy update _ _ _ _ _ next accepted =>
    refine continues_insert found (fun held known => ?_)
    rw [accepted.known] at known
    cases known
    have later := (Nat.le_succ _).trans_eq accepted.next.symm
    cases update.action <;> exact ⟨rfl, le_rfl, later⟩

theorem run_continues (run : Run (Step h) l calls l') (found : l.tokens.get? asset = some token) :
    ∃ token', l'.tokens.get? asset = some token' ∧ Continues token token' := by
  induction run generalizing token with
  | nil => exact ⟨token, found, .refl token⟩
  | cons taken _ ih =>
    obtain ⟨mid, there, first⟩ := taken.continues found
    obtain ⟨last, reached, second⟩ := ih there
    exact ⟨last, reached, first.trans second⟩

def Call.transaction? : Call → Option Transaction
  | .apply tx _ _ _ _ => some tx
  | _ => none

def applied (calls : List Call) : List Transaction := calls.filterMap Call.transaction?

def createdBy (h : Hashes) (domain : Bytes32) (tx : Transaction) : List OutPoint :=
  (List.range tx.outputs.length).map (outPoint (transactionHash h domain tx))

def created (h : Hashes) (domain : Bytes32) (calls : List Call) : List OutPoint :=
  (applied calls).flatMap (createdBy h domain)

/-- No two of the transactions have one digest, unless their signed bytes agree. -/
def CollisionFree (h : Hashes) (domain : Bytes32) (txs : List Transaction) : Prop :=
  Set.InjOn h.sha256d {bytes | ∃ tx ∈ txs, bytes = putLong (ascii "USTAV-TRANSACTION-v3") ++ tx.bytes domain}

theorem CollisionFree.bytes_eq (free : CollisionFree h domain txs) (among : tx ∈ txs) (among' : tx' ∈ txs)
    (same : transactionHash h domain tx = transactionHash h domain tx') :
    tx.bytes domain = tx'.bytes domain :=
  List.append_cancel_left (free ⟨tx, among, rfl⟩ ⟨tx', among', rfl⟩ same)

theorem collisionFree_pair
    (apart : transactionHash h domain tx ≠ transactionHash h domain tx') : CollisionFree h domain [tx, tx'] := by
  rintro _ ⟨one, among, rfl⟩ _ ⟨other, among', rfl⟩ same
  simp only [List.mem_cons, List.not_mem_nil, or_false] at among among'
  obtain rfl | rfl := among <;> obtain rfl | rfl := among'
  · rfl
  · exact absurd same apart
  · exact absurd same.symm apart
  · rfl

theorem mem_createdBy {id : OutPoint} (among : id ∈ createdBy h domain tx) :
    (ofLex id).1 = transactionHash h domain tx ∧ (ofLex id).2 < tx.outputs.length := by
  obtain ⟨i, listed, rfl⟩ := List.mem_map.mp among
  exact ⟨rfl, List.mem_range.mp listed⟩

/-- A transaction that was carried out: its inputs were made by others and are gone, and a mint's
number is used up. -/
structure Spent (h : Hashes) (txs : List Transaction) (l : Ledger) (tx : Transaction) : Prop where
  shaped : tx.Shaped
  inputs : ∀ id ∈ tx.inputs, l.outputs.get? id = none ∧ ∃ maker ∈ txs, id ∈ createdBy h l.domain maker
  minted : 0 < tx.delta → ∃ token, l.tokens.get? tx.asset = some token ∧
    tx.mintNonce < token.mintNonce ∧ token.mintNonce ≤ u64Max

/-- The outputs were made by the transactions done. -/
structure Recorded (h : Hashes) (txs : List Transaction) (l : Ledger) : Prop where
  makers : ∀ {id o}, l.outputs.get? id = some o → ∃ maker ∈ txs, id ∈ createdBy h l.domain maker
  spent : ∀ tx ∈ txs, Spent h txs l tx
  distinct : txs.Pairwise (fun tx tx' => transactionHash h l.domain tx ≠ transactionHash h l.domain tx')

section

variable {tx : Transaction}

theorem createdBy_small (recorded : ∀ maker ∈ txs, maker.Shaped) {id : OutPoint}
    (made : ∃ maker ∈ txs, id ∈ createdBy h domain maker) : (ofLex id).2 < 256 ^ 4 := by
  obtain ⟨maker, among, created⟩ := made
  have fewer := (mem_createdBy created).2
  have few := (recorded maker among).outputs
  have bound : MAX_OUTPUTS < 256 ^ 4 := by decide
  omega

/-- If the transaction mints, its nonce is passed. -/
def UsedUp (l : Ledger) (tx : Transaction) : Prop :=
  0 < tx.delta → ∃ token, l.tokens.get? tx.asset = some token ∧ tx.mintNonce < token.mintNonce ∧
    token.mintNonce ≤ u64Max

theorem UsedUp.apply (used : UsedUp l earlier) (accepted : Accepts h l tx w height v p) :
    UsedUp (l.commitApply tx p) earlier := by
  intro mints
  obtain ⟨token, known, used, within⟩ := used mints
  have nonce := accepted.nonce
  rw [commitApply, get?_insert]
  split_ifs with here
  · rw [here, accepted.known] at known
    cases known
    refine ⟨_, rfl, ?_, ?_⟩
    · show earlier.mintNonce < p.nextNonce
      omega
    · show p.nextNonce ≤ u64Max
      split_ifs at nonce with minting
      · have := (accepted.minted minting).2
        omega
      · omega
  · exact ⟨token, known, used, within⟩

theorem usedUp_of_accepts (accepted : Accepts h l tx w height v p) : UsedUp (l.commitApply tx p) tx := by
  intro mints
  obtain ⟨number, more⟩ := accepted.minted mints
  have nonce := accepted.nonce
  rw [if_pos mints] at nonce
  refine ⟨_, get?_insert_self _ _ _, ?_, ?_⟩
  · show tx.mintNonce < p.nextNonce
    omega
  · show p.nextNonce ≤ u64Max
    omega

/-- An accepted transaction with the bytes of an earlier one would spend an input of it. -/
theorem input_of_bytes_eq (shaped : earlier.Shaped) (used : UsedUp l earlier)
    (accepted : Accepts h l tx w height v p) (small : ∀ id ∈ earlier.inputs, (ofLex id).2 < 256 ^ 4)
    (small' : ∀ {id o}, l.outputs.get? id = some o → (ofLex id).2 < 256 ^ 4)
    (bytes : earlier.bytes l.domain = tx.bytes l.domain) : ∃ id ∈ earlier.inputs, ∃ o, l.outputs.get? id = some o := by
  obtain ⟨asset, inputs, delta, nonce⟩ := Transaction.fields_of_bytes_eq shaped accepted.shaped small
    (fun id listed => by
      obtain ⟨o, found, -⟩ := accepted.held listed
      exact small' found) bytes
  cases listed : tx.inputs with
  | nil =>
    -- a mint, whose number the earlier one has used up
    have mints := accepted.shaped.mints listed
    obtain ⟨number, more⟩ := accepted.minted mints
    obtain ⟨token, known, used, within⟩ := used (delta ▸ mints)
    rw [asset, accepted.known] at known
    cases known
    have bound : u64Max < 256 ^ 8 := by decide
    have equal := (delimits_leBytes 8).inj (by omega) (by omega) nonce
    omega
  | cons id rest =>
    have first : id ∈ tx.inputs := listed ▸ List.mem_cons_self
    obtain ⟨o, found, -⟩ := accepted.held first
    exact ⟨id, inputs ▸ first, o, found⟩

theorem Recorded.hash_ne (recorded : Recorded h txs l) (accepted : Accepts h l tx w height v p)
    (free : CollisionFree h l.domain (txs ++ [tx])) (among : earlier ∈ txs) :
    transactionHash h l.domain earlier ≠ transactionHash h l.domain tx := by
  intro same
  have before := recorded.spent earlier among
  have shapes : ∀ maker ∈ txs, maker.Shaped := fun maker listed => (recorded.spent maker listed).shaped
  have bytes := free.bytes_eq (List.mem_append_left _ among)
    (List.mem_append_right _ (List.mem_singleton_self tx)) same
  obtain ⟨id, listed, o, found⟩ := input_of_bytes_eq before.shaped before.minted accepted
    (fun id listed => createdBy_small shapes (before.inputs id listed).2)
    (fun found => createdBy_small shapes (recorded.makers found)) bytes
  simp [(before.inputs id listed).1] at found

theorem Recorded.apply (recorded : Recorded h txs l) (accepted : Accepts h l tx w height v p)
    (free : CollisionFree h l.domain (txs ++ [tx])) : Recorded h (txs ++ [tx]) (l.commitApply tx p) := by
  have ids : p.ids tx = createdBy h l.domain tx := by rw [Planned.ids, accepted.message]; rfl
  have other : ∀ earlier ∈ txs, transactionHash h l.domain earlier ≠ transactionHash h l.domain tx :=
    fun earlier among => recorded.hash_ne accepted free among
  -- what is gone stays gone, since only a transaction with the maker's digest could make it again
  have gone : ∀ {id}, (l.outputs.get? id = none ∨ id ∈ tx.inputs) →
      (∃ maker ∈ txs, id ∈ createdBy h l.domain maker) → (l.commitApply tx p).outputs.get? id = none := by
    intro id absent made
    rw [commitApply_outputs]
    by_contra held
    obtain ⟨o, found⟩ := Option.ne_none_iff_exists'.mp held
    obtain ⟨maker, among, created⟩ := made
    rw [get?_exchange (made_nodup p tx)] at found
    obtain put | ⟨-, kept, found⟩ := found
    · have again : id ∈ p.ids tx := made_keys p tx ▸ List.mem_map_of_mem put
      rw [ids] at again
      exact other maker among ((mem_createdBy created).1.symm.trans (mem_createdBy again).1)
    · obtain absent | spent := absent
      · simp [absent] at found
      · exact kept spent
  have widen : ∀ {id}, (∃ maker ∈ txs, id ∈ createdBy h l.domain maker) →
      ∃ maker ∈ txs ++ [tx], id ∈ createdBy h l.domain maker := by
    rintro id ⟨maker, among, created⟩
    exact ⟨maker, List.mem_append_left _ among, created⟩
  refine ⟨fun {id o} found => ?_, fun earlier among => ?_, ?_⟩
  · rw [commitApply_outputs, get?_exchange (made_nodup p tx)] at found
    obtain put | ⟨-, -, kept⟩ := found
    · have created : id ∈ p.ids tx := made_keys p tx ▸ List.mem_map_of_mem put
      exact ⟨tx, List.mem_append_right _ (List.mem_singleton_self tx), ids ▸ created⟩
    · exact widen (recorded.makers kept)
  · rw [List.mem_append, List.mem_singleton] at among
    obtain among | rfl := among
    · have before := recorded.spent earlier among
      refine ⟨before.shaped, fun id listed => ?_, UsedUp.apply before.minted accepted⟩
      obtain ⟨absent, made⟩ := before.inputs id listed
      exact ⟨gone (.inl absent) made, widen made⟩
    · refine ⟨accepted.shaped, fun id listed => ?_, usedUp_of_accepts accepted⟩
      obtain ⟨o, found, -⟩ := accepted.held listed
      exact ⟨gone (.inr listed) (recorded.makers found), widen (recorded.makers found)⟩
  · refine List.pairwise_append.mpr ⟨recorded.distinct, List.pairwise_singleton _ _, fun earlier among last one => ?_⟩
    obtain rfl := List.mem_singleton.mp one
    exact other earlier among

end

theorem applied_append (calls : List Call) (call : Call) :
    applied (calls ++ [call]) = applied calls ++ call.transaction?.toList := by
  rw [applied, List.filterMap_append]
  cases call <;> rfl

theorem Recorded.retoken (recorded : Recorded h txs l)
    (kept : ∀ {asset token}, l.tokens.get? asset = some token →
      ∃ token', tokens.get? asset = some token' ∧ token'.mintNonce = token.mintNonce) :
    Recorded h txs { l with tokens := tokens } where
  makers := recorded.makers
  spent tx among := by
    have before := recorded.spent tx among
    refine ⟨before.shaped, before.inputs, fun mints => ?_⟩
    obtain ⟨token, known, used, within⟩ := before.minted mints
    obtain ⟨token', there, same⟩ := kept known
    exact ⟨token', there, same ▸ used, same ▸ within⟩
  distinct := recorded.distinct

theorem Recorded.step (recorded : Recorded h (applied calls) l) (taken : Step h l call l')
    (free : CollisionFree h l.domain (applied (calls ++ [call]))) :
    Recorded h (applied (calls ++ [call])) l' := by
  rw [applied_append] at free ⊢
  cases taken.change with
  | register accepted =>
    refine (List.append_nil (applied calls)).symm ▸ recorded.retoken (fun {asset token} found => ?_)
    have other : asset ≠ _ := fun same => by rw [same, accepted.free] at found; cases found
    exact ⟨token, by rw [get?_insert_of_ne _ _ other, found], rfl⟩
  | apply accepted => exact recorded.apply accepted free
  | @updatePolicy update _ _ _ _ held next accepted =>
    refine (List.append_nil (applied calls)).symm ▸ recorded.retoken (fun {asset token} found => ?_)
    rw [get?_insert]
    split_ifs with here
    · rw [here, accepted.known] at found
      cases found
      exact ⟨_, rfl, by cases update.action <;> rfl⟩
    · exact ⟨token, found, rfl⟩

theorem Step.domain_eq (taken : Step h l call l') : l'.domain = l.domain := by
  cases taken.change <;> rfl

theorem recorded_of_run (run : Run (Step h) (.new domain) calls l)
    (free : CollisionFree h domain (applied calls)) : l.domain = domain ∧ Recorded h (applied calls) l := by
  have start : (new domain).domain = domain ∧
      (CollisionFree h domain (applied []) → Recorded h (applied []) (new domain)) :=
    ⟨rfl, fun _ => ⟨fun found => by simp [new] at found, by simp [applied], List.Pairwise.nil⟩⟩
  obtain ⟨same, held⟩ := run.history (P := fun calls l => l.domain = domain ∧
    (CollisionFree h domain (applied calls) → Recorded h (applied calls) l)) start (by
      rintro before mid call after - ⟨same, held⟩ taken
      refine ⟨taken.domain_eq.trans same, fun free => ?_⟩
      have earlier : CollisionFree h domain (applied before) := by
        refine free.mono ?_
        rintro bytes ⟨tx, among, rfl⟩
        exact ⟨tx, by rw [applied_append]; exact List.mem_append_left _ among, rfl⟩
      exact (held earlier).step taken (same.symm ▸ free))
  exact ⟨same, held free⟩

theorem Recorded.created_nodup (recorded : Recorded h (applied calls) l) :
    (created h l.domain calls).Nodup := by
  refine List.nodup_flatMap.mpr ⟨fun tx _ => ?_, recorded.distinct.imp (fun {tx tx'} other => ?_)⟩
  · exact outPoints_nodup _ _
  · intro id here there
    exact other ((mem_createdBy here).1.symm.trans (mem_createdBy there).1)

section

variable {e : OutPoint × UnspentOutput}

theorem restoreToken_snapshot (sound : TokenSound h v.Alike l.domain asset token) :
    restoreToken h v l (asset, token.snapshot) = .ok { l with tokens := l.tokens.insert asset token } := by
  obtain ⟨v', alike, valid⟩ := sound.valid
  rw [validateRegistration_alike alike] at valid
  obtain ⟨cap, capped, within⟩ := sound.capped
  have again : token.atStart.cap = .ok cap := capped
  simp only [restoreToken, Token.snapshot, ok_iff]
  refine ⟨_, valid, asset, sound.named, cap, again, refuse_eq_ok_iff.mpr ?_, rfl⟩
  rintro (other | above | gated | ⟨zero, frozen | root⟩)
  · exact other rfl
  · exact absurd within (not_le.mpr above)
  · exact gated sound.gated
  · simp [(sound.initial zero).1] at frozen
  · exact root (sound.initial zero).2

theorem restoreTokens (sound : Sound h v.Alike l) :
    (l.tokens.entries.map (fun e => (e.1, e.2.snapshot))).foldlM (restoreToken h v) (.new l.domain) =
      .ok { l with outputs := .empty } := by
  rw [List.foldlM_map]
  obtain ⟨_, folded, rfl⟩ := foldlM_builds (fun r e => restoreToken h v r (e.1, e.2.snapshot)) l.tokens.entries
    (P := fun before r => r = ⟨l.domain, .ofList before, .empty⟩) (s := new l.domain) rfl (by
      rintro before e after _ whole rfl
      have among : e ∈ l.tokens.entries := whole ▸ by simp
      have sound := sound.tokens (get?_eq_some_iff.mpr among)
      refine ⟨_, restoreToken_snapshot sound, ?_⟩
      rw [ofList, ofList, List.foldl_append]
      rfl)
  rw [folded, ofList_entries]

def readAmount (entries : List (OutPoint × UnspentOutput)) (asset : AssetId) : ℕ :=
  (entries.map (fun e => if e.2.asset = asset then e.2.output.amount else 0)).sum

theorem readAmount_append (before after : List (OutPoint × UnspentOutput)) (asset : AssetId) :
    readAmount (before ++ after) asset = readAmount before asset + readAmount after asset := by
  rw [readAmount, List.map_append, List.sum_append]
  rfl

theorem Sound.read_fits (sound : Sound h P l) (whole : before ++ e :: after = l.outputs.entries) :
    readAmount before e.2.asset + e.2.output.amount ≤ u128Max := by
  have among : e ∈ l.outputs.entries := whole ▸ by simp
  obtain ⟨token, known⟩ := (sound.outputs (get?_eq_some_iff.mpr among)).registered
  have total : readAmount l.outputs.entries e.2.asset = token.supply := sound.balanced known
  have small := (sound.tokens known).fits
  have here : readAmount [e] e.2.asset = e.2.output.amount := by simp [readAmount]
  rw [← whole, List.append_cons, readAmount_append, readAmount_append, here] at total
  have bound : 2 ^ 127 ≤ u128Max := by decide
  omega

theorem restoreOutput_sound {r : Restoring}
    (output : OutputSound v.Alike r.ledger.tokens e.2)
    (fits : r.totals.getD e.2.asset 0 + e.2.output.amount ≤ u128Max) :
    restoreOutput v r e = .ok ⟨{ r.ledger with outputs := r.ledger.outputs.insert e.1 e.2 },
      r.totals.addAt e.2.asset e.2.output.amount⟩ := by
  obtain ⟨token, known⟩ := output.registered
  obtain ⟨v', alike, valid⟩ := output.valid
  rw [alike] at valid
  simp only [restoreOutput, bind_eq_ok_iff, exists_unit, orRefuse_eq_ok_iff, pure_eq_ok_iff]
  refine ⟨refuse_eq_ok_iff.mpr ?_, _, if_pos fits, rfl⟩
  rintro (zero | long | invalid | unknown)
  · exact output.positive.ne' zero
  · exact absurd output.short (not_le.mpr long)
  · simp [valid] at invalid
  · simp [contains, known] at unknown

theorem restoreOutputs (sound : Sound h v.Alike l) :
    ∃ totals, l.outputs.entries.foldlM (restoreOutput v) ⟨{ l with outputs := .empty }, .empty⟩ =
      .ok ⟨l, totals⟩ ∧ ∀ asset, totals.getD asset 0 = l.unspent asset := by
  obtain ⟨⟨_, totals⟩, folded, rfl, counted⟩ := foldlM_builds (restoreOutput v) l.outputs.entries
    (P := fun before r => r.ledger = { l with outputs := .ofList before } ∧
      ∀ asset, r.totals.getD asset 0 = readAmount before asset)
    (s := ⟨{ l with outputs := .empty }, .empty⟩) ⟨rfl, fun _ => rfl⟩ (by
      rintro before e after ⟨_, totals⟩ whole ⟨rfl, counted⟩
      have among : e ∈ l.outputs.entries := whole ▸ by simp
      have output := sound.outputs (get?_eq_some_iff.mpr among)
      refine ⟨_, restoreOutput_sound output ((counted _).symm ▸ sound.read_fits whole), ?_, fun asset => ?_⟩
      · rw [ofList, ofList, List.foldl_append]
        rfl
      · rw [getD_addAt, counted, readAmount_append]
        simp [readAmount, eq_comm])
  refine ⟨totals, ?_, counted⟩
  rw [folded, ofList_entries]

theorem Sound.restore (sound : Sound h v.Alike l) (few : l.outputs.size ≤ MAX_LEDGER_OUTPUTS) :
    restore h l.snapshot (l.stateRoot h) v = .ok l := by
  obtain ⟨totals, folded, counted⟩ := restoreOutputs sound
  have keys : (l.tokens.entries.map (fun e => (e.1, e.2.snapshot))).map Prod.fst = l.tokens.keys := by
    rw [List.map_map]
    rfl
  have sorted : ∀ {V : Type} {K : Type} [LinearOrder K] (m : SortedMap K V), m.keys.IsChain (· < ·) :=
    fun m => List.isChain_iff_pairwise.mpr (List.pairwise_map.mpr m.sorted)
  simp only [Ledger.restore, snapshot, bind_eq_ok_iff, exists_unit, pure_eq_ok_iff]
  refine ⟨refuse_eq_ok_iff.mpr ?_, refuse_eq_ok_iff.mpr ?_, _, restoreTokens sound, _, folded,
    refuse_eq_ok_iff.mpr ?_, refuse_eq_ok_iff.mpr ?_, rfl⟩
  · rintro (version | many | many)
    · exact version rfl
    · rw [List.length_map] at many
      exact absurd sound.fewTokens (not_le.mpr many)
    · exact absurd few (not_le.mpr many)
  · rintro (unsorted | unsorted)
    · exact unsorted (keys ▸ sorted l.tokens)
    · exact unsorted (sorted l.outputs)
  · rintro ⟨e, among, off⟩
    rw [counted] at off
    exact off (sound.balanced (get?_eq_some_iff.mpr among))
  · exact fun off => off rfl

end

def performAll (h : Hashes) : List Call → Ledger → Option Ledger
  | [], l => some l
  | call :: rest, l => match exec (call.perform h) l with
    | (.ok _, next) => performAll h rest next
    | (.error _, _) => none

theorem run_of_performAll (done : performAll h calls l = some l') : Run (Step h) l calls l' := by
  induction calls generalizing l with
  | nil => exact Option.some.inj done ▸ .nil l
  | cons call rest ih =>
    unfold performAll at done
    split at done
    next next accepted => exact .cons accepted (ih done)
    next => cases done

def sampleVerifier : Verifier := ⟨fun _ => true, fun _ _ _ => true⟩

def sampleHashes : Hashes := ⟨toHash, toHash⟩

/-- A hash that reads its input in base 257, so that it tells short inputs apart at any depth. -/
def mix (bytes : Bytes) : Bytes32 := Fin.ofNat _ (bytes.foldl (fun n b => n * 257 + b.toNat + 1) 0)

def mixingHashes : Hashes := ⟨mix, mix⟩

def sampleRegistration : Registration := ⟨⟨[1], [.supply ⟨100, [2]⟩]⟩, 5, none⟩

def sampleMint : Transaction :=
  ⟨assetHash sampleHashes 7 sampleRegistration, [], [⟨[3], 40⟩], 40, 0, 0, 10⟩

def samplePayment : Transaction :=
  ⟨assetHash sampleHashes 7 sampleRegistration, [outPoint (transactionHash sampleHashes 7 sampleMint) 0],
    [⟨[3], 30⟩, ⟨[4], 10⟩], 0, 0, 0, 11⟩

def sampleCalls : List Call :=
  [.register sampleRegistration [] sampleVerifier 10000,
    .apply sampleMint ⟨[], [[.bytes [9]]], []⟩ 1 sampleVerifier 10000,
    .apply samplePayment ⟨[[9]], [[]], []⟩ 1 sampleVerifier 10000]

theorem collisionFree_sample : CollisionFree sampleHashes 7 (applied sampleCalls) := by
  have apart : transactionHash sampleHashes 7 sampleMint ≠ transactionHash sampleHashes 7 samplePayment := by
    decide +kernel
  exact collisionFree_pair apart

/-- After any accepted calls on a new ledger: the outputs of an asset add up to its supply, within the cap;
no outpoint was created twice, registrations stay, a refusal changes nothing, and the ledger comes back from
its snapshot. -/
theorem ledger_keeps_integrity {domain : Bytes32} {calls : List Call}
    (run : Run (Step h) (.new domain) calls l) (free : CollisionFree h domain (applied calls)) :
    (∀ asset token, l.tokens.get? asset = some token →
      l.unspent asset = token.supply ∧ ∃ cap, token.cap = .ok cap ∧ token.supply ≤ cap) ∧
    (∀ id o, l.outputs.get? id = some o →
      (∃ token, l.tokens.get? o.asset = some token) ∧ 0 < o.output.amount) ∧
    (created h domain calls).Nodup ∧
    (∀ later l', Run (Step h) l later l' → ∀ asset token, l.tokens.get? asset = some token →
      ∃ token', l'.tokens.get? asset = some token' ∧ token'.registration = token.registration ∧
        token.mintNonce ≤ token'.mintNonce ∧ token.revision ≤ token'.revision) ∧
    (∀ (call : Call) e l', exec (call.perform h) l = (.error e, l') → l' = l) ∧
    (∀ v, (∀ call ∈ calls, call.verifier = v) → restore h l.snapshot (l.stateRoot h) v = .ok l) := by
  have sound : Sound h (fun _ => True) l := (sound_new domain).run run (fun _ _ => trivial)
  obtain ⟨same, recorded⟩ := recorded_of_run run free
  refine ⟨fun asset token found => ?_, fun id o found => ?_, ?_, fun later l' onward asset token found => ?_,
    fun call e l' refused => ?_, fun v alike => ?_⟩
  · exact ⟨sound.balanced found, (sound.tokens found).capped⟩
  · exact ⟨(sound.outputs found).registered, (sound.outputs found).positive⟩
  · exact same ▸ recorded.created_nodup
  · obtain ⟨token', reached, kept⟩ := run_continues onward found
    exact ⟨token', reached, kept.registration, kept.mintNonce, kept.revision⟩
  · exact call.atomic_perform l e l' refused
  · have under : Sound h v.Alike l :=
      (sound_new domain).run run (fun call among => congrArg Verifier.validPqKey (alike call among))
    have few : l.outputs.size ≤ MAX_LEDGER_OUTPUTS :=
      run.invariant (P := fun l => l.outputs.size ≤ MAX_LEDGER_OUTPUTS) Step.few (Nat.zero_le _)
    exact under.restore few

theorem sample_keeps_integrity : ∃ l, Run (Step sampleHashes) (.new 7) sampleCalls l ∧
    (created sampleHashes 7 sampleCalls).Nodup ∧
    restore sampleHashes l.snapshot (l.stateRoot sampleHashes) sampleVerifier = .ok l := by
  have accepted : (performAll sampleHashes sampleCalls (.new 7)).isSome = true := by decide +kernel
  obtain ⟨l, done⟩ := Option.isSome_iff_exists.mp accepted
  have run := run_of_performAll done
  have kept := ledger_keeps_integrity run collisionFree_sample
  refine ⟨l, run, kept.2.2.1, kept.2.2.2.2.2 sampleVerifier (fun call among => ?_)⟩
  simp only [sampleCalls, List.mem_cons, List.not_mem_nil, or_false] at among
  obtain rfl | rfl | rfl := among <;> rfl

end Ledger

end BlochPos.Ustav
