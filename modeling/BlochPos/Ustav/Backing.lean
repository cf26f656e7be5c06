import BlochPos.Ustav.GatewayRun

/-! The backing of bridged assets by what their routes have outstanding. -/
namespace BlochPos.Ustav

open Attempt SortedMap Option

namespace Ledger

variable {l l' : Ledger}

/-- Registered assets stay, as they were registered. -/
structure Keeps (l l' : Ledger) : Prop where
  domain : l'.domain = l.domain
  tokens : ∀ {asset token}, l.tokens.get? asset = some token →
    ∃ token', l'.tokens.get? asset = some token' ∧ token'.registration = token.registration

theorem Accepts.keeps
    (accepted : Accepts h l tx w height v p) : Keeps l (l.commitApply tx p) := by
  refine ⟨rfl, fun {asset token} found => ?_⟩
  rw [commitApply, get?_insert]
  split_ifs with same
  · subst same
    cases accepted.known.symm.trans found
    exact ⟨_, rfl, rfl⟩
  · exact ⟨token, found, rfl⟩

theorem Accepts.output_kept {id : OutPoint}
    (accepted : Accepts h l tx w height v p) (found : l.outputs.get? id = some o)
    (unspent : id ∉ tx.inputs) :
    (l.commitApply tx p).outputs.get? id = some o := by
  have old : (ofList (p.made tx)).get? id = none := by
    by_contra made
    obtain ⟨o', again⟩ := ne_none_iff_exists'.mp made
    simp [accepted.fresh id (mem_ids_of_made again)] at found
  rw [commitApply_get?, old, if_neg unspent, found]
  rfl

end Ledger

namespace Gateway

open Ledger

variable {h : Hashes} {P : Verifier → Prop} {used : List Bytes32} {l : GatewayLedger} {v : Verifier}
  {native : Ledger} {height : ℕ} {p : Planned}

theorem validateConfig_kept (kept : Keeps native native')
    (valid : validateConfig native c v = .ok ()) : validateConfig native' c v = .ok () := by
  have profile : ∀ {asset config}, supplyProfile native asset = .ok config →
      supplyProfile native' asset = .ok config := by
    intro asset config found
    cases known : native.tokens.get? asset with
    | none => simp [supplyProfile, Ledger.registration, known] at found
    | some token =>
      obtain ⟨token', held, same⟩ := kept.tokens known
      simpa [supplyProfile, Ledger.registration, known, held, same] using found
  simp only [validateConfig, ok_iff, kept.domain] at valid ⊢
  obtain ⟨checked, config, found, within⟩ := valid
  exact ⟨checked, config, profile found, within⟩

namespace GatewayLedger

variable {id : Bytes32} {s : RouteState} {l' : GatewayLedger}

section

variable (l : GatewayLedger) (id : Bytes32) (asset : AssetId)

def route? : Option Route := (l.routes.get? id).map (fun s => s.config.route)

def outstanding : ℕ :=
  l.routes.sum (fun _ s => if s.config.route.nativeAsset = asset then s.imported - s.burned else 0)

def importedOn : ℕ :=
  l.imports.sum (fun _ r => if r.deposit.route = id then r.deposit.amount else 0)

def releasedOn : ℕ :=
  l.releases.sum (fun _ r => if r.route = id then r.amount else 0)

def mints : ℕ :=
  l.imports.sum (fun _ r => if (l.route? r.deposit.route).map Route.nativeAsset = some asset then 1 else 0)

def eventOf (r : ImportRecord) : Option EventKey :=
  (l.route? r.deposit.route).map (fun route => r.event route)

end

theorem route?_eq_some (found : l.routes.get? id = some s) : l.route? id = some s.config.route := by
  rw [route?, found]
  rfl

theorem bridged_iff : l.bridged asset = true ↔ ∃ id, (l.route? id).map Route.nativeAsset = some asset := by
  simp only [bridged, List.any_eq_true, mem_values_iff, decide_eq_true_eq, route?, map_map,
    map_eq_some_iff, Function.comp_apply]
  exact ⟨fun ⟨s, ⟨id, found⟩, same⟩ => ⟨id, s, found, same⟩, fun ⟨id, s, found, same⟩ => ⟨s, ⟨id, found⟩, same⟩⟩

theorem route?_insert (known : l.routes.get? id = some s) (config : t.config = s.config) (other : Bytes32) :
    ((l.routes.insert id t).get? other).map (fun s => s.config.route) = l.route? other := by
  rw [get?_insert]
  split_ifs with same
  · rw [same, route?_eq_some known, ← config]
    rfl
  · rfl

theorem bridged_congr (same : ∀ id, l'.route? id = l.route? id) (asset : AssetId) :
    l'.bridged asset = l.bridged asset := by
  rw [Bool.eq_iff_iff, bridged_iff, bridged_iff]
  simp only [same]

theorem eventOf_congr (same : ∀ id, l'.route? id = l.route? id) (r : ImportRecord) :
    l'.eventOf r = l.eventOf r := by
  rw [eventOf, same]
  rfl

end GatewayLedger

open GatewayLedger

/-- A route agrees with its records and its cap. -/
structure RouteSound (h : Hashes) (P : Verifier → Prop) (l : GatewayLedger) (id : Bytes32) (s : RouteState) :
    Prop where
  keyed : s.config.route.id h = id
  valid : ∃ v, P v ∧ validateConfig l.native s.config v = .ok ()
  imported : s.imported = l.importedOn id
  burned : s.burned = l.releasedOn id
  backed : s.burned ≤ s.imported ∧ s.imported - s.burned ≤ s.config.route.cap
  fits : s.imported ≤ u128Max
  nonces : ∀ n, (l.releases.get? (toLex (id, n))).isSome = true ↔ n < s.nextReleaseNonce
  next : s.nextReleaseNonce ≤ u64Max

/-- An import is filed under its key, for a known route. -/
structure ImportSound (l : GatewayLedger) (used : List Bytes32) (key : RecordKey) (r : ImportRecord) : Prop where
  keyed : r.key = key
  routed : ∃ route, l.route? r.deposit.route = some route
  nonzero : r.deposit.amount ≠ 0 ∧ r.deposit.sender ≠ 0 ∧ r.deposit.pqRecipientHash ≠ 0 ∧
    r.sourceTransaction ≠ 0 ∧ r.sourceBlock ≠ 0
  filed : r.nativeTransaction ∈ used

/-- A release is filed under its key, for a known route. -/
structure ReleaseSound (l : GatewayLedger) (used : List Bytes32) (key : RecordKey) (r : Release) : Prop where
  keyed : r.key = key
  routed : ∃ route, l.route? r.route = some route ∧ r.recipient ≠ route.vault ∧ r.recipient ≠ route.token
  nonzero : r.amount ≠ 0 ∧ r.recipient ≠ 0
  filed : r.nativeBurn ∈ used

/-- What is bridged is backed by what the routes have outstanding. -/
structure Backed (h : Hashes) (P : Verifier → Prop) (used : List Bytes32) (l : GatewayLedger) : Prop where
  routes : ∀ {id s}, l.routes.get? id = some s → RouteSound h P l id s
  imports : ∀ {key r}, l.imports.get? key = some r → ImportSound l used key r
  releases : ∀ {key r}, l.releases.get? key = some r → ReleaseSound l used key r
  endpoints : ∀ {id id' route route'}, l.route? id = some route → l.route? id' = some route' →
    route.sourceDomain = route'.sourceDomain → route.vault = route'.vault → id = id'
  events : ∀ e, e ∈ l.events ↔ ∃ key r, l.imports.get? key = some r ∧ l.eventOf r = some e
  once : l.imports.Tells l.eventOf
  issued : l.imports.Tells ImportRecord.nativeTransaction
  retired : l.releases.Tells Release.nativeBurn
  apart : ∀ {key key' r r'}, l.imports.get? key = some r → l.releases.get? key' = some r' →
    r.nativeTransaction ≠ r'.nativeBurn
  supply : ∀ {asset}, l.bridged asset = true → ∃ token, l.native.tokens.get? asset = some token ∧
    token.supply = l.outstanding asset ∧ token.mintNonce = l.mints asset
  few : l.routes.size ≤ MAX_ROUTES ∧ l.imports.size ≤ MAX_RECORDS ∧ l.releases.size ≤ MAX_RECORDS

theorem backed_new (domain : Bytes32) : Backed h P used (.new domain) where
  routes found := by simp [GatewayLedger.new] at found
  imports found := by simp [GatewayLedger.new] at found
  releases found := by simp [GatewayLedger.new] at found
  endpoints found := by simp [GatewayLedger.new, route?] at found
  events e := by simp [GatewayLedger.new]
  once := tells_empty
  issued := tells_empty
  retired := tells_empty
  apart found := by simp [GatewayLedger.new] at found
  supply bridged := by simp [GatewayLedger.new, GatewayLedger.bridged, values, empty] at bridged
  few := by simp [GatewayLedger.new]

section

variable {id : Bytes32}

theorem RouteSound.valid_kept (sound : RouteSound h P l id s)
    (kept : Keeps l.native native) : ∃ v, P v ∧ validateConfig native s.config v = .ok () :=
  sound.valid.imp (fun _ => And.imp_right (validateConfig_kept kept))

theorem ImportSound.kept (sound : ImportSound l used key r) (more : used ⊆ used')
    (same : ∀ {id route}, l.route? id = some route → l'.route? id = some route) : ImportSound l' used' key r :=
  { sound with routed := sound.routed.imp (fun _ => same), filed := more sound.filed }

theorem ReleaseSound.kept (sound : ReleaseSound l used key r) (more : used ⊆ used')
    (same : ∀ {id route}, l.route? id = some route → l'.route? id = some route) : ReleaseSound l' used' key r :=
  { sound with routed := sound.routed.imp (fun _ => And.imp_left same), filed := more sound.filed }

end

theorem Backed.mono (backed : Backed h P used l) (more : used ⊆ used') : Backed h P used' l :=
  { backed with
    imports := fun found => (backed.imports found).kept more id
    releases := fun found => (backed.releases found).kept more id }

/-- The ledger below moved, but no bridged supply. -/
structure Undisturbed (l : GatewayLedger) (native : Ledger) : Prop where
  kept : Keeps l.native native
  supply : ∀ {asset token}, l.bridged asset = true → l.native.tokens.get? asset = some token →
    ∃ token', native.tokens.get? asset = some token' ∧ token'.supply = token.supply ∧
      token'.mintNonce = token.mintNonce

theorem Backed.below (backed : Backed h P used l) (undisturbed : Undisturbed l native) :
    Backed h P used { l with native := native } :=
  { backed with
    routes := fun found =>
      { backed.routes found with valid := (backed.routes found).valid_kept undisturbed.kept }
    imports := fun found => { backed.imports found with }
    releases := fun found => { backed.releases found with }
    supply := fun {asset} bridged => by
      obtain ⟨token, known, supply, nonce⟩ := backed.supply bridged
      obtain ⟨token', held, sameSupply, sameNonce⟩ := undisturbed.supply bridged known
      exact ⟨token', held, sameSupply.trans supply, sameNonce.trans nonce⟩ }

theorem undisturbed_register (accepted : Registers h l.native r v asset token) :
    Undisturbed l { l.native with tokens := l.native.tokens.insert asset token } := by
  have same : ∀ {other held}, l.native.tokens.get? other = some held →
      (l.native.tokens.insert asset token).get? other = some held := by
    intro other held found
    have ne : other ≠ asset := ne_of_absent found accepted.free
    rw [get?_insert_of_ne _ _ ne, found]
  exact ⟨⟨rfl, fun found => ⟨_, same found, rfl⟩⟩, fun _ found => ⟨_, same found, rfl, rfl⟩⟩

theorem undisturbed_apply
    (accepted : Accepts h l.native tx w height v p) (outside : tx.delta ≠ 0 → l.bridged tx.asset = false) :
    Undisturbed l (l.native.commitApply tx p) := by
  refine ⟨accepted.keeps, fun {asset token} bridged found => ?_⟩
  rw [commitApply, get?_insert]
  split_ifs with same
  · subst same
    have still : tx.delta = 0 := by
      by_contra changes
      simp [outside changes] at bridged
    cases accepted.known.symm.trans found
    have supply := accepted.supply
    have nonce := accepted.nonce
    rw [still] at supply nonce
    exact ⟨_, rfl, by exact_mod_cast supply, nonce⟩
  · exact ⟨token, found, rfl, rfl⟩

theorem Backed.settlePair {swap : PairSwap} (backed : Backed h P used l)
    (settles : Settles h l.native swap w height v p q) :
    Backed h P used { l with native := (l.native.commitApply swap.legs.1 p).commitApply swap.legs.2 q } :=
  (backed.below (undisturbed_apply settles.first (fun changes => absurd settles.transfers.1 changes))).below
    (l := { l with native := l.native.commitApply swap.legs.1 p })
    (undisturbed_apply settles.second (fun changes => absurd settles.transfers.2 changes))

section

variable {c : RouteConfig}

theorem route?_afterEnable (id : Bytes32) :
    (l.afterEnable h c).route? id = if id = c.route.id h then some c.route else l.route? id := by
  rw [route?, afterEnable, get?_insert]
  split_ifs <;> rfl

theorem route?_kept (unknown : l.route? (c.route.id h) = none) {id : Bytes32}
    (found : l.route? id = some route) : (l.afterEnable h c).route? id = some route := by
  have ne : id ≠ c.route.id h := ne_of_absent found unknown
  rw [route?_afterEnable, if_neg ne, found]

section

variable (backed : Backed h P used l) {r : ImportRecord} {id : Bytes32}
include backed

theorem Backed.route?_import (unknown : l.route? (c.route.id h) = none) (found : l.imports.get? key = some r) :
    (l.afterEnable h c).route? r.deposit.route = l.route? r.deposit.route := by
  obtain ⟨route, known⟩ := (backed.imports found).routed
  rw [route?_kept unknown known, known]

theorem Backed.import_elsewhere (unknown : l.route? id = none)
    (found : l.imports.get? key = some r) : r.deposit.route ≠ id := by
  rintro rfl
  obtain ⟨route, known⟩ := (backed.imports found).routed
  simp [unknown] at known

theorem Backed.release_elsewhere (unknown : l.route? id = none) {r : Release}
    (found : l.releases.get? key = some r) : r.route ≠ id := by
  rintro rfl
  obtain ⟨route, known, -⟩ := (backed.releases found).routed
  simp [unknown] at known

theorem Backed.routeSound_new (accepted : Enables l c v) (among : P v)
    (unknown : l.route? (c.route.id h) = none) :
    RouteSound h P (l.afterEnable h c) (c.route.id h) ⟨c, 0, 0, 0⟩ where
  keyed := rfl
  valid := ⟨v, among, accepted.valid⟩
  imported := (sum_eq_zero (fun _ _ found => if_neg (backed.import_elsewhere unknown found))).symm
  burned := (sum_eq_zero (fun _ _ found => if_neg (backed.release_elsewhere unknown found))).symm
  backed := ⟨le_rfl, Nat.zero_le _⟩
  fits := Nat.zero_le _
  nonces n := by
    refine iff_of_false (fun held => ?_) (Nat.not_lt_zero n)
    obtain ⟨r, found⟩ := isSome_iff_exists.mp held
    exact backed.release_elsewhere unknown found
      (congrArg (fun key => (ofLex key).1) (backed.releases found).keyed)
  next := Nat.zero_le _

omit backed in
theorem Enables.supply_new (accepted : Enables l c v) (before : ¬ l.bridged c.route.nativeAsset = true) :
    ∃ token, l.native.tokens.get? c.route.nativeAsset = some token ∧
      token.supply = l.outstanding c.route.nativeAsset ∧ token.mintNonce = l.mints c.route.nativeAsset := by
  have supply := accepted.supply
  have nonce := accepted.nonce
  simp only [Ledger.supply, Ledger.nextMintNonce, map_eq_some_iff] at supply nonce
  obtain ⟨token, known, empty⟩ := supply
  obtain ⟨token', known', unissued⟩ := nonce
  cases known.symm.trans known'
  refine ⟨token, known, ?_, ?_⟩
  · rw [empty]
    refine (sum_eq_zero (fun id s found => if_neg (fun same => before ?_))).symm
    exact bridged_iff.mpr ⟨id, by rw [route?_eq_some found]; exact congrArg some same⟩
  · rw [unissued]
    exact (sum_eq_zero (fun _ r _ => if_neg (fun same => before
      (bridged_iff.mpr ⟨r.deposit.route, same⟩)))).symm

theorem Backed.afterEnable (accepted : Enables l c v) (among : P v)
    (fresh : l.routes.get? (c.route.id h) = none) : Backed h P used (l.afterEnable h c) := by
  have unknown : l.route? (c.route.id h) = none := by
    rw [route?, fresh]
    rfl
  have sameEvent : ∀ {key r}, l.imports.get? key = some r → (l.afterEnable h c).eventOf r = l.eventOf r :=
    fun found => by rw [eventOf, eventOf, backed.route?_import unknown found]
  refine { backed with routes := ?_, imports := ?_, releases := ?_, endpoints := ?_, events := ?_, once := ?_,
                       supply := ?_, few := ?_ }
  · intro id s found
    obtain ⟨same, rfl⟩ | ⟨same, found⟩ := get?_insert_cases found
    · subst same
      exact backed.routeSound_new accepted among unknown
    · exact { backed.routes found with }
  · exact fun found => (backed.imports found).kept (List.Subset.refl used) (route?_kept unknown)
  · exact fun found => (backed.releases found).kept (List.Subset.refl used) (route?_kept unknown)
  · intro id id' route route' found found' domain vault
    have old : ∀ {id route}, l.route? id = some route →
        ¬ (route.sourceDomain = c.route.sourceDomain ∧ route.vault = c.route.vault) := by
      intro id route known
      obtain ⟨s, held, rfl⟩ := map_eq_some_iff.mp known
      exact accepted.endpoint held
    rw [route?_afterEnable] at found found'
    split_ifs at found found' with same same'
    · rw [same, same']
    · cases found
      exact absurd ⟨domain.symm, vault.symm⟩ (old found')
    · cases found'
      exact absurd ⟨domain, vault⟩ (old found)
    · exact backed.endpoints found found' domain vault
  · intro e
    change e ∈ l.events ↔ _
    rw [backed.events]
    exact exists_congr (fun key => exists_congr (fun r => and_congr_right (fun found => by rw [sameEvent found])))
  · intro key key' r r' found found' same
    rw [sameEvent found, sameEvent found'] at same
    exact backed.once found found' same
  · intro asset bridged
    have sameMints : (l.afterEnable h c).mints asset = l.mints asset :=
      sum_congr (fun key r found => by rw [backed.route?_import unknown found])
    have sameOutstanding : (l.afterEnable h c).outstanding asset = l.outstanding asset := by
      rw [outstanding, GatewayLedger.afterEnable, sum_insert_of_absent fresh]
      simp [outstanding]
    rw [sameMints, sameOutstanding]
    by_cases before : l.bridged asset = true
    · exact backed.supply before
    obtain ⟨id, named⟩ := bridged_iff.mp bridged
    rw [route?_afterEnable] at named
    split_ifs at named with same
    · cases named
      exact accepted.supply_new before
    · exact absurd (bridged_iff.mpr ⟨id, named⟩) before
  · refine ⟨?_, backed.few.2⟩
    rw [GatewayLedger.afterEnable, size_insert, contains, fresh]
    exact accepted.room

end

end

/-- What an import and a withdrawal have in common: one route moves on under its configuration, and a
transaction of its asset is carried out below. -/
structure Moved (h : Hashes) (l : GatewayLedger) (id : Bytes32) (s : RouteState) (tx : Transaction) (p : Planned)
    (l' : GatewayLedger) : Prop where
  known : l.routes.get? id = some s
  routes : ∃ t, l'.routes = l.routes.insert id t ∧ t.config = s.config
  accepted : ∃ w height v, Accepts h l.native tx w height v p
  asset : tx.asset = s.config.route.nativeAsset
  native : l'.native = l.native.commitApply tx p

section

variable {id : Bytes32} {s : RouteState} {tx : Transaction} {l' : GatewayLedger} {asset : AssetId}
  (moved : Moved h l id s tx p l')
include moved

theorem Moved.route?_eq (other : Bytes32) : l'.route? other = l.route? other := by
  obtain ⟨t, routes, config⟩ := moved.routes
  rw [route?, routes]
  exact route?_insert moved.known config other

theorem Moved.keeps : Keeps l.native l'.native := by
  obtain ⟨w, height, v, accepted⟩ := moved.accepted
  rw [moved.native]
  exact accepted.keeps

theorem Moved.few (few : l.routes.size ≤ MAX_ROUTES) : l'.routes.size ≤ MAX_ROUTES := by
  obtain ⟨t, routes, -⟩ := moved.routes
  rw [routes, size_insert, contains, moved.known]
  exact few

/-- The token of the route's asset follows the route, and no other token changes. -/
theorem Moved.supply (backed : Backed h P used l)
    (outstanding : (l'.outstanding asset : ℤ) =
      l.outstanding asset + if s.config.route.nativeAsset = asset then tx.delta else 0)
    (mints : l'.mints asset =
      l.mints asset + if s.config.route.nativeAsset = asset ∧ 0 < tx.delta then 1 else 0)
    (bridged : l'.bridged asset = true) : ∃ token, l'.native.tokens.get? asset = some token ∧
      token.supply = l'.outstanding asset ∧ token.mintNonce = l'.mints asset := by
  rw [bridged_congr moved.route?_eq] at bridged
  obtain ⟨token, known, supply, nonce⟩ := backed.supply bridged
  obtain ⟨w, height, v, accepted⟩ := moved.accepted
  rw [moved.native, commitApply, get?_insert, moved.asset]
  by_cases same : s.config.route.nativeAsset = asset
  · have held := accepted.known
    rw [moved.asset, same, known] at held
    cases held
    have supplied := accepted.supply
    have numbered := accepted.nonce
    simp only [same, if_true, true_and] at outstanding mints
    exact ⟨_, if_pos same.symm, by dsimp only; omega, by dsimp only; omega⟩
  · simp only [same, if_false, false_and, add_zero] at outstanding mints
    exact ⟨token, by rw [if_neg (Ne.symm same), known], by omega, by omega⟩

end

section

variable {r : ImportRequest} {w : Witnesses} {height : ℕ} {s : RouteState} {p : Planned}

section

variable (accepted : Imports h l r w height v s p)
include accepted

theorem Imports.moved : Moved h l r.deposit.route s r.transaction p (l.afterImport r s p) :=
  ⟨accepted.known, ⟨_, rfl, rfl⟩, ⟨w, height, v, accepted.accepted⟩, accepted.asset, rfl⟩

theorem Imports.importedOn_eq (id : Bytes32) :
    (l.afterImport r s p).importedOn id =
      l.importedOn id + if r.deposit.route = id then r.deposit.amount else 0 :=
  sum_insert_of_absent accepted.key _ _

theorem Imports.mints_eq (asset : AssetId) : (l.afterImport r s p).mints asset =
    l.mints asset + if s.config.route.nativeAsset = asset ∧ 0 < r.transaction.delta then 1 else 0 := by
  have added := sum_insert_of_absent accepted.key (r.record p.message)
    (fun _ r => if (l.route? r.deposit.route).map Route.nativeAsset = some asset then 1 else 0)
  have positive : 0 < r.transaction.delta := by
    have issues := accepted.issues
    have nonzero := accepted.nonzero.1
    omega
  simp only [mints, accepted.moved.route?_eq]
  refine added.trans ?_
  rw [show (r.record p.message).deposit = r.deposit from rfl, route?_eq_some accepted.known]
  simp [positive]

theorem Imports.outstanding_eq (covered : s.burned ≤ s.imported) (asset : AssetId) :
    ((l.afterImport r s p).outstanding asset : ℤ) =
      l.outstanding asset + if s.config.route.nativeAsset = asset then r.transaction.delta else 0 := by
  have traded := sum_insert_of_get? accepted.known { s with imported := s.imported + r.deposit.amount }
    (fun _ s => if s.config.route.nativeAsset = asset then s.imported - s.burned else 0)
  change (l.afterImport r s p).outstanding asset + _ = l.outstanding asset + _ at traded
  have issues := accepted.issues
  dsimp only at traded
  split_ifs at traded ⊢ <;> omega

end

theorem Backed.afterImport (backed : Backed h P used l) (accepted : Imports h l r w height v s p)
    (fresh : p.message ∉ used) : Backed h P (used ++ [p.message]) (l.afterImport r s p) := by
  have covered := (backed.routes accepted.known).backed.1
  have sameRoute := accepted.moved.route?_eq
  have sameEvent := eventOf_congr sameRoute
  have kept := accepted.moved.keeps
  have new : l.imports.get? (r.record p.message).key = none := accepted.key
  -- the new record is the only one of its event and of its digest
  have newEvent : ∀ {key r'}, l.imports.get? key = some r' →
      l.eventOf r' ≠ some ((r.record p.message).event s.config.route) := fun found same =>
    accepted.event ((backed.events _).mpr ⟨_, _, found, same⟩)
  have event : l.eventOf (r.record p.message) = some ((r.record p.message).event s.config.route) := by
    rw [eventOf, show (r.record p.message).deposit = r.deposit from rfl, route?_eq_some accepted.known]
    rfl
  refine { backed.mono (List.subset_append_left used [p.message]) with
    routes := ?_, imports := ?_, releases := ?_, endpoints := ?_, events := ?_, once := ?_, issued := ?_,
    apart := ?_, supply := ?_, few := ?_ }
  · intro id s' found
    have changed := accepted.importedOn_eq id
    obtain ⟨same, rfl⟩ | ⟨same, found⟩ := get?_insert_cases found
    · have sound := backed.routes accepted.known
      subst same
      rw [if_pos rfl, ← sound.imported] at changed
      exact { sound with
        valid := sound.valid_kept kept
        imported := changed.symm
        backed := accepted.backed
        fits := accepted.fits }
    · have sound := backed.routes found
      rw [if_neg (Ne.symm same), Nat.add_zero, ← sound.imported] at changed
      exact { sound with
        valid := sound.valid_kept kept
        imported := changed.symm }
  · intro key r' found
    obtain ⟨same, rfl⟩ | ⟨same, found⟩ := get?_insert_cases found
    · exact ⟨same.symm, ⟨_, (sameRoute _).trans (route?_eq_some accepted.known)⟩, accepted.nonzero,
        List.mem_append_right _ (List.mem_singleton.mpr rfl)⟩
    · exact (backed.imports found).kept (List.subset_append_left _ _) (sameRoute _).trans
  · exact fun found => (backed.releases found).kept (List.subset_append_left _ _) (sameRoute _).trans
  · simpa only [sameRoute] using @backed.endpoints
  · intro e
    simp only [sameEvent]
    simp only [GatewayLedger.afterImport, Finset.mem_insert, backed.events, get?_insert]
    refine ⟨?_, ?_⟩
    · rintro (rfl | ⟨key, r', found, same⟩)
      · exact ⟨_, _, if_pos rfl, event⟩
      · have other : key ≠ (r.record p.message).key := ne_of_absent found new
        exact ⟨key, r', by rw [if_neg other, found], same⟩
    · rintro ⟨key, r', found, same⟩
      split_ifs at found with here
      · cases found
        exact .inl (Option.some.inj (same.symm.trans event))
      · exact .inr ⟨key, r', found, same⟩
  · rw [show (l.afterImport r s p).eventOf = l.eventOf from funext sameEvent]
    exact backed.once.insert (fun found same => newEvent found (same.trans event))
  · exact backed.issued.insert (fun found same => fresh (Eq.subst same (backed.imports found).filed))
  · intro key key' r₁ r₂ found found' same
    obtain ⟨here, rfl⟩ | ⟨here, found⟩ := get?_insert_cases found
    · have filed := (backed.releases found').filed
      rw [← same] at filed
      exact fresh filed
    · exact backed.apart found found' same
  · exact accepted.moved.supply backed (accepted.outstanding_eq covered _) (accepted.mints_eq _)
  · refine ⟨accepted.moved.few backed.few.1, ?_, backed.few.2.2⟩
    rw [GatewayLedger.afterImport, size_insert, contains, new]
    exact accepted.room

end

section

variable {r : WithdrawalRequest} {w : Witnesses} {height : ℕ} {s : RouteState} {p : Planned}

section

variable (accepted : Withdraws h l r w height v s p)
include accepted

theorem Withdraws.moved : Moved h l r.route s r.transaction p (l.afterWithdraw r s p) :=
  ⟨accepted.known, ⟨_, rfl, rfl⟩, ⟨w, height, v, accepted.accepted⟩, accepted.asset, rfl⟩

theorem Withdraws.key (backed : Backed h P used l) : l.releases.get? (toLex (r.route, r.nonce)) = none := by
  have held := (backed.routes accepted.known).nonces r.nonce
  rw [accepted.nonce] at held ⊢
  exact not_isSome_iff_eq_none.mp (fun there => absurd (held.mp there) (lt_irrefl _))

theorem Withdraws.releasedOn_eq (backed : Backed h P used l)
    (id : Bytes32) : (l.afterWithdraw r s p).releasedOn id =
      l.releasedOn id + if r.route = id then r.transaction.delta.natAbs else 0 :=
  sum_insert_of_absent (accepted.key backed) _ _

theorem Withdraws.outstanding_eq (asset : AssetId) : ((l.afterWithdraw r s p).outstanding asset : ℤ) =
    l.outstanding asset + if s.config.route.nativeAsset = asset then r.transaction.delta else 0 := by
  have traded := sum_insert_of_get? accepted.known
    { s with burned := s.burned + r.transaction.delta.natAbs, nextReleaseNonce := s.nextReleaseNonce + 1 }
    (fun _ s => if s.config.route.nativeAsset = asset then s.imported - s.burned else 0)
  change (l.afterWithdraw r s p).outstanding asset + _ = l.outstanding asset + _ at traded
  have covered := accepted.backed
  have retires := accepted.retires
  dsimp only at traded
  split_ifs at traded ⊢ <;> omega

theorem Withdraws.mints_eq (asset : AssetId) : (l.afterWithdraw r s p).mints asset =
    l.mints asset + if s.config.route.nativeAsset = asset ∧ 0 < r.transaction.delta then 1 else 0 := by
  rw [if_neg (fun both => absurd accepted.retires both.2.not_gt)]
  simp only [mints, accepted.moved.route?_eq]
  rfl

theorem Withdraws.nonces (backed : Backed h P used l) (n : ℕ) :
    ((l.afterWithdraw r s p).releases.get? (toLex (r.route, n))).isSome = true ↔ n < s.nextReleaseNonce + 1 := by
  have before := (backed.routes accepted.known).nonces n
  rw [GatewayLedger.afterWithdraw, get?_insert]
  split_ifs with same
  · have latest : n = r.nonce := congrArg (fun key => (ofLex key).2) same
    exact iff_of_true rfl (by rw [latest, accepted.nonce]; exact Nat.lt_succ_self _)
  · have other : n ≠ s.nextReleaseNonce := by
      rintro rfl
      exact same (by rw [Release.key, accepted.nonce])
    rw [before]
    omega

end

theorem Backed.afterWithdraw (backed : Backed h P used l) (accepted : Withdraws h l r w height v s p)
    (fresh : p.message ∉ used) : Backed h P (used ++ [p.message]) (l.afterWithdraw r s p) := by
  have sameRoute := accepted.moved.route?_eq
  have sameEvent := eventOf_congr sameRoute
  have kept := accepted.moved.keeps
  have new := accepted.key backed
  refine { backed.mono (List.subset_append_left used [p.message]) with
    routes := ?_, imports := ?_, releases := ?_, endpoints := ?_, events := ?_, once := ?_, retired := ?_,
    apart := ?_, supply := ?_, few := ?_ }
  · intro id s' found
    have changed := accepted.releasedOn_eq backed id
    obtain ⟨same, rfl⟩ | ⟨same, found⟩ := get?_insert_cases found
    · have sound := backed.routes accepted.known
      have covered := accepted.backed
      have within := sound.backed
      subst same
      rw [if_pos rfl, ← sound.burned] at changed
      exact { sound with
        valid := sound.valid_kept kept
        burned := changed.symm
        backed := ⟨covered, by dsimp only; omega⟩
        nonces := accepted.nonces backed
        next := accepted.next }
    · have sound := backed.routes found
      rw [if_neg (Ne.symm same), Nat.add_zero, ← sound.burned] at changed
      refine { sound with valid := sound.valid_kept kept, burned := changed.symm, nonces := fun n => ?_ }
      have other : toLex (id, n) ≠ toLex (r.route, r.nonce) := fun clash =>
        same (congrArg (fun key => (ofLex key).1) clash)
      rw [GatewayLedger.afterWithdraw, Release.key, get?_insert_of_ne _ _ other]
      exact sound.nonces n
  · exact fun found => (backed.imports found).kept (List.subset_append_left _ _) (sameRoute _).trans
  · intro key r' found
    obtain ⟨same, rfl⟩ | ⟨same, found⟩ := get?_insert_cases found
    · have negative := accepted.retires
      exact ⟨same.symm, ⟨_, (sameRoute _).trans (route?_eq_some accepted.known), accepted.recipient.2⟩,
        ⟨Int.natAbs_ne_zero.mpr negative.ne, accepted.recipient.1⟩,
        List.mem_append_right _ (List.mem_singleton.mpr rfl)⟩
    · exact (backed.releases found).kept (List.subset_append_left _ _) (sameRoute _).trans
  · simpa only [sameRoute] using @backed.endpoints
  · intro e
    simp only [sameEvent]
    exact backed.events e
  · rw [show (l.afterWithdraw r s p).eventOf = l.eventOf from funext sameEvent]
    exact backed.once
  · exact backed.retired.insert (fun found same => fresh (Eq.subst same (backed.releases found).filed))
  · intro key key' r₁ r₂ found found' same
    rw [GatewayLedger.afterWithdraw, get?_insert] at found'
    split_ifs at found' with here
    · cases found'
      exact fresh (Eq.subst same (backed.imports found).filed)
    · exact backed.apart found found' same
  · exact accepted.moved.supply backed (accepted.outstanding_eq _) (accepted.mints_eq _)
  · refine ⟨accepted.moved.few backed.few.1, backed.few.2.1, ?_⟩
    rw [GatewayLedger.afterWithdraw, Release.key, size_insert, contains, new]
    exact accepted.room

end

end Gateway

end BlochPos.Ustav
