import BlochPos.Ustav.GatewayRestore

/-! The gateway over whole runs of calls. -/
namespace BlochPos.Ustav.Gateway

open Attempt GatewayLedger SortedMap List

variable {h : Hashes} {P : Verifier → Prop} {l : GatewayLedger} {calls : List Call} {call : Call}

theorem Backed.step (backed : Backed h P used l) (taken : Step h l call l')
    (among : ∀ v, call.verifier.Alike v → P v)
    (fresh : ∀ tx ∈ call.transactions, transactionHash h l.native.domain tx ∉ used)
    (unknown : ∀ route ∈ call.route?, l.routes.get? (route.id h) = none) :
    Backed h P (used ++ call.transactions.map (transactionHash h l.native.domain)) l' := by
  cases taken.change with
  | register accepted =>
    exact (backed.below (undisturbed_register accepted)).mono (subset_append_left _ _)
  | enable accepted =>
    exact (backed.afterEnable accepted (among _ rfl) (unknown _ rfl)).mono (subset_append_left _ _)
  | apply accepted room outside =>
    exact (backed.below (undisturbed_apply accepted outside)).mono (subset_append_left _ _)
  | settlePair alike settles => exact (backed.settlePair settles).mono (subset_append_left _ _)
  | importDeposit _ accepted =>
    have message := accepted.accepted.message
    have kept := backed.afterImport accepted (message ▸ fresh _ (mem_singleton_self _))
    rw [message] at kept
    exact kept
  | withdraw _ accepted =>
    have message := accepted.accepted.message
    have kept := backed.afterWithdraw accepted (message ▸ fresh _ (mem_singleton_self _))
    rw [message] at kept
    exact kept

section

variable (calls : List Call)

def carried : List Transaction := calls.flatMap Call.transactions

def enabled : List Route := calls.filterMap Call.route?

def imported : List ImportRequest := calls.filterMap Call.import?

theorem carried_concat (call : Call) : carried (calls ++ [call]) = carried calls ++ call.transactions := by
  simp [carried]

theorem enabled_concat (call : Call) : enabled (calls ++ [call]) = enabled calls ++ call.route?.toList := by
  rw [enabled, filterMap_append]
  cases call <;> rfl

theorem imported_concat (call : Call) : imported (calls ++ [call]) = imported calls ++ call.import?.toList := by
  rw [imported, filterMap_append]
  cases call <;> rfl

end

/-- The digests tell apart the transactions carried out and the routes enabled, and no transaction
has the null digest. -/
structure CollisionFree (h : Hashes) (domain : Bytes32) (calls : List Call) : Prop where
  transactions : Ledger.CollisionFree h domain (carried calls)
  nonnull : ∀ tx ∈ carried calls, transactionHash h domain tx ≠ 0
  routes : Set.InjOn h.sha256 {bytes | ∃ route ∈ enabled calls, bytes = route.words.flatten}

theorem CollisionFree.init (free : CollisionFree h domain (calls ++ [call])) :
    CollisionFree h domain calls where
  transactions := free.transactions.mono (carried_concat calls call ▸ subset_append_left _ _)
  nonnull tx among := free.nonnull tx (carried_concat calls call ▸ mem_append_left _ among)
  routes := free.routes.mono (fun _ made => made.imp (fun _ listed =>
    ⟨enabled_concat calls call ▸ mem_append_left _ listed.1, listed.2⟩))

theorem delimits_wordAddress : Delimits wordAddress (fun _ => True) :=
  .of_length (n := 32) (fun a _ => by rw [wordAddress, beBytes, length_reverse, length_leBytes])
    (fun a b _ _ same => by
      have small : ∀ c : Address, c.val < 256 ^ 32 := fun c => c.isLt.trans (by norm_num)
      have values := (delimits_leBytes 32).inj (small a) (small b) (reverse_injective same)
      exact Fin.ext values)

theorem endpoint_of_words_eq {route route' : Route} (same : route.words.flatten = route'.words.flatten) :
    route.sourceDomain = route'.sourceDomain ∧ route.vault = route'.vault := by
  simp only [Route.words, flatten_cons] at same
  obtain ⟨source, same⟩ := delimits_hashBytes trivial trivial (append_cancel_left same)
  obtain ⟨-, same⟩ := delimits_hashBytes trivial trivial same
  obtain ⟨-, same⟩ := delimits_hashBytes trivial trivial same
  obtain ⟨-, same⟩ := delimits_wordAddress trivial trivial same
  exact ⟨source, (delimits_wordAddress trivial trivial same).1⟩

theorem Backed.route_unknown (backed : Backed h P used l) (taken : Step h l call l') {routes : List Route}
    (listed : ∀ {id s}, l.routes.get? id = some s → s.config.route ∈ routes)
    (distinct : Set.InjOn h.sha256 {bytes | ∃ route ∈ routes ++ call.route?.toList, bytes = route.words.flatten}) :
    ∀ route ∈ call.route?, l.routes.get? (route.id h) = none := by
  cases taken.change with
  | enable accepted =>
    intro route named
    cases named
    by_contra known
    obtain ⟨s, held⟩ := Option.ne_none_iff_exists'.mp known
    have same := distinct ⟨_, mem_append_left _ (listed held), rfl⟩
      ⟨_, mem_append_right _ (mem_singleton.mpr rfl), rfl⟩ (backed.routes held).keyed
    exact accepted.endpoint held (endpoint_of_words_eq same)
  | _ => exact fun route named => absurd named (by simp [Call.route?])

/-- All that the calls so far establish of the gateway. -/
structure Reached (h : Hashes) (P : Verifier → Prop) (domain : Bytes32) (calls : List Call)
    (l : GatewayLedger) : Prop where
  domain_eq : l.native.domain = domain
  sound : Ledger.Sound h P l.native
  few : l.native.outputs.size ≤ MAX_LEDGER_OUTPUTS
  recorded : Ledger.Recorded h (carried calls) l.native
  backed : Backed h P ((carried calls).map (transactionHash h domain)) l
  routes : ∀ {id s}, l.routes.get? id = some s → s.config.route ∈ enabled calls
  filed : ∀ r ∈ imported calls, ∃ d, l.imports.get? (r.record d).key = some (r.record d)
  apart : (imported calls).Pairwise
    (fun r r' => (r.deposit.route, r.deposit.nonce) ≠ (r'.deposit.route, r'.deposit.nonce))

theorem reached_new (domain : Bytes32) : Reached h P domain [] (.new domain) where
  domain_eq := rfl
  sound := Ledger.sound_new domain
  few := Nat.zero_le _
  recorded := ⟨fun found => by simp [GatewayLedger.new, Ledger.new] at found, by simp [carried],
    List.Pairwise.nil⟩
  backed := backed_new domain
  routes found := by simp [GatewayLedger.new] at found
  filed r among := by simp [imported] at among
  apart := List.Pairwise.nil

theorem Reached.fresh (reached : Reached h P domain calls l) (taken : Step h l call l')
    (free : CollisionFree h domain (calls ++ [call])) :
    ∀ tx ∈ call.transactions,
      transactionHash h l.native.domain tx ∉ (carried calls).map (transactionHash h domain) := by
  have recorded := taken.moves.recorded reached.recorded
    (by rw [reached.domain_eq, ← carried_concat]; exact free.transactions)
  have distinct := pairwise_append.mp recorded.distinct
  intro tx among listed
  obtain ⟨earlier, done, same⟩ := mem_map.mp listed
  refine distinct.2.2 earlier done tx among ?_
  rw [taken.moves.domain_eq, ← same, reached.domain_eq]

theorem Step.routes_kept (taken : Step h l call l') {id : Bytes32} (found : l'.routes.get? id = some s) :
    s.config.route ∈ call.route?.toList ∨ ∃ s', l.routes.get? id = some s' ∧ s'.config = s.config := by
  cases taken.change with
  | enable =>
    rw [afterEnable, get?_insert] at found
    split_ifs at found
    · cases found
      exact .inl (mem_singleton.mpr rfl)
    · exact .inr ⟨s, found, rfl⟩
  | importDeposit _ accepted | withdraw _ accepted =>
    obtain ⟨same, rfl⟩ | ⟨same, found⟩ := get?_insert_cases found
    · subst same
      exact .inr ⟨_, accepted.known, rfl⟩
    · exact .inr ⟨s, found, rfl⟩
  | _ => exact .inr ⟨s, found, rfl⟩

theorem Step.import_kept (taken : Step h l call l')
    (found : l.imports.get? key = some r) : l'.imports.get? key = some r := by
  cases taken.change with
  | importDeposit _ accepted =>
    have other : key ≠ _ := fun same => absurd (same ▸ found) (by rw [accepted.key]; nofun)
    exact (get?_insert_of_ne _ _ other).trans found
  | _ => exact found

theorem Step.import_filed (taken : Step h l call l') (asked : r ∈ call.import?.toList) :
    l.imports.get? (toLex (r.deposit.route, r.deposit.nonce)) = none ∧
      ∃ d, l'.imports.get? (r.record d).key = some (r.record d) := by
  cases taken.change with
  | @importDeposit r' _ _ _ _ _ _ _ p _ accepted =>
    obtain rfl := mem_singleton.mp asked
    exact ⟨accepted.key, p.message, get?_insert_self _ _ _⟩
  | _ => simp [Call.import?] at asked

theorem Reached.step (reached : Reached h P domain calls l) (taken : Step h l call l')
    (free : CollisionFree h domain (calls ++ [call])) (among : ∀ v, call.verifier.Alike v → P v) :
    Reached h P domain (calls ++ [call]) l' where
  domain_eq := taken.moves.domain_eq.trans reached.domain_eq
  sound := taken.moves.sound reached.sound among
  few := taken.moves.few reached.few
  recorded := by
    rw [carried_concat]
    exact taken.moves.recorded reached.recorded (by rw [reached.domain_eq, ← carried_concat]; exact free.transactions)
  backed := by
    have kept := reached.backed.step taken among (reached.fresh taken free)
      (reached.backed.route_unknown taken reached.routes (enabled_concat calls call ▸ free.routes))
    rwa [reached.domain_eq, ← map_append, ← carried_concat] at kept
  routes found := by
    rw [enabled_concat]
    obtain new | ⟨s', held, same⟩ := taken.routes_kept found
    · exact mem_append_right _ new
    · exact mem_append_left _ (same ▸ reached.routes held)
  filed r asked := by
    rw [imported_concat] at asked
    obtain before | now := mem_append.mp asked
    · exact (reached.filed r before).imp (fun _ found => taken.import_kept found)
    · exact (taken.import_filed now).2
  apart := by
    rw [imported_concat, pairwise_append]
    refine ⟨reached.apart, ?_, fun r before r' now same => ?_⟩
    · cases call.import? <;> simp
    · obtain ⟨d, held⟩ := reached.filed r before
      have absent := (taken.import_filed now).1
      rw [← same] at absent
      rw [ImportRecord.key] at held
      exact absurd (absent.symm.trans held) nofun

theorem reached_of_run (run : Run (Step h) (.new domain) calls l) (free : CollisionFree h domain calls)
    (among : ∀ call ∈ calls, ∀ v, call.verifier.Alike v → P v) : Reached h P domain calls l := by
  refine run.history (P := fun calls l => CollisionFree h domain calls →
    (∀ call ∈ calls, ∀ v, call.verifier.Alike v → P v) → Reached h P domain calls l)
    (fun _ _ => reached_new domain) ?_ free among
  intro before l call l' _ reached taken free among
  refine (reached free.init (fun c listed => among c (mem_append_left _ listed))).step taken free ?_
  exact among call (mem_append_right _ (mem_singleton.mpr rfl))

def sourceEvent (l : GatewayLedger) (r : ImportRequest) : Option EventKey :=
  (l.route? r.deposit.route).map (fun route => (route.sourceDomain, route.vault, r.sourceTransaction, r.eventIndex))

theorem Reached.events_apart (reached : Reached h P domain calls l) :
    (imported calls).Pairwise (fun r r' => sourceEvent l r ≠ sourceEvent l r') := by
  refine reached.apart.imp_of_mem (fun {r r'} here there apart same => apart ?_)
  obtain ⟨d, held⟩ := reached.filed r here
  obtain ⟨d', held'⟩ := reached.filed r' there
  exact toLex.injective (reached.backed.once held held' same)

/-- After any accepted calls on a new gateway: supply and mint nonces are what the routes have outstanding
and imported, counters are the sums of their records, nothing was imported twice, a refusal changes nothing,
and the gateway comes back from its snapshot. -/
theorem gateway_keeps_backing {domain : Bytes32} (run : Run (Step h) (.new domain) calls l)
    (free : CollisionFree h domain calls) :
    (∀ asset, l.bridged asset = true → ∃ token, l.native.tokens.get? asset = some token ∧
      token.supply = l.outstanding asset ∧ token.mintNonce = l.mints asset) ∧
    (∀ id s, l.routes.get? id = some s → s.imported = l.importedOn id ∧ s.burned = l.releasedOn id ∧
      s.burned ≤ s.imported ∧ s.imported - s.burned ≤ s.config.route.cap ∧
      ∀ n, (l.releases.get? (toLex (id, n))).isSome = true ↔ n < s.nextReleaseNonce) ∧
    (imported calls).Pairwise
      (fun r r' => (r.deposit.route, r.deposit.nonce) ≠ (r'.deposit.route, r'.deposit.nonce)) ∧
    (imported calls).Pairwise (fun r r' => sourceEvent l r ≠ sourceEvent l r') ∧
    (∀ (call : Call) e l', exec (call.perform h) l = (.error e, l') → l' = l) ∧
    (∀ v, (∀ call ∈ calls, call.verifier = v) → restore h (l.snapshot h) (l.stateRoot h) v = .ok l) := by
  have reached : Reached h (fun _ => True) domain calls l := reached_of_run run free (fun _ _ _ _ => trivial)
  refine ⟨fun asset bridged => reached.backed.supply bridged, fun id s found => ?_, reached.apart,
    reached.events_apart, fun call e l' refused => ?_, fun v alike => ?_⟩
  · have sound := reached.backed.routes found
    exact ⟨sound.imported, sound.burned, sound.backed.1, sound.backed.2, sound.nonces⟩
  · exact call.atomic_perform l e l' refused
  · have under : Reached h v.Alike domain calls l :=
      reached_of_run run free (fun call among v' same => alike call among ▸ same)
    refine under.backed.restore (fun null => ?_) under.sound under.few
    obtain ⟨tx, among, zero⟩ := mem_map.mp null
    exact free.nonnull tx among zero

open Ledger (sampleHashes sampleVerifier sampleRegistration) in
def sampleRoute : RouteConfig :=
  ⟨⟨9, 7, assetHash sampleHashes 7 sampleRegistration, 1, 2, 6, 50, 1⟩, [[1], [2]], 2⟩

open Ledger (sampleHashes) in
def sampleImport : ImportRequest :=
  ⟨⟨sampleRoute.route.id sampleHashes, 0, 1, 40, 3⟩, 1, 1, 0, 20, Ledger.sampleMint⟩

open Ledger (sampleHashes sampleMint) in
def sampleWithdrawal : WithdrawalRequest :=
  ⟨sampleRoute.route.id sampleHashes, 0, 5, { Ledger.samplePayment with outputs := [⟨[3], 30⟩], delta := -10 }⟩

open Ledger (sampleVerifier sampleRegistration) in
/-- An asset registered and bridged, a deposit of forty taken in, and ten of it released. -/
def sampleCalls : List Call :=
  [.register sampleRegistration [] sampleVerifier 10000,
    .enable sampleRoute [] [[1], [1]] sampleVerifier 10000,
    .importDeposit sampleImport ⟨[], [[.bytes [9]]], []⟩ [[1], [1]] 1 sampleVerifier 10000,
    .withdraw sampleWithdrawal ⟨[[9]], [[.bytes [9]]], []⟩ [[1], [1]] 1 sampleVerifier 10000]

open Ledger (sampleHashes sampleMint) in
theorem collisionFree_sample : CollisionFree sampleHashes 7 sampleCalls := by
  have apart : transactionHash sampleHashes 7 sampleMint ≠
      transactionHash sampleHashes 7 sampleWithdrawal.transaction := by decide +kernel
  have nonnull : transactionHash sampleHashes 7 sampleMint ≠ 0 ∧
      transactionHash sampleHashes 7 sampleWithdrawal.transaction ≠ 0 := by decide +kernel
  have listed : carried sampleCalls = [sampleMint, sampleWithdrawal.transaction] := rfl
  have routes : enabled sampleCalls = [sampleRoute.route] := rfl
  refine ⟨Ledger.collisionFree_pair apart, ?_, ?_⟩
  · rw [listed]
    simpa using nonnull
  · rw [routes]
    rintro _ ⟨route, among, rfl⟩ _ ⟨route', among', rfl⟩ -
    rw [mem_singleton.mp among, mem_singleton.mp among']

open Ledger (sampleHashes sampleVerifier) in
theorem sample_keeps_backing : ∃ l, Run (Step sampleHashes) (.new 7) sampleCalls l ∧
    (∀ asset, l.bridged asset = true → ∃ token, l.native.tokens.get? asset = some token ∧
      token.supply = l.outstanding asset ∧ token.mintNonce = l.mints asset) ∧
    restore sampleHashes (l.snapshot sampleHashes) (l.stateRoot sampleHashes) sampleVerifier = .ok l := by
  have accepted : (performAll (Call.perform sampleHashes) sampleCalls (.new 7)).isSome = true := by
    decide +kernel
  obtain ⟨l, done⟩ := Option.isSome_iff_exists.mp accepted
  have run : Run (Step sampleHashes) (.new 7) sampleCalls l := run_of_performAll done
  have kept := gateway_keeps_backing run collisionFree_sample
  refine ⟨l, run, kept.1, kept.2.2.2.2.2 sampleVerifier (fun call among => ?_)⟩
  simp only [sampleCalls, mem_cons, not_mem_nil, or_false] at among
  obtain rfl | rfl | rfl | rfl := among <;> rfl

end BlochPos.Ustav.Gateway
