import BlochPos.Lib.Lineage
import BlochPos.Ustav.Bridge
import BlochPos.Ustav.Custody

/-! What makes outputs over a run of the pool ledger, where no transaction is carried out twice. -/
namespace BlochPos.Ustav.Pools

open Attempt Gateway PoolLedger SortedMap List

/-- What makes outputs. -/
inductive Maker where
  | transaction (tx : Transaction)
  | action (state : Amm.PoolState) (action : PoolAction)

namespace Maker

def signedBytes (domain : Bytes32) (tx : Transaction) : Bytes :=
  putLong (ascii "USTAV-TRANSACTION-v3") ++ tx.bytes domain

/-- What the hash is taken of for a digest. -/
def hashed (h : Hashes) (domain : Bytes32) : Maker → List Bytes
  | .transaction tx => [signedBytes domain tx, hashBytes (h.sha256 (signedBytes domain tx))]
  | .action state asked => [state.authBytes h.sha256 asked.request (fundingDigest h asked)]

def digest (h : Hashes) (domain : Bytes32) : Maker → Bytes32
  | .transaction tx => transactionHash h domain tx
  | .action state asked => h.sha256 (state.authBytes h.sha256 asked.request (fundingDigest h asked))

/-- The outputs a transaction takes. What an action takes is not asked for again. -/
def inputs : Maker → List OutPoint
  | .transaction tx => tx.inputs
  | .action .. => []

end Maker

variable {h : Hashes} {P : Verifier → Prop} {makers : List Maker} {native : Ledger} {v : Verifier}

/-- The hash has no collision among what the makers take it of. -/
def Distinct (h : Hashes) (domain : Bytes32) (makers : List Maker) : Prop :=
  Set.InjOn h.sha256 {bytes | ∃ m ∈ makers, bytes ∈ m.hashed h domain}

theorem Distinct.mono (free : Distinct h domain makers') (fewer : makers ⊆ makers') :
    Distinct h domain makers :=
  Set.InjOn.mono (fun _ member => member.imp (fun _ made => ⟨fewer made.1, made.2⟩)) free

theorem Distinct.signedBytes_eq (free : Distinct h domain makers)
    (among : .transaction tx ∈ makers) (among' : .transaction tx' ∈ makers)
    (same : transactionHash h domain tx = transactionHash h domain tx') :
    tx.bytes domain = tx'.bytes domain := by
  have outer : hashBytes (h.sha256 (Maker.signedBytes domain tx)) =
      hashBytes (h.sha256 (Maker.signedBytes domain tx')) :=
    free ⟨_, among, by simp [Maker.hashed]⟩ ⟨_, among', by simp [Maker.hashed]⟩ same
  have inner := free ⟨_, among, by simp [Maker.hashed]⟩ ⟨_, among', by simp [Maker.hashed]⟩
    (delimits_hashBytes.inj trivial trivial outer)
  exact append_cancel_left inner

theorem length_authBytes (sha256 : Bytes → Bytes32) (state : Amm.PoolState) (request : Amm.Request)
    (commitment : Bytes32) : 32 < (state.authBytes sha256 request commitment).length := by
  simp only [Amm.PoolState.authBytes, length_append, length_hashBytes]
  omega

/-- A transaction and an action are told apart by the length of what is hashed. -/
theorem Distinct.kinds_ne (free : Distinct h domain makers)
    (among : .transaction tx ∈ makers) (among' : .action state action ∈ makers) :
    Maker.digest h domain (.transaction tx) ≠ Maker.digest h domain (.action state action) := by
  intro same
  have equal : hashBytes (h.sha256 (Maker.signedBytes domain tx)) =
      state.authBytes h.sha256 action.request (fundingDigest h action) :=
    free ⟨_, among, by simp [Maker.hashed]⟩ ⟨_, among', by simp [Maker.hashed]⟩ same
  have long := length_authBytes h.sha256 state action.request (fundingDigest h action)
  rw [← equal, length_hashBytes] at long
  omega

theorem delimits_beBytes (width : ℕ) : Delimits (beBytes width) (· < 256 ^ width) :=
  .of_length (fun n _ => by rw [beBytes, length_reverse, length_leBytes]) (fun _ _ here there same =>
    (delimits_leBytes width).inj here there (reverse_injective same))

theorem request_of_authBytes_eq {state state' : Amm.PoolState}
    (small : request.revision < 256 ^ 8) (small' : request'.revision < 256 ^ 8)
    (same : state.authBytes h.sha256 request commitment = state'.authBytes h.sha256 request' commitment') :
    request.pool = request'.pool ∧ request.revision = request'.revision := by
  simp only [Amm.PoolState.authBytes, append_assoc] at same
  have same := append_cancel_left (append_cancel_left same)
  obtain ⟨-, same⟩ := delimits_hashBytes trivial trivial same
  obtain ⟨-, same⟩ := delimits_hashBytes trivial trivial same
  obtain ⟨pool, same⟩ := delimits_hashBytes trivial trivial same
  exact ⟨pool, (delimits_beBytes 8 small small' same).1⟩

/-- A well-formed transaction whose mint nonce is passed. -/
structure Past (native : Ledger) (tx : Transaction) : Prop where
  shaped : tx.Shaped
  small : ∀ id ∈ tx.inputs, (ofLex id).2 < 256 ^ 4
  minted : 0 < tx.delta → ∃ token, native.tokens.get? tx.asset = some token ∧
    tx.mintNonce < token.mintNonce ∧ token.mintNonce ≤ u64Max

/-- The outputs descend from the makers. -/
structure Traced (h : Hashes) (makers : List Maker) (native : Ledger) : Prop where
  lineage : Lineage (Maker.digest h native.domain) Maker.inputs (fun id => ∃ o, native.outputs.get? id = some o)
    makers
  small : ∀ {id o}, native.outputs.get? id = some o → (ofLex id).2 < 256 ^ 4
  past : ∀ {tx}, .transaction tx ∈ makers → Past native tx

theorem traced_new (domain : Bytes32) : Traced h [] (.new domain) where
  lineage := Lineage.empty.congr (fun ⟨o, found⟩ => by simp [Ledger.new] at found)
  small found := by simp [Ledger.new] at found
  past among := by simp at among

section

variable {tx : Transaction} {w : Witnesses} {height : ℕ} {p : Ledger.Planned}

section

variable (traced : Traced h makers native)
include traced

theorem Traced.transaction_ne
    (accepted : Ledger.Accepts h native tx w height v p)
    (free : Distinct h native.domain (makers ++ [.transaction tx])) (among : m ∈ makers) :
    m.digest h native.domain ≠ Maker.digest h native.domain (.transaction tx) := by
  have last : .transaction tx ∈ makers ++ [.transaction tx] := mem_append_right _ (mem_singleton.mpr rfl)
  intro same
  cases m with
  | action state action =>
    exact free.kinds_ne last (mem_append_left _ among) same.symm
  | transaction earlier =>
    have before := traced.past among
    have bytes := free.signedBytes_eq (mem_append_left _ among) last same
    obtain ⟨id, listed, held⟩ :=
      Ledger.input_of_bytes_eq before.shaped before.minted accepted before.small traced.small bytes
    exact traced.lineage.ne_of_input held _ among listed

omit traced in
theorem Past.apply {earlier : Transaction} (past : Past native earlier)
    (accepted : Ledger.Accepts h native tx w height v p) : Past (native.commitApply tx p) earlier :=
  ⟨past.shaped, past.small, Ledger.UsedUp.apply past.minted accepted⟩

theorem past_of_accepts (accepted : Ledger.Accepts h native tx w height v p) :
    Past (native.commitApply tx p) tx := by
  refine ⟨accepted.shaped, fun id listed => ?_, Ledger.usedUp_of_accepts accepted⟩
  obtain ⟨o, found, -⟩ := accepted.held listed
  exact traced.small found

theorem Traced.apply (accepted : Ledger.Accepts h native tx w height v p)
    (free : Distinct h native.domain (makers ++ [.transaction tx])) :
    Traced h (makers ++ [.transaction tx]) (native.commitApply tx p) := by
  have outputs : ∀ {id o}, (native.commitApply tx p).outputs.get? id = some o →
      id ∈ p.ids tx ∨ (native.outputs.get? id = some o ∧ id ∉ tx.inputs) := by
    intro id o found
    rw [Ledger.commitApply_outputs, get?_exchange (Ledger.made_nodup p tx)] at found
    obtain put | ⟨-, kept, found⟩ := found
    · exact .inl (Ledger.made_keys p tx ▸ mem_map_of_mem put)
    · exact .inr ⟨found, kept⟩
  have made : ∀ {id}, id ∈ p.ids tx → (ofLex id).1 = transactionHash h native.domain tx ∧ (ofLex id).2 < 256 ^ 4 := by
    intro id among
    rw [Ledger.ids_eq accepted] at among
    have created : (ofLex id).1 = transactionHash h native.domain tx ∧ (ofLex id).2 < tx.outputs.length :=
      Ledger.mem_createdBy among
    have few := accepted.shaped.outputs
    have bound : MAX_OUTPUTS < 256 ^ 4 := by decide
    exact ⟨created.1, by omega⟩
  refine ⟨?_, fun {id o} found => ?_, fun {earlier} among => ?_⟩
  · refine traced.lineage.concat (fun m among => traced.transaction_ne accepted free among) (fun id listed => ?_)
      (fun {id} there => ?_)
    · obtain ⟨o, found, -⟩ := accepted.held listed
      exact ⟨o, found⟩
    · obtain ⟨o, found⟩ := there
      obtain new | ⟨held, kept⟩ := outputs found
      · exact .inr (made new).1
      · exact .inl ⟨⟨o, held⟩, kept⟩
  · obtain new | ⟨held, -⟩ := outputs found
    · exact (made new).2
    · exact traced.small held
  · rw [mem_append, mem_singleton] at among
    obtain among | same := among
    · exact (traced.past among).apply accepted
    · cases same
      exact past_of_accepts traced accepted

theorem Traced.moves (moves : Ledger.Moves h v native txs native')
    (free : Distinct h native.domain (makers ++ txs.map .transaction)) :
    Traced h (makers ++ txs.map .transaction) native' := by
  cases moves with
  | idle => rwa [map_nil, append_nil]
  | register accepted =>
    rw [map_nil, append_nil]
    refine ⟨traced.lineage, traced.small, fun {tx} among => ?_⟩
    have past := traced.past among
    refine ⟨past.shaped, past.small, fun mints => ?_⟩
    obtain ⟨token, known, used⟩ := past.minted mints
    have other : tx.asset ≠ _ := fun same => absurd (same ▸ known) (by rw [accepted.free]; nofun)
    exact ⟨token, (get?_insert_of_ne _ _ other).trans known, used⟩
  | apply _ accepted => exact traced.apply accepted free
  | settle _ settles =>
    simp only [map_cons, map_nil] at free ⊢
    rw [append_cons] at free ⊢
    exact (traced.apply settles.first (free.mono (subset_append_left _ _))).apply settles.second free

end

end

namespace Call

def made (l : PoolLedger) : Call h → List Maker
  | .execute asked .. => (l.pools.get? asked.request.pool).toList.map (fun pool => .action pool.state asked)
  | .transfer tx _ _ _ _ commit => if commit then [.transaction tx] else []
  | call => (call.below.elim [] Gateway.Call.transactions).map .transaction

def route? (call : Call h) : Option Route := call.below.bind Gateway.Call.route?

theorem of_below {call : Call h} {inner : Gateway.Call} (below : call.below = some inner) (l : PoolLedger) :
    call.made l = inner.transactions.map .transaction ∧ call.route? = inner.route? ∧
      inner.verifier = call.verifier := by
  cases call <;> cases below <;> exact ⟨rfl, rfl, rfl⟩

end Call

variable {l : PoolLedger} {domain : Bytes32} {calls : List (Call h)} {call : Call h}

def madeBy (domain : Bytes32) (calls : List (Call h)) : List Maker :=
  collect Call.perform (fun l call => call.made l) calls (.new domain)

def enabledBy (calls : List (Call h)) : List Route := calls.filterMap Call.route?

/-- The hash has no collision among what it is taken of for the outputs and routes of a run, and
gives none of them the null digest. -/
structure CollisionFree (h : Hashes) (domain : Bytes32) (calls : List (Call h)) : Prop where
  distinct : Set.InjOn h.sha256 ({bytes | ∃ m ∈ madeBy domain calls, bytes ∈ m.hashed h domain} ∪
    {bytes | ∃ route ∈ enabledBy calls, bytes = route.words.flatten})
  nonnull : ∀ m ∈ madeBy domain calls, m.digest h domain ≠ 0

theorem madeBy_concat (run : Run (Step h) (.new domain) calls l) (call : Call h) :
    madeBy domain (calls ++ [call]) = madeBy domain calls ++ call.made l :=
  collect_concat run _ call

theorem enabledBy_concat (calls : List (Call h)) (call : Call h) :
    enabledBy (calls ++ [call]) = enabledBy calls ++ call.route?.toList := by
  rw [enabledBy, filterMap_append]
  cases named : call.route? <;> simp [named, enabledBy]

theorem CollisionFree.init (run : Run (Step h) (.new domain) calls l)
    (free : CollisionFree h domain (calls ++ [call])) : CollisionFree h domain calls where
  distinct := by
    refine free.distinct.mono (Set.union_subset_union (fun _ made => ?_) (fun _ made => ?_))
    · rw [madeBy_concat run]
      exact made.imp (fun _ listed => ⟨mem_append_left _ listed.1, listed.2⟩)
    · rw [enabledBy_concat]
      exact made.imp (fun _ listed => ⟨mem_append_left _ listed.1, listed.2⟩)
  nonnull m among := free.nonnull m (by rw [madeBy_concat run]; exact mem_append_left _ among)

theorem CollisionFree.madeBy (free : CollisionFree h domain calls) : Distinct h domain (Pools.madeBy domain calls) :=
  free.distinct.mono Set.subset_union_left

/-- What a run has done, against the state it led to. -/
structure Reached (h : Hashes) (P : Verifier → Prop) (domain : Bytes32) (makers : List Maker)
    (routes : List Route) (l : PoolLedger) : Prop where
  domain_eq : l.gateway.native.domain = domain
  custody : Custody h P l
  sound : Ledger.Sound h P l.gateway.native
  few : l.gateway.native.outputs.size ≤ MAX_LEDGER_OUTPUTS
  traced : Traced h makers l.gateway.native
  acted : ∀ {state asked}, .action state asked ∈ makers → ∃ pool, l.pools.get? asked.request.pool = some pool ∧
    asked.request.revision < pool.state.revision ∧ pool.state.revision ≤ u64Max
  backed : Backed h P (makers.map (Maker.digest h domain)) l.gateway
  routes : ∀ {id s}, l.gateway.routes.get? id = some s → s.config.route ∈ routes

theorem reached_new (domain : Bytes32) : Reached h P domain [] [] (.new domain) where
  domain_eq := rfl
  custody := custody_new domain
  sound := Ledger.sound_new domain
  few := Nat.zero_le _
  traced := traced_new domain
  acted among := by simp at among
  backed := backed_new domain
  routes found := by simp [PoolLedger.new, GatewayLedger.new] at found

section

variable {routes : List Route}

section

variable (reached : Reached h P domain makers routes l)
include reached

theorem Reached.fresh {txs : List Transaction}
    (traced : Traced h (makers ++ txs.map .transaction) native) (same : native.domain = domain) :
    ∀ tx ∈ txs, transactionHash h l.gateway.native.domain tx ∉ makers.map (Maker.digest h domain) := by
  intro tx among listed
  obtain ⟨m, before, equal⟩ := mem_map.mp listed
  have apart := (pairwise_append.mp traced.lineage.distinct).2.2 m before (.transaction tx)
    (mem_map_of_mem among)
  rw [same] at apart
  refine apart (equal.trans ?_)
  rw [reached.domain_eq]
  rfl

theorem Reached.gateway {inner : Gateway.Call} (taken : Gateway.Step h l.gateway inner g)
    (unlocked : ∀ tx ∈ inner.transactions, ∀ id ∈ tx.inputs, l.locks.get? id = none)
    (among : ∀ v, inner.verifier.Alike v → P v)
    (free : Distinct h domain (makers ++ inner.transactions.map .transaction))
    (named : ∀ route ∈ inner.route?, l.gateway.routes.get? (route.id h) = none) :
    Reached h P domain (makers ++ inner.transactions.map .transaction) (routes ++ inner.route?.toList)
      { l with gateway := g } := by
  have moves := taken.moves
  have traced := reached.traced.moves moves (by rw [reached.domain_eq]; exact free)
  have same : g.native.domain = domain := moves.domain_eq.trans reached.domain_eq
  exact {
    domain_eq := same
    custody := reached.custody.gateway moves unlocked
    sound := moves.sound reached.sound among
    few := moves.few reached.few
    traced
    acted := fun listed => by
      rw [mem_append] at listed
      obtain before | now := listed
      · exact reached.acted before
      · obtain ⟨tx, -, other⟩ := mem_map.mp now
        cases other
    backed := by
      have kept := reached.backed.step taken among (reached.fresh traced same) named
      rw [map_append, map_map]
      rwa [reached.domain_eq] at kept
    routes := fun found => by
      obtain new | ⟨s', held, config⟩ := taken.routes_kept found
      · exact mem_append_right _ new
      · exact mem_append_left _ (config ▸ reached.routes held) }

theorem Reached.transfer (accepted : Ledger.Accepts h l.gateway.native tx w height v p) (still : tx.delta = 0)
    (room : l.gateway.native.outputs.size + tx.outputs.length ≤ MAX_LEDGER_OUTPUTS + tx.inputs.length)
    (unlocked : ∀ id ∈ tx.inputs, l.locks.get? id = none) (among : P v)
    (free : Distinct h domain (makers ++ [.transaction tx])) :
    Reached h P domain (makers ++ [.transaction tx]) routes
      { l with gateway := { l.gateway with native := l.gateway.native.commitApply tx p } } where
  domain_eq := reached.domain_eq
  custody := reached.custody.transfer accepted unlocked
  sound := reached.sound.apply accepted among
  few := by
    have sized := accepted.size
    dsimp only
    omega
  traced := reached.traced.apply accepted (by rw [reached.domain_eq]; exact free)
  acted listed := reached.acted (by simpa using listed)
  backed := (reached.backed.below (undisturbed_apply accepted (fun changes => absurd still changes))).mono
    (map_subset _ (subset_append_left _ _))
  routes := reached.routes

end

theorem Executes.message_eq (accepted : Executes h l action height v pool t x) (domain : Bytes32) :
    x.message = Maker.digest h domain (.action pool.state action) ∧
      action.request.revision = pool.state.revision := by
  have signed := accepted.signed
  simp only [Amm.PoolState.signingHash, ok_iff, not_not] at signed
  exact ⟨signed.2.2.2.symm, signed.2.1⟩

theorem Executes.revision_eq (accepted : Executes h l action height v pool t x) :
    t.next.revision = pool.state.revision + 1 ∧ pool.state.revision < u64Max := by
  have moved := accepted.moved
  simp only [Amm.PoolState.transition, ok_iff] at moved
  obtain ⟨-, -, -, _, -, revision, advanced, rfl⟩ := moved
  obtain ⟨rfl, within⟩ := checkedAdd_eq_some advanced
  exact ⟨rfl, within⟩

theorem Reached.action_ne (reached : Reached h P domain makers routes l)
    (accepted : Executes h l action height v pool t x)
    (free : Distinct h domain (makers ++ [.action pool.state action])) (among : m ∈ makers) :
    m.digest h domain ≠ Maker.digest h domain (.action pool.state action) := by
  have last : .action pool.state action ∈ makers ++ [.action pool.state action] :=
    mem_append_right _ (mem_singleton.mpr rfl)
  intro same
  cases m with
  | transaction tx => exact free.kinds_ne (mem_append_left _ among) last same
  | action state asked =>
    -- an earlier action was on a revision the pool has left behind
    obtain ⟨pool', known, earlier, within⟩ := reached.acted among
    have bytes := free ⟨_, mem_append_left _ among, by simp [Maker.hashed]⟩ ⟨_, last, by simp [Maker.hashed]⟩ same
    have revision := (accepted.message_eq domain).2
    have bound := accepted.revision_eq.2
    have wide : u64Max < 256 ^ 8 := by decide
    obtain ⟨samePool, sameRevision⟩ := request_of_authBytes_eq (h := h) (by omega) (by omega) bytes
    rw [samePool, accepted.known] at known
    cases known
    omega

theorem Reached.execute (reached : Reached h P domain makers routes l)
    (accepted : Executes h l action height v pool t x) (among : P v)
    (free : Distinct h domain (makers ++ [.action pool.state action])) :
    Reached h P domain (makers ++ [.action pool.state action]) routes (commitExecute action l x) where
  domain_eq := reached.domain_eq
  custody := reached.custody.execute accepted among
  sound := accepted.sound reached.custody reached.sound among
  few := accepted.few_outputs
  traced := by
    refine ⟨?_, fun {id o} found => ?_, fun {tx} listed => ?_⟩
    · refine reached.traced.lineage.concat (fun m listed => ?_) (fun id taken => by cases taken) (fun {id} there => ?_)
      · rw [reached.domain_eq]
        exact reached.action_ne accepted free listed
      · obtain ⟨o, found⟩ := there
        obtain made | ⟨-, -, old⟩ := (get?_exchange accepted.made_nodup).mp found
        · exact .inr ((accepted.made made).named.1.trans (accepted.message_eq domain).1)
        · exact .inl ⟨⟨o, old⟩, by simp [Maker.inputs]⟩
    · obtain made | ⟨-, -, old⟩ := (get?_exchange accepted.made_nodup).mp found
      · exact (accepted.made made).named.2.trans (by decide)
      · exact reached.traced.small old
    · exact { reached.traced.past (by simpa using listed) with }
  acted {state asked} listed := by
    obtain ⟨advanced, bound⟩ := accepted.revision_eq
    have revision := (accepted.message_eq domain).2
    change ∃ pool', (l.pools.insert action.request.pool ⟨x.next, some x.reserveIds⟩).get? asked.request.pool =
      some pool' ∧ _
    rw [mem_append, mem_singleton] at listed
    rw [get?_insert, accepted.next]
    obtain before | same := listed
    · obtain ⟨pool', known, earlier, within⟩ := reached.acted before
      split_ifs with here
      · rw [here, accepted.known] at known
        cases known
        exact ⟨_, rfl, by dsimp only; omega, by dsimp only; omega⟩
      · exact ⟨pool', known, earlier, within⟩
    · cases same
      rw [if_pos rfl]
      exact ⟨_, rfl, by dsimp only; omega, by dsimp only; omega⟩
  backed := by
    have undisturbed : Undisturbed l.gateway (commitExecute action l x).gateway.native :=
      ⟨⟨rfl, fun found => ⟨_, found, rfl⟩⟩, fun _ found => ⟨_, found, rfl, rfl⟩⟩
    exact (reached.backed.below undisturbed).mono (map_subset _ (subset_append_left _ _))
  routes := reached.routes

theorem Reached.create (reached : Reached h P domain makers routes l) {state : BuiltPool h}
    (accepted : Creates l state.val) : Reached h P domain makers routes
      { l with pools := l.pools.insert state.val.id ⟨state.val, none⟩ } where
  domain_eq := reached.domain_eq
  custody := reached.custody.create accepted
  sound := reached.sound
  few := reached.few
  traced := reached.traced
  acted {_ asked} listed := by
    obtain ⟨pool, known, earlier⟩ := reached.acted listed
    have other : asked.request.pool ≠ state.val.id := by
      intro clash
      simp [clash, accepted.free] at known
    exact ⟨pool, (get?_insert_of_ne _ _ other).trans known, earlier⟩
  backed := reached.backed
  routes := reached.routes

theorem Reached.step (reached : Reached h P domain (madeBy domain calls) (enabledBy calls) l)
    (run : Run (Step h) (.new domain) calls l) (taken : Step h l call l')
    (free : CollisionFree h domain (calls ++ [call])) (among : ∀ v, call.verifier.Alike v → P v) :
    Reached h P domain (madeBy domain (calls ++ [call])) (enabledBy (calls ++ [call])) l' := by
  have distinct := free.madeBy
  have routes := free.distinct.mono Set.subset_union_right
  rw [madeBy_concat run] at distinct ⊢
  rw [enabledBy_concat] at routes ⊢
  cases taken.change with
  | @gateway _ inner g below done unlocked =>
    obtain ⟨made, named, verifier⟩ := Call.of_below below l
    rw [made] at distinct ⊢
    rw [named] at routes ⊢
    exact reached.gateway done unlocked (fun v same => among v (verifier ▸ same)) distinct
      (reached.backed.route_unknown done reached.routes routes)
  | transfer accepted still room unlocked =>
    rw [show Call.route? (Call.transfer _ _ _ _ _ true : Call h) = none from rfl, Option.toList_none, append_nil]
    exact reached.transfer accepted still room unlocked (among _ rfl) distinct
  | drop =>
    simpa [Call.made, Call.route?, Call.below] using reached
  | create accepted =>
    simpa [Call.made, Call.route?, Call.below] using reached.create accepted
  | execute accepted =>
    simp only [Call.made, accepted.known, Option.toList_some, map_cons, map_nil, Call.route?, Call.below,
      Option.bind_none, Option.toList_none, append_nil] at distinct ⊢
    exact reached.execute accepted (among _ rfl) distinct

theorem reached_of_run (run : Run (Step h) (.new domain) calls l) (free : CollisionFree h domain calls)
    (among : ∀ call ∈ calls, ∀ v, call.verifier.Alike v → P v) :
    Reached h P domain (madeBy domain calls) (enabledBy calls) l := by
  refine run.history (P := fun calls l => CollisionFree h domain calls →
    (∀ call ∈ calls, ∀ v, call.verifier.Alike v → P v) →
      Reached h P domain (madeBy domain calls) (enabledBy calls) l)
    (fun _ _ => reached_new domain) ?_ free among
  intro before l call l' run reached taken free among
  refine (reached (free.init run) (fun c listed => among c (mem_append_left _ listed))).step run taken free ?_
  exact among call (mem_append_right _ (mem_singleton.mpr rfl))

end

end BlochPos.Ustav.Pools
