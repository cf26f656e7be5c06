import BlochPos.Ustav.Backing
import BlochPos.Ustav.PoolRun

/-! The custody of pool reserves and the positions in their shares. -/
namespace BlochPos.Ustav

open Attempt SortedMap

namespace Ledger

variable {id : OutPoint}

theorem Moves.output_kept (moves : Moves h v l txs l') (found : l.outputs.get? id = some o)
    (unspent : ∀ tx ∈ txs, id ∉ tx.inputs) : l'.outputs.get? id = some o := by
  cases moves with
  | idle | register => exact found
  | apply _ accepted => exact accepted.output_kept found (unspent _ (List.mem_singleton.mpr rfl))
  | settle _ settles =>
    exact settles.second.output_kept (settles.first.output_kept found (unspent _ List.mem_cons_self))
      (unspent _ (by simp))

theorem Moves.keeps (moves : Moves h v l txs l') : Keeps l l' := by
  cases moves with
  | idle => exact ⟨rfl, fun found => ⟨_, found, rfl⟩⟩
  | register accepted =>
    refine ⟨rfl, fun {asset token} found => ⟨token, ?_, rfl⟩⟩
    have other : asset ≠ _ := fun same => absurd (same ▸ found) (by rw [accepted.free]; nofun)
    exact (get?_insert_of_ne _ _ other).trans found
  | apply _ accepted => exact accepted.keeps
  | settle _ settles =>
    refine ⟨rfl, fun found => ?_⟩
    obtain ⟨token, held, same⟩ := settles.first.keeps.tokens found
    obtain ⟨token', held', same'⟩ := settles.second.keeps.tokens held
    exact ⟨token', held', same'.trans same⟩

end Ledger

namespace Pools

open Gateway PoolLedger

variable {h : Hashes} {P : Verifier → Prop} {l : PoolLedger} {v : Verifier} {id : OutPoint} {owner : Bytes32}

/-- The shares of a pool that are held in positions. -/
def PoolLedger.shares (l : PoolLedger) (id : Bytes32) : ℕ :=
  l.positions.sum (fun key n => if (ofLex key).1 = id then n else 0)

/-- The reserves of a pool are locked outputs of its amounts. -/
structure PoolHeld (h : Hashes) (l : PoolLedger) (id : Bytes32) (pool : Pool) : Prop where
  keyed : pool.state.id = id
  built : Amm.PoolState.Reached h.sha256 pool.state
  domain : pool.state.domain = l.gateway.native.domain
  assets : ∀ i, l.asset (pool.state.assets i) = .ok ()
  used : pool.reserves = none ↔ pool.state.lpSupply = 0
  reserves : ∀ ids, pool.reserves = some ids → ∀ i, Reserve l id pool.state (ids i) i

/-- A position is of a pool and not empty. -/
structure PositionHeld (P : Verifier → Prop) (l : PoolLedger) (key : PositionKey) (n : ℕ) : Prop where
  positive : n ≠ 0
  owner : checkKeySize (ofLex key).2 = .ok () ∧ ∃ v, P v ∧ v.validPqKey (ofLex key).2 = true
  pool : ∃ pool, l.pools.get? (ofLex key).1 = some pool

/-- Locks, pools and positions agree. -/
structure Custody (h : Hashes) (P : Verifier → Prop) (l : PoolLedger) : Prop where
  pools : ∀ {id pool}, l.pools.get? id = some pool → PoolHeld h l id pool
  locks : ∀ {id owner}, l.locks.get? id = some owner →
    ∃ pool ids i, l.pools.get? owner = some pool ∧ pool.reserves = some ids ∧ ids i = id
  positions : ∀ {key n}, l.positions.get? key = some n → PositionHeld P l key n
  shares : ∀ {id pool}, l.pools.get? id = some pool →
    l.shares id = pool.state.lpSupply - Amm.MINIMUM_LIQUIDITY
  few : l.pools.size ≤ MAX_POOLS ∧ l.positions.size ≤ MAX_POSITIONS

theorem custody_new (domain : Bytes32) : Custody h P (.new domain) where
  pools found := by simp [PoolLedger.new] at found
  locks found := by simp [PoolLedger.new] at found
  positions found := by simp [PoolLedger.new] at found
  shares found := by simp [PoolLedger.new] at found
  few := by simp [PoolLedger.new]

theorem asset_kept (kept : Ledger.Keeps l.gateway.native g.native) {asset : AssetId}
    (allowed : l.asset asset = .ok ()) : PoolLedger.asset { l with gateway := g } asset = .ok () := by
  simp only [PoolLedger.asset, ok_iff, Ledger.registration, Option.map_eq_some_iff] at allowed ⊢
  obtain ⟨real, _, ⟨token, known, rfl⟩, others⟩ := allowed
  obtain ⟨token', held, same⟩ := kept.tokens known
  exact ⟨real, _, ⟨token', held, rfl⟩, by rw [same]; exact others⟩

section

variable (custody : Custody h P l)
include custody

theorem Custody.onGateway (kept : Ledger.Keeps l.gateway.native g.native)
    (still : ∀ {id owner o}, l.locks.get? id = some owner → l.gateway.native.outputs.get? id = some o →
      g.native.outputs.get? id = some o) :
    Custody h P { l with gateway := g } where
  pools {id pool} found := by
    have held := custody.pools found
    exact { held with
      domain := held.domain.trans kept.domain.symm
      assets := fun i => asset_kept kept (held.assets i)
      reserves := fun ids same i => by
        have reserve := held.reserves ids same i
        obtain ⟨o, there, worth⟩ := reserve.held
        exact ⟨⟨o, still reserve.locked there, worth⟩, reserve.locked⟩ }
  locks := custody.locks
  positions found := { custody.positions found with }
  shares := custody.shares
  few := custody.few

theorem Custody.gateway (moves : Ledger.Moves h v l.gateway.native txs g.native)
    (unlocked : ∀ tx ∈ txs, ∀ id ∈ tx.inputs, l.locks.get? id = none) : Custody h P { l with gateway := g } :=
  custody.onGateway moves.keeps (fun locked found => moves.output_kept found
    (fun tx listed spent => absurd locked (by rw [unlocked tx listed _ spent]; nofun)))

theorem Custody.transfer (accepted : Ledger.Accepts h l.gateway.native tx w height v p)
    (unlocked : ∀ id ∈ tx.inputs, l.locks.get? id = none) :
    Custody h P { l with gateway := { l.gateway with native := l.gateway.native.commitApply tx p } } :=
  custody.onGateway accepted.keeps (fun locked found => accepted.output_kept found
    (fun spent => absurd locked (by rw [unlocked _ spent]; nofun)))

theorem Custody.create {state : BuiltPool h} (accepted : Creates l state.val) :
    Custody h P { l with pools := l.pools.insert state.val.id ⟨state.val, none⟩ } := by
  have kept : ∀ {id pool}, l.pools.get? id = some pool →
      (l.pools.insert state.val.id ⟨state.val, none⟩).get? id = some pool := by
    intro id pool found
    have other : id ≠ state.val.id := ne_of_absent found accepted.free
    rw [get?_insert_of_ne _ _ other, found]
  refine ⟨fun {id pool} found => ?_, fun {id owner} found => ?_, fun {key n} found => ?_,
    fun {id pool} found => ?_, ?_, custody.few.2⟩
  · obtain ⟨same, rfl⟩ | ⟨same, found⟩ := get?_insert_cases found
    · exact ⟨same.symm, state.property, accepted.domain, accepted.assets,
        iff_of_true rfl accepted.unused, nofun⟩
    · exact { custody.pools found with
        reserves := fun ids same i => { (custody.pools found).reserves ids same i with } }
  · obtain ⟨pool, ids, i, known, some_eq, same⟩ := custody.locks found
    exact ⟨pool, ids, i, kept known, some_eq, same⟩
  · obtain ⟨pool, known⟩ := (custody.positions found).pool
    exact { custody.positions found with pool := ⟨pool, kept known⟩ }
  · obtain ⟨same, rfl⟩ | ⟨same, found⟩ := get?_insert_cases found
    · rw [accepted.unused, Nat.zero_sub]
      refine sum_eq_zero (fun key n held => if_neg (fun here => ?_))
      obtain ⟨pool, known⟩ := (custody.positions held).pool
      simp [here, same, accepted.free] at known
    · exact custody.shares found
  · have room := accepted.room
    rw [size_insert, contains, accepted.free]
    exact room

end

section

variable {action : PoolAction} {height : ℕ} {pool : Pool} {t : Amm.Transition} {x : Executed}
  {id : OutPoint}

theorem reserveIds_ne (x : Executed) : x.reserveIds 0 ≠ x.reserveIds 1 := fun same =>
  absurd (congrArg (fun id => (ofLex id).2) same) Nat.zero_ne_one

section

variable (accepted : Executes h l action height v pool t x) {owner : Bytes32}
include accepted

theorem Executes.made_nodup : (x.outputs.map Prod.fst).Nodup := by
  have listed : (x.outputs.map Prod.fst).Sublist
      ([0, 2, 1, 3].map (outPoint x.message)) := by
    rw [accepted.outputs]
    simp only [sideOutputs]
    split_ifs <;> simp
  refine List.Nodup.sublist listed (List.Nodup.map (fun i j same => ?_) (by decide))
  exact (Prod.ext_iff.mp (toLex.injective same)).2

theorem Executes.made_reserve (i : Fin 2) :
    (x.reserveIds i, ⟨pool.state.assets i, ⟨action.owner, t.next.reserves i⟩⟩) ∈ x.outputs := by
  rw [accepted.outputs]
  fin_cases i
  · exact List.mem_append_left _ List.mem_cons_self
  · exact List.mem_append_right _ List.mem_cons_self

theorem Executes.reserve_free (i : Fin 2) : l.gateway.native.outputs.get? (x.reserveIds i) = none :=
  accepted.free _ (accepted.made_reserve i)

theorem Executes.output_kept (found : l.gateway.native.outputs.get? id = some o) (unspent : id ∉ x.spent) :
    (commitExecute action l x).gateway.native.outputs.get? id = some o := by
  refine (get?_exchange accepted.made_nodup).mpr (.inr ⟨fun made => ?_, unspent, found⟩)
  obtain ⟨e, among, rfl⟩ := List.mem_map.mp made
  simp [accepted.free e among] at found

omit accepted in
/-- Locks change at the pool's own reserves only. -/
theorem locks_commitExecute :
    (commitExecute action l x).locks.get? id = some owner ↔
      (owner = action.request.pool ∧ ∃ i, x.reserveIds i = id) ∨
      (¬ (∃ i, x.reserveIds i = id) ∧ id ∉ x.spent ∧ l.locks.get? id = some owner) := by
  have distinct : ([(x.reserveIds 0, action.request.pool), (x.reserveIds 1, action.request.pool)].map
      Prod.fst).Nodup := by simpa using reserveIds_ne x
  refine (get?_exchange distinct).trans ?_
  simp only [List.mem_cons, List.not_mem_nil, or_false, Prod.mk.injEq, List.map_cons, List.map_nil,
    Fin.exists_fin_two]
  grind

theorem Executes.mem_reserveList (some_eq : pool.reserves = some ids) (i : Fin 2) : ids i ∈ x.spent := by
  rw [accepted.spent, Pool.reserveList, some_eq]
  fin_cases i <;> simp

/-- What is locked for another pool is not spent. -/
theorem Executes.unspent_of_locked
    (locked : l.locks.get? id = some owner) (other : owner ≠ action.request.pool) : id ∉ x.spent := by
  intro among
  rw [accepted.spent, List.mem_append, List.mem_append] at among
  obtain (funded | funded) | reserved := among
  · simp [accepted.unlocked 0 id funded] at locked
  · simp [accepted.unlocked 1 id funded] at locked
  · obtain ⟨i, own⟩ := Reserve.of_mem accepted.reserves reserved
    exact other (Option.some.inj (locked.symm.trans own.locked))

theorem Executes.position_eq :
    l.position action.request.pool action.owner =
      l.positions.getD (toLex (action.request.pool, action.owner)) 0 := by
  rw [PoolLedger.position, accepted.owner.1]

omit accepted in
theorem sum_positions (action : PoolAction) {own : PositionKey}
    (same : toLex (action.request.pool, action.owner) = own) (l : PoolLedger) (x : Executed)
    (f : PositionKey → ℕ → ℕ) (zero : ∀ key, f key 0 = 0) :
    (commitExecute action l x).positions.sum f + f own (l.positions.getD own 0) =
      l.positions.sum f + f own x.newPosition := by
  have before := sum_erase l.positions own f
  have old : f own (l.positions.getD own 0) = (l.positions.get? own).elim 0 (f own) := by
    rw [getD]
    cases l.positions.get? own with
    | none => exact zero _
    | some n => rfl
  rw [commitExecute, same]
  dsimp only
  split_ifs with none
  · rw [none, zero]
    omega
  · rw [sum_insert]
    omega

omit accepted in
theorem positions_get? {key : PositionKey} {n : ℕ}
    (found : (commitExecute action l x).positions.get? key = some n) :
    (key = toLex (action.request.pool, action.owner) ∧ n = x.newPosition ∧ n ≠ 0) ∨
      l.positions.get? key = some n := by
  rw [commitExecute] at found
  dsimp only at found
  split_ifs at found with none
  · rw [get?_erase] at found
    split_ifs at found
    exact .inr found
  · obtain ⟨same, rfl⟩ | ⟨same, found⟩ := get?_insert_cases found
    · exact .inl ⟨same, rfl, none⟩
    · exact .inr found

theorem Executes.size_positions
    (few : l.positions.size ≤ MAX_POSITIONS) : (commitExecute action l x).positions.size ≤ MAX_POSITIONS := by
  rw [commitExecute]
  dsimp only
  split_ifs with none
  · rw [size_erase]
    split_ifs <;> omega
  · rw [size_insert]
    split_ifs with there
    · exact few
    · refine accepted.room ?_ (Nat.pos_of_ne_zero none)
      rw [accepted.position_eq, getD]
      simp only [contains, Bool.not_eq_true, Option.isSome_eq_false_iff, Option.isNone_iff_eq_none] at there
      rw [there]
      rfl

theorem Executes.shares_eq (custody : Custody h P l) :
    (commitExecute action l x).shares action.request.pool = t.next.lpSupply - Amm.MINIMUM_LIQUIDITY := by
  have held := custody.pools accepted.known
  obtain ⟨t₀, moves, rfl⟩ := held.built.moves accepted.moved
  have traded := sum_positions action rfl l x
    (fun key n => if (ofLex key).1 = action.request.pool then n else 0) (fun key => ite_self 0)
  rw [← accepted.position_eq] at traded
  change (commitExecute action l x).shares action.request.pool + _ = l.shares action.request.pool + _ at traded
  simp only [ofLex_toLex, if_true] at traded
  have supply := moves.lpSupply
  have locked := moves.locked
  have before := custody.shares accepted.known
  have position := accepted.position
  have burns := accepted.burns
  have minimum : pool.state.lpSupply = 0 ∨ Amm.MINIMUM_LIQUIDITY ≤ pool.state.lpSupply := by
    by_cases unused : pool.state.lpSupply = 0
    · exact .inl unused
    · exact .inr (held.built.sound.funded unused).2.1
  dsimp only at position burns ⊢
  split_ifs at supply with unused
  · rw [unused] at before supply
    omega
  · have funded := minimum.resolve_left unused
    omega

omit accepted in
theorem Executes.shares_other {id : Bytes32} (other : id ≠ action.request.pool) :
    (commitExecute action l x).shares id = l.shares id := by
  have traded := sum_positions action rfl l x
    (fun key n => if (ofLex key).1 = id then n else 0) (fun key => ite_self 0)
  have elsewhere : ¬ action.request.pool = id := Ne.symm other
  simp only [ofLex_toLex, elsewhere, if_false, Nat.add_zero] at traded
  exact traded

omit accepted in
theorem Custody.execute (custody : Custody h P l) (accepted : Executes h l action height v pool t x)
    (among : P v) : Custody h P (commitExecute action l x) := by
  have held := custody.pools accepted.known
  have kept : Ledger.Keeps l.gateway.native (commitExecute action l x).gateway.native :=
    ⟨rfl, fun found => ⟨_, found, rfl⟩⟩
  obtain ⟨t₀, moves, renewed⟩ := held.built.moves accepted.moved
  have next : x.next = { pool.state with
      reserves := t.next.reserves, lpSupply := t.next.lpSupply, revision := t.next.revision } := by
    rw [accepted.next, renewed]
    exact congrArg (fun s : Amm.PoolState => { s with revision := pool.state.revision + 1 }) moves.same
  have supplied : x.next.lpSupply ≠ 0 := by
    have locked := moves.locked
    rw [accepted.next, renewed]
    unfold Amm.MINIMUM_LIQUIDITY at locked
    dsimp only
    omega
  refine ⟨fun {id pool'} found => ?_, fun {id owner} found => ?_, fun {key n} found => ?_,
    fun {id pool'} found => ?_, ?_, accepted.size_positions custody.few.2⟩
  · change (l.pools.insert action.request.pool ⟨x.next, some x.reserveIds⟩).get? id = some pool' at found
    obtain ⟨same, rfl⟩ | ⟨same, found⟩ := get?_insert_cases found
    · subst same
      refine ⟨?_, ?_, ?_, fun i => ?_, iff_of_false nofun supplied, fun ids some_eq i => ?_⟩
      · rw [next]
        exact held.keyed
      · rw [accepted.next]
        exact held.built.transition accepted.moved
      · rw [next]
        exact held.domain
      · rw [next]
        exact asset_kept kept (held.assets i)
      · cases some_eq
        have made : (commitExecute action l x).gateway.native.outputs.get? (x.reserveIds i) = some _ :=
          (get?_exchange accepted.made_nodup).mpr (.inl (accepted.made_reserve i))
        rw [next]
        exact ⟨⟨_, made, rfl, rfl⟩, locks_commitExecute.mpr (.inl ⟨rfl, i, rfl⟩)⟩
    · have other := custody.pools found
      exact { other with
        domain := other.domain
        assets := fun i => asset_kept kept (other.assets i)
        reserves := fun ids some_eq i => by
          have reserve := other.reserves ids some_eq i
          obtain ⟨o, there, worth⟩ := reserve.held
          have unspent := accepted.unspent_of_locked reserve.locked same
          refine ⟨⟨o, accepted.output_kept there unspent, worth⟩, ?_⟩
          refine locks_commitExecute.mpr (.inr ⟨fun ⟨j, new⟩ => ?_, unspent, reserve.locked⟩)
          rw [← new, accepted.reserve_free j] at there
          cases there }
  · obtain ⟨rfl, i, same⟩ | ⟨-, unspent, locked⟩ := locks_commitExecute.mp found
    · exact ⟨_, _, i, get?_insert_self _ _ _, rfl, same⟩
    · obtain ⟨pool', ids, i, known, some_eq, rfl⟩ := custody.locks locked
      have other : owner ≠ action.request.pool := by
        rintro rfl
        cases known.symm.trans accepted.known
        exact unspent (accepted.mem_reserveList some_eq i)
      exact ⟨pool', ids, i, (get?_insert_of_ne _ _ other).trans known, some_eq, rfl⟩
  · have known : ∀ {id}, (∃ pool', l.pools.get? id = some pool') →
        ∃ pool', (commitExecute action l x).pools.get? id = some pool' := by
      rintro id ⟨pool', there⟩
      change ∃ pool', (l.pools.insert action.request.pool ⟨x.next, some x.reserveIds⟩).get? id = some pool'
      rw [get?_insert]
      split_ifs
      · exact ⟨_, rfl⟩
      · exact ⟨pool', there⟩
    obtain ⟨rfl, -, positive⟩ | before := positions_get? found
    · exact ⟨positive, ⟨accepted.owner.1, v, among, accepted.owner.2⟩, known ⟨pool, accepted.known⟩⟩
    · exact { custody.positions before with pool := known (custody.positions before).pool }
  · change (l.pools.insert action.request.pool ⟨x.next, some x.reserveIds⟩).get? id = some pool' at found
    obtain ⟨same, rfl⟩ | ⟨same, found⟩ := get?_insert_cases found
    · rw [same, accepted.shares_eq custody, accepted.next]
    · rw [Executes.shares_other same]
      exact custody.shares found
  · change (l.pools.insert action.request.pool ⟨x.next, some x.reserveIds⟩).size ≤ _
    rw [size_insert, contains, accepted.known]
    exact custody.few.1

theorem Executes.balanced (asset : AssetId) :
    let worth (o : UnspentOutput) := if o.asset = asset then o.output.amount else 0
    (x.spent.map (fun id => (l.gateway.native.outputs.get? id).elim 0 worth)).sum =
      (x.outputs.map (fun e => worth e.2)).sum := by
  intro worth
  have funded : ∀ i, ((action.funding i).map (fun id => (l.gateway.native.outputs.get? id).elim 0 worth)).sum =
      if pool.state.assets i = asset then ((action.funding i).map l.gateway.native.amountAt).sum else 0 := by
    intro i
    have each : ∀ id ∈ action.funding i, (l.gateway.native.outputs.get? id).elim 0 worth =
        if pool.state.assets i = asset then l.gateway.native.amountAt id else 0 := by
      intro id among
      obtain ⟨o, found, same, -⟩ := (accepted.funds i id among).held
      rw [Ledger.amountAt, found, ← same]
      rfl
    rw [List.map_congr_left each]
    split_ifs <;> simp
  have reserved : (pool.reserveList.map (fun id => (l.gateway.native.outputs.get? id).elim 0 worth)).sum =
      (if pool.state.assets 0 = asset then pool.state.reserves 0 else 0) +
        if pool.state.assets 1 = asset then pool.state.reserves 1 else 0 := by
    unfold Pool.reserveList
    cases some_eq : pool.reserves with
    | none => simp [accepted.empty some_eq]
    | some ids =>
      obtain ⟨o₀, found₀, asset₀, amount₀⟩ := (accepted.reserves ids some_eq 0).held
      obtain ⟨o₁, found₁, asset₁, amount₁⟩ := (accepted.reserves ids some_eq 1).held
      simp [worth, found₀, found₁, asset₀, asset₁, amount₀, amount₁]
  have side : ∀ i, ((sideOutputs x.message action.owner t (pool.state.assets i) i (x.payouts i)).map
      (fun e => worth e.2)).sum = if pool.state.assets i = asset then t.next.reserves i + x.payouts i else 0 := by
    intro i
    unfold sideOutputs
    by_cases paid : 0 < x.payouts i
    · rw [if_pos paid]
      split_ifs with same <;> simp [worth, same]
    · rw [if_neg paid, Nat.eq_zero_of_not_pos paid]
      simp [worth]
  have paid₀ := accepted.paid 0
  have paid₁ := accepted.paid 1
  rw [accepted.spent, accepted.outputs, List.map_append, List.map_append, List.sum_append, List.sum_append,
    funded 0, funded 1, reserved, List.map_append, List.sum_append, side 0, side 1]
  split_ifs <;> omega

theorem Executes.unspent_eq (asset : AssetId) :
    (commitExecute action l x).gateway.native.unspent asset = l.gateway.native.unspent asset := by
  have traded := sum_exchange (m := l.gateway.native.outputs)
    (fun _ o => if o.asset = asset then o.output.amount else 0) accepted.once accepted.made_nodup accepted.free
  rw [accepted.balanced asset] at traded
  exact Nat.add_right_cancel traded

end

/-- An output of an action: one side of its pool, to its owner. -/
structure Made (action : PoolAction) (pool : Pool) (t : Amm.Transition) (x : Executed)
    (e : OutPoint × UnspentOutput) : Prop where
  named : (ofLex e.1).1 = x.message ∧ (ofLex e.1).2 < 4
  side : ∃ i, e.2.asset = pool.state.assets i ∧ (e.2.output.amount = t.next.reserves i ∨ 0 < e.2.output.amount)
  owner : e.2.output.owner = action.owner

section

variable (accepted : Executes h l action height v pool t x)
include accepted

theorem Executes.made (among : e ∈ x.outputs) : Made action pool t x e := by
  have side : ∀ i, e ∈ sideOutputs x.message action.owner t (pool.state.assets i) i (x.payouts i) →
      Made action pool t x e := by
    intro i listed
    simp only [sideOutputs, List.mem_cons] at listed
    obtain rfl | paid := listed
    · exact ⟨⟨rfl, show i.val < 4 by omega⟩, ⟨i, rfl, .inl rfl⟩, rfl⟩
    · split_ifs at paid with positive
      · obtain rfl := List.mem_singleton.mp paid
        exact ⟨⟨rfl, show i.val + 2 < 4 by omega⟩, ⟨i, rfl, .inr positive⟩, rfl⟩
      · cases paid
  rw [accepted.outputs, List.mem_append] at among
  exact among.elim (side 0) (side 1)

omit accepted in
theorem token_of_asset {asset : AssetId} (allowed : l.asset asset = .ok ()) :
    ∃ token, l.gateway.native.tokens.get? asset = some token := by
  simp only [PoolLedger.asset, ok_iff, Ledger.registration, Option.map_eq_some_iff] at allowed
  obtain ⟨-, _, ⟨token, known, -⟩, -⟩ := allowed
  exact ⟨token, known⟩

theorem Executes.sound (custody : Custody h P l)
    (sound : Ledger.Sound h P l.gateway.native) (among : P v) :
    Ledger.Sound h P (commitExecute action l x).gateway.native where
  tokens := sound.tokens
  outputs {id o} found := by
    obtain made | ⟨-, -, old⟩ := (get?_exchange accepted.made_nodup).mp found
    · obtain ⟨-, ⟨i, asset, amount⟩, owner⟩ := accepted.made made
      obtain ⟨token, known⟩ := token_of_asset (accepted.assets i)
      have full : 0 < t.next.reserves i := by
        have built := (custody.pools accepted.known).built
        obtain ⟨t₀, moves, rfl⟩ := built.moves accepted.moved
        have reached := built.transition accepted.moved
        have locked := moves.locked
        unfold Amm.MINIMUM_LIQUIDITY at locked
        exact (reached.sound.funded (by dsimp only; omega)).1 i
      refine ⟨⟨token, asset ▸ known⟩, amount.elim (fun same => same ▸ full) (fun positive => positive), ?_, v,
        among, ?_⟩
      · have short := accepted.owner.1
        simp only [checkKeySize, refuse_eq_ok_iff, not_or, not_lt] at short
        exact owner ▸ short.2
      · exact owner ▸ accepted.owner.2
    · exact sound.outputs old
  balanced {asset token} found := (accepted.unspent_eq asset).trans (sound.balanced found)
  fewTokens := sound.fewTokens

theorem Executes.few_outputs :
    (commitExecute action l x).gateway.native.outputs.size ≤ MAX_LEDGER_OUTPUTS := by
  have held : ∀ id ∈ x.spent, ∃ o, l.gateway.native.outputs.get? id = some o := by
    intro id among
    rw [accepted.spent, List.mem_append, List.mem_append] at among
    obtain (funded | funded) | reserved := among
    · exact (accepted.funds 0 id funded).held.imp (fun _ => And.left)
    · exact (accepted.funds 1 id funded).held.imp (fun _ => And.left)
    · obtain ⟨i, own⟩ := Reserve.of_mem accepted.reserves reserved
      exact own.held.imp (fun _ => And.left)
  have sized := size_exchange accepted.once held accepted.made_nodup accepted.free
  have few := accepted.few
  change (l.gateway.native.outputs.exchange x.spent x.outputs).size ≤ _
  omega

end

end

theorem Step.custody (taken : Step h l call l') (custody : Custody h (fun _ => True) l) :
    Custody h (fun _ => True) l' := by
  cases taken.change with
  | gateway _ done unlocked => exact custody.gateway done.moves unlocked
  | transfer accepted _ _ unlocked => exact custody.transfer accepted unlocked
  | drop => exact custody
  | create accepted => exact custody.create accepted
  | execute accepted => exact custody.execute accepted trivial

theorem custody_of_run (run : Run (Step h) (.new domain) calls l) : Custody h (fun _ => True) l :=
  run.invariant Step.custody (custody_new domain)

/-- What is locked is what backs the pools in use. -/
theorem Custody.locked_iff (custody : Custody h P l) :
    l.locks.get? id = some owner ↔ ∃ pool ids i, l.pools.get? owner = some pool ∧ pool.state.lpSupply ≠ 0 ∧
      pool.reserves = some ids ∧ ids i = id := by
  constructor
  · intro locked
    obtain ⟨pool, ids, i, known, some_eq, same⟩ := custody.locks locked
    refine ⟨pool, ids, i, known, fun unused => ?_, some_eq, same⟩
    simp [(custody.pools known).used.mpr unused] at some_eq
  · rintro ⟨pool, ids, i, known, -, some_eq, rfl⟩
    exact ((custody.pools known).reserves ids some_eq i).locked

/-- A reserve leaves the ledger by an action on its own pool only. -/
theorem Step.reserve_kept (taken : Step h l call l') (locked : l.locks.get? id = some owner)
    (found : l.gateway.native.outputs.get? id = some o) :
    l'.gateway.native.outputs.get? id = some o ∨
      ∃ action signature height v gasLimit, call = .execute action signature height v gasLimit ∧
        action.request.pool = owner := by
  cases taken.change with
  | gateway _ done unlocked =>
    exact .inl (done.moves.output_kept found
      (fun tx listed spent => absurd locked (by rw [unlocked tx listed _ spent]; nofun)))
  | transfer accepted _ _ unlocked =>
    exact .inl (accepted.output_kept found (fun spent => absurd locked (by rw [unlocked _ spent]; nofun)))
  | drop | create => exact .inl found
  | @execute action _ _ _ _ _ _ _ accepted =>
    by_cases own : action.request.pool = owner
    · exact .inr ⟨_, _, _, _, _, rfl, own⟩
    · exact .inl (accepted.output_kept found (accepted.unspent_of_locked locked (Ne.symm own)))

end Pools

end BlochPos.Ustav
