import BlochPos.Ustav.PoolHistory

/-! A pool ledger whose reserves are in custody comes back from its snapshot. -/
namespace BlochPos.Ustav.Pools

open Attempt Gateway PoolLedger SortedMap

variable {h : Hashes} {l r : PoolLedger}

/-- What has been read of the pools. -/
structure ReadPools (l : PoolLedger) (before : List (Bytes32 × Pool)) (r : PoolLedger) : Prop where
  gateway : r.gateway = l.gateway
  pools : r.pools = .ofList before
  positions : r.positions = .empty
  locks : ∀ id owner, r.locks.get? id = some owner ↔
    ∃ x ∈ before, x.1 = owner ∧ ∃ ids i, x.2.reserves = some ids ∧ ids i = id

theorem asset_of_gateway_eq (same : r.gateway = l.gateway) (asset : AssetId) : r.asset asset = l.asset asset := by
  rw [PoolLedger.asset, PoolLedger.asset, same]

theorem restoreReserve_sound {id : Bytes32}
    (same : r.gateway = l.gateway) (reserve : Reserve l id state (ids side) side)
    (new : r.locks.get? (ids side) = none) :
    r.restoreReserve state ids side = .ok { r with locks := r.locks.insert (ids side) state.id } := by
  obtain ⟨o, found, asset, amount⟩ := reserve.held
  simp only [restoreReserve, ok_iff, same]
  refine ⟨o, found, ?_, trivial⟩
  simp only [not_or, not_not, Bool.not_eq_true]
  exact ⟨asset, amount, by rw [contains, new]; rfl⟩

section

variable {e : Bytes32 × Pool}

theorem restorePool_sound (held : PoolHeld h l e.1 e.2) (same : r.gateway = l.gateway)
    (new : ∀ ids, e.2.reserves = some ids → ∀ i, r.locks.get? (ids i) = none) :
    restorePool h r ⟨e.2.state.snapshot, e.2.state.stateRoot h.sha256, e.2.reserves⟩ =
      .ok { r with
        pools := r.pools.insert e.1 e.2
        locks := (match e.2.reserves with
          | some ids => (r.locks.insert (ids 0) e.1).insert (ids 1) e.1
          | none => r.locks) } := by
  have domain : ¬ e.2.state.domain ≠ r.gateway.native.domain := by
    rw [same]
    exact fun off => off held.domain
  simp only [restorePool, ok_iff]
  refine ⟨e.2.state, held.built.restore, domain,
    (asset_of_gateway_eq same _).trans (held.assets 0), (asset_of_gateway_eq same _).trans (held.assets 1), ?_⟩
  cases some_eq : e.2.reserves with
  | none =>
    refine ⟨r, ?_, ?_⟩
    · simp only [ok_iff, and_true]
      exact (fun off => off (held.used.mp some_eq))
    · simp only [held.keyed]
      rw [← some_eq]
  | some ids =>
    have used : ¬ e.2.state.lpSupply = 0 := fun unused => by
      simp [held.used.mpr unused] at some_eq
    have reserve := held.reserves ids some_eq
    have other : ids 1 ≠ ids 0 := by
      intro clash
      obtain ⟨o₀, found₀, asset₀, -⟩ := (reserve 0).held
      obtain ⟨o₁, found₁, asset₁, -⟩ := (reserve 1).held
      rw [clash, found₀] at found₁
      cases found₁
      exact held.built.sorted.ne (asset₀.symm.trans asset₁)
    simp only [ok_iff]
    refine ⟨_, ⟨used, _, restoreReserve_sound same (reserve 0) (new ids some_eq 0),
      restoreReserve_sound (l := l) (by exact same) (reserve 1) ?_⟩, ?_⟩
    · exact (get?_insert_of_ne _ _ other).trans (new ids some_eq 1)
    · simp only [held.keyed]
      rw [← some_eq]

theorem ReadPools.next (custody : Custody h P l) (whole : before ++ e :: after = l.pools.entries)
    (read : ReadPools l before r) :
    ∃ t, restorePool h r ⟨e.2.state.snapshot, e.2.state.stateRoot h.sha256, e.2.reserves⟩ = .ok t ∧
      ReadPools l (before ++ [e]) t := by
  have held := custody.pools (get?_of_whole whole)
  -- what is locked already is locked for a pool read before
  have new : ∀ ids, e.2.reserves = some ids → ∀ i, r.locks.get? (ids i) = none := by
    intro ids some_eq i
    by_contra there
    obtain ⟨owner, locked⟩ := Option.ne_none_iff_exists'.mp there
    obtain ⟨x, among, rfl, ids', j, some_eq', same⟩ := (read.locks _ _).mp locked
    have first := ((custody.pools (get?_of_before whole among)).reserves ids' some_eq' j).locked
    have second := (held.reserves ids some_eq i).locked
    rw [same, second] at first
    exact (lt_of_before whole among).ne (Option.some.inj first).symm
  refine ⟨_, restorePool_sound held read.gateway new, read.gateway, ?_, read.positions, fun id owner => ?_⟩
  · rw [ofList_concat, ← read.pools]
  · rw [exists_mem_concat, ← read.locks]
    cases some_eq : e.2.reserves with
    | none => simp
    | some ids =>
      have mine : (∃ ids' i, some ids = some ids' ∧ ids' i = id) ↔ id = ids 0 ∨ id = ids 1 := by
        simp [Option.some.injEq, Fin.exists_fin_two, eq_comm]
      simp only [get?_insert, mine]
      have free₀ := new ids some_eq 0
      have free₁ := new ids some_eq 1
      by_cases second : id = ids 1
      · subst second
        simp [free₁, eq_comm]
      · by_cases first : id = ids 0
        · subst first
          simp [second, free₀, eq_comm]
        · simp [first, second]

end

theorem restorePools (custody : Custody h P l) :
    (l.pools.values.map (fun p => (⟨p.state.snapshot, p.state.stateRoot h.sha256, p.reserves⟩ : PoolSnapshot))).foldlM
        (restorePool h) ⟨l.gateway, .empty, .empty, .empty⟩ =
      .ok { l with positions := .empty } := by
  rw [values, List.map_map, List.foldlM_map]
  obtain ⟨t, folded, read⟩ := foldlM_builds (P := ReadPools l)
    (fun r (e : Bytes32 × Pool) => restorePool h r ⟨e.2.state.snapshot, e.2.state.stateRoot h.sha256, e.2.reserves⟩)
    l.pools.entries (s := ⟨l.gateway, .empty, .empty, .empty⟩) ⟨rfl, rfl, rfl, by simp⟩
    (fun whole read => read.next custody whole)
  refine folded.trans (congrArg Except.ok ?_)
  have locks : t.locks = l.locks := by
    refine ext_get? (fun id => Option.ext (fun owner => ?_))
    rw [read.locks]
    constructor
    · rintro ⟨x, among, rfl, ids, i, some_eq, rfl⟩
      exact ((custody.pools (get?_eq_some_iff.mpr among)).reserves ids some_eq i).locked
    · intro locked
      obtain ⟨pool, ids, i, known, some_eq, same⟩ := custody.locks locked
      exact ⟨_, get?_eq_some_iff.mp known, rfl, ids, i, some_eq, same⟩
  have same : t = ⟨l.gateway, .ofList l.pools.entries, .empty, l.locks⟩ := by
    rw [← read.gateway, ← read.pools, ← read.positions, ← locks]
  rw [same, ofList_entries]

def readShares (before : List (PositionKey × ℕ)) (id : Bytes32) : ℕ :=
  (before.map (fun x => if (ofLex x.1).1 = id then x.2 else 0)).sum

/-- What has been read of the positions. -/
structure ReadPositions (l : PoolLedger) (before : List (PositionKey × ℕ))
    (read : PoolLedger × SortedMap Bytes32 ℕ) : Prop where
  ledger : read.1 = { l with positions := .ofList before }
  totals : ∀ id, read.2.getD id 0 = readShares before id

theorem ReadPositions.next (custody : Custody h v.Alike l) {read : PoolLedger × SortedMap Bytes32 ℕ}
    (whole : before ++ e :: after = l.positions.entries) (far : ReadPositions l before read) :
    ∃ t, restorePosition v read ((ofLex e.1).1, (ofLex e.1).2, e.2) = .ok t ∧ ReadPositions l (before ++ [e]) t := by
  have held := custody.positions (get?_of_whole whole)
  obtain ⟨short, v', alike, valid⟩ := held.owner
  obtain ⟨pool, known⟩ := held.pool
  rw [alike] at valid
  have within := read_le whole (fun key n => if (ofLex key).1 = (ofLex e.1).1 then n else 0)
  rw [if_pos rfl] at within
  change readShares before (ofLex e.1).1 + e.2 ≤ l.shares (ofLex e.1).1 at within
  have shares := custody.shares known
  have words := (custody.pools known).built.words.lpSupply
  have wide : u64Max ≤ u128Max := by decide
  have known' : read.1.pools.contains (ofLex e.1).1 = true := by
    rw [far.ledger]
    exact contains_iff.mpr ⟨pool, known⟩
  simp only [restorePosition, ok_iff]
  refine ⟨_, ⟨short, ?_, _, if_pos ?_, rfl⟩, ?_, fun id => ?_⟩
  · simp [held.positive, valid, known']
  · rw [far.totals]
    omega
  · rw [far.ledger, ofList_concat]
    rfl
  · rw [getD, get?_insert]
    split_ifs with here
    · subst here
      simp [readShares, far.totals]
    · exact (far.totals id).trans (by simp [readShares, Ne.symm here])

theorem restorePositions (custody : Custody h v.Alike l) :
    ∃ totals, (l.positions.entries.map (fun e => ((ofLex e.1).1, (ofLex e.1).2, e.2))).foldlM (restorePosition v)
        ({ l with positions := .empty }, .empty) = .ok (l, totals) ∧ ∀ id, totals.getD id 0 = l.shares id := by
  rw [List.foldlM_map]
  obtain ⟨⟨t, totals⟩, folded, read⟩ := foldlM_builds (P := ReadPositions l)
    (fun read (e : PositionKey × ℕ) => restorePosition v read ((ofLex e.1).1, (ofLex e.1).2, e.2))
    l.positions.entries (s := ({ l with positions := .empty }, .empty)) ⟨rfl, fun _ => rfl⟩
    (fun whole far => far.next custody whole)
  have same : t = l := read.ledger.trans (by rw [ofList_entries])
  exact ⟨totals, same ▸ folded, read.totals⟩

theorem Custody.restore (custody : Custody h v.Alike l) (backed : Backed h v.Alike used l.gateway)
    (nonzero : (0 : Bytes32) ∉ used) (sound : Ledger.Sound h v.Alike l.gateway.native)
    (few : l.gateway.native.outputs.size ≤ MAX_LEDGER_OUTPUTS) :
    restore h (l.snapshot h) (l.stateRoot h) v = .ok l := by
  obtain ⟨totals, positions, shares⟩ := restorePositions custody
  have poolKeys : (l.pools.values.map (fun p =>
      (⟨p.state.snapshot, p.state.stateRoot h.sha256, p.reserves⟩ : PoolSnapshot))).map (fun p => p.state.id) =
      l.pools.keys := by
    rw [values, List.map_map, List.map_map]
    exact List.map_congr_left (fun e among => (custody.pools (get?_eq_some_iff.mpr among)).keyed)
  have positionKeys : (l.positions.entries.map (fun e => ((ofLex e.1).1, (ofLex e.1).2, e.2))).map
      (fun p => (toLex (p.1, p.2.1) : PositionKey)) = l.positions.keys := by
    rw [List.map_map]
    rfl
  simp only [PoolLedger.restore, snapshot, ok_iff]
  refine ⟨refuse_eq_ok_iff.mpr ?_, l.gateway, backed.restore nonzero sound few, _, restorePools custody, (l, totals),
    positions, ?_, (fun off => off rfl), rfl⟩
  · rw [poolKeys, positionKeys]
    simp only [not_or, not_not, not_lt, values, List.length_map]
    exact ⟨trivial, custody.few.1, custody.few.2, l.pools.keys_isChain, l.positions.keys_isChain⟩
  · rintro ⟨e, among, off⟩
    rw [shares] at off
    exact off (custody.shares (get?_eq_some_iff.mpr among))

/-- After any accepted calls on a new pool ledger: what is locked is the reserves of the pools in use, which
only an action on their own pool spends; positions add up to shares, actions conserve every asset, a refusal
changes nothing, and the ledger comes back from its snapshot. -/
theorem pools_keep_custody {domain : Bytes32} {calls : List (Call h)}
    (run : Run (Step h) (.new domain) calls l) :
    (∀ id owner, l.locks.get? id = some owner ↔ ∃ pool ids i, l.pools.get? owner = some pool ∧
      pool.state.lpSupply ≠ 0 ∧ pool.reserves = some ids ∧ ids i = id) ∧
    (∀ id pool, l.pools.get? id = some pool → pool.state.lpSupply ≠ 0 → ∃ ids, pool.reserves = some ids ∧
      ∀ i, ∃ o, l.gateway.native.outputs.get? (ids i) = some o ∧ o.asset = pool.state.assets i ∧
        o.output.amount = pool.state.reserves i) ∧
    (∀ id owner call l', l.locks.get? id = some owner → Step h l call l' →
      l'.gateway.native.outputs.get? id ≠ l.gateway.native.outputs.get? id →
      ∃ action signature height v gasLimit, call = .execute action signature height v gasLimit ∧
        action.request.pool = owner) ∧
    (∀ id pool, l.pools.get? id = some pool → l.shares id = pool.state.lpSupply - Amm.MINIMUM_LIQUIDITY) ∧
    (∀ action signature height v gasLimit l', Step h l (.execute action signature height v gasLimit) l' →
      l'.gateway = { l.gateway with native := { l.gateway.native with outputs := l'.gateway.native.outputs } } ∧
      ∀ asset, l'.gateway.native.unspent asset = l.gateway.native.unspent asset) ∧
    (∀ (call : Call h) e l', exec call.perform l = (.error e, l') → l' = l) ∧
    (CollisionFree h domain calls → ∀ v, (∀ call ∈ calls, call.verifier = v) →
      restore h (l.snapshot h) (l.stateRoot h) v = .ok l) := by
  have custody := custody_of_run run
  refine ⟨fun id owner => custody.locked_iff, fun id pool known used => ?_,
    fun id owner call l' locked taken gone => ?_, fun id pool known => custody.shares known,
    fun action signature height v gasLimit l' taken => ?_,
    fun call e l' refused => call.atomic_perform l e l' refused, fun free v alike => ?_⟩
  · have held := custody.pools known
    obtain ⟨ids, some_eq⟩ := Option.ne_none_iff_exists'.mp (fun none_eq => used (held.used.mp none_eq))
    exact ⟨ids, some_eq, fun i => (held.reserves ids some_eq i).held⟩
  · obtain ⟨pool, ids, i, known, some_eq, rfl⟩ := custody.locks locked
    obtain ⟨o, found, -⟩ := ((custody.pools known).reserves ids some_eq i).held
    obtain kept | own := taken.reserve_kept locked found
    · exact absurd (kept.trans found.symm) gone
    · exact own
  · cases taken.change with
    | gateway below => cases below
    | execute accepted => exact ⟨rfl, accepted.unspent_eq⟩
  · have under : Reached h v.Alike domain (madeBy domain calls) (enabledBy calls) l :=
      reached_of_run run free (fun call among v' same => alike call among ▸ same)
    refine under.custody.restore under.backed (fun null => ?_) under.sound under.few
    obtain ⟨m, among, zero⟩ := List.mem_map.mp null
    exact free.nonnull m among zero

open Ledger (sampleVerifier mix mixingHashes)

def sampleRegistration (salt : Bytes32) : Registration := ⟨⟨[1], [.supply ⟨10000, [2]⟩]⟩, salt, none⟩

def sampleAsset (salt : Bytes32) : AssetId := assetHash mixingHashes 7 (sampleRegistration salt)

def sampleMint (salt : Bytes32) : Transaction := ⟨sampleAsset salt, [], [⟨[3], 2000⟩], 2000, 0, 0, 10⟩

def samplePoolState : Amm.PoolState :=
  ⟨7, 4, Amm.PoolState.poolId mix 7 ![sampleAsset 5, sampleAsset 6] 30 4, ![sampleAsset 5, sampleAsset 6], 30, 0, 0, 0⟩

theorem new_samplePoolState : Amm.PoolState.new mix 7 (sampleAsset 5) (sampleAsset 6) 30 4 = .ok samplePoolState := by
  have sorted : sampleAsset 5 < sampleAsset 6 := by decide +kernel
  simp only [Amm.PoolState.new, if_pos sorted, ok_iff]
  refine ⟨?_, rfl⟩
  simp [sorted.ne]

def samplePool : BuiltPool mixingHashes := ⟨samplePoolState, Amm.PoolState.reached_new new_samplePoolState⟩

def sampleAction : PoolAction :=
  ⟨⟨samplePool.val.id, 0, 9, .add ![2000, 2000] 1⟩, [3],
    ![[outPoint (transactionHash mixingHashes 7 (sampleMint 5)) 0],
      [outPoint (transactionHash mixingHashes 7 (sampleMint 6)) 0]]⟩

def sampleCalls : List (Call mixingHashes) :=
  [.register (sampleRegistration 5) [] sampleVerifier 10000, .register (sampleRegistration 6) [] sampleVerifier 10000,
    .apply (sampleMint 5) ⟨[], [[.bytes [9]]], []⟩ 1 sampleVerifier 10000,
    .apply (sampleMint 6) ⟨[], [[.bytes [9]]], []⟩ 1 sampleVerifier 10000,
    .create samplePool [3] [9] sampleVerifier 10000, .execute sampleAction [9] 1 sampleVerifier 10000]

theorem collisionFree_sample : CollisionFree mixingHashes 7 sampleCalls := by
  have apart : ∀ a ∈ (madeBy 7 sampleCalls).flatMap (Maker.hashed mixingHashes 7),
      ∀ b ∈ (madeBy 7 sampleCalls).flatMap (Maker.hashed mixingHashes 7), mix a = mix b → a = b := by
    decide +kernel
  have routes : enabledBy sampleCalls = [] := rfl
  refine ⟨?_, by decide +kernel⟩
  rw [routes]
  rintro a (⟨m, among, hashed⟩ | ⟨_, none, -⟩) b (⟨m', among', hashed'⟩ | ⟨_, none, -⟩) same
  · exact apart a (List.mem_flatMap.mpr ⟨m, among, hashed⟩) b (List.mem_flatMap.mpr ⟨m', among', hashed'⟩) same
  all_goals cases none

theorem sample_keeps_custody : ∃ l, Run (Step mixingHashes) (.new 7) sampleCalls l ∧
    (∀ id owner, l.locks.get? id = some owner ↔ ∃ pool ids i, l.pools.get? owner = some pool ∧
      pool.state.lpSupply ≠ 0 ∧ pool.reserves = some ids ∧ ids i = id) ∧
    restore mixingHashes (l.snapshot mixingHashes) (l.stateRoot mixingHashes) sampleVerifier = .ok l := by
  have accepted : (performAll Call.perform sampleCalls (.new 7)).isSome = true := by decide +kernel
  obtain ⟨l, done⟩ := Option.isSome_iff_exists.mp accepted
  have run : Run (Step mixingHashes) (.new 7) sampleCalls l := run_of_performAll done
  have kept := pools_keep_custody run
  refine ⟨l, run, kept.1, kept.2.2.2.2.2.2 collisionFree_sample sampleVerifier (fun call among => ?_)⟩
  simp only [sampleCalls, List.mem_cons, List.not_mem_nil, or_false] at among
  obtain rfl | rfl | rfl | rfl | rfl | rfl := among <;> rfl

end BlochPos.Ustav.Pools
