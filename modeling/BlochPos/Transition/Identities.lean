import BlochPos.Transition.Conservation

/-! Who a validator is: a record keeps its key for good. -/
namespace BlochPos

open Attempt SortedMap

/-- No index and no key is given twice. -/
structure Genesis.Distinct (gen : Genesis) : Prop where
  indices : (gen.validators.map GenesisValidator.index).Nodup
  pubkeys : (gen.validators.map GenesisValidator.pubkey).Nodup

/-- No two keys of a genesis hash alike. -/
def Genesis.HashesApart (c : Crypto) (gen : Genesis) : Prop :=
  ∀ v ∈ gen.validators, ∀ w ∈ gen.validators, c.sha3 v.pubkey = c.sha3 w.pubkey → v.pubkey = w.pubkey

namespace CommittedState

def pubkeys (st : CommittedState) : SortedMap ℕ Bytes := st.validators.mapVal (fun _ r => r.pubkey)

/-- The index of keys is the inverse of the registry's map from indices to key hashes. -/
def IndexesKeys (c : Crypto) (st : CommittedState) : Prop :=
  ∀ hash i, st.pubkeyIndex.get? hash = some i ↔
    ∃ pubkey, st.pubkeys.get? i = some pubkey ∧ c.sha3 pubkey = hash

/-- A state a network with this genesis may start in. -/
def StartsFrom (env : Env) (gen : Genesis) (st : CommittedState) : Prop :=
  Initial env st ∧ st.pubkeys = (genesisState env gen).pubkeys ∧
    st.pubkeyIndex = (genesisState env gen).pubkeyIndex

/-- A key is added or none is touched. -/
inductive KeyChange (c : Crypto) (st post : CommittedState) : Prop where
  | same (pubkeys : post.pubkeys = st.pubkeys) (index : post.pubkeyIndex = st.pubkeyIndex)
  | registered {i pubkey} (absent : st.pubkeys.get? i = none)
      (unknown : st.pubkeyIndex.get? (c.sha3 pubkey) = none)
      (pubkeys : post.pubkeys = st.pubkeys.insert i pubkey)
      (index : post.pubkeyIndex = st.pubkeyIndex.insert (c.sha3 pubkey) i)

section

variable {st : CommittedState}

theorem get?_pubkeys : st.pubkeys.get? i = (st.validators.get? i).map ValidatorRecord.pubkey := by
  rw [pubkeys, get?_mapVal]

theorem pubkeys_eq_records (st : CommittedState) :
    st.pubkeys = st.bonds.records.mapVal (fun _ bond => bond.2) := by
  refine ext_get? (fun i => ?_)
  rw [get?_pubkeys, get?_mapVal, bonds, get?_mapVal, Option.map_map]
  rfl

theorem Movement.keyChange (movement : Movement c st post feeSat unfundedSat) : KeyChange c st post := by
  cases movement with
  | coins bonds known _ =>
    refine .same ?_ known
    rw [pubkeys_eq_records, pubkeys_eq_records, bonds]
  | withdraw found bonds known _ =>
    refine .same ?_ known
    rw [pubkeys_eq_records, pubkeys_eq_records, bonds, Bonds.put]
    exact mapVal_insert_of_same found rfl
  | @register i bond d _ _ _ absent unknown hash bonds known _ =>
    rw [hash] at unknown known
    refine .registered ?_ unknown ?_ known
    · rw [pubkeys_eq_records, get?_mapVal, absent]
      rfl
    · rw [pubkeys_eq_records, pubkeys_eq_records, bonds, Bonds.register, Bonds.put, mapVal_insert]

theorem pubkeys_closeEpoch (env : Env) (st : CommittedState) : (closeEpoch env st).pubkeys = st.pubkeys := by
  refine ext_get? (fun i => ?_)
  have here := congrArg (Option.map Prod.fst) (identity_closeEpoch env st i)
  simpa only [Option.map_map, Function.comp_def, get?_pubkeys] using here

theorem Step.keyChange (step : Step env st event post) : KeyChange env.crypto st post := by
  cases step.effect with
  | transaction accepted => exact accepted.movement.keyChange
  | @evidence _ _ _ _ p planned =>
    have measured := planSlashingEvidence_measured planned
    have found : st.validators.get? p.offender = some p.record := measured.offender ▸ measured.found
    exact .same (mapVal_insert_of_same found rfl) rfl
  | vote | fees | forkchoice | prepareL2 | finish => exact .same rfl rfl
  | proposer found => exact .same (mapVal_insert_of_same found rfl) rfl
  | closeEpoch =>
    exact .same (pubkeys_closeEpoch env st)
      (congrArg Standing.pubkeyIndex (standing_closeEpoch env st))

theorem IndexesKeys.change (indexes : st.IndexesKeys c) (change : KeyChange c st post) :
    post.IndexesKeys c := by
  cases change with
  | same pubkeys index =>
    intro hash j
    rw [pubkeys, index]
    exact indexes hash j
  | @registered i pubkey absent unknown pubkeys index =>
    intro hash j
    rw [pubkeys, index, get?_insert, get?_insert]
    by_cases fresh : hash = c.sha3 pubkey
    · subst fresh
      rw [if_pos rfl, Option.some.injEq]
      constructor
      · rintro rfl
        exact ⟨pubkey, if_pos rfl, rfl⟩
      · rintro ⟨other, found, same⟩
        split_ifs at found with here
        · exact here.symm
        -- A record that was there before would have its hash listed.
        · have listed := (indexes _ j).mpr ⟨other, found, same⟩
          simp [unknown] at listed
    · rw [if_neg fresh, indexes hash j]
      constructor
      · rintro ⟨other, found, same⟩
        have here : j ≠ i := ne_of_absent found absent
        exact ⟨other, by rw [if_neg here, found], same⟩
      · rintro ⟨other, found, same⟩
        split_ifs at found with here
        · exact absurd ((Option.some.inj found) ▸ same.symm) fresh
        · exact ⟨other, found, same⟩

theorem KeyChange.keeps (change : KeyChange c st post) (found : st.pubkeys.get? i = some pubkey) :
    post.pubkeys.get? i = some pubkey := by
  cases change with
  | same pubkeys _ => rw [pubkeys, found]
  | registered absent _ pubkeys _ =>
    rw [pubkeys, get?_insert]
    split_ifs with here
    · simp [← here, found] at absent
    · exact found

theorem indexesKeys_of_run (run : Run (Step env) st events post) (indexes : st.IndexesKeys env.crypto) :
    post.IndexesKeys env.crypto :=
  run.invariant (fun step held => held.change step.keyChange) indexes

theorem pubkey_kept_of_run (run : Run (Step env) st events post)
    (found : st.pubkeys.get? i = some pubkey) : post.pubkeys.get? i = some pubkey :=
  run.invariant (P := fun s => s.pubkeys.get? i = some pubkey)
    (fun step held => step.keyChange.keeps held) found

theorem StartsFrom.indexesKeys (starts : StartsFrom env gen st) (distinct : gen.Distinct)
    (apart : gen.HashesApart env.crypto) : st.IndexesKeys env.crypto := by
  obtain ⟨-, pubkeys, index⟩ := starts
  have hashes : ((gen.validators.map (fun v => (env.crypto.sha3 v.pubkey, v.index))).map
      Prod.fst).Nodup := by
    rw [List.map_map]
    refine List.Nodup.map_on (fun v member w member' same => ?_) (distinct.pubkeys.of_map _)
    exact List.inj_on_of_nodup_map distinct.pubkeys member member' (apart v member w member' same)
  have indices : ((gen.validators.map (fun v => (v.index, v.record))).map Prod.fst).Nodup := by
    rw [List.map_map]
    exact distinct.indices
  intro hash i
  rw [pubkeys, index, get?_pubkeys]
  change (ofList (gen.validators.map _)).get? hash = some i ↔
    ∃ pubkey, ((ofList (gen.validators.map _)).get? i).map _ = some pubkey ∧ _
  rw [get?_ofList_of_nodup hashes, find?_key_eq_some_iff hashes]
  simp only [get?_ofList_of_nodup indices, Option.map_eq_some_iff (f := ValidatorRecord.pubkey),
    find?_key_eq_some_iff indices, List.mem_map, Prod.mk.injEq]
  constructor
  · rintro ⟨v, member, rfl, rfl⟩
    exact ⟨v.pubkey, ⟨v.record, ⟨v, member, rfl, rfl⟩, rfl⟩, rfl⟩
  · rintro ⟨_, ⟨_, ⟨v, member, rfl, rfl⟩, rfl⟩, rfl⟩
    exact ⟨v, member, rfl, rfl⟩

end

/-- From a genesis whose validators differ in index and key, the index of keys is the inverse of the
registry, no record goes or changes its key, and one that comes has an index and a key of its own. -/
theorem identities_permanent {env : Env} {gen : Genesis} {start st post : CommittedState}
    {before after : List Event} (distinct : gen.Distinct) (apart : gen.HashesApart env.crypto)
    (starts : StartsFrom env gen start) (reached : Run (Step env) start before st)
    (run : Run (Step env) st after post) :
    (∀ hash i, st.pubkeyIndex.get? hash = some i ↔
      ∃ r, st.validators.get? i = some r ∧ env.crypto.sha3 r.pubkey = hash) ∧
    (∀ i r, st.validators.get? i = some r →
      ∃ r', post.validators.get? i = some r' ∧ r'.pubkey = r.pubkey) ∧
    ∀ j r', st.validators.get? j = none → post.validators.get? j = some r' →
      ∀ i r, st.validators.get? i = some r → i ≠ j ∧ r.pubkey ≠ r'.pubkey := by
  have indexes := indexesKeys_of_run reached (starts.indexesKeys distinct apart)
  have later := indexesKeys_of_run run indexes
  have kept : ∀ i r, st.validators.get? i = some r → post.pubkeys.get? i = some r.pubkey := by
    intro i r found
    exact pubkey_kept_of_run run (by rw [get?_pubkeys, found]; rfl)
  refine ⟨?_, ?_, ?_⟩
  · intro hash i
    rw [indexes hash i, get?_pubkeys]
    cases st.validators.get? i <;> simp
  · intro i r found
    have here := kept i r found
    rw [get?_pubkeys] at here
    exact Option.map_eq_some_iff.mp here
  · intro j r' absent added i r found
    have other : i ≠ j := ne_of_absent found absent
    refine ⟨other, fun same => other ?_⟩
    -- Both records are listed under the one hash.
    have first := (later (env.crypto.sha3 r.pubkey) i).mpr ⟨_, kept i r found, rfl⟩
    have second := (later (env.crypto.sha3 r.pubkey) j).mpr
      ⟨r'.pubkey, by rw [get?_pubkeys, added]; rfl, by rw [same]⟩
    exact Option.some.inj (first.symm.trans second)

/-- A validator registers in the second epoch. -/
theorem identity_of_newcomer : let env := Env.accepting { Gates.shipped with deposit := 0 }
    let newcomer : Deposit := ⟨List.replicate HYBRID_PK_BYTES 1, MIN_DEPOSIT_SAT, 0, [], 0, []⟩
    ∃ st post r, Run (Step env) (genesisState env (.small 2)) [.closeEpoch] st ∧
      Run (Step env) st [.transaction (.deposit newcomer) (.free 0 0), .closeEpoch] post ∧
      post.validators.get? 2 = some r ∧
      ∀ i old, st.validators.get? i = some old → i ≠ 2 ∧ old.pubkey ≠ r.pubkey := by
  intro env newcomer
  have distinct : (Genesis.small 2).Distinct := ⟨by decide, by decide⟩
  have apart : (Genesis.small 2).HashesApart env.crypto := by
    unfold Genesis.HashesApart
    decide +kernel
  have starts : StartsFrom env (.small 2) (genesisState env (.small 2)) :=
    ⟨initial_genesisState (by decide +kernel), rfl, rfl⟩
  have comes : (playAll env (genesisState env (.small 2)) [.closeEpoch]).any (fun st =>
      (st.validators.get? 2).isNone ∧
        (playAll env st [.transaction (.deposit newcomer) (.free 0 0), .closeEpoch]).any
          (fun post => (post.validators.get? 2).isSome)) = true := by decide +kernel
  simp only [decide_eq_true_eq, Option.any_eq_true, Option.isNone_iff_eq_none] at comes
  obtain ⟨st, played, absent, post, played', added⟩ := comes
  obtain ⟨r, added⟩ := Option.isSome_iff_exists.mp added
  have run := run_of_playAll played
  have run' := run_of_playAll played'
  exact ⟨st, post, r, run, run', added, (identities_permanent distinct apart starts run run').2.2 2 r absent added⟩

/-- Two validators with different keys under one index. -/
def crowdedGenesis : Genesis :=
  { Genesis.small 0 with
    validators := [⟨0, [1], MIN_DEPOSIT_SAT, 0, [], 0⟩, ⟨0, [2], MIN_DEPOSIT_SAT, 0, [], 0⟩] }

/-- The second record takes the place of the first, whose key stays listed. -/
theorem stale_key_of_repeated_index : let env := Env.accepting .shipped
    let start := genesisState env crowdedGenesis
    Initial env start ∧ (crowdedGenesis.validators.map GenesisValidator.pubkey).Nodup ∧
      crowdedGenesis.HashesApart env.crypto ∧
      start.pubkeyIndex.get? (env.crypto.sha3 [1]) = some 0 ∧
      ¬ ∃ r, start.validators.get? 0 = some r ∧ env.crypto.sha3 r.pubkey = env.crypto.sha3 [1] := by
  intro env start
  have apart : crowdedGenesis.HashesApart env.crypto := by
    unfold Genesis.HashesApart
    decide +kernel
  have record : (start.validators.get? 0).map ValidatorRecord.pubkey = some [2] := by decide +kernel
  refine ⟨initial_genesisState (by decide +kernel), by decide, apart, by decide +kernel, ?_⟩
  rintro ⟨r, found, same⟩
  rw [found, Option.map_some, Option.some.injEq] at record
  rw [record] at same
  exact absurd same (by decide +kernel)

end CommittedState

end BlochPos
