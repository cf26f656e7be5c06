import BlochPos.Transition.Run

/-! What the events of one epoch cannot change: the epoch itself, its seed, and who is on duty in
it. -/
namespace BlochPos

open Attempt SortedMap

/-- Records with the same part in the epoch. -/
structure ValidatorRecord.SameDuty (epoch : ℕ) (r r' : ValidatorRecord) : Prop where
  pubkey : r'.pubkey = r.pubkey
  activation : r'.activationEpoch = r.activationEpoch
  onDuty : epoch < r'.exitEpoch ↔ epoch < r.exitEpoch

namespace ValidatorRecord.SameDuty

variable {r : ValidatorRecord}

theorem refl (epoch : ℕ) (r : ValidatorRecord) : r.SameDuty epoch r := ⟨rfl, rfl, Iff.rfl⟩

theorem trans (first : r.SameDuty epoch r') (second : r'.SameDuty epoch r'') : r.SameDuty epoch r'' :=
  ⟨second.pubkey.trans first.pubkey, second.activation.trans first.activation,
    second.onDuty.trans first.onDuty⟩

theorem isActiveAt_eq (same : r.SameDuty epoch r') : r'.isActiveAt epoch = r.isActiveAt epoch := by
  simp only [ValidatorRecord.isActiveAt, same.activation, same.onDuty]

theorem exited (small : epoch < u64Max) (open_ : r.exitEpoch = u64Max) :
    r.SameDuty epoch (r.exited epoch) := by
  refine ⟨rfl, rfl, ?_⟩
  have later : epoch < satAdd u64Max epoch EXIT_DELAY_EPOCHS := by
    simp only [satAdd, EXIT_DELAY_EPOCHS]
    omega
  simp only [ValidatorRecord.exited, open_, later, small]

theorem punished (g : Gates) (small : epoch < u64Max) (lossSat : ℕ) :
    r.SameDuty epoch (r.punished g epoch lossSat) := by
  refine ⟨rfl, rfl, ?_⟩
  have later : epoch < satAdd u64Max epoch 1 := by
    simp only [satAdd]
    omega
  simp only [ValidatorRecord.punished, lt_min_iff, later, and_true]

end ValidatorRecord.SameDuty

/-- No record goes or changes its duty; one that comes is waiting. -/
structure RegistryKept (epoch : ℕ) (m m' : SortedMap ℕ ValidatorRecord) : Prop where
  kept : ∀ {i r}, m.get? i = some r → ∃ r', m'.get? i = some r' ∧ r.SameDuty epoch r'
  added : ∀ {i r'}, m.get? i = none → m'.get? i = some r' → r'.activationEpoch = u64Max

namespace RegistryKept

theorem refl (epoch : ℕ) (m : SortedMap ℕ ValidatorRecord) : RegistryKept epoch m m :=
  ⟨fun found => ⟨_, found, .refl epoch _⟩, fun absent found => by simp [absent] at found⟩

theorem trans (first : RegistryKept epoch m m') (second : RegistryKept epoch m' m'') :
    RegistryKept epoch m m'' := by
  constructor
  · intro i r found
    obtain ⟨mid, foundMid, sameMid⟩ := first.kept found
    obtain ⟨last, foundLast, sameLast⟩ := second.kept foundMid
    exact ⟨last, foundLast, sameMid.trans sameLast⟩
  · intro i last absent foundLast
    cases foundMid : m'.get? i with
    | none => exact second.added foundMid foundLast
    | some mid =>
      obtain ⟨other, foundOther, same⟩ := second.kept foundMid
      rw [foundLast] at foundOther
      cases foundOther
      rw [same.activation, first.added absent foundMid]

theorem amend (found : m.get? i = some r) (same : r.SameDuty epoch r') :
    RegistryKept epoch m (m.insert i r') := by
  constructor
  · intro k record foundK
    by_cases here : k = i
    · subst here
      rw [found] at foundK
      cases foundK
      exact ⟨r', get?_insert_self .., same⟩
    · exact ⟨record, (get?_insert_of_ne _ _ here).trans foundK, .refl ..⟩
  · intro k record absent foundK
    by_cases here : k = i
    · subst here
      simp [found] at absent
    · simp [get?_insert_of_ne _ _ here, absent] at foundK

theorem add (absent : m.get? i = none) (waiting : r.activationEpoch = u64Max) :
    RegistryKept epoch m (m.insert i r) := by
  constructor
  · intro k record foundK
    have other : k ≠ i := by
      rintro rfl
      simp [absent] at foundK
    exact ⟨record, (get?_insert_of_ne _ _ other).trans foundK, .refl ..⟩
  · intro k record _ foundK
    by_cases here : k = i
    · subst here
      rw [get?_insert_self] at foundK
      cases foundK
      exact waiting
    · rw [get?_insert_of_ne _ _ here] at foundK
      simp_all

theorem active_keys (kept : RegistryKept epoch m m') (small : epoch < u64Max) :
    (m'.filter (fun _ r => r.isActiveAt epoch)).keys = (m.filter (fun _ r => r.isActiveAt epoch)).keys := by
  refine keys_ext (fun i => ?_)
  simp only [mem_keys_iff, get?_filter, Option.filter_eq_some_iff]
  cases found : m.get? i with
  | some r =>
    obtain ⟨r', found', same⟩ := kept.kept found
    simp [found', same.isActiveAt_eq]
  | none =>
    cases found' : m'.get? i with
    | none => simp
    | some r' =>
      have waiting := kept.added found found'
      have idle : r'.isActiveAt epoch = false := by
        simp only [ValidatorRecord.isActiveAt, waiting, decide_eq_false_iff_not]
        omega
      simp [idle]

end RegistryKept

namespace CommittedState

/-- What no event inside an epoch writes. -/
structure Frozen where
  epoch : ℕ
  boundaryMixes : SortedMap ℕ Bytes32
  genesisMix : Bytes32
  networkDomain : Option Bytes32
  genesisPrincipalSat : SortedMap ℕ ℕ
  kesEnforcedFrom : Option ℕ
  issuedSat : ℕ
  finalityEngine : FinalityState

def frozen (st : CommittedState) : Frozen where
  epoch := st.epoch
  boundaryMixes := st.boundaryMixes
  genesisMix := st.genesisMix
  networkDomain := st.admissionNetworkDomain
  genesisPrincipalSat := st.genesisPrincipalSat
  kesEnforcedFrom := st.kesEnforcedFrom
  issuedSat := st.issuedSat
  finalityEngine := st.finalityEngine

section

variable {env : Env} {st post : CommittedState} {event : Event} {m : SortedMap ℕ ValidatorRecord}

theorem Accepted.frozen_eq {charge : TxCharge} (accepted : Accepted env st totalActiveSat baseFee tx charge post) :
    post.frozen = st.frozen := by
  cases accepted with
  | bridge _ bridged =>
    rw [bridged.state]
    rfl
  | _ => rfl

theorem Step.frozen_eq (step : Step env st event post) (inside : event ≠ .closeEpoch) :
    post.frozen = st.frozen := by
  cases step.effect with
  | transaction accepted => exact accepted.frozen_eq
  | evidence | vote | fees | proposer | forkchoice | prepareL2 | finish => rfl
  | closeEpoch => exact absurd rfl inside

theorem Step.epoch_eq (step : Step env st event post) (inside : event ≠ .closeEpoch) :
    post.epoch = st.epoch := congrArg Frozen.epoch (step.frozen_eq inside)

/-- All that an event may do to the records while its epoch lasts. -/
inductive RecordChange (env : Env) (st : CommittedState) (event : Event) : SortedMap ℕ ValidatorRecord → Prop where
  | same : RecordChange env st event st.validators
  | added {r} (index : r.index = st.nextIndex) (waiting : Waiting r) :
      RecordChange env st event (st.validators.insert r.index r)
  | amended {i stakedSat r randaoCommitment}
      (found : st.validators.get? i = some r) (stake : stakedSat ≤ r.stakedSat) :
      RecordChange env st event (st.validators.insert i { r with stakedSat, randaoCommitment })
  | repriced {tx r p} (found : st.validators.get? tx.validator = some r)
      (planned : planValidatorCommissionUpdate (env.gated st.epoch) st tx = .ok p) :
      RecordChange env st event (st.validators.insert tx.validator { r with commissionBps := tx.commissionBps })
  | rotated {tx charge r p} (found : st.validators.get? tx.validator = some r)
      (rotation : event = .transaction (.withdrawalCredentialRotation tx) charge)
      (planned : planWithdrawalCredentialRotation (env.gated st.epoch) st tx = .ok p) :
      RecordChange env st event (st.validators.insert tx.validator
        { r with withdrawalCredentials := hashBytes (tx.newCredential env.crypto) })
  | exited {i r} (found : st.validators.get? i = some r) (remains : r.exitEpoch = u64Max) :
      RecordChange env st event (st.validators.insert i (r.exited st.epoch))
  | punished {e r} (found : st.validators.get? e.offender = some r)
      (slash : event = .evidence e) (lossSat : ℕ) :
      RecordChange env st event (st.validators.insert e.offender (r.punished env.gates st.epoch lossSat))

theorem RecordChange.kept (change : RecordChange env st event m) (small : st.epoch < u64Max) :
    RegistryKept st.epoch st.validators m := by
  cases change with
  | same => exact .refl ..
  | added index waiting => exact .add (index ▸ st.get?_nextIndex) waiting.activation
  | amended found | repriced found | rotated found => exact .amend found ⟨rfl, rfl, Iff.rfl⟩
  | exited found remains => exact .amend found (.exited small remains)
  | punished found _ lossSat => exact .amend found (.punished env.gates small lossSat)

theorem Accepted.recordChange {charge : TxCharge}
    (accepted : Accepted (env.gated st.epoch) st totalActiveSat baseFee tx charge post) :
    RecordChange env st (.transaction tx charge) post.validators := by
  cases accepted with
  | bridge _ bridged =>
    rw [bridged.state]
    exact .same
  | withdraw planned =>
    obtain ⟨record, found, cleared, -⟩ := planWithdrawal_eq_ok planned
    simp only [withWithdrawal, cleared]
    exact .amended found (Nat.zero_le _)
  | fundedDeposit planned =>
    have fresh := (planFundedDeposit_eq_ok planned).1
    exact .added fresh.index fresh.waiting
  | deposit planned =>
    have fresh := (planDeposit_eq_ok planned).1
    exact .added fresh.index fresh.waiting
  | commission planned =>
    obtain ⟨record, found, changed, -⟩ := planValidatorCommissionUpdate_eq_ok planned
    simp only [setRecord, changed]
    exact .repriced found planned
  | credentialRotation planned =>
    obtain ⟨record, found, changed, -⟩ := planWithdrawalCredentialRotation_eq_ok planned
    simp only [withCredential, changed]
    exact .rotated found rfl planned
  | exit planned =>
    obtain ⟨record, found, remains, rfl⟩ := planExit_eq_ok planned
    exact .exited found remains
  | exitV2 planned =>
    obtain ⟨record, found, remains, exited, -⟩ := planExitV2_eq_ok planned
    exact exited ▸ .exited found remains
  | randaoRecommit planned =>
    obtain ⟨record, found, changed⟩ := planRandaoRecommit_eq_ok planned
    simp only [withRecommitment, changed]
    exact .amended found le_rfl
  | _ => exact .same

theorem Step.punishes (step : Step env st (.evidence e) post) :
    ∃ record lossSat, st.validators.get? e.offender = some record ∧
      post.validators = st.validators.insert e.offender (record.punished env.gates st.epoch lossSat) := by
  cases step with
  | evidence applied =>
    obtain ⟨p, planned, rfl⟩ := applySlashingEvidence_eq_ok_iff.mp applied
    have measured := planSlashingEvidence_measured planned
    refine ⟨p.record, p.outcome.operatorLossSat, measured.found, ?_⟩
    simp only [withPunishment, measured.offender]

theorem Step.recordChange (step : Step env st event post) (inside : event ≠ .closeEpoch) :
    RecordChange env st event post.validators := by
  cases step.effect with
  | transaction accepted => exact accepted.recordChange
  | evidence =>
    obtain ⟨record, lossSat, found, punished⟩ := step.punishes
    exact punished ▸ .punished found rfl lossSat
  | proposer found => exact .amended found le_rfl
  | vote | fees | forkchoice | prepareL2 | finish => exact .same
  | closeEpoch => exact absurd rfl inside

theorem Step.registryKept (step : Step env st event post) (inside : event ≠ .closeEpoch)
    (small : st.epoch < u64Max) : RegistryKept st.epoch st.validators post.validators :=
  (step.recordChange inside).kept small

theorem map_index_applyCohortCap (validators : List Validator) (cohort : List ℕ) (epoch : ℕ) :
    (applyCohortCap validators cohort epoch).map Validator.index = validators.map Validator.index := by
  have kept (cap : ℕ) : Validator.index ∘ (fun v : Validator => if v.index ∈ cohort then
      (⟨v.index, v.effectiveStake * cap / cohortStake validators cohort % 2 ^ 64⟩ : Validator) else v) =
      Validator.index := by
    funext v
    simp only [Function.comp_apply]
    split_ifs <;> rfl
  unfold applyCohortCap
  split_ifs
  · rfl
  · cases capStatus validators cohort epoch with
    | notTapering | deferred => rfl
    | enforced cap =>
      dsimp only
      split_ifs
      · rfl
      · rw [List.map_map, kept]

/-- The duty roster has the validators active at the epoch, whatever their stakes. -/
theorem map_index_dutyRosterAt (g : Gates) (st : CommittedState) (epoch : ℕ) :
    (st.dutyRosterAt g epoch).map Validator.index =
      (st.validators.filter (fun _ r => r.isActiveAt epoch)).keys := by
  simp only [dutyRosterAt, map_index_applyCohortCap]
  split_ifs <;> simp [activeAt, SortedMap.keys, filter, Function.comp_def]

theorem map_index_consensusRosterAt (g : Gates) (st : CommittedState) (epoch : ℕ) :
    (st.consensusRosterAt g epoch).map Validator.index =
      (st.validators.filter (fun _ r => r.isActiveAt epoch)).keys := by
  rw [← map_index_dutyRosterAt g]
  simp only [consensusRosterAt]
  split_ifs <;> simp [withLeakApplied, Function.comp_def]

theorem epochPartition_eq (kept : RegistryKept st.epoch st.validators post.validators)
    (frozen : post.frozen = st.frozen) (small : st.epoch < u64Max) :
    post.epochPartition env = st.epochPartition env := by
  have epoch : post.epoch = st.epoch := congrArg Frozen.epoch frozen
  have mixes : post.boundaryMixes = st.boundaryMixes := congrArg Frozen.boundaryMixes frozen
  have genesis : post.genesisMix = st.genesisMix := congrArg Frozen.genesisMix frozen
  simp only [epochPartition, epochCommittees, map_index_consensusRosterAt, seedForEpoch, epoch, mixes,
    genesis, kept.active_keys small]

theorem Step.epoch_le (step : Step env st event post) : st.epoch ≤ post.epoch := by
  by_cases close : event = .closeEpoch
  · subst close
    cases step
    rw [epoch_closeEpoch]
    exact Nat.le_succ _
  · exact (step.epoch_eq close).ge

theorem epoch_le_of_run (run : Run (Step env) st events post) : st.epoch ≤ post.epoch :=
  run.invariant (P := fun later => st.epoch ≤ later.epoch) (fun step ahead => ahead.trans step.epoch_le)
    le_rfl

theorem epochOf_lt (header : BlockHeaderV4) : epochOf header.slot < 2 ^ 59 := by
  have slot := header.slot_lt
  simp only [epochOf, SLOTS_PER_EPOCH]
  omega

theorem Step.epoch_lt (step : Step env st event post) (small : st.epoch < 2 ^ 59) : post.epoch < 2 ^ 59 := by
  by_cases closes : event = .closeEpoch
  · subst closes
    cases step with
    | @closeEpoch _ header later =>
      rw [epoch_closeEpoch]
      exact (Nat.succ_le_of_lt later).trans_lt (epochOf_lt header)
  · exact (step.epoch_eq closes).trans_lt small

/-- A slot is a 64-bit word, so no epoch comes near the end of its range. -/
theorem Reachable.epoch_lt (reached : Reachable env st) : st.epoch < 2 ^ 59 := by
  refine reached.invariant (fun initial => ?_) Step.epoch_lt
  obtain ⟨gen, -, l2, rfl, -⟩ := initial.eq_genesisState
  exact Nat.two_pow_pos 59

end

end CommittedState

end BlochPos
