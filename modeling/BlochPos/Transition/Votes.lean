import BlochPos.Transition.BlockRun

/-! The votes of an epoch, from their admission in a block to the tally at the boundary. -/
namespace BlochPos

open Attempt SortedMap List

def Event.vote? : Event → Option Attestation
  | .vote att => some att
  | _ => none

def votesAmong (events : List Event) : List Attestation := events.filterMap Event.vote?

namespace CommittedState

def voteKey (c : Crypto) (att : Attestation) : ℕ ×ₗ Bytes32 :=
  toLex (att.validator, att.data.signingRoot c)

/-- An event that does not end the epoch. -/
def StepInside (env : Env) (st : CommittedState) (event : Event) (post : CommittedState) : Prop :=
  Step env st event post ∧ event ≠ .closeEpoch

/-- A state no vote of its epoch has reached yet. -/
def EpochStart (env : Env) (st : CommittedState) : Prop :=
  Initial env st ∨ ∃ before, Reachable env before ∧ Step env before .closeEpoch st

/-- Every pending vote is a committee member's, under its root. -/
def Seated (env : Env) (st : CommittedState) : Prop :=
  ∀ validator root data, st.pendingVotes.get? (toLex (validator, root)) = some data →
    validator ∈ st.committeeOf env data ∧ data.signingRoot env.crypto = root

section

variable {env : Env} {st post : CommittedState} {event : Event} {events : List Event}
  {slot validator : ℕ} {data : AttestationData} {attestations : List Attestation}
  {transactions : List PosTransaction} {envelope : ProposalEnvelope}

theorem Step.pendingVotes_eq (step : Step env st event post) (inside : event ≠ .closeEpoch) :
    post.pendingVotes = event.vote?.toList.foldl
      (fun m att => m.insert (voteKey env.crypto att) att.data) st.pendingVotes := by
  cases step.effect with
  | transaction accepted =>
    cases accepted with
    | bridge _ bridged => exact bridged.state ▸ rfl
    | _ => rfl
  | evidence | vote | fees | proposer | forkchoice | prepareL2 | finish => rfl
  | closeEpoch => exact absurd rfl inside

theorem pendingVotes_run (run : Run (StepInside env) st events post) :
    post.pendingVotes = (votesAmong events).foldl
      (fun m att => m.insert (voteKey env.crypto att) att.data) st.pendingVotes := by
  induction run with
  | nil => rfl
  | @cons s t u event rest first _ ih =>
    have filed := first.1.pendingVotes_eq first.2
    have split : votesAmong (event :: rest) = event.vote?.toList ++ votesAmong rest := by
      rw [votesAmong, filterMap_cons]
      cases event.vote? <;> rfl
    rw [ih, filed, split, foldl_append]

theorem EpochStart.pendingVotes_eq (start : EpochStart env st) : st.pendingVotes = .empty := by
  rcases start with initial | ⟨before, -, step⟩
  · obtain ⟨gen, domain, l2, rfl, -⟩ := initial.eq_genesisState
    rfl
  · cases step with
    | closeEpoch => exact pendingVotes_closeEpoch ..

theorem Step.epochPartition_eq (step : Step env st event post) (inside : event ≠ .closeEpoch)
    (small : st.epoch < u64Max) : post.epochPartition env = st.epochPartition env :=
  CommittedState.epochPartition_eq (step.registryKept inside small) (step.frozen_eq inside) small

theorem lt_u64Max_of_small (small : st.epoch < 2 ^ 59) : st.epoch < u64Max :=
  small.trans (by decide)

theorem kept_run (run : Run (StepInside env) st events post) (small : st.epoch < 2 ^ 59) :
    RegistryKept st.epoch st.validators post.validators ∧ post.frozen = st.frozen := by
  induction run with
  | nil => exact ⟨.refl .., rfl⟩
  | @cons s t u event rest first _ ih =>
    obtain ⟨step, inside⟩ := first
    have frozen := step.frozen_eq inside
    have epoch : t.epoch = s.epoch := congrArg Frozen.epoch frozen
    obtain ⟨kept, later⟩ := ih (epoch.trans_lt small)
    rw [epoch] at kept
    exact ⟨(step.registryKept inside (lt_u64Max_of_small small)).trans kept, later.trans frozen⟩

theorem Seated.of_same (seated : Seated env st) (votes : post.pendingVotes = st.pendingVotes)
    (partition : post.epochPartition env = st.epochPartition env) : Seated env post := by
  intro validator root data found
  rw [votes] at found
  simpa only [committeeOf, partition] using seated validator root data found

theorem mem_committee_of_validate {keys : KeyLookup} {att : Attestation}
    (valid : att.validate env keys committee slot = .ok ()) : att.validator ∈ committee := by
  simp only [Attestation.validate, ok_iff, not_not] at valid
  exact valid.1

theorem Step.seated (step : Step env st event post) (small : st.epoch < 2 ^ 59) (seated : Seated env st) :
    Seated env post := by
  by_cases closes : event = .closeEpoch
  · subst closes
    cases step with
    | closeEpoch =>
      intro validator root data found
      rw [pendingVotes_closeEpoch] at found
      simp at found
  · have partition := step.epochPartition_eq closes (lt_u64Max_of_small small)
    have filed := step.pendingVotes_eq closes
    cases step with
    | @vote _ att slot timely valid =>
      intro validator root data found
      rw [filed] at found
      simp only [Event.vote?, Option.toList_some, foldl_cons, foldl_nil, get?_insert] at found
      simp only [committeeOf, partition]
      split_ifs at found with same
      · obtain rfl : att.data = data := Option.some.inj found
        obtain ⟨rfl, rfl⟩ : validator = att.validator ∧ root = att.data.signingRoot env.crypto := by
          simpa [voteKey] using same
        exact ⟨mem_committee_of_validate valid, rfl⟩
      · exact seated validator root data found
    | _ => exact seated.of_same filed partition

theorem Reachable.seated (reached : Reachable env st) : Seated env st := by
  have both : st.epoch < 2 ^ 59 ∧ Seated env st := by
    refine reached.invariant (P := fun st => st.epoch < 2 ^ 59 ∧ Seated env st) ?_ ?_
    · intro st initial
      have start : EpochStart env st := .inl initial
      refine ⟨Reachable.epoch_lt ⟨st, [], initial, .nil st⟩, ?_⟩
      intro validator root data found
      rw [start.pendingVotes_eq] at found
      simp at found
    · intro st event post step kept
      exact ⟨step.epoch_lt kept.1, step.seated kept.1 kept.2⟩
  exact both.2

theorem mem_admittedVotes_iff :
    (validator, data) ∈ st.admittedVotes ↔
      ∃ root, st.pendingVotes.get? (toLex (validator, root)) = some data := by
  simp only [admittedVotes, mem_map, Prod.mk.injEq, get?_eq_some_iff]
  constructor
  · rintro ⟨⟨key, _⟩, member, rfl, rfl⟩
    exact ⟨(ofLex key).2, member⟩
  · rintro ⟨root, member⟩
    exact ⟨_, member, rfl, rfl⟩

/-- The boundary's filter has nothing to drop. -/
theorem Seated.boundaryVotes_eq (seated : Seated env st) :
    (st.boundaryVotes env).attestations = st.admittedVotes := by
  simp only [boundaryVotes, votesFromPartition, filter_eq_self]
  rintro ⟨validator, data⟩ admitted
  obtain ⟨root, found⟩ := mem_admittedVotes_iff.mp admitted
  have member := (seated validator root data found).1
  simp only [committeeOf, epochPartition] at member
  cases drawn : (epochCommittees env.crypto (st.seedForEpoch env.gates st.epoch) st.epoch
      (st.consensusRosterAt env.gates st.epoch))[data.slot % SLOTS_PER_EPOCH]? with
  | none => simp [drawn] at member
  | some committee => simpa [drawn] using member

theorem Seated.admittedVotes_nodup (seated : Seated env st) : st.admittedVotes.Nodup := by
  refine List.Nodup.map_on ?_ (st.pendingVotes.keys_nodup.of_map _)
  rintro ⟨key, data⟩ member ⟨key', data'⟩ member' same
  obtain ⟨validator, rfl⟩ : ∃ v : ℕ × Bytes32, toLex v = key := ⟨ofLex key, rfl⟩
  obtain ⟨validator', rfl⟩ : ∃ v : ℕ × Bytes32, toLex v = key' := ⟨ofLex key', rfl⟩
  simp only [ofLex_toLex, Prod.mk.injEq] at same
  obtain ⟨who, rfl⟩ := same
  have root := (seated _ _ _ (get?_eq_some_iff.mpr member)).2
  have root' := (seated _ _ _ (get?_eq_some_iff.mpr member')).2
  have pair : validator = validator' := Prod.ext who (root.symm.trans root')
  rw [pair]

theorem EpochStart.mem_admittedVotes_iff (start : EpochStart env st)
    (run : Run (StepInside env) st events post)
    (apart : ∀ a ∈ votesAmong events, ∀ b ∈ votesAmong events,
      a.data.signingRoot env.crypto = b.data.signingRoot env.crypto → a.data = b.data) :
    (validator, data) ∈ post.admittedVotes ↔
      ∃ att ∈ votesAmong events, att.validator = validator ∧ att.data = data := by
  have filed (key : ℕ ×ₗ Bytes32) : post.pendingVotes.get? key =
      ((votesAmong events).reverse.find? (fun att => voteKey env.crypto att = key)).map
        Attestation.data := by
    rw [pendingVotes_run run, get?_foldl_insert, start.pendingVotes_eq]
    simp
  simp only [CommittedState.mem_admittedVotes_iff, filed, Option.map_eq_some_iff]
  constructor
  · rintro ⟨root, att, found, rfl⟩
    have key : att.validator = validator ∧ att.data.signingRoot env.crypto = root := by
      simpa [voteKey] using find?_some found
    exact ⟨att, mem_reverse.mp (mem_of_find?_eq_some found), key.1, rfl⟩
  · rintro ⟨att, member, rfl, rfl⟩
    refine ⟨att.data.signingRoot env.crypto, ?_⟩
    have some_ : ((votesAmong events).reverse.find?
        (fun a => voteKey env.crypto a = voteKey env.crypto att)).isSome := by
      rw [find?_isSome]
      exact ⟨att, mem_reverse.mpr member, by simp⟩
    obtain ⟨other, found⟩ := Option.isSome_iff_exists.mp some_
    have key : other.validator = att.validator ∧
        other.data.signingRoot env.crypto = att.data.signingRoot env.crypto := by
      simpa [voteKey] using find?_some found
    exact ⟨other, found, apart other (mem_reverse.mp (mem_of_find?_eq_some found)) att member key.2⟩

theorem pendingVotes_stay (run : Run (StepInside env) st events post)
    (filed : ∃ data, st.pendingVotes.get? key = some data) :
    ∃ data, post.pendingVotes.get? key = some data := by
  obtain ⟨data, filed⟩ := filed
  rw [pendingVotes_run run, get?_foldl_insert, filed]
  cases (votesAmong events).reverse.find? (fun att => voteKey env.crypto att = key) <;> simp

/-- What the admission has validated is pending. -/
def Tracked (a : Admission) : Prop :=
  ∀ validator root signature, (validator, root, signature) ∈ a.validatedExact →
    ∃ data, a.state.pendingVotes.get? (toLex (validator, root)) = some data

theorem admitAttestation_files {partition : List (List ℕ)}
    (admitted : admitAttestation env slot partition a entry = .ok a')
    (tracked : Tracked a) :
    Tracked a' ∧ (∃ data, a'.state.pendingVotes.get? (voteKey env.crypto entry.1) = some data) ∧
      ∀ other : Attestation × ℕ,
        (∃ data, a.state.pendingVotes.get? (voteKey env.crypto other.1) = some data) →
        ∃ data, a'.state.pendingVotes.get? (voteKey env.crypto other.1) = some data := by
  simp only [admitAttestation, ok_iff] at admitted
  obtain ⟨-, -, rest⟩ := admitted
  split_ifs at rest with known
  · rw [pure_eq_ok_iff] at rest
    subst rest
    exact ⟨tracked, tracked _ _ _ known, fun _ filed => filed⟩
  · simp only [ok_iff] at rest
    obtain ⟨-, rfl⟩ := rest
    have stays {key : ℕ ×ₗ Bytes32} (filed : ∃ data, a.state.pendingVotes.get? key = some data) :
        ∃ data, (a.state.pendingVotes.insert (voteKey env.crypto entry.1) entry.1.data).get? key =
          some data := by
      rw [get?_insert]
      split_ifs
      · exact ⟨_, rfl⟩
      · exact filed
    refine ⟨?_, ⟨_, get?_insert_self ..⟩, fun _ filed => stays filed⟩
    intro validator root signature among
    rcases Finset.mem_insert.mp among with new | old
    · obtain ⟨rfl, rfl, -⟩ : validator = entry.1.validator ∧
          root = entry.1.data.signingRoot env.crypto ∧ signature = entry.1.signature := by
        simpa using new
      exact ⟨_, get?_insert_self ..⟩
    · exact stays (tracked _ _ _ old)

theorem admitAttestations_files (admitted : admitAttestations env st slot roster attestations = .ok post)
    {att : Attestation} (member : att ∈ attestations) :
    ∃ data, post.pendingVotes.get? (voteKey env.crypto att) = some data := by
  simp only [admitAttestations, ok_iff] at admitted
  obtain ⟨-, a, folded, rfl⟩ := admitted
  have start : Tracked ⟨st, ∅, ∅⟩ := fun _ _ _ impossible => by simp at impossible
  have all := (foldlM_all (Q := fun entry a =>
    ∃ data, a.state.pendingVotes.get? (voteKey env.crypto entry.1) = some data)
    (fun _ => admitAttestation_files) folded start).2.1
  rw [← zipIdx_map_fst 0 attestations, mem_map] at member
  obtain ⟨entry, found, rfl⟩ := member
  exact all entry found

theorem ne_closeEpoch
    (among : event ∈ List.zipWith Event.inBlock transactions charges) : event ≠ .closeEpoch := by
  obtain ⟨tx, charge, rfl⟩ : ∃ tx charge, event = Event.inBlock tx charge := by
    rw [← map_uncurry_zip_eq_zipWith, mem_map] at among
    obtain ⟨⟨tx, charge⟩, -, rfl⟩ := among
    exact ⟨tx, charge, rfl⟩
  cases tx <;> simp [Event.inBlock]

theorem openBlock_files {opened : BlockTerms × CommittedState}
    (done : openBlock env st envelope attestations transactions = .ok opened) {att : Attestation}
    (member : att ∈ attestations) :
    ∃ data, opened.2.pendingVotes.get? (voteKey env.crypto att) = some data := by
  simp only [openBlock, ok_iff] at done
  obtain ⟨-, -, seated, -, voted, voting, rfl⟩ := done
  exact admitAttestations_files voting member

theorem computePostState_files
    (computed : computePostState env st envelope attestations transactions = .ok post)
    (member : att ∈ attestations) :
    ∃ data, post.pendingVotes.get? (voteKey env.crypto att) = some data := by
  simp only [computePostState, runBlock, ok_iff] at computed
  obtain ⟨m, ⟨opened, opening, applied, applying, rfl⟩, -, finished⟩ := computed
  obtain ⟨charges, -, run⟩ := applyTransactions_run applying
  have inside : Run (StepInside env) opened.2 _ applied.state :=
    run.mono (fun among step => ⟨step, ne_closeEpoch among⟩)
  have settled : StepInside env applied.state
      (.fees (applied.producerCredit env.gates opened.1.epoch envelope.header.slot))
      (applied.settleFees env.gates opened.1 envelope.header.slot).state := ⟨.fees, by simp⟩
  have last : StepInside env _ .bookkeeping post := ⟨.finish finished, by simp⟩
  have all := (inside.append (.single settled)).append (.single last)
  exact pendingVotes_stay all (openBlock_files opening member)

/-- The roster's indices stay as they are, the boundary keeps every pending vote, each once, and from the
start of an epoch on these are the votes the epoch admitted. -/
theorem no_admitted_vote_lost (reached : Reachable env st) (run : Run (StepInside env) st events post) :
    (post.dutyRosterAt env.gates st.epoch).map Validator.index =
        (st.dutyRosterAt env.gates st.epoch).map Validator.index ∧
      (post.consensusRosterAt env.gates st.epoch).map Validator.index =
        (st.consensusRosterAt env.gates st.epoch).map Validator.index ∧
      (post.boundaryVotes env).attestations = post.admittedVotes ∧
      (post.boundaryVotes env).attestations.Nodup ∧
      (∀ {pre envelope attestations transactions},
        computePostState env pre envelope attestations transactions = .ok st →
        ∀ att ∈ attestations, ∃ data, (att.validator, data) ∈ (post.boundaryVotes env).attestations ∧
          data.signingRoot env.crypto = att.data.signingRoot env.crypto) ∧
      ∀ {start history}, EpochStart env start → Run (StepInside env) start history post →
        (∀ a ∈ votesAmong history, ∀ b ∈ votesAmong history,
          a.data.signingRoot env.crypto = b.data.signingRoot env.crypto → a.data = b.data) →
        ∀ validator data, (validator, data) ∈ (post.boundaryVotes env).attestations ↔
          ∃ att ∈ votesAmong history, att.validator = validator ∧ att.data = data := by
  have small := reached.epoch_lt
  have kept := (kept_run run small).1
  have seated : Seated env post := (reached.run (run.mono (fun _ step => step.1))).seated
  have tallied := seated.boundaryVotes_eq
  have indices := kept.active_keys (lt_u64Max_of_small small)
  refine ⟨?_, ?_, tallied, tallied ▸ seated.admittedVotes_nodup, ?_, ?_⟩
  · rw [map_index_dutyRosterAt, map_index_dutyRosterAt, indices]
  · rw [map_index_consensusRosterAt, map_index_consensusRosterAt, indices]
  · intro pre envelope attestations transactions computed att member
    obtain ⟨data, found⟩ := pendingVotes_stay run (computePostState_files computed member)
    rw [tallied]
    exact ⟨data, mem_admittedVotes_iff.mpr ⟨_, found⟩, (seated _ _ _ found).2⟩
  · intro start history fresh whole apart validator data
    rw [tallied]
    exact fresh.mem_admittedVotes_iff whole apart

end

/-- Admitted in epoch 1, it is among the votes of its boundary. -/
theorem sole_vote_reaches_boundary : let env := Env.accepting .shipped
    let start := closeEpoch env (genesisState env (.small 1))
    ∃ post, Run (StepInside env) start [.vote soleVote] post ∧
      (0, soleVote.data) ∈ (post.boundaryVotes env).attestations := by
  intro env start
  have initial : Initial env (genesisState env (.small 1)) := initial_genesisState (by decide +kernel)
  have close : Step env (genesisState env (.small 1)) .closeEpoch start := step_of_play rfl
  have genesis : Reachable env (genesisState env (.small 1)) := ⟨_, [], initial, .nil _⟩
  have admitted : (play env start (.vote soleVote)).isSome = true := by decide +kernel
  obtain ⟨post, played⟩ := Option.isSome_iff_exists.mp admitted
  have run : Run (StepInside env) start [.vote soleVote] post := .single ⟨step_of_play played, by simp⟩
  obtain ⟨-, -, -, -, -, tallied⟩ := no_admitted_vote_lost (genesis.run (.single close)) run
  refine ⟨_, run, (tallied (.inr ⟨_, genesis, close⟩) run ?_ 0 soleVote.data).mpr ⟨soleVote, ?_, rfl, rfl⟩⟩
  · intro a aMember b bMember _
    simp only [votesAmong, Event.vote?, filterMap_cons, filterMap_nil, mem_singleton] at aMember bMember
    rw [aMember, bMember]
  · simp [votesAmong, Event.vote?]

end CommittedState

end BlochPos
