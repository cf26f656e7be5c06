import BlochPos.Transition.ForkVotes
import BlochPos.Transition.Rolling
import BlochPos.Transition.Votes

/-! Committed equivocation detection does not depend on the order of votes. -/
namespace BlochPos

open Attempt ForkChoice SortedMap

namespace CommittedState

section

variable {env : Env} {st post : CommittedState} {attestations : List Attestation}
  {envelope : ProposalEnvelope} {transactions : List PosTransaction} {ballot : Ballot} {slot epoch : ℕ}
  {ballots : List Ballot}

theorem aside_fork : Aside fork where
  record _ _ _ := rfl
  ledgers _ _ _ _ := rfl
  issues _ _ _ _ := rfl
  tally _ _ _ := rfl

theorem fork_closeEpoch (env : Env) (st : CommittedState) : (closeEpoch env st).fork = st.fork :=
  aside_fork.closeEpoch_eq (enterEpoch_leaves (fun _ _ _ _ _ _ _ => rfl)) st

theorem Step.fork_eq (step : Step env st event post) (eventful : event ≠ .bookkeeping) :
    post.fork = st.fork := by
  cases step.effect with
  | transaction accepted =>
    cases accepted with
    | bridge _ bridged => exact bridged.state ▸ rfl
    | _ => rfl
  | evidence | vote | fees => rfl
  | closeEpoch => exact fork_closeEpoch env st
  | proposer | forkchoice | prepareL2 | finish => exact absurd rfl eventful

theorem fork_of_run (run : Run (Step env) st events post)
    (eventful : .bookkeeping ∉ events) : post.fork = st.fork := by
  induction run with
  | nil => rfl
  | cons taken _ ih =>
    rw [List.mem_cons, not_or] at eventful
    rw [ih eventful.2, taken.fork_eq (Ne.symm eventful.1)]

theorem bookkeeping_notMem_inBlock (transactions : List PosTransaction) (charges : List TxCharge) :
    .bookkeeping ∉ List.zipWith Event.inBlock transactions charges := by
  intro among
  rw [← List.map_uncurry_zip_eq_zipWith, List.mem_map] at among
  obtain ⟨⟨tx, charge⟩, -, same⟩ := among
  cases tx <;> cases same

theorem accumulateForkchoice_congr {s : CommittedState} (same : s.fork = st.fork) (epoch : s.epoch = st.epoch)
    (g : Gates) (roster : List Validator) (attestations : List Attestation) (slot : ℕ) :
    (s.accumulateForkchoice g roster attestations slot).fork =
      (st.accumulateForkchoice g roster attestations slot).fork := by
  obtain ⟨latest, barred, recent⟩ := Fork.mk.inj same
  simp only [accumulateForkchoice, fork, latest, barred, recent, epoch]

/-- Votes with one signing root are one vote: the hash does not collide on them. -/
def Apart (c : Crypto) (attestations : List Attestation) : Prop :=
  ∀ a ∈ attestations, ∀ b ∈ attestations, a.data.signingRoot c = b.data.signingRoot c → a.data = b.data

/-- Of the epoch, by a member of its committee. -/
def Admissible (epoch : ℕ) (partition : List (List ℕ)) (att : Attestation) : Prop :=
  epochOf att.data.slot = epoch ∧ att.validator ∈ (partition[att.data.slot % SLOTS_PER_EPOCH]?).getD []

/-- What admitting votes keeps, and what the votes admitted are. -/
structure Validated (c : Crypto) (st : CommittedState) (partition : List (List ℕ))
    (attestations : List Attestation) (a : Admission) : Prop where
  fork : a.state.fork = st.fork
  epoch : a.state.epoch = st.epoch
  exact_ : ∀ v root signature, (v, root, signature) ∈ a.validatedExact → ∃ att ∈ attestations,
    att.validator = v ∧ att.data.signingRoot c = root ∧ Admissible st.epoch partition att

theorem admitAttestation_admissible (among : entry.1 ∈ attestations) (apart : Apart env.crypto attestations)
    (admitted : admitAttestation env slot partition a entry = .ok a')
    (validated : Validated env.crypto st partition attestations a) :
    Validated env.crypto st partition attestations a' ∧ Admissible st.epoch partition entry.1 := by
  simp only [admitAttestation, ok_iff, not_not] at admitted
  obtain ⟨timely, -, rest⟩ := admitted
  rw [validated.epoch] at timely
  split_ifs at rest with known
  · rw [pure_eq_ok_iff] at rest
    subst rest
    obtain ⟨other, member, validator, root, -, seat⟩ := validated.exact_ _ _ _ known
    have same := apart other member entry.1 among root
    rw [validator, same] at seat
    exact ⟨⟨validated.fork, validated.epoch, validated.exact_⟩, timely, seat⟩
  · simp only [ok_iff] at rest
    obtain ⟨valid, rfl⟩ := rest
    have admissible : Admissible st.epoch partition entry.1 := ⟨timely, mem_committee_of_validate valid⟩
    refine ⟨⟨validated.fork, validated.epoch, ?_⟩, admissible⟩
    intro v root signature member
    rcases Finset.mem_insert.mp member with new | old
    · simp only [Prod.mk.injEq] at new
      exact ⟨entry.1, among, new.1.symm, new.2.1.symm, admissible⟩
    · exact validated.exact_ v root signature old

theorem admitAttestations_fork (apart : Apart env.crypto attestations)
    (admitted : admitAttestations env st slot roster attestations = .ok post) :
    post.fork = (st.accumulateForkchoice env.gates roster attestations slot).fork ∧
      ∀ att ∈ attestations, Admissible st.epoch
        (epochCommittees env.crypto (st.seedForEpoch env.gates st.epoch) st.epoch roster) att := by
  simp only [admitAttestations, ok_iff] at admitted
  obtain ⟨-, a, folded, rfl⟩ := admitted
  have start : Validated env.crypto st
      (epochCommittees env.crypto (st.seedForEpoch env.gates st.epoch) st.epoch roster) attestations
      ⟨st, ∅, ∅⟩ := ⟨rfl, rfl, by simp⟩
  obtain ⟨validated, all, -⟩ := foldlM_all (Q := fun entry _ => Admissible st.epoch
    (epochCommittees env.crypto (st.seedForEpoch env.gates st.epoch) st.epoch roster) entry.1)
    (fun member admitted validated => by
      obtain ⟨after, admissible⟩ :=
        admitAttestation_admissible (List.fst_mem_of_mem_zipIdx member) apart admitted validated
      exact ⟨after, admissible, fun _ here => here⟩) folded start
  refine ⟨accumulateForkchoice_congr validated.fork validated.epoch .., ?_⟩
  intro att among
  rw [← List.zipIdx_map_fst 0 attestations, List.mem_map] at among
  obtain ⟨entry, member, rfl⟩ := among
  exact all entry member

/-- What a block tells the fork choice. -/
structure Ballot where
  slot : ℕ
  attestations : List Attestation

/-- A state after the next block. -/
def BlockStep (env : Env) (pre : CommittedState) (ballot : Ballot) (post : CommittedState) : Prop :=
  ∃ envelope transactions, computePostState env pre envelope ballot.attestations transactions = .ok post ∧
    envelope.header.slot = ballot.slot ∧ Apart env.crypto ballot.attestations

/-- A state blocks lead to from the start of a network. -/
def OnChain (env : Env) (st : CommittedState) : Prop :=
  ∃ start ballots, Initial env start ∧ Run (BlockStep env) start ballots st

/-- A block of the epoch of the state it builds on: its votes are all in time and
seated, and reach the fork choice together. -/
structure InsideBlock (env : Env) (st : CommittedState) (ballot : Ballot) (post : CommittedState) : Prop where
  epoch : post.epoch = st.epoch
  partition : post.epochPartition env = st.epochPartition env
  fork : ∃ roster, post.fork = (st.accumulateForkchoice env.gates roster ballot.attestations ballot.slot).fork
  admissible : ∀ att ∈ ballot.attestations, Admissible st.epoch (st.epochPartition env) att

theorem computePostState_kept (inside : epochOf envelope.header.slot = st.epoch)
    (computed : computePostState env st envelope attestations transactions = .ok post) :
    post.epoch = st.epoch ∧ post.epochPartition env = st.epochPartition env := by
  have small : st.epoch < 2 ^ 59 := inside ▸ epochOf_lt envelope.header
  obtain ⟨votes, charges, creditSat, -, -, run⟩ := computePostState_run computed
  rw [inside, Nat.sub_self, List.replicate_zero, List.nil_append] at run
  have within : Run (StepInside env) st
      (blockEvents votes (List.zipWith Event.inBlock transactions charges) creditSat) post := by
    apply run.mono
    intro s event t among step
    refine ⟨step, ?_⟩
    rintro rfl
    simp only [blockEvents, List.mem_cons, List.mem_append, List.mem_map, reduceCtorEq, and_false,
      exists_false, false_or, List.not_mem_nil, or_false] at among
    exact ne_closeEpoch among rfl
  obtain ⟨kept, frozen⟩ := kept_run within small
  exact ⟨congrArg Frozen.epoch frozen, epochPartition_eq kept frozen (lt_u64Max_of_small small)⟩

theorem openBlock_fork
    (inside : epochOf envelope.header.slot = st.epoch) (apart : Apart env.crypto attestations)
    (done : openBlock env st envelope attestations transactions = .ok opened) :
    (∃ roster, opened.2.fork =
      (st.accumulateForkchoice env.gates roster attestations envelope.header.slot).fork) ∧
    ∀ att ∈ attestations, Admissible st.epoch (st.epochPartition env) att := by
  have here : st.advanceTo env (epochOf envelope.header.slot) = st := by
    rw [advanceTo, inside, Nat.sub_self]
    rfl
  simp only [openBlock, ok_iff, here] at done
  obtain ⟨-, -, seated, seating, voted, voting, rfl⟩ := done
  have proposing : Step env st .bookkeeping seated := .proposer seating
  have small : st.epoch < u64Max := lt_u64Max_of_small (inside ▸ epochOf_lt envelope.header)
  have frozen := proposing.frozen_eq (by simp)
  have epoch : seated.epoch = st.epoch := congrArg Frozen.epoch frozen
  have partition : seated.epochPartition env = _ :=
    partition_seated (proposing.registryKept (by simp) small) frozen small
  have same : seated.fork = st.fork := by
    obtain ⟨_, _, _, _, _, -, rfl⟩ := seatProposer_eq_ok seating
    rfl
  obtain ⟨fork, admissible⟩ := admitAttestations_fork apart voting
  refine ⟨⟨_, fork.trans (accumulateForkchoice_congr same epoch ..)⟩, ?_⟩
  rwa [← partition, proposing.epochPartition_eq (by simp) small, epoch] at admissible

theorem computePostState_inside (slot : envelope.header.slot = ballot.slot)
    (inside : epochOf ballot.slot = st.epoch) (apart : Apart env.crypto ballot.attestations)
    (computed : computePostState env st envelope ballot.attestations transactions = .ok post) :
    InsideBlock env st ballot post := by
  rw [← slot] at inside
  obtain ⟨epoch, partition⟩ := computePostState_kept inside computed
  simp only [computePostState, runBlock, ok_iff] at computed
  obtain ⟨m, ⟨opened, opening, applied, applying, rfl⟩, -, finished⟩ := computed
  obtain ⟨charges, -, run⟩ := applyTransactions_run applying
  obtain ⟨⟨roster, fork⟩, admissible⟩ := openBlock_fork inside apart opening
  refine ⟨epoch, partition, ⟨roster, ?_⟩, admissible⟩
  obtain ⟨_, rfl, -⟩ := finishBlock_eq_ok finished
  rw [← slot, ← fork]
  have quiet := fork_of_run run (bookkeeping_notMem_inBlock transactions charges)
  exact quiet

section

variable (step : BlockStep env st ballot post)
include step

theorem BlockStep.slots : st.slot < ballot.slot ∧ post.slot = ballot.slot := by
  obtain ⟨envelope, transactions, computed, slot, -⟩ := step
  simp only [computePostState, runBlock, openBlock, checkHeader, ok_iff, not_le] at computed
  obtain ⟨m, ⟨-, ⟨⟨later, -⟩, -⟩, -⟩, -, finished⟩ := computed
  obtain ⟨_, rfl, -⟩ := finishBlock_eq_ok finished
  exact ⟨slot ▸ later, slot⟩

theorem BlockStep.reachable (reached : Reachable env st) : Reachable env post := by
  obtain ⟨envelope, transactions, computed, -, -⟩ := step
  exact reached.block computed

theorem BlockStep.inside (reached : Reachable env st) :
    st.epoch ≤ epochOf ballot.slot ∧
      InsideBlock env (st.advanceTo env (epochOf ballot.slot)) ballot post := by
  obtain ⟨envelope, transactions, computed, slot, apart⟩ := step
  obtain ⟨ahead, near⟩ := reach_of_computePostState computed
  have full : st.epoch + (epochOf envelope.header.slot - st.epoch) ≤ epochOf envelope.header.slot := by
    omega
  rw [← slot]
  refine ⟨ahead, ?_⟩
  have rolled := (computePostState_iterate_closeEpoch reached full near).mpr computed
  exact computePostState_inside slot (slot ▸ (epoch_advanceTo ahead).symm) apart rolled

end

theorem FcAccum.observe_plain (a : FcAccum) (att : Attestation) :
    (a.observe false att).fcEquivocators = a.fcEquivocators ∧
    (a.observe false att).fcRecentVotes = a.fcRecentVotes ∧
    ∀ {v m}, (a.observe false att).latestMessages.get? v = some m →
      a.latestMessages.get? v = some m ∨ v ∉ a.fcEquivocators ∧ votesOf [att] v m := by
  unfold observe
  by_cases barred : att.validator ∈ a.fcEquivocators
  · simp only [if_pos barred, true_and]
    exact .inl
  · simp only [if_neg barred, Bool.false_eq_true, if_false, take, true_and]
    intro v m found
    split_ifs at found with taken
    · obtain ⟨here, rfl⟩ | ⟨here, found⟩ := get?_insert_cases found
      · exact .inr ⟨here ▸ barred, att, List.mem_singleton_self att, here.symm, rfl⟩
      · exact .inl found
    · exact .inl found

theorem FcAccum.foldl_observe_plain (a : FcAccum) (attestations : List Attestation) :
    (attestations.foldl (observe false) a).fcEquivocators = a.fcEquivocators ∧
    (attestations.foldl (observe false) a).fcRecentVotes = a.fcRecentVotes ∧
    ∀ {v m}, (attestations.foldl (observe false) a).latestMessages.get? v = some m →
      a.latestMessages.get? v = some m ∨ v ∉ a.fcEquivocators ∧ votesOf attestations v m := by
  induction attestations generalizing a with
  | nil => exact ⟨rfl, rfl, .inl⟩
  | cons att rest ih =>
    obtain ⟨barred, recent, latest⟩ := a.observe_plain att
    obtain ⟨barred', recent', latest'⟩ := ih (a.observe false att)
    rw [List.foldl_cons, ← List.singleton_append, votesOf_append]
    refine ⟨barred'.trans barred, recent'.trans recent, ?_⟩
    intro v m found
    rcases latest' found with before | ⟨free, voted⟩
    · exact (latest before).imp_right (And.imp_right .inl)
    · exact .inr ⟨barred ▸ free, .inr voted⟩

theorem accumulateForkchoice_plain (roster : List Validator) (attestations : List Attestation)
    (slot : ℕ) (inactive : g.forkchoiceEquivocationHorizonActive st.epoch = false)
    (barred : ∀ {v}, v ∈ st.fcEquivocators → st.latestMessages.get? v = none) :
    let after := (st.accumulateForkchoice g roster attestations slot).fork
    after.fcRecentVotes = st.fcRecentVotes ∧
    (∀ {v}, v ∈ after.fcEquivocators → after.latestMessages.get? v = none) ∧
    ∀ {v m}, after.latestMessages.get? v = some m →
      st.latestMessages.get? v = some m ∨ votesOf attestations v m := by
  intro after
  obtain ⟨same, recent, latest⟩ := FcAccum.foldl_observe_plain
    ⟨st.latestMessages.entries.foldl (fun s m => (s.observe m.1 m.2).2)
      (roster.foldl (fun s v => s.setStake v.index v.effectiveStake) Store.new),
      st.latestMessages, st.fcEquivocators, st.fcRecentVotes⟩ attestations
  have left {v : ℕ} {m : LatestMessage} (found : after.latestMessages.get? v = some m) :
      v ∉ after.fcEquivocators ∧ (st.latestMessages.get? v = some m ∨ votesOf attestations v m) := by
    simp only [after, fork, accumulateForkchoice, inactive, FcAccum.bar, get?_filter,
      Option.filter_eq_some_iff, decide_eq_true_eq] at found
    obtain ⟨found, clean⟩ := found
    have free : v ∉ st.fcEquivocators := by
      intro out
      rcases latest found with before | ⟨free, -⟩
      · simp [barred out] at before
      · exact free out
    refine ⟨?_, (latest found).imp_right And.right⟩
    simp only [after, fork, accumulateForkchoice, inactive, FcAccum.bar, Finset.mem_union, not_or]
    exact ⟨same ▸ free, clean⟩
  refine ⟨?_, ?_, fun found => (left found).2⟩
  · simp only [after, fork, accumulateForkchoice, inactive, FcAccum.bar, Bool.false_eq_true, if_false]
    exact recent
  · intro v out
    apply Option.eq_none_iff_forall_ne_some.mpr
    intro m found
    exact (left found).1 out

/-- What blocks keep of the fork-choice part. Once votes are retained, those of the
epoch are the latest messages of seated validators. -/
structure ForkKept (env : Env) (st : CommittedState) : Prop where
  barred : ∀ {v}, v ∈ st.fcEquivocators → st.latestMessages.get? v = none ∧ st.fcRecentVotes.get? v = none
  messages : ∀ {v m}, st.latestMessages.get? v = some m → epochOf m.slot ≤ st.epoch
  record : ∀ {v m}, st.fork.Retains v m → epochOf m.slot ≤ st.epoch
  idle : env.gates.forkchoiceEquivocationHorizonActive st.epoch = false → st.fcRecentVotes = .empty
  kept : env.gates.forkchoiceEquivocationHorizonActive st.epoch = true → ∀ {v m},
    st.latestMessages.get? v = some m → epochOf m.slot = st.epoch → st.fork.Retains v m
  latest : env.gates.forkchoiceEquivocationHorizonActive st.epoch = true → ∀ {v m},
    st.fork.Retains v m → epochOf m.slot = st.epoch → st.latestMessages.get? v = some m
  seated : env.gates.forkchoiceEquivocationHorizonActive st.epoch = true → ∀ {v m},
    st.latestMessages.get? v = some m → epochOf m.slot = st.epoch →
    v ∈ ((st.epochPartition env)[m.slot % SLOTS_PER_EPOCH]?).getD []

theorem ForkKept.sound (kept : ForkKept env st)
    (active : env.gates.forkchoiceEquivocationHorizonActive st.epoch = true) :
    st.fork.Sound st.epoch :=
  ⟨kept.barred, kept.kept active⟩

theorem Initial.forkKept (initial : Initial env st) : ForkKept env st := by
  obtain ⟨gen, -, l2, rfl, -⟩ := initial.eq_genesisState
  constructor <;> intros <;> simp_all [genesisState, Fork.Retains, fork, getD]

theorem ForkKept.closeEpoch (kept : ForkKept env st) : ForkKept env (CommittedState.closeEpoch env st) := by
  have fork := fork_closeEpoch env st
  obtain ⟨latest, barred, recent⟩ := Fork.mk.inj fork
  have epoch := epoch_closeEpoch env st
  -- No message is of the new epoch yet.
  have early {v : ℕ} {m : LatestMessage} (found : st.latestMessages.get? v = some m)
      (inEpoch : epochOf m.slot = st.epoch + 1) : False := by
    have below := kept.messages found
    omega
  constructor
  · rw [barred, latest, recent]
    exact kept.barred
  · intro v m found
    rw [latest] at found
    rw [epoch]
    exact (kept.messages found).trans (Nat.le_succ _)
  · intro v m held
    rw [fork] at held
    rw [epoch]
    exact (kept.record held).trans (Nat.le_succ _)
  · intro inactive
    rw [recent]
    apply kept.idle
    rw [epoch] at inactive
    simp only [Gates.forkchoiceEquivocationHorizonActive, epochGateActive, decide_eq_false_iff_not] at *
    omega
  · intro _ v m found inEpoch
    rw [latest] at found
    exact (early found (inEpoch.trans epoch)).elim
  · intro _ v m held inEpoch
    rw [fork] at held
    have below := kept.record held
    omega
  · intro _ v m found inEpoch
    rw [latest] at found
    exact (early found (inEpoch.trans epoch)).elim

theorem ForkKept.advanceTo (kept : ForkKept env st) (epoch : ℕ) : ForkKept env (st.advanceTo env epoch) := by
  unfold CommittedState.advanceTo
  induction epoch - st.epoch with
  | zero => exact kept
  | succ n ih =>
    rw [Function.iterate_succ_apply']
    exact ih.closeEpoch

theorem fork_advanceTo (env : Env) (st : CommittedState) (epoch : ℕ) :
    (st.advanceTo env epoch).fork = st.fork := by
  unfold advanceTo
  induction epoch - st.epoch with
  | zero => rfl
  | succ n ih => rw [Function.iterate_succ_apply', fork_closeEpoch, ih]

theorem recentVoteFloor_le (same : epochOf slot = epochOf blockSlot) : recentVoteFloor blockSlot ≤ slot := by
  simp only [epochOf, SLOTS_PER_EPOCH] at same
  simp only [recentVoteFloor, FORKCHOICE_EQUIVOCATION_HORIZON_SLOTS]
  omega

section

variable (block : InsideBlock env st ballot post)
include block

theorem InsideBlock.timely : ∀ att ∈ ballot.attestations, epochOf att.data.slot = st.epoch :=
  fun att among => (block.admissible att among).1

theorem InsideBlock.votes (voted : votesOf ballot.attestations v m) : epochOf m.slot = st.epoch ∧
      v ∈ ((st.epochPartition env)[m.slot % SLOTS_PER_EPOCH]?).getD [] := by
  obtain ⟨att, among, rfl, rfl⟩ := voted
  exact block.admissible att among

/-- A block takes its votes as a set. -/
theorem InsideBlock.takes (kept : ForkKept env st)
    (active : env.gates.forkchoiceEquivocationHorizonActive st.epoch = true) :
    st.fork.Takes (votesOf ballot.attestations) (recentVoteFloor ballot.slot) post.fork ∧
      ∀ v held, post.fcRecentVotes.get? v = some held → held ≠ .empty := by
  obtain ⟨roster, fork⟩ := block.fork
  have taken := accumulateForkchoice_takes roster ballot.slot active (kept.sound active) block.timely
  rw [← fork] at taken
  have recent : post.fcRecentVotes =
      (st.accumulateForkchoice env.gates roster ballot.attestations ballot.slot).fcRecentVotes :=
    congrArg Fork.fcRecentVotes fork
  rwa [← recent] at taken

omit block in
/-- A seat is of one slot of the epoch. -/
theorem slot_unique {v slot slot' : ℕ} (same : epochOf slot = epochOf slot')
    (seat : v ∈ ((st.epochPartition env)[slot % SLOTS_PER_EPOCH]?).getD [])
    (seat' : v ∈ ((st.epochPartition env)[slot' % SLOTS_PER_EPOCH]?).getD []) : slot = slot' := by
  have position : slot % SLOTS_PER_EPOCH = slot' % SLOTS_PER_EPOCH := seat_unique seat seat'
  simp only [epochOf, SLOTS_PER_EPOCH] at same position
  omega

theorem InsideBlock.forkKept_plain (kept : ForkKept env st)
    (inactive : env.gates.forkchoiceEquivocationHorizonActive st.epoch = false) : ForkKept env post := by
  obtain ⟨roster, fork⟩ := block.fork
  have plain := accumulateForkchoice_plain roster ballot.attestations ballot.slot inactive
    (fun out => (kept.barred out).1)
  rw [← fork] at plain
  obtain ⟨recent, barred, latest⟩ := plain
  have blank : post.fcRecentVotes = .empty := recent.trans (kept.idle inactive)
  have off : env.gates.forkchoiceEquivocationHorizonActive post.epoch ≠ true := by
    simp [block.epoch, inactive]
  constructor
  · intro v out
    refine ⟨barred out, ?_⟩
    rw [blank]
    exact get?_empty v
  · intro v m found
    rw [block.epoch]
    rcases latest found with before | voted
    · exact kept.messages before
    · exact (block.votes voted).1.le
  · intro v m held
    simp [Fork.Retains, CommittedState.fork, blank, getD] at held
  · exact fun _ => blank
  · exact fun active => absurd active off
  · exact fun active => absurd active off
  · exact fun active => absurd active off

theorem InsideBlock.forkKept_active
    (inside : epochOf ballot.slot = st.epoch) (kept : ForkKept env st)
    (active : env.gates.forkchoiceEquivocationHorizonActive st.epoch = true) : ForkKept env post := by
  have taken := (block.takes kept active).1
  have sound := taken.sound (kept.sound active)
    (fun m here => recentVoteFloor_le (here.trans inside.symm))
  -- Whatever a validator may be left with is seated in the epoch.
  have seat {v : ℕ} {m : LatestMessage} (candidate : st.fork.Candidate (votesOf ballot.attestations) v m)
      (here : epochOf m.slot = st.epoch) : v ∈ ((st.epochPartition env)[m.slot % SLOTS_PER_EPOCH]?).getD [] := by
    rcases candidate with committed | voted
    · exact kept.seated active committed here
    · exact (block.votes voted).2
  have free {v : ℕ} {m : LatestMessage} (held : post.fork.Retains v m) : v ∉ post.fork.fcEquivocators := by
    intro out
    simp [Fork.Retains, getD, (taken.gone out).2] at held
  have messages {v : ℕ} {m : LatestMessage} (found : post.latestMessages.get? v = some m) :
      st.fork.Candidate (votesOf ballot.attestations) v m ∧
        ∀ m', st.fork.Candidate (votesOf ballot.attestations) v m' → m'.slot ≤ m.slot := by
    have stays : v ∉ post.fork.fcEquivocators := by
      intro out
      have gone : post.latestMessages.get? v = none := (taken.gone out).1
      simp [gone] at found
    have latest := taken.latest stays
    change st.fork.Latest _ v (post.latestMessages.get? v) at latest
    rwa [found] at latest
  constructor
  · exact sound.barred
  · intro v m found
    rw [block.epoch]
    rcases (messages found).1 with before | voted
    · exact kept.messages before
    · exact (block.votes voted).1.le
  · intro v m held
    rw [block.epoch]
    rcases ((taken.record (free held) m).mp held).2 with before | voted
    · exact kept.record before
    · exact (block.votes voted).1.le
  · intro inactive
    simp [block.epoch, active] at inactive
  · intro _ v m found here
    exact sound.kept found (here.trans block.epoch)
  · intro _ v m held here
    rw [block.epoch] at here
    -- The vote retained and the latest message are of the validator's one slot.
    have candidate : st.fork.Candidate (votesOf ballot.attestations) v m :=
      ((taken.record (free held) m).mp held).2.imp_left (fun before => kept.latest active before here)
    have latest := taken.latest (free held)
    change st.fork.Latest _ v (post.latestMessages.get? v) at latest
    cases found : post.latestMessages.get? v with
    | none =>
      rw [found] at latest
      exact absurd candidate (latest m)
    | some top =>
      rw [found] at latest
      have later := latest.2 m candidate
      have below : epochOf top.slot ≤ st.epoch := by
        rcases latest.1 with before | voted
        · exact kept.messages before
        · exact (block.votes voted).1.le
      have topHere : epochOf top.slot = st.epoch := by
        apply le_antisymm below
        rw [← here]
        exact Nat.div_le_div_right later
      have slot : m.slot = top.slot :=
        slot_unique (here.trans topHere.symm) (seat candidate here) (seat latest.1 topHere)
      have root := held.root_eq (sound.kept found topHere) slot
      cases m
      cases top
      cases slot
      cases root
      rfl
  · intro _ v m found here
    rw [block.partition]
    exact seat (messages found).1 (here.trans block.epoch)

end

theorem BlockStep.forkKept (step : BlockStep env st ballot post) (reached : Reachable env st)
    (kept : ForkKept env st) : ForkKept env post := by
  obtain ⟨ahead, block⟩ := step.inside reached
  have rolled := kept.advanceTo (epochOf ballot.slot)
  cases active : env.gates.forkchoiceEquivocationHorizonActive
      (st.advanceTo env (epochOf ballot.slot)).epoch with
  | false => exact block.forkKept_plain rolled active
  | true => exact block.forkKept_active (epoch_advanceTo ahead).symm rolled active

theorem OnChain.kept (chain : OnChain env st) : Reachable env st ∧ ForkKept env st := by
  obtain ⟨start, ballots, initial, run⟩ := chain
  refine run.invariant (P := fun st => Reachable env st ∧ ForkKept env st) ?_ ?_
  · intro s ballot t step kept
    exact ⟨step.reachable kept.1, step.forkKept kept.1 kept.2⟩
  · exact ⟨⟨start, [], initial, .nil start⟩, initial.forkKept⟩

def ballotVotes (ballots : List Ballot) : List Attestation := ballots.flatMap Ballot.attestations

theorem BlockStep.takes (step : BlockStep env st ballot post) (reached : Reachable env st)
    (kept : ForkKept env st) (inside : epochOf ballot.slot = epoch)
    (active : env.gates.forkchoiceEquivocationHorizonActive epoch = true) :
    st.fork.Takes (votesOf ballot.attestations) (recentVoteFloor post.slot) post.fork ∧
      (∀ v held, post.fcRecentVotes.get? v = some held → held ≠ .empty) ∧
      ∀ v m, votesOf ballot.attestations v m → epochOf m.slot = epoch := by
  obtain ⟨ahead, block⟩ := step.inside reached
  have there : (st.advanceTo env (epochOf ballot.slot)).epoch = epoch := (epoch_advanceTo ahead).trans inside
  obtain ⟨taken, trimmed⟩ := block.takes (kept.advanceTo _) (there ▸ active)
  rw [fork_advanceTo, ← step.slots.2] at taken
  exact ⟨taken, trimmed, fun v m voted => (block.votes voted).1.trans there⟩

/-- Blocks of one epoch take their votes together. -/
theorem takes_of_run (run : Run (BlockStep env) st ballots post)
    (some_ : ballots ≠ []) (reached : Reachable env st) (kept : ForkKept env st)
    (inside : ∀ ballot ∈ ballots, epochOf ballot.slot = epoch)
    (active : env.gates.forkchoiceEquivocationHorizonActive epoch = true) :
    st.fork.Takes (votesOf (ballotVotes ballots)) (recentVoteFloor post.slot) post.fork ∧
      (∀ v held, post.fcRecentVotes.get? v = some held → held ≠ .empty) ∧
      (∀ v m, votesOf (ballotVotes ballots) v m → epochOf m.slot = epoch) ∧ st.slot ≤ post.slot := by
  induction run with
  | nil => exact absurd rfl some_
  | @cons s t u ballot rest first run ih =>
    have here := inside ballot List.mem_cons_self
    obtain ⟨taken, trimmed, timely⟩ := first.takes reached kept here active
    obtain ⟨rising, slot⟩ := first.slots
    cases run with
    | nil =>
      rw [ballotVotes, List.flatMap_cons, List.flatMap_nil, List.append_nil]
      exact ⟨taken, trimmed, timely, slot ▸ rising.le⟩
    | cons next later =>
      obtain ⟨taken', trimmed', timely', rising'⟩ := ih (by simp) (first.reachable reached)
        (first.forkKept reached kept) (fun b among => inside b (List.mem_cons_of_mem _ among))
      rw [ballotVotes, List.flatMap_cons, votesOf_append]
      refine ⟨taken.trans taken' (Nat.sub_le_sub_right rising' _) ?_, trimmed', ?_, ?_⟩
      · intro v m voted
        exact recentVoteFloor_le ((timely' v m voted).trans (slot ▸ here.symm))
      · rintro v m (early | late)
        · exact timely v m early
        · exact timely' v m late
      · exact (slot ▸ rising.le : s.slot ≤ t.slot).trans rising'

theorem slot_of_run (run : Run (BlockStep env) st ballots post) :
    post.slot = ((ballots.map Ballot.slot).getLast?).getD st.slot := by
  induction run with
  | nil => rfl
  | @cons s t u ballot rest first _ ih =>
    rw [ih, List.map_cons, List.getLast?_cons, first.slots.2]
    rfl

/-- What blocks of one epoch leave of the fork choice is decided by the set of their votes and the slot of
the last one; they bar a validator exactly if two of its votes, or a vote and its committed message, name
two heads for one slot. -/
theorem equivocation_order_independent {ballots : List Ballot} {epoch : ℕ} (chain : OnChain env st)
    (active : env.gates.forkchoiceEquivocationHorizonActive epoch = true)
    (run : Run (BlockStep env) st ballots post) (inside : ∀ ballot ∈ ballots, epochOf ballot.slot = epoch) :
    (∀ ballots' post', Run (BlockStep env) st ballots' post' →
      (∀ ballot ∈ ballots', epochOf ballot.slot = epoch) →
      votesOf (ballotVotes ballots') = votesOf (ballotVotes ballots) →
      (ballots'.map Ballot.slot).getLast? = (ballots.map Ballot.slot).getLast? →
      post'.fork = post.fork) ∧
    ∀ v, v ∈ post.fcEquivocators ↔ v ∈ st.fcEquivocators ∨
      ∃ m m', (st.latestMessages.get? v = some m ∨ votesOf (ballotVotes ballots) v m) ∧
        votesOf (ballotVotes ballots) v m' ∧ m.slot = m'.slot ∧ m.root ≠ m'.root := by
  obtain ⟨reached, kept⟩ := chain.kept
  cases ballots with
  | nil =>
    cases run
    constructor
    · intro ballots' post' run' _ _ last
      cases ballots' with
      | nil =>
        cases run'
        rfl
      | cons ballot rest => simp [List.getLast?_cons] at last
    · simp [ballotVotes, votesOf]
  | cons ballot rest =>
    obtain ⟨taken, trimmed, timely, -⟩ := takes_of_run run (by simp) reached kept inside active
    -- The first block brings the state into the epoch.
    have ahead : st.epoch ≤ epoch := by
      cases run with
      | cons first _ => exact inside ballot List.mem_cons_self ▸ (first.inside reached).1
    have there : (st.advanceTo env epoch).epoch = epoch := epoch_advanceTo ahead
    have fork := fork_advanceTo env st epoch
    have latest : (st.advanceTo env epoch).latestMessages = st.latestMessages :=
      congrArg Fork.latestMessages fork
    have rolled := kept.advanceTo epoch
    have on : env.gates.forkchoiceEquivocationHorizonActive (st.advanceTo env epoch).epoch = true := by
      rw [there]
      exact active
    have sound : st.fork.Sound epoch := by
      have sound := rolled.sound on
      rwa [fork, there] at sound
    constructor
    · intro ballots' post' run' inside' votes last
      cases ballots' with
      | nil => simp [List.getLast?_cons] at last
      | cons ballot' rest' =>
        obtain ⟨taken', trimmed', -⟩ := takes_of_run run' (by simp) reached kept inside' active
        have slot : post'.slot = post.slot := by rw [slot_of_run run', slot_of_run run, last]
        rw [votes, slot] at taken'
        exact taken'.unique sound timely taken trimmed' trimmed
    · intro v
      refine (taken.barred v).trans (or_congr_right ?_)
      constructor
      · rintro ⟨m, m', held, voted, slot, root⟩
        refine ⟨m, m', held.imp_left (fun retained => ?_), voted, slot, root⟩
        rw [← fork] at retained
        rw [← latest]
        exact rolled.latest on retained ((slot ▸ timely v m' voted).trans there.symm)
      · rintro ⟨m, m', held, voted, slot, root⟩
        refine ⟨m, m', held.imp_left (fun found => ?_), voted, slot, root⟩
        exact sound.kept found (slot ▸ timely v m' voted)

end

def ballotBlock (env : Env) (pre : CommittedState) (ballot : Ballot) : ProposalEnvelope :=
  votingBlock env pre (.ofNat _ ballot.slot) 0 ballot.attestations

instance (c : Crypto) (attestations : List Attestation) : Decidable (Apart c attestations) :=
  inferInstanceAs (Decidable (∀ a ∈ attestations, ∀ b ∈ attestations, _))

def playBallot (env : Env) (pre : CommittedState) (ballot : Ballot) : Option CommittedState :=
  let envelope := ballotBlock env pre ballot
  if envelope.header.slot = ballot.slot ∧ Apart env.crypto ballot.attestations then
    (computePostState env pre envelope ballot.attestations []).toOption
  else none

theorem run_of_playBallots
    (played : ballots.foldlM (playBallot env) st = some post) : Run (BlockStep env) st ballots post := by
  refine .of_foldlM_some (fun {st ballot post} first => ?_) played
  simp only [playBallot, Option.ite_none_right_eq_some] at first
  obtain ⟨⟨slot, apart⟩, accepted⟩ := first
  exact ⟨ballotBlock env st ballot, [], toOption_eq_some_iff.mp accepted, slot, apart⟩

/-- Two votes for slot 0, in two blocks and in one. -/
theorem double_vote_barred_either_way :
    let env := Env.accepting { Gates.shipped with forkchoiceEquivocationHorizon := 0 }
    let vote (head : Bytes32) : Attestation := ⟨0, ⟨0, head, 0, 0, 1, head⟩, []⟩
    ∃ post post', Run (BlockStep env) (genesisState env (.small 1)) [⟨1, [vote 7]⟩, ⟨2, [vote 8]⟩] post ∧
      Run (BlockStep env) (genesisState env (.small 1)) [⟨1, []⟩, ⟨2, [vote 8, vote 7]⟩] post' ∧
      post'.fork = post.fork ∧ 0 ∈ post.fcEquivocators := by
  intro env vote
  have initial : Initial env (genesisState env (.small 1)) := initial_genesisState (by decide +kernel)
  have chain : OnChain env (genesisState env (.small 1)) := ⟨_, [], initial, .nil _⟩
  have split : ([⟨1, [vote 7]⟩, ⟨2, [vote 8]⟩].foldlM (playBallot env)
      (genesisState env (.small 1))).isSome = true := by decide +kernel
  have together : ([⟨1, []⟩, ⟨2, [vote 8, vote 7]⟩].foldlM (playBallot env)
      (genesisState env (.small 1))).isSome = true := by decide +kernel
  obtain ⟨post, played⟩ := Option.isSome_iff_exists.mp split
  obtain ⟨post', played'⟩ := Option.isSome_iff_exists.mp together
  have run := run_of_playBallots played
  have run' := run_of_playBallots played'
  have active : env.gates.forkchoiceEquivocationHorizonActive 0 = true := by decide
  obtain ⟨same, barred⟩ := equivocation_order_independent chain active run (by decide)
  refine ⟨post, post', run, run', same _ _ run' (by decide) ?_ rfl, (barred 0).mpr (.inr ?_)⟩
  · have among (att : Attestation) : att ∈ ballotVotes [⟨1, []⟩, ⟨2, [vote 8, vote 7]⟩] ↔
        att ∈ ballotVotes [⟨1, [vote 7]⟩, ⟨2, [vote 8]⟩] := by
      simp [ballotVotes, or_comm]
    funext v m
    simp only [votesOf, among]
  · refine ⟨⟨0, 7⟩, ⟨0, 8⟩, .inr ⟨vote 7, ?_, rfl, rfl⟩, ⟨vote 8, ?_, rfl, rfl⟩, rfl, by decide⟩ <;>
      simp [ballotVotes]

end CommittedState

end BlochPos
