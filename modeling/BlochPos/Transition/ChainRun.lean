import BlochPos.Transition.BlockRun

/-! Runs as blocks make them: inside an epoch nothing is credited to anybody who has left. -/
namespace BlochPos

open Attempt List

theorem mem_of_mem_sample (drawn : i ∈ sample c beaconMix index role validators k) :
    i ∈ validators.map Validator.index := by
  have eligible : ∀ v ∈ ((validators.filter (fun v => 0 < v.effectiveStake)).insertionSort
      (fun a b => a.index ≤ b.index)).destutter (fun a b => a.index ≠ b.index),
      v.index ∈ validators.map Validator.index := by
    intro v among
    have sorted := (destutter_sublist _ _).subset among
    rw [mem_insertionSort] at sorted
    exact mem_map_of_mem (mem_of_mem_filter sorted)
  simp only [sample] at drawn
  split_ifs at drawn
  · cases drawn
  · obtain ⟨v, among, rfl⟩ := mem_map.mp drawn
    exact eligible v among
  · rw [mem_insertionSort, mem_filterMap] at drawn
    obtain ⟨position, -, found⟩ := drawn
    obtain ⟨v, held, rfl⟩ := Option.map_eq_some_iff.mp found
    exact eligible v (mem_of_getElem? held)

namespace CommittedState

/-- A registered validator, activated and not yet out. -/
def OnDuty (st : CommittedState) (i : ℕ) : Prop :=
  ∃ r, st.validators.get? i = some r ∧ r.isActiveAt st.epoch = true

/-- Fees are credited to validators on duty only. -/
def CreditsOnDuty (st post : CommittedState) : Prop :=
  ∀ i, post.pendingFeeRewards.get? i = st.pendingFeeRewards.get? i ∨ st.OnDuty i

/-- An event as it happens in a block. -/
def ChainStep (env : Env) (st : CommittedState) (event : Event) (post : CommittedState) : Prop :=
  Step env st event post ∧ (event ≠ .closeEpoch → st.CreditsOnDuty post)

section

variable {st : CommittedState}

theorem Step.onDuty (step : Step env st event post) (inside : event ≠ .closeEpoch)
    (small : st.epoch < u64Max) (duty : st.OnDuty i) : post.OnDuty i := by
  obtain ⟨r, found, active⟩ := duty
  obtain ⟨r', found', same⟩ := (step.registryKept inside small).kept found
  have epoch := step.epoch_eq inside
  exact ⟨r', found', epoch ▸ same.isActiveAt_eq.trans active⟩

theorem creditsOnDuty_of_eq (same : post.pendingFeeRewards = st.pendingFeeRewards) : st.CreditsOnDuty post :=
  fun _ => .inl (by rw [same])

theorem creditsOnDuty_of_credit (duty : st.OnDuty i)
    (credited : post.pendingFeeRewards = if 0 < amount then st.pendingFeeRewards.addAt i amount
      else st.pendingFeeRewards) : st.CreditsOnDuty post := by
  intro j
  by_cases here : j = i
  · exact .inr (here ▸ duty)
  · refine .inl ?_
    rw [credited]
    split_ifs
    · exact SortedMap.get?_insert_of_ne _ _ here
    · rfl

theorem Step.chain (step : Step env st event post) (noEvidence : ∀ e, event ≠ .evidence e)
    (noFees : ∀ credit, event ≠ .fees credit) : ChainStep env st event post := by
  refine ⟨step, fun inside => ?_⟩
  cases step.effect with
  | transaction accepted =>
    refine creditsOnDuty_of_eq ?_
    cases accepted with
    | bridge _ bridged => exact bridged.state ▸ rfl
    | _ => rfl
  | evidence => exact absurd rfl (noEvidence _)
  | fees => exact absurd rfl (noFees _)
  | vote | proposer | forkchoice | prepareL2 | finish => exact creditsOnDuty_of_eq rfl
  | closeEpoch => exact absurd rfl inside

theorem chain_of_applyInBlock {charge : TxCharge} (applied : exec (applyInBlock env terms tx) st = (.ok charge, post))
    (duty : st.OnDuty terms.proposerIndex) : ChainStep env st (.inBlock tx charge) post := by
  have step := step_of_applyInBlock applied
  cases tx with
  | slashingEvidence e =>
    refine ⟨step, fun _ => ?_⟩
    obtain ⟨p, planned, rfl⟩ := applySlashingEvidence_eq_ok_iff.mp (applyInBlock_evidence applied).1
    have rewarded : p.outcome.includingProposer = terms.proposerIndex := by
      simp only [planSlashingEvidence, ok_iff] at planned
      obtain ⟨-, -, -, -, -, rfl⟩ := planned
      rfl
    rw [← rewarded] at duty
    exact creditsOnDuty_of_credit duty rfl
  | _ => exact step.chain (fun _ same => by cases same) (fun _ same => by cases same)

/-- The proposer was drawn from the roster of the epoch. -/
theorem onDuty_of_seatProposer
    (seated : seatProposer env st envelope (st.consensusRosterAt env.gates st.epoch) = .ok post) :
    st.OnDuty envelope.header.proposerIndex := by
  simp only [seatProposer, ok_iff, ne_eq, not_not] at seated
  have drawn := mem_of_head? seated.1
  have member := mem_of_mem_sample drawn
  rw [map_index_consensusRosterAt, SortedMap.mem_keys_iff] at member
  obtain ⟨r, listed⟩ := member
  rw [SortedMap.get?_filter, Option.filter_eq_some_iff] at listed
  exact ⟨r, listed⟩

theorem onDuty_of_run (run : Run (Step env) st events post)
    (inside : ∀ event ∈ events, event ≠ .closeEpoch) (small : st.epoch < 2 ^ 59) (duty : st.OnDuty i) :
    post.OnDuty i := by
  have guarded : Run (fun s event t => s.OnDuty i ∧ s.epoch < 2 ^ 59 →
      Step env s event t ∧ t.OnDuty i ∧ t.epoch < 2 ^ 59) st events post := by
    refine run.mono (fun among step held => ⟨step, ?_, step.epoch_lt held.2⟩)
    exact step.onDuty (inside _ among) (held.2.trans (by decide)) held.1
  exact (guarded.guarded ⟨duty, small⟩).2.1

theorem openBlock_chain (done : openBlock env st envelope attestations transactions = .ok opened) :
    opened.2.OnDuty opened.1.proposerIndex ∧ opened.2.epoch < 2 ^ 59 := by
  obtain ⟨_, votes, ahead, proposer, -, seating, run⟩ := openBlock_eq_ok done
  have small : (st.advanceTo env (epochOf envelope.header.slot)).epoch < 2 ^ 59 :=
    (epoch_advanceTo ahead).trans_lt (epochOf_lt envelope.header)
  constructor
  · rw [proposer]
    refine onDuty_of_run run ?_ small (onDuty_of_seatProposer seating)
    rintro event among rfl
    simp at among
  · exact run.invariant (P := fun s => s.epoch < 2 ^ 59) Step.epoch_lt small

theorem applyTransactions_chain
    (applied : applyTransactions env terms st transactions = .ok m) (small : st.epoch < 2 ^ 59)
    (duty : st.OnDuty terms.proposerIndex) :
    ∃ charges : List TxCharge, charges.length = transactions.length ∧
      Run (ChainStep env) st (List.zipWith Event.inBlock transactions charges) m.state ∧
      m.state.OnDuty terms.proposerIndex := by
  obtain ⟨charges, length, guarded⟩ := applyTransactions_runs
    (R := fun s event t => s.OnDuty terms.proposerIndex ∧ s.epoch < 2 ^ 59 →
      ChainStep env s event t ∧ t.OnDuty terms.proposerIndex ∧ t.epoch < 2 ^ 59) (by
    rintro s t tx charge accepted ⟨duty, small⟩
    have step := step_of_applyInBlock accepted
    have inside : Event.inBlock tx charge ≠ .closeEpoch := by cases tx <;> (intro same; cases same)
    exact ⟨chain_of_applyInBlock accepted duty, step.onDuty inside (small.trans (by decide)) duty,
      step.epoch_lt small⟩) applied
  obtain ⟨chain, kept, -⟩ := guarded.guarded ⟨duty, small⟩
  exact ⟨charges, length, chain, kept⟩

end

/-- A block is proposed by a validator on duty, and its events credit nobody else: after its epoch closes come
the votes it brings in time, its transactions in order, and the settlement of their fees. -/
theorem blocks_credit_who_is_on_duty (env : Env) :
    (∀ st envelope attestations transactions post,
      computePostState env st envelope attestations transactions = .ok post →
      (st.advanceTo env (epochOf envelope.header.slot)).OnDuty envelope.header.proposerIndex) ∧
    ∀ st envelope attestations transactions post,
      computePostState env st envelope attestations transactions = .ok post →
      ∃ (votes : List Attestation) (charges : List TxCharge) (creditSat : ℕ),
        votes.Sublist attestations ∧ charges.length = transactions.length ∧
        Run (ChainStep env) st (List.replicate (epochOf envelope.header.slot - st.epoch) .closeEpoch ++
          blockEvents votes (List.zipWith Event.inBlock transactions charges) creditSat) post := by
  refine ⟨fun st envelope attestations transactions post computed => ?_,
    fun st envelope attestations transactions post computed => ?_⟩
  all_goals
    simp only [computePostState, runBlock, ok_iff] at computed
    obtain ⟨_, ⟨opened, opening, applied, applying, rfl⟩, -, finished⟩ := computed
  · obtain ⟨_, _, -, -, -, seating, -⟩ := openBlock_eq_ok opening
    exact onDuty_of_seatProposer seating
  obtain ⟨votes, sub, before⟩ := openBlock_run opening
  obtain ⟨duty, small⟩ := openBlock_chain opening
  obtain ⟨charges, length, inside, kept⟩ := applyTransactions_chain applying small duty
  have opens : Run (ChainStep env) st _ opened.2 := before.mono (fun among step => by
    refine step.chain (fun e same => ?_) (fun credit same => ?_) <;>
    · subst same
      simp at among)
  have settled : ChainStep env applied.state
      (.fees (applied.producerCredit env.gates opened.1.epoch envelope.header.slot))
      (applied.settleFees env.gates opened.1 envelope.header.slot).state :=
    ⟨.fees, fun _ => creditsOnDuty_of_credit kept rfl⟩
  have last : ChainStep env _ .bookkeeping post := (Step.finish finished).chain (by simp) (by simp)
  have all := ((opens.append inside).append (.single settled)).append (.single last)
  exact ⟨votes, charges, _, sub, length, by simpa [blockEvents] using all⟩

/-- A block of epoch 1 with the vote of the only validator. -/
theorem first_block_on_duty : let env := Env.accepting .shipped
    let start := genesisState env (.small 1)
    let block := votingBlock env start 33 0 [soleVote]
    ∃ post votes charges creditSat, computePostState env start block [soleVote] [] = .ok post ∧
      (start.advanceTo env (epochOf block.header.slot)).OnDuty block.header.proposerIndex ∧ Run (ChainStep env) start
        (List.replicate (epochOf block.header.slot - start.epoch) .closeEpoch ++
          blockEvents votes (List.zipWith Event.inBlock [] charges) creditSat) post := by
  intro env start block
  have accepted : (computePostState env start block [soleVote] []).isOk = true := by decide +kernel
  obtain ⟨post, computed⟩ := exists_of_isOk accepted
  obtain ⟨duty, events⟩ := blocks_credit_who_is_on_duty env
  obtain ⟨votes, charges, creditSat, -, -, run⟩ := events _ _ _ _ _ computed
  exact ⟨post, votes, charges, creditSat, computed, duty _ _ _ _ _ computed, run⟩

end CommittedState

end BlochPos
