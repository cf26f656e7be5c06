import BlochPos.Finality.Tally

/-! What an accepted epoch does to the engine's state, and runs of accepted epochs. -/
namespace BlochPos.FinalityState

open SortedMap

variable {g : Gates} {st next : FinalityState} {votes : EpochVotes} {outcome : EpochOutcome}
  {history : List EpochVotes} {final : FinalityState}

section

variable (g : Gates) (st : FinalityState) (votes : EpochVotes)

theorem openFinalitySet_eq : ∃ set, st.openFinalitySet g votes = { st with finalitySet := set } := by
  unfold openFinalitySet
  cases present : st.finalitySet with
  | none => exact ⟨_, rfl⟩
  | some fs =>
    dsimp only
    split_ifs
    · exact ⟨_, rfl⟩
    · exact ⟨some fs, by rw [← present]⟩

theorem opened_eq : ∃ set, st.opened g votes =
    { st with nextEpoch := st.nextEpoch + 1, finalitySet := set } := by
  unfold opened
  dsimp only
  split_ifs
  · obtain ⟨set, eq⟩ := openFinalitySet_eq g { st with nextEpoch := st.nextEpoch + 1 } votes
    exact ⟨set, eq⟩
  · exact ⟨st.finalitySet, rfl⟩

theorem closeFinalitySet_eq (finalizedNow : Option Checkpoint) (present : SortedMap ℕ AttestationData) :
    ∃ set, st.closeFinalitySet votes finalizedNow present = { st with finalitySet := set } := by
  unfold closeFinalitySet
  cases held : st.finalitySet with
  | none => exact ⟨none, by cases st; simp_all⟩
  | some fs => exact ⟨_, rfl⟩

theorem updateLeak_eq (stake : SortedMap ℕ ℕ) (valid : SortedMap ℕ AttestationData) :
    ∃ leaked, st.updateLeak g votes stake valid = { st with leaked := leaked } := by
  unfold updateLeak
  dsimp only
  split_ifs
  all_goals exact ⟨_, rfl⟩

theorem closed_eq :
    ∃ set leaked, st.closed g votes =
      { st.record (st.justifiedNow g votes) (st.finalizedNow g votes) with
        finalitySet := set, leaked := leaked } := by
  unfold closed
  dsimp only
  split_ifs
  · obtain ⟨set, eq⟩ := closeFinalitySet_eq
      (st.record (st.justifiedNow g votes) (st.finalizedNow g votes)) votes
      (st.finalizedNow g votes) (st.soleVotes votes)
    rw [eq]
    obtain ⟨leaked, eq'⟩ := updateLeak_eq g _ votes (st.stakeMap votes) (st.validVotes g votes)
    exact ⟨set, leaked, eq'⟩
  · obtain ⟨leaked, eq⟩ := updateLeak_eq g
      (st.record (st.justifiedNow g votes) (st.finalizedNow g votes)) votes
      (st.stakeMap votes) (st.validVotes g votes)
    exact ⟨_, leaked, eq⟩

end

theorem processEpoch_ok (accepted : st.processEpoch g votes = (.ok outcome, next)) :
    votes.epoch = st.nextEpoch ∧
    outcome.justified = (st.opened g votes).justifiedNow g votes ∧
    outcome.finalized = (st.opened g votes).finalizedNow g votes ∧
    next = (st.opened g votes).closed g votes := by
  unfold processEpoch at accepted
  split_ifs at accepted with order
  · cases accepted
  · simp only [Prod.mk.injEq, Except.ok.injEq] at accepted
    obtain ⟨rfl, rfl⟩ := accepted
    exact ⟨not_not.mp order, rfl, rfl, rfl⟩

theorem processEpoch_refused (order : votes.epoch ≠ st.nextEpoch) :
    st.processEpoch g votes = (.error (.outOfOrderEpoch votes.epoch st.nextEpoch), st) := by
  simp only [processEpoch, if_pos order]

theorem processEpoch_accepted (g : Gates) (order : votes.epoch = st.nextEpoch) :
    ∃ outcome next, st.processEpoch g votes = (.ok outcome, next) := by
  simp only [processEpoch, order, ne_eq, not_true_eq_false, if_false]
  exact ⟨_, _, rfl⟩

/-- What an accepted epoch adds to the record. -/
structure Recorded (g : Gates) (st next : FinalityState) (votes : EpochVotes)
    (outcome : EpochOutcome) : Prop where
  epoch : votes.epoch = st.nextEpoch
  nextEpoch : next.nextEpoch = st.nextEpoch + 1
  justified : next.justified = outcome.justified.elim st.justified
    (fun cp => st.justified.insert cp.epoch cp.root)
  current : next.currentJustified = outcome.justified.elim st.currentJustified
    (fun cp => if st.currentJustified.epoch < cp.epoch then cp else st.currentJustified)
  finalized : next.finalized = outcome.finalized.getD st.finalized
  target : ∀ cp ∈ outcome.justified, cp.epoch = votes.epoch
  finalizes : ∀ cp, outcome.finalized = some cp ↔
    cp = st.currentJustified ∧ (∃ target ∈ outcome.justified, target.epoch = cp.epoch + 1) ∧
      st.finalized.epoch < cp.epoch ∧ st.sourceIsOwn g votes = true

theorem recorded (accepted : st.processEpoch g votes = (.ok outcome, next)) :
    Recorded g st next votes outcome := by
  obtain ⟨epoch, justified, finalized, rfl⟩ := processEpoch_ok accepted
  obtain ⟨opening, opened⟩ := opened_eq g st votes
  obtain ⟨set, leaked, closed⟩ := closed_eq g (st.opened g votes) votes
  rw [← justified, ← finalized] at closed
  have finalizes : ∀ cp, outcome.finalized = some cp ↔
      cp = st.currentJustified ∧ (∃ target ∈ outcome.justified, target.epoch = cp.epoch + 1) ∧
        st.finalized.epoch < cp.epoch ∧ st.sourceIsOwn g votes = true := by
    intro cp
    rw [finalized, finalizedNow, ← justified, opened]
    cases outcome.justified with
    | none => simp
    | some target =>
      have own : sourceIsOwn g { st with nextEpoch := st.nextEpoch + 1, finalitySet := opening }
          votes = st.sourceIsOwn g votes := rfl
      simp only [Option.bind_some, own, Option.mem_some_iff, exists_eq_left']
      split_ifs with adjacent
      · simp only [Option.some.injEq]
        constructor
        · rintro rfl
          exact ⟨rfl, adjacent.1.symm, adjacent.2⟩
        · exact fun same => same.1.symm
      · constructor
        · intro impossible
          cases impossible
        · rintro ⟨rfl, next, rest⟩
          exact absurd ⟨next.symm, rest⟩ adjacent
  rw [closed]
  refine ⟨epoch, ?_, ?_, ?_, ?_, ?_, finalizes⟩
  · cases outcome.justified <;> simp [record, opened]
  · cases outcome.justified <;> simp [record, opened]
  · cases outcome.justified <;> simp [record, opened]
  · cases found : outcome.justified with
    | none =>
      have nothing : outcome.finalized = none := by
        rw [finalized, finalizedNow, ← justified, found]
        rfl
      simp [record, opened, nothing]
    | some cp => simp [record, opened]
  · intro cp found
    exact (justifiedNow_some (justified.symm.trans found)).1

/-- The justified checkpoint in force is the newest entry, the finalized one an entry at or below
it, both before the next epoch. -/
structure Coherent (st : FinalityState) : Prop where
  current_mem : st.justified.get? st.currentJustified.epoch = some st.currentJustified.root
  current_max : ∀ epoch root, st.justified.get? epoch = some root → epoch ≤ st.currentJustified.epoch
  finalized_mem : st.justified.get? st.finalized.epoch = some st.finalized.root
  finalized_le : st.finalized.epoch ≤ st.currentJustified.epoch
  current_lt : st.currentJustified.epoch < st.nextEpoch

theorem coherent_new (genesis : Checkpoint) : (new genesis).Coherent where
  current_mem := by simp [new]
  current_max := by
    intro epoch root found
    simp only [new, get?_insert] at found
    split_ifs at found with same
    · exact same.le
    · simp at found
  finalized_mem := by simp [new]
  finalized_le := le_rfl
  current_lt := Nat.lt_succ_self _

section

variable (step : Recorded g st next votes outcome)
include step

theorem Recorded.justified_of_coherent
    (coherent : st.Coherent) (found : outcome.justified = some cp) :
    st.currentJustified.epoch < cp.epoch ∧ st.justified.get? cp.epoch = none ∧
      next.justified = st.justified.insert cp.epoch cp.root ∧ next.currentJustified = cp := by
  have epoch : cp.epoch = st.nextEpoch := (step.target cp found).trans step.epoch
  have above : st.currentJustified.epoch < cp.epoch := epoch ▸ coherent.current_lt
  refine ⟨above, ?_, ?_, ?_⟩
  · cases old : st.justified.get? cp.epoch with
    | none => rfl
    | some root => exact absurd (coherent.current_max _ _ old) (not_le.mpr above)
  · rw [step.justified, found]
    rfl
  · rw [step.current, found]
    exact if_pos above

/-- Entries are only added. -/
theorem Recorded.justified_kept (coherent : st.Coherent)
    {epoch : ℕ} (entry : st.justified.get? epoch = some root) :
    next.justified.get? epoch = some root := by
  cases found : outcome.justified with
  | none => rw [step.justified, found]; exact entry
  | some cp =>
    obtain ⟨_, fresh, eq, _⟩ := step.justified_of_coherent coherent found
    have other : epoch ≠ cp.epoch := ne_of_absent entry fresh
    rw [eq, get?_insert_of_ne _ _ other]
    exact entry

theorem Recorded.current_le (coherent : st.Coherent) :
    st.currentJustified.epoch ≤ next.currentJustified.epoch := by
  cases found : outcome.justified with
  | none =>
    rw [step.current, found]
    exact le_rfl
  | some cp =>
    obtain ⟨above, _, _, eq⟩ := step.justified_of_coherent coherent found
    rw [eq]
    exact above.le

theorem Recorded.finalized_mono : st.finalized.epoch ≤ next.finalized.epoch := by
  rw [step.finalized]
  cases found : outcome.finalized with
  | none => exact le_rfl
  | some cp => exact ((step.finalizes cp).mp found).2.2.1.le

theorem Recorded.coherent (coherent : st.Coherent) : next.Coherent := by
  have finalizedEntry : st.justified.get? next.finalized.epoch = some next.finalized.root ∧
      next.finalized.epoch ≤ st.currentJustified.epoch := by
    rw [step.finalized]
    cases found : outcome.finalized with
    | none => exact ⟨coherent.finalized_mem, coherent.finalized_le⟩
    | some cp =>
      obtain ⟨rfl, _⟩ := (step.finalizes cp).mp found
      exact ⟨coherent.current_mem, le_rfl⟩
  have finalizedKept := step.justified_kept coherent finalizedEntry.1
  have finalizedLe := finalizedEntry.2.trans (step.current_le coherent)
  cases found : outcome.justified with
  | none =>
    have same : next.currentJustified = st.currentJustified := by rw [step.current, found]; rfl
    have map : next.justified = st.justified := by rw [step.justified, found]; rfl
    refine ⟨?_, ?_, finalizedKept, finalizedLe, ?_⟩
    · rw [same, map]
      exact coherent.current_mem
    · rw [same, map]
      exact coherent.current_max
    · rw [same, step.nextEpoch]
      exact Nat.lt_succ_of_lt coherent.current_lt
  | some cp =>
    obtain ⟨above, _, map, eq⟩ := step.justified_of_coherent coherent found
    refine ⟨?_, ?_, finalizedKept, finalizedLe, ?_⟩
    · rw [eq, map, get?_insert_self]
    · intro epoch root entry
      rw [map, get?_insert] at entry
      rw [eq]
      split_ifs at entry with same
      · exact same.le
      · exact (coherent.current_max _ _ entry).trans above.le
    · rw [eq, step.nextEpoch, step.target cp found, step.epoch]
      exact Nat.lt_succ_self _

end

theorem coherent_processEpoch (coherent : st.Coherent) (votes : EpochVotes) :
    (st.processEpoch g votes).2.Coherent := by
  by_cases order : votes.epoch = st.nextEpoch
  · obtain ⟨outcome, next, accepted⟩ := processEpoch_accepted g order
    rw [accepted]
    exact (recorded accepted).coherent coherent
  · rw [processEpoch_refused order]
    exact coherent

theorem coherent_recordOwnCheckpoint (coherent : st.Coherent) (epoch : ℕ) (root : Bytes32) :
    (st.recordOwnCheckpoint epoch root).Coherent :=
  ⟨coherent.current_mem, coherent.current_max, coherent.finalized_mem, coherent.finalized_le,
    coherent.current_lt⟩

/-- States the engine can be in: epochs are offered and the chain's own
checkpoints are recorded in any order. -/
inductive Reachable (g : Gates) (genesis : Checkpoint) : FinalityState → Prop where
  | new : Reachable g genesis (FinalityState.new genesis)
  | epoch {st : FinalityState} (votes : EpochVotes) : Reachable g genesis st →
      Reachable g genesis (st.processEpoch g votes).2
  | ownCheckpoint {st : FinalityState} (epoch : ℕ) (root : Bytes32) : Reachable g genesis st →
      Reachable g genesis (st.recordOwnCheckpoint epoch root)

theorem Reachable.coherent (reached : Reachable g genesis st) : st.Coherent := by
  induction reached with
  | new => exact coherent_new genesis
  | epoch votes _ ih => exact coherent_processEpoch ih votes
  | ownCheckpoint epoch root _ ih => exact coherent_recordOwnCheckpoint ih epoch root

/-- Epochs accepted one after another. -/
inductive Run (g : Gates) : FinalityState → List EpochVotes → List EpochOutcome → FinalityState → Prop where
  | nil (st : FinalityState) : Run g st [] [] st
  | cons {st next final votes outcome history outcomes} :
      st.processEpoch g votes = (.ok outcome, next) → Run g next history outcomes final →
      Run g st (votes :: history) (outcome :: outcomes) final

theorem Run.justified_kept (run : Run g st history outcomes final) (coherent : st.Coherent)
    (entry : st.justified.get? epoch = some root) :
    final.justified.get? epoch = some root := by
  induction run with
  | nil => exact entry
  | cons accepted _ ih =>
    exact ih ((recorded accepted).coherent coherent)
      ((recorded accepted).justified_kept coherent entry)

end BlochPos.FinalityState
