import BlochPos.Finality.Run

/-! The engine as a fold from genesis: what holds at every state it reaches,
whatever votes and rosters it is offered. -/
namespace BlochPos.FinalityState

section

variable (g : Gates) (genesis : Checkpoint) (history : List EpochVotes)

/-- The state after a history of calls. A refused call leaves it as it was. -/
def fold : FinalityState :=
  history.foldl (fun st votes => (st.processEpoch g votes).2) (new genesis)

theorem fold_append (votes : EpochVotes) : fold g genesis (history ++ [votes]) =
    ((fold g genesis history).processEpoch g votes).2 := by
  simp only [fold, List.foldl_append, List.foldl_cons, List.foldl_nil]

theorem fold_reachable : Reachable g genesis (fold g genesis history) := by
  induction history using List.reverseRecOn with
  | nil => exact .new
  | append_singleton history votes ih =>
    rw [fold_append]
    exact .epoch votes ih

end

/-- What a later state keeps of an earlier one. -/
structure Extends (before after : FinalityState) : Prop where
  current : before.currentJustified.epoch ≤ after.currentJustified.epoch
  finalized : before.finalized.epoch ≤ after.finalized.epoch
  justified : ∀ epoch root, before.justified.get? epoch = some root → after.justified.get? epoch = some root

theorem extends_processEpoch {st : FinalityState} (coherent : st.Coherent) (g : Gates)
    (votes : EpochVotes) : st.Extends (st.processEpoch g votes).2 := by
  by_cases order : votes.epoch = st.nextEpoch
  · obtain ⟨outcome, next, accepted⟩ := processEpoch_accepted g order
    have step := recorded accepted
    rw [accepted]
    exact ⟨step.current_le coherent, step.finalized_mono, fun _ _ => step.justified_kept coherent⟩
  · rw [processEpoch_refused order]
    exact ⟨le_rfl, le_rfl, fun _ _ entry => entry⟩

/-- At every state of the fold the checkpoints are coherent, and any further call only adds to them: it
justifies exactly the root that has a quorum, finalizes exactly the source of an adjacent justified epoch
that is new and on the chain's own side, and refuses any other epoch untouched. -/
theorem fold_invariants (g : Gates) (genesis : Checkpoint) (history : List EpochVotes) :
    let st := fold g genesis history
    (st.justified.get? st.currentJustified.epoch = some st.currentJustified.root ∧
      (∀ epoch root, st.justified.get? epoch = some root → epoch ≤ st.currentJustified.epoch) ∧
      st.justified.get? st.finalized.epoch = some st.finalized.root ∧
      st.finalized.epoch ≤ st.currentJustified.epoch ∧
      st.currentJustified.epoch < st.nextEpoch) ∧
    ∀ votes : EpochVotes,
      let after := (st.processEpoch g votes).2
      let counted := st.opened g votes
      let weight := fun root => (counted.tally g votes).getD root 0
      let total := counted.totalActive g votes
      (st.currentJustified.epoch ≤ after.currentJustified.epoch ∧ st.finalized.epoch ≤ after.finalized.epoch ∧
        ∀ epoch root, st.justified.get? epoch = some root → after.justified.get? epoch = some root) ∧
      (∀ root root', 0 < total → total * 2 ≤ weight root * 3 → total * 2 ≤ weight root' * 3 → root = root') ∧
      (∀ outcome, (st.processEpoch g votes).1 = .ok outcome →
        (∀ cp, outcome.justified = some cp ↔
          cp.epoch = votes.epoch ∧ 0 < total ∧ total * 2 ≤ weight cp.root * 3) ∧
        (∀ cp, outcome.finalized = some cp ↔ cp = st.currentJustified ∧
          (∃ target, outcome.justified = some target ∧ target.epoch = cp.epoch + 1) ∧
          st.finalized.epoch < cp.epoch ∧ st.sourceIsOwn g votes = true)) ∧
      (votes.epoch ≠ st.nextEpoch →
        st.processEpoch g votes = (.error (.outOfOrderEpoch votes.epoch st.nextEpoch), st)) := by
  intro st
  have coherent : st.Coherent := (fold_reachable g genesis history).coherent
  refine ⟨⟨coherent.current_mem, coherent.current_max, coherent.finalized_mem,
    coherent.finalized_le, coherent.current_lt⟩, ?_⟩
  intro votes after counted weight total
  have grown := extends_processEpoch coherent g votes
  refine ⟨⟨grown.current, grown.finalized, grown.justified⟩, ?_, ?_, processEpoch_refused⟩
  · intro root root' positive left right
    exact quorum_unique (by simpa [reachesQuorum] using ⟨positive, left⟩)
      (by simpa [reachesQuorum] using ⟨positive, right⟩)
  · intro outcome answer
    have accepted : st.processEpoch g votes = (.ok outcome, after) := Prod.ext answer rfl
    refine ⟨?_, (recorded accepted).finalizes⟩
    intro cp
    rw [(processEpoch_ok accepted).2.1, justifiedNow_eq_some_iff]
    simp [reachesQuorum, weight, total, counted]

def stakelessVotes : EpochVotes where
  epoch := 1
  activeSet := [⟨1, 0⟩, ⟨2, 0⟩]
  attestations := [(1, ⟨32, 5, 0, 0, 1, 5⟩), (2, ⟨32, 7, 0, 0, 1, 7⟩)]

def firstVotes : EpochVotes where
  epoch := 1
  activeSet := [⟨1, 10⟩]
  attestations := [(1, ⟨32, 5, 0, 0, 1, 5⟩)]

/-- Without stake two roots meet the bare two-thirds comparison, and an epoch
justified on top of an already finalized source reports no finalization. -/
theorem bare_quorum_and_finalized_source : (let counted := (new ⟨0, 0⟩).opened .shipped stakelessVotes
      let total := counted.totalActive .shipped stakelessVotes
      ∃ w w', (counted.tally .shipped stakelessVotes).get? 5 = some w ∧
        (counted.tally .shipped stakelessVotes).get? 7 = some w' ∧
        w * 3 ≥ total * 2 ∧ w' * 3 ≥ total * 2) ∧
    ((new ⟨0, 0⟩).processEpoch .shipped firstVotes).1 = .ok ⟨some ⟨1, 5⟩, none, ∅⟩ := by
  refine ⟨⟨0, 0, ?_⟩, ?_⟩
  · decide
  · decide

end BlochPos.FinalityState
