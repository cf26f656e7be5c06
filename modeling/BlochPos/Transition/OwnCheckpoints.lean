import BlochPos.Transition.InEpoch
import BlochPos.Finality.OwnChain

/-! The own checkpoints of a committed chain, whose engine moves only where an epoch closes. -/
namespace BlochPos.CommittedState

section

variable {env : Env} {st post : CommittedState} {event : Event}

theorem steady_engine : Steady (fun st => (st.finalityEngine, st.head)) where
  record _ _ _ := rfl
  ledgers _ _ _ _ := rfl
  issues _ _ _ _ := rfl

theorem finalityEngine_closeEpoch (env : Env) (st : CommittedState) :
    (closeEpoch env st).finalityEngine = if env.gates.ownTargetVotesActive (st.epoch + 1) then
      (st.tallyVotes env).finalityEngine.recordOwnCheckpoint (st.epoch + 1) st.head
      else (st.tallyVotes env).finalityEngine := by
  obtain ⟨settled, close, same⟩ := steady_engine.closeEpoch env st
  obtain ⟨commits, bound, l2, engine, lifecycle, entered, -, -, checkpoint, -⟩ :=
    settled.enterEpoch_eq env (st.epoch + 1)
  obtain ⟨counted, head⟩ := Prod.ext_iff.mp same
  have tallied : (st.tallyVotes env).head = st.head := by
    unfold tallyVotes
    split_ifs <;> rfl
  have reached : (closeEpoch env st).finalityEngine = engine := by
    rw [close, entered]
    rfl
  rw [reached, checkpoint, ← tallied]
  simp only at counted head
  rw [counted, head]

/-- The engine waits for the votes of the epoch; genesis has none. -/
def Clocked (st : CommittedState) : Prop := st.finalityEngine.nextEpoch = max st.epoch 1

theorem Clocked.processEpoch (env : Env) (clocked : st.Clocked) (later : 1 ≤ st.epoch) :
    ∃ outcome counted, st.finalityEngine.processEpoch env.gates (st.boundaryVotes env) =
      (.ok outcome, counted) ∧ (st.tallyVotes env).finalityEngine = counted := by
  have expected : (st.boundaryVotes env).epoch = st.finalityEngine.nextEpoch := by
    rw [clocked, max_eq_left later]
    rfl
  obtain ⟨outcome, counted, accepted⟩ := FinalityState.processEpoch_accepted env.gates expected
  refine ⟨outcome, counted, accepted, ?_⟩
  rw [tallyVotes, if_neg (by omega), accepted]

theorem Step.clocked (step : Step env st event post) (clocked : st.Clocked) : post.Clocked := by
  by_cases inside : event = .closeEpoch
  · subst inside
    cases step with
    | closeEpoch =>
      have recorded : ((CommittedState.closeEpoch env st).finalityEngine).nextEpoch =
          (st.tallyVotes env).finalityEngine.nextEpoch := by
        rw [finalityEngine_closeEpoch]
        split_ifs <;> rfl
      rw [Clocked, recorded, epoch_closeEpoch]
      by_cases later : 1 ≤ st.epoch
      · obtain ⟨outcome, counted, accepted, tallied⟩ := clocked.processEpoch env later
        rw [tallied, (FinalityState.recorded accepted).nextEpoch, clocked]
        omega
      · rw [tallyVotes, if_pos (by omega), clocked]
        omega
  · have epoch := step.epoch_eq inside
    have engine : post.finalityEngine = st.finalityEngine :=
      congrArg Frozen.finalityEngine (step.frozen_eq inside)
    rw [Clocked, engine, epoch]
    exact clocked

theorem Initial.clocked (initial : Initial env st) : st.Clocked := by
  obtain ⟨gen, -, l2, rfl, -⟩ := initial.eq_genesisState
  rfl

/-- An event that names the head of every epoch it closes. -/
def NamedStep (env : Env) (root : ℕ → Bytes32) (st : CommittedState) (event : Event)
    (post : CommittedState) : Prop :=
  Step env st event post ∧ (event = .closeEpoch → root (st.epoch + 1) = st.head)

theorem Reachable.closes (reached : Reachable env st)
    (later : 1 ≤ st.epoch) (active : env.gates.ownTargetVotesActive (st.epoch + 1) = true)
    (run : Run (NamedStep env root) st events post) :
    ∃ labels, Run (OwnChain.Closes env.gates FinalityState.recordOwnCheckpoint root) st.finalityEngine
      labels post.finalityEngine := by
  have clocked : st.Clocked := reached.invariant Initial.clocked Step.clocked
  clear reached
  induction run with
  | nil => exact ⟨[], .nil _⟩
  | @cons s t u event rest first _ ih =>
    obtain ⟨step, named⟩ := first
    have ticking := step.clocked clocked
    by_cases inside : event = .closeEpoch
    · subst inside
      cases step with
      | closeEpoch =>
        obtain ⟨outcome, counted, accepted, tallied⟩ := clocked.processEpoch env later
        have closed : OwnChain.Closes env.gates FinalityState.recordOwnCheckpoint root s.finalityEngine
            (s.boundaryVotes env, outcome) (closeEpoch env s).finalityEngine := by
          refine ⟨counted, accepted, ?_⟩
          rw [finalityEngine_closeEpoch, if_pos active, tallied, ← named rfl]
          rfl
        have further : env.gates.ownTargetVotesActive ((closeEpoch env s).epoch + 1) = true := by
          rw [epoch_closeEpoch]
          exact OwnChain.active_of_le active (Nat.le_succ _)
        obtain ⟨labels, run⟩ := ih (by rw [epoch_closeEpoch]; omega) further ticking
        exact ⟨_, .cons closed run⟩
    · have epoch := step.epoch_eq inside
      have engine : t.finalityEngine = s.finalityEngine :=
        congrArg Frozen.finalityEngine (step.frozen_eq inside)
      rw [epoch, engine] at ih
      exact ih later active ticking

end

/-- The finality of a chain is that of its engine: an epoch counted and a checkpoint recorded for each epoch
closed. From a state of its own checkpoints no run justifies or finalizes anything but a head the chain had. -/
theorem chain_finalizes_own (env : Env) (root : ℕ → Bytes32) :
    (∀ st events post, Reachable env st → 1 ≤ st.epoch → env.gates.ownTargetVotesActive (st.epoch + 1) = true →
      Run (NamedStep env root) st events post → ∃ labels,
        Run (OwnChain.Closes env.gates FinalityState.recordOwnCheckpoint root) st.finalityEngine labels
          post.finalityEngine) ∧
    ∀ st events post, Reachable env st → 1 ≤ st.epoch → env.gates.ownTargetVotesActive st.epoch = true →
      OwnChain.Own root st.finalityEngine → Run (NamedStep env root) st events post →
      (∀ e r, post.finalityEngine.justified.get? e = some r →
        st.finalityEngine.justified.get? e = some r ∨ r = root e) ∧
      (post.finalityEngine.finalized = st.finalityEngine.finalized ∨
        post.finalityEngine.finalized.root = root post.finalityEngine.finalized.epoch) := by
  refine ⟨fun st events post reached later active run => reached.closes later active run, ?_⟩
  intro st events post reached later active own run
  obtain ⟨labels, counts⟩ := reached.closes later (OwnChain.active_of_le active (Nat.le_succ _)) run
  have clocked : st.Clocked := reached.invariant Initial.clocked Step.clocked
  have next : st.finalityEngine.nextEpoch = st.epoch := clocked.trans (max_eq_left later)
  have start : OwnChain.Grown root st.finalityEngine st.finalityEngine :=
    ⟨own, le_rfl, fun _ _ found => .inl found, .inl rfl⟩
  obtain ⟨-, grown⟩ := OwnChain.reports_of_run (next ▸ active) start counts
  exact ⟨grown.justified, grown.finalized⟩

/-- The sole validator finalizes the head of its chain. -/
theorem sole_chain_finalized : let env := Env.accepting { Gates.shipped with ownTargetVotes := 0 }
    let events : List Event := [.vote ⟨0, ⟨32, 1, 0, 1, 1, 1⟩, []⟩, .closeEpoch,
      .vote ⟨0, ⟨64, 1, 1, 1, 2, 1⟩, []⟩, .closeEpoch]
    ∃ st post, Run (Step env) (genesisState env (.small 1)) [.closeEpoch] st ∧
      Run (NamedStep env (fun _ => 1)) st events post ∧ post.finalityEngine.finalized = ⟨1, 1⟩ ∧
      ∀ e r, post.finalityEngine.justified.get? e = some r → st.finalityEngine.justified.get? e = some r ∨ r = 1 := by
  intro env events
  have initial : Initial env (genesisState env (.small 1)) := initial_genesisState (by decide +kernel)
  let named (s : CommittedState) (event : Event) := if s.head = 1 then play env s event else none
  have finalizes : (playAll env (genesisState env (.small 1)) [.closeEpoch]).any (fun st => st.epoch = 1 ∧
      (∀ e ∈ st.finalityEngine.ownCheckpoints.entries, e.2 = 1) ∧ st.finalityEngine.currentJustified.root = 1 ∧
      (events.foldlM named st).any (fun post => post.finalityEngine.finalized = ⟨1, 1⟩)) = true := by decide +kernel
  simp only [Option.any_eq_true, decide_eq_true_eq] at finalizes
  obtain ⟨st, played, epoch, known, justified, post, played', finalized⟩ := finalizes
  have start := run_of_playAll played
  have run : Run (NamedStep env (fun _ => 1)) st events post := by
    refine .of_foldlM_some (fun {s event t} taken => ?_) played'
    obtain ⟨head, taken⟩ := Option.ite_none_right_eq_some.mp taken
    exact ⟨step_of_play taken, fun _ => head.symm⟩
  have own : OwnChain.Own (fun _ => 1) st.finalityEngine :=
    ⟨fun e r found => known (e, r) (SortedMap.get?_eq_some_iff.mp found), justified⟩
  have grown := (chain_finalizes_own env (fun _ => 1)).2 st events post ⟨_, _, initial, start⟩ epoch.ge
    (by rw [epoch]; decide) own run
  exact ⟨st, post, start, run, finalized, grown.1⟩

end BlochPos.CommittedState
