import BlochPos.Transition.Run

/-! What a withdrawal claim relies on: a settlement below the finalized epoch, by the few checkpoint
roots kept. -/
namespace BlochPos

open Attempt SortedMap

namespace L2

variable {st : State} {log : RootLog} {finalizedEpoch : ℕ} {slotOf : ℕ → ℕ}

/-- The checkpoint roots a layer was told, none dropped. -/
structure RootLog where
  (epoch finalized : ℕ)
  roots : SortedMap ℕ Bytes32

namespace RootLog

def after (log : RootLog) : Call → RootLog
  | .checkpoint epoch root finalizedEpoch => ⟨epoch, finalizedEpoch, log.roots.insert epoch root⟩
  | _ => log

/-- A boundary records the next epoch. Finality stays, or is at one of the last epochs recorded. -/
def Admits (log : RootLog) : Call → Prop
  | .checkpoint epoch _ finalizedEpoch => epoch = log.epoch + 1 ∧ epoch ≤ u64Max ∧
      (finalizedEpoch = log.finalized ∨ log.epoch ≤ finalizedEpoch + 1)
  | _ => True

instance (log : RootLog) : (call : Call) → Decidable (log.Admits call)
  | .checkpoint _ _ _ => inferInstanceAs (Decidable (_ ∧ _))
  | .deposit _ | .data _ _ _ | .claim _ | .settle _ _ _ _ | .prepare _ _ | .advance => isTrue trivial

end RootLog

/-- An accepted call, beside the log of all roots. -/
def Logged (c : Crypto) (v : SignatureVerifier) (s : State × RootLog) (call : Call) (t : State × RootLog) :
    Prop :=
  Accepts c v s.1 call t.1 ∧ s.2.Admits call ∧ t.2 = s.2.after call

/-- Kept are the roots of the finalized epoch and of the latest. -/
structure Retains (st : State) (log : RootLog) : Prop where
  kept : ∀ {epoch root}, st.checkpointRoots.get? epoch = some root →
    epoch ≤ log.epoch ∧ (epoch = log.finalized ∨ log.epoch ≤ epoch + 2)
  agrees : ∀ {epoch}, epoch = log.finalized ∨ log.epoch ≤ epoch + 2 →
    st.checkpointRoots.get? epoch = log.roots.get? epoch

theorem Retains.record
    (retains : Retains st log) (admits : log.Admits (.checkpoint epoch root finalizedEpoch)) :
    Retains (st.recordCheckpointRoot epoch root finalizedEpoch)
      (log.after (.checkpoint epoch root finalizedEpoch)) := by
  obtain ⟨rfl, fits, advances⟩ := admits
  refine ⟨fun {e value} found => ?_, fun {e} inWindow => ?_⟩
  · simp only [State.recordCheckpointRoot, get?_filter, Option.filter_eq_some_iff, decide_eq_true_eq]
      at found
    obtain ⟨found, inWindow⟩ := found
    refine ⟨?_, inWindow.imp_right (le_trans · (Nat.min_le_left _ _))⟩
    obtain ⟨rfl, -⟩ | ⟨-, older⟩ := get?_insert_cases found
    · exact le_rfl
    · exact (retains.kept older).1.trans (Nat.le_succ _)
  · simp only [RootLog.after] at inWindow ⊢
    have passes : e = finalizedEpoch ∨ log.epoch + 1 ≤ satAdd u64Max e 2 := inWindow.imp_right (le_min · fits)
    rw [State.recordCheckpointRoot, get?_filter_of_kept _ (by simpa using passes), get?_insert, get?_insert]
    split_ifs
    · rfl
    · exact retains.agrees (by omega)

theorem Logged.retains (logged : Logged c v s call t) (retains : Retains s.1 s.2) : Retains t.1 t.2 := by
  obtain ⟨st, log⟩ := s
  obtain ⟨post, log'⟩ := t
  obtain ⟨accepts, admits, rfl⟩ := logged
  cases accepts.change with
  | checkpoint => exact retains.record admits
  | deposit | data | claim | settle | prepare | advance => exact ⟨retains.kept, retains.agrees⟩

theorem Retains.few (retains : Retains st log) : st.checkpointRoots.size ≤ 4 := by
  have listed : st.checkpointRoots.keys ⊆
      [log.finalized, log.epoch, log.epoch - 1, log.epoch - 2] := by
    intro epoch held
    obtain ⟨root, found⟩ := mem_keys_iff.mp held
    have := retains.kept found
    simp only [List.mem_cons, List.not_mem_nil, or_false]
    omega
  calc st.checkpointRoots.size = st.checkpointRoots.keys.length := (List.length_map _).symm
    _ ≤ 4 := (List.subperm_of_subset st.checkpointRoots.keys_nodup listed).length_le

theorem slot_below (rises : ∀ h < tip, slotOf h < slotOf (h + 1))
    (below : height ≤ tip) : slotOf height + (tip - height) ≤ slotOf tip := by
  induction tip, below using Nat.le_induction with
  | base => simp
  | succ tip below ih =>
    have := ih (fun h lower => rises h (lower.trans (Nat.lt_succ_self _)))
    have := rises tip (Nat.lt_succ_self _)
    omega

theorem slot_of_recordFinalized
    (rises : ∀ h < tip, slotOf h < slotOf (h + 1))
    (finalized : recordFinalized height tip (slotOf tip) finalizedEpoch = true) :
    slotOf height < finalizedEpoch * SLOTS_PER_EPOCH := by
  simp only [recordFinalized, decide_eq_true_eq] at finalized
  obtain ⟨below, early⟩ := finalized
  calc slotOf height ≤ slotOf tip - (tip - height) := Nat.le_sub_of_add_le (slot_below rises below)
    _ < satMul u64Max finalizedEpoch SLOTS_PER_EPOCH := early
    _ ≤ finalizedEpoch * SLOTS_PER_EPOCH := Nat.min_le_left _ _

end L2

/-- Claims are paid only from settlements below the finalized epoch, and from the gate on only where
the finalized checkpoint is the chain's own. Dropping old roots changes no answer. -/
theorem claims_rely_on_finality {env : Env} {start l2 : L2.State} {calls : List L2.Call} {epoch : ℕ}
    {finalized : ℕ} {log : L2.RootLog} (started : L2.State.Started env.crypto start)
    (run : Run (L2.Logged env.crypto env.verifier) (start, ⟨epoch, finalized, .empty⟩) calls (l2, log))
    {st : CommittedState} (current : st.finalityEngine.finalized.epoch = log.finalized) :
    l2.checkpointRoots.size ≤ 4 ∧
    (∀ height, st.l2RecordFinalizedForClaim env.gates l2 height =
      st.l2RecordFinalizedForClaim env.gates { l2 with checkpointRoots := log.roots } height) ∧
    ∀ (slotOf : ℕ → ℕ) (height : ℕ), (∀ h < l2.nativeHeight, slotOf h < slotOf (h + 1)) →
      st.slot = slotOf l2.nativeHeight → st.l2RecordFinalizedForClaim env.gates l2 height = true →
      slotOf height < st.finalityEngine.finalized.epoch * SLOTS_PER_EPOCH ∧
      (env.gates.nativeClaimFinalityActive st.epoch = true →
        log.roots.get? st.finalityEngine.finalized.epoch = some st.finalityEngine.finalized.root) := by
  have retains : L2.Retains l2 log := by
    refine run.invariant (P := fun s => L2.Retains s.1 s.2) L2.Logged.retains ?_
    obtain ⟨-, -, -, rfl⟩ := started.eq_blank
    exact ⟨fun found => absurd found (by simp [L2.State.blank]), fun _ => rfl⟩
  have same := retains.agrees (.inl current)
  refine ⟨retains.few, fun height => ?_, fun slotOf height rises tip accepted => ?_⟩
  · simp only [CommittedState.l2RecordFinalizedForClaim, same]
  · simp only [CommittedState.l2RecordFinalizedForClaim, tip, same, decide_eq_true_eq] at accepted
    exact ⟨L2.slot_of_recordFinalized rises accepted.1, fun active => accepted.2.resolve_left (by simp [active])⟩

def L2.playLogged (c : Crypto) (v : SignatureVerifier) (s : L2.State × L2.RootLog) (call : L2.Call) :
    Option (L2.State × L2.RootLog) :=
  if s.2.Admits call then (call.play c v s.1).map (·, s.2.after call) else none

theorem L2.logged_of_play (played : L2.playLogged c v s call = some t) : L2.Logged c v s call t := by
  simp only [L2.playLogged, Option.ite_none_right_eq_some, Option.map_eq_some_iff] at played
  obtain ⟨admits, post, accepted, rfl⟩ := played
  exact ⟨L2.accepts_of_play accepted, admits, rfl⟩

/-- Seventy blocks, then the boundaries of epochs 1 and 2. -/
def L2.rootCalls (root : Bytes32) : List L2.Call :=
  List.replicate 70 .advance ++ [.checkpoint 1 root 0, .checkpoint 2 9 1]

namespace CommittedState

/-- The sole validator finalizes the root 7 of epoch 1, and a block of slot 97 follows. -/
def finalizingRun (env : Env) : Option CommittedState := do
  let st ← playAll env (genesisState env (.small 1)) [.closeEpoch, .vote ⟨0, ⟨32, 1, 0, 1, 1, 7⟩, []⟩,
    .closeEpoch, .vote ⟨0, ⟨64, 1, 1, 7, 2, 9⟩, []⟩, .closeEpoch]
  (finishBlock env.crypto st ⟨0, 0, 0, 0, 97, 0, 0, 0, 0, 0, 0, 0, by decide⟩).toOption

theorem reachable_of_finalizingRun (started : (genesis env (.small 1)).isSome) (ran : finalizingRun env = some st) :
    Reachable env st := by
  obtain ⟨closed, played, finished⟩ := Option.bind_eq_some_iff.mp ran
  exact ⟨_, _, initial_genesisState started,
    (run_of_playAll played).append (.single (.finish (toOption_eq_some_iff.mp finished)))⟩

end CommittedState

theorem own_checkpoint_relied_on : let env := Env.accepting { Gates.shipped with claimFinality := 0 }
    ∃ st l2 log, CommittedState.Reachable env st ∧ Run (L2.Logged env.crypto env.verifier)
        (.plain, ⟨0, 0, .empty⟩) (L2.rootCalls 7) (l2, log) ∧ l2.nativeHeight = 70 ∧
      st.l2RecordFinalizedForClaim env.gates l2 3 = true ∧
      log.roots.get? 1 = some st.finalityEngine.finalized.root := by
  intro env
  have relies : (CommittedState.finalizingRun env).any (fun st =>
      ((L2.rootCalls 7).foldlM (L2.playLogged env.crypto env.verifier) (L2.State.plain, ⟨0, 0, .empty⟩)).any
        (fun s => st.finalityEngine.finalized.epoch = 1 ∧ s.2.finalized = 1 ∧ s.1.nativeHeight = 70 ∧ st.slot = 97 ∧
          st.epoch = 3 ∧ st.l2RecordFinalizedForClaim env.gates s.1 3 = true)) = true := by decide +kernel
  simp only [Option.any_eq_true, decide_eq_true_eq] at relies
  obtain ⟨st, ran, ⟨l2, log⟩, played, finalized, logged, height, slot, epoch, accepted⟩ := relies
  have run := Run.of_foldlM_some L2.logged_of_play played
  have relied := (@claims_rely_on_finality env _ _ _ _ _ _ L2.State.started_plain run st
    (finalized.trans logged.symm)).2.2
  have own := (relied (27 + ·) 3 (fun h _ => by omega) (by rw [slot, height]) accepted).2 (by rw [epoch]; rfl)
  exact ⟨st, l2, log, CommittedState.reachable_of_finalizingRun (by decide +kernel) ran, run, height, accepted,
    finalized ▸ own⟩

/-- Before the gate a claim is accepted although the finalized checkpoint is another chain's. -/
theorem foreign_checkpoint_accepted : let env := Env.accepting .shipped
    ∃ st l2, CommittedState.Reachable env st ∧
      Run (L2.Accepts env.crypto env.verifier) .plain (L2.rootCalls 8) l2 ∧
      st.slot = 27 + l2.nativeHeight ∧ st.l2RecordFinalizedForClaim env.gates l2 3 = true ∧
      l2.checkpointRoots.get? st.finalityEngine.finalized.epoch ≠ some st.finalityEngine.finalized.root := by
  intro env
  have relies : (CommittedState.finalizingRun env).any (fun st =>
      (L2.playAll env.crypto env.verifier .plain (L2.rootCalls 8)).any (fun l2 => st.slot = 27 + l2.nativeHeight ∧
        st.l2RecordFinalizedForClaim env.gates l2 3 = true ∧ l2.checkpointRoots.get?
          st.finalityEngine.finalized.epoch ≠ some st.finalityEngine.finalized.root)) = true := by decide +kernel
  simp only [Option.any_eq_true, decide_eq_true_eq] at relies
  obtain ⟨st, ran, l2, played, relied⟩ := relies
  exact ⟨st, l2, CommittedState.reachable_of_finalizingRun (by decide +kernel) ran, L2.run_of_playAll played, relied⟩

end BlochPos
