import BlochPos.Transition.BondsLeft

/-! Leaving is final, whether a validator asked for it or was slashed. -/
namespace BlochPos.CommittedState

open SortedMap

/-- The validator is registered and leaves by the epoch. -/
def LeavesBy (last i : ℕ) (st : CommittedState) : Prop := ∃ r, st.validators.get? i = some r ∧ r.exitEpoch ≤ last

section

variable {st post : CommittedState} {r r' : ValidatorRecord}

theorem LeavesBy.amend (leaves : st.LeavesBy last i) (found : st.validators.get? k = some r)
    (amended : post.validators = st.validators.insert k r') (exit : r'.exitEpoch ≤ r.exitEpoch) :
    post.LeavesBy last i := by
  obtain ⟨old, there, early⟩ := leaves
  rw [LeavesBy, amended]
  by_cases here : i = k
  · subst here
    cases there.symm.trans found
    exact ⟨r', get?_insert_self .., exit.trans early⟩
  · exact ⟨old, (get?_insert_of_ne _ _ here).trans there, early⟩

theorem Step.leavesBy (step : Step env st event post) (leaves : st.LeavesBy last i) : post.LeavesBy last i := by
  by_cases closes : event = .closeEpoch
  · subst closes
    cases step
    obtain ⟨r, found, early⟩ := leaves
    have locks := locks_closeEpoch env st i
    rw [found, Option.map_some, Option.map_eq_some_iff] at locks
    obtain ⟨r', found', same⟩ := locks
    exact ⟨r', found', (Prod.mk.inj same).1 ▸ early⟩
  have change := step.recordChange closes
  generalize after : post.validators = m at change
  cases change with
  | same => simpa only [LeavesBy, after] using leaves
  | @added r index =>
    obtain ⟨old, there, early⟩ := leaves
    have other : i ≠ r.index := ne_of_absent there (index ▸ st.get?_nextIndex)
    exact ⟨old, after ▸ (get?_insert_of_ne _ _ other).trans there, early⟩
  | amended found | repriced found | rotated found => exact leaves.amend found after le_rfl
  | exited found remains => exact leaves.amend found after (remains ▸ min_le_right _ _)
  | punished found => exact leaves.amend found after (min_le_left _ _)

theorem LeavesBy.not_seated {epoch : ℕ} (leaves : st.LeavesBy last i) (g : Gates) (gone : last ≤ epoch) :
    i ∉ (st.consensusRosterAt g epoch).map Validator.index := by
  obtain ⟨r, found, early⟩ := leaves
  rw [map_index_consensusRosterAt, mem_keys_iff]
  rintro ⟨r', listed⟩
  rw [get?_filter, found, Option.filter_eq_some_iff] at listed
  cases listed.1
  simp only [ValidatorRecord.isActiveAt, decide_eq_true_eq] at listed
  omega

end

/-- Whatever happens after a validator has asked to leave or was slashed, no roster of its exit epoch, or of
one after the slash, has it, and no block of its exit epoch on is its own: no event puts an exit off. -/
theorem leaving_is_final (env : Env) :
    (∀ st events post i r, Run (Step env) st events post → st.validators.get? i = some r →
      (∀ epoch, r.exitEpoch ≤ epoch → i ∉ (post.consensusRosterAt env.gates epoch).map Validator.index) ∧
      ∀ envelope attestations transactions next,
        computePostState env post envelope attestations transactions = .ok next →
        r.exitEpoch ≤ epochOf envelope.header.slot → envelope.header.proposerIndex ≠ i) ∧
    ∀ st e events post, Run (Step env) st (.evidence e :: events) post →
      ∀ epoch, st.epoch < epoch → e.offender ∉ (post.consensusRosterAt env.gates epoch).map Validator.index := by
  constructor
  · intro st events post i r run found
    have leaves {events post} (run : Run (Step env) st events post) : post.LeavesBy r.exitEpoch i :=
      run.invariant Step.leavesBy ⟨r, found, le_rfl⟩
    refine ⟨fun epoch gone => (leaves run).not_seated env.gates gone, ?_⟩
    rintro envelope attestations transactions next computed gone rfl
    simp only [computePostState, runBlock, Attempt.ok_iff] at computed
    obtain ⟨_, ⟨_, opening, _⟩, _⟩ := computed
    obtain ⟨_, _, ahead, -, -, seating, -⟩ := openBlock_eq_ok opening
    obtain ⟨_, there, duty⟩ := onDuty_of_seatProposer seating
    simp only [ValidatorRecord.isActiveAt, decide_eq_true_eq] at duty
    obtain ⟨_, again, early⟩ := leaves (run.append (advanceTo_run ahead))
    cases there.symm.trans again
    rw [epoch_advanceTo ahead] at duty
    omega
  · intro st e events post run epoch later
    cases run with
    | cons slash rest =>
      obtain ⟨r, lossSat, -, punished⟩ := slash.punishes
      have early : (r.punished env.gates st.epoch lossSat).exitEpoch ≤ st.epoch + 1 :=
        (min_le_right _ _).trans (min_le_left _ _)
      have leaves := rest.invariant Step.leavesBy (P := LeavesBy (st.epoch + 1) e.offender)
        ⟨_, punished ▸ get?_insert_self .., early⟩
      exact leaves.not_seated env.gates later

/-- One of two validators is slashed, and the other proposes in the next epoch. -/
theorem slashed_validator_stays_out : let env := Env.accepting { Gates.shipped with slashingEvidence := 0 }
    ∃ post next, Run (Step env) (genesisState env (.small 2)) [.evidence (doubleVoteOf 0), .closeEpoch] post ∧
      computePostState env post (votingBlock env post 33 1 []) [] [] = .ok next ∧
      0 ∉ (post.consensusRosterAt env.gates 1).map Validator.index := by
  intro env
  have played : (playAll env (genesisState env (.small 2)) [.evidence (doubleVoteOf 0), .closeEpoch]).any (fun post =>
      (computePostState env post (votingBlock env post 33 1 []) [] []).isOk) = true := by decide +kernel
  simp only [Option.any_eq_true] at played
  obtain ⟨post, played, accepted⟩ := played
  obtain ⟨next, computed⟩ := Attempt.exists_of_isOk accepted
  have run := run_of_playAll played
  exact ⟨post, next, run, computed, (leaving_is_final env).2 _ _ _ _ run 1 Nat.zero_lt_one⟩

end BlochPos.CommittedState
