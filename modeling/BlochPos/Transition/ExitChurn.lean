import BlochPos.Transition.InEpoch

/-! The churn limit on voluntary exits, which are counted by the exit epochs they left. -/
namespace BlochPos

open Attempt SortedMap

def Event.isExitV2 : Event → Bool
  | .transaction (.exitV2 ..) _ => true
  | _ => false

def exitsAccepted (events : List Event) : ℕ := events.countP Event.isExitV2

namespace CommittedState

def exitsLeft (st : CommittedState) : ℕ := MAX_EXITS_PER_EPOCH - st.voluntaryExitsThisEpoch

/-- Evidence against a validator that asked to leave in this very epoch is what
the count does not survive. -/
def SparesLeavers (st : CommittedState) : Event → Prop
  | .evidence e => ∀ r ∈ st.validators.get? e.offender, r.exitEpoch ≠ st.epoch + EXIT_DELAY_EPOCHS
  | _ => True

def leftIn (epoch : ℕ) (r : ValidatorRecord) : ℕ :=
  if r.exitEpoch ≠ u64Max ∧ r.exitEpoch = satAdd u64Max epoch EXIT_DELAY_EPOCHS then 1 else 0

theorem voluntaryExitsThisEpoch_eq (st : CommittedState) :
    st.voluntaryExitsThisEpoch = st.validators.sum (fun _ r => leftIn st.epoch r) := by
  simp only [voluntaryExitsThisEpoch, values, sum]
  induction st.validators.entries with
  | nil => rfl
  | cons e rest ih =>
    rw [List.map_cons, List.countP_cons, ih, List.map_cons, List.sum_cons, leftIn, add_comm]
    congr 1
    simp

section

variable {epoch : ℕ} {r : ValidatorRecord}

theorem satAdd_exitDelay (small : epoch < 2 ^ 59) :
    satAdd u64Max epoch EXIT_DELAY_EPOCHS = epoch + EXIT_DELAY_EPOCHS := by
  simp only [satAdd, u64Max, EXIT_DELAY_EPOCHS]
  omega

theorem leftIn_of_remains (epoch : ℕ) (remains : r.exitEpoch = u64Max) : leftIn epoch r = 0 := by
  simp [leftIn, remains]

theorem leftIn_exited (small : epoch < 2 ^ 59) : leftIn epoch (r.exited epoch) = 1 := by
  have finite : epoch + EXIT_DELAY_EPOCHS ≠ u64Max := by
    simp only [u64Max, EXIT_DELAY_EPOCHS]
    omega
  simp [leftIn, ValidatorRecord.exited, satAdd_exitDelay small, finite]

theorem leftIn_punished (small : epoch < 2 ^ 59) (g : Gates) (lossSat : ℕ) :
    leftIn epoch (r.punished g epoch lossSat) = 0 := by
  have early : (r.punished g epoch lossSat).exitEpoch ≤ epoch + 1 := by
    simp only [ValidatorRecord.punished, satAdd]
    omega
  have late : (r.punished g epoch lossSat).exitEpoch ≠ epoch + EXIT_DELAY_EPOCHS := by
    simp only [EXIT_DELAY_EPOCHS]
    omega
  simp [leftIn, satAdd_exitDelay small, late]

theorem leftIn_of_spared (small : epoch < 2 ^ 59) (spared : r.exitEpoch ≠ epoch + EXIT_DELAY_EPOCHS) :
    leftIn epoch r = 0 := by
  simp [leftIn, satAdd_exitDelay small, spared]

theorem RecordChange.leftIn_le {env : Env} {st : CommittedState} (change : RecordChange env st event m)
    (noEvidence : ∀ e, event ≠ .evidence e) :
    st.validators.sum (fun _ r => leftIn st.epoch r) ≤ m.sum (fun _ r => leftIn st.epoch r) := by
  cases change with
  | same => exact le_rfl
  | added index =>
    rw [sum_insert_of_absent (index ▸ st.get?_nextIndex)]
    exact Nat.le_add_right _ _
  | amended found | repriced found | rotated found =>
    apply le_of_add_le_add_right
    exact (sum_insert_of_get? found ..).ge
  | @exited i r found remains =>
    have traded := sum_insert_of_get? found (r.exited st.epoch) (fun _ r => leftIn st.epoch r)
    have before := leftIn_of_remains st.epoch remains
    omega
  | punished _ slash => exact absurd slash (noEvidence _)

end

section

variable {env : Env} {st : CommittedState}

/-- A punished validator no longer counts among those that leave. -/
theorem Step.exits_of_evidence (step : Step env st (.evidence e) post) (small : st.epoch < 2 ^ 59) :
    ∃ r, st.validators.get? e.offender = some r ∧
      post.voluntaryExitsThisEpoch + leftIn st.epoch r = st.voluntaryExitsThisEpoch := by
  have epoch := step.epoch_eq (by simp)
  obtain ⟨r, lossSat, found, punished⟩ := step.punishes
  have traded := sum_insert_of_get? found (r.punished env.gates st.epoch lossSat)
    (fun _ r => leftIn st.epoch r)
  have out := leftIn_punished small env.gates lossSat (r := r)
  refine ⟨r, found, ?_⟩
  simp only [voluntaryExitsThisEpoch_eq, epoch, punished]
  omega

theorem Step.exitsLeft_le_of_evidence (step : Step env st (.evidence e) post)
    (small : st.epoch < 2 ^ 59) : st.exitsLeft ≤ post.exitsLeft := by
  obtain ⟨r, -, exits⟩ := step.exits_of_evidence small
  simp only [exitsLeft]
  omega

theorem Step.exitsLeft_of_spared (step : Step env st (.evidence e) post)
    (spares : st.SparesLeavers (.evidence e)) (small : st.epoch < 2 ^ 59) :
    post.exitsLeft ≤ st.exitsLeft := by
  obtain ⟨r, found, exits⟩ := step.exits_of_evidence small
  have spared := leftIn_of_spared small (spares r found)
  simp only [exitsLeft]
  omega

theorem Step.exitsLeft_of_exitV2 {charge : TxCharge} {epoch : ℕ}
    (step : Step env st (.transaction (.exitV2 pubkeyHash epoch signature) charge) post)
    (small : st.epoch < 2 ^ 59) : post.exitsLeft + 1 ≤ st.exitsLeft := by
  cases step with
  | transaction applied =>
    cases accepted_of_applyTransaction applied with
    | bridge isBridge => simp [PosTransaction.isBridge] at isBridge
    | @exitV2 _ _ _ p _ planned =>
      obtain ⟨r, found, remains, exited, room⟩ := planExitV2_eq_ok planned
      have traded := sum_insert_of_get? found p.2 (fun _ r => leftIn st.epoch r)
      have before := leftIn_of_remains st.epoch remains
      have after : leftIn st.epoch p.2 = 1 := exited ▸ leftIn_exited small
      rw [voluntaryExitsThisEpoch_eq] at room
      simp only [exitsLeft, voluntaryExitsThisEpoch_eq, setRecord]
      omega

theorem Step.exitsLeft_add_le (step : Step env st event post) (inside : event ≠ .closeEpoch)
    (spares : st.SparesLeavers event) (small : st.epoch < 2 ^ 59) :
    post.exitsLeft + (if event.isExitV2 then 1 else 0) ≤ st.exitsLeft := by
  by_cases evidence : ∃ e, event = .evidence e
  · obtain ⟨e, rfl⟩ := evidence
    exact step.exitsLeft_of_spared spares small
  · by_cases exits : event.isExitV2 = true
    · match event, exits with
      | .transaction (.exitV2 ..) _, _ => exact step.exitsLeft_of_exitV2 small
    · have epoch := step.epoch_eq inside
      have grows := (step.recordChange inside).leftIn_le (fun e same => evidence ⟨e, same⟩)
      simp only [exitsLeft, voluntaryExitsThisEpoch_eq, epoch, exits]
      exact Nat.sub_le_sub_left grows _

theorem exitsAccepted_le_exitsLeft (small : st.epoch < 2 ^ 59)
    (run : Run (fun s event t => Step env s event t ∧ event ≠ .closeEpoch ∧ s.SparesLeavers event)
      st events post) : exitsAccepted events ≤ st.exitsLeft := by
  induction run with
  | nil => exact Nat.zero_le _
  | cons first _ ih =>
    obtain ⟨step, inside, spares⟩ := first
    have shrinks := step.exitsLeft_add_le inside spares small
    have later := ih (step.epoch_lt small)
    simp only [exitsAccepted, List.countP_cons] at later ⊢
    omega

/-- In an epoch in which no validator is slashed after asking to leave, the
limit holds; and evidence, whoever it is against, leaves at least the room there was. -/
theorem exit_churn_bounded {events : List Event} (reached : Reachable env st)
    (run : Run (fun s event t => Step env s event t ∧ event ≠ .closeEpoch ∧ s.SparesLeavers event)
      st events post) :
    exitsAccepted events ≤ MAX_EXITS_PER_EPOCH - st.voluntaryExitsThisEpoch ∧
      exitsAccepted events ≤ MAX_EXITS_PER_EPOCH ∧
      ∀ {seen e after}, Reachable env seen → Step env seen (.evidence e) after →
        MAX_EXITS_PER_EPOCH - seen.voluntaryExitsThisEpoch ≤
          MAX_EXITS_PER_EPOCH - after.voluntaryExitsThisEpoch := by
  have bounded := exitsAccepted_le_exitsLeft reached.epoch_lt run
  exact ⟨bounded, bounded.trans (Nat.sub_le ..), fun seen step => step.exitsLeft_le_of_evidence seen.epoch_lt⟩

end

/-- Exits and evidence are open from the start. -/
def openExits : Env := .accepting { Gates.shipped with exitAuth := 0, slashingEvidence := 0 }

def exitOf (i : ℕ) : Event := .transaction (.exitV2 (toHash [UInt8.ofNat i]) 0 []) (.free 0 0)

/-- Four may leave. -/
theorem exit_churn_of_four :
    exitsAccepted [exitOf 0, exitOf 1, exitOf 2, exitOf 3] ≤ MAX_EXITS_PER_EPOCH := by
  let start := genesisState openExits (.small 5)
  have played : (playAll openExits start [exitOf 0, exitOf 1, exitOf 2, exitOf 3]).isSome := by
    decide +kernel
  obtain ⟨post, played⟩ := Option.isSome_iff_exists.mp played
  have reached : Reachable openExits start :=
    ⟨start, [], initial_genesisState (by decide +kernel), .nil start⟩
  refine (exit_churn_bounded reached ((run_of_playAll played).mono (fun among step => ⟨step, ?_⟩))).2.1
  simp only [List.mem_cons, List.not_mem_nil, or_false] at among
  rcases among with rfl | rfl | rfl | rfl <;> exact ⟨by simp [exitOf], trivial⟩

/-- Four leave, one of them is slashed, and a fifth leaves in the same epoch. -/
theorem slashed_leaver_frees_a_fifth_exit :
    ∃ st post events, Initial openExits st ∧ Run (Step openExits) st events post ∧
      Event.closeEpoch ∉ events ∧ MAX_EXITS_PER_EPOCH < exitsAccepted events := by
  let start := genesisState openExits (.small 5)
  let events := [exitOf 0, exitOf 1, exitOf 2, exitOf 3, .evidence (doubleVoteOf 0), exitOf 4]
  have played : (playAll openExits start events).isSome := by decide +kernel
  obtain ⟨post, played⟩ := Option.isSome_iff_exists.mp played
  exact ⟨start, post, events, initial_genesisState (by decide +kernel), run_of_playAll played,
    by simp [events, exitOf], by decide⟩

end CommittedState

end BlochPos
