import BlochPos.Transition.InEpoch

/-! A block is a run: its epoch closes, its proposer's seating, its votes, its transactions in
order, and the settlement of their fees. -/
namespace BlochPos

open Attempt

def Event.inBlock (tx : PosTransaction) (charge : TxCharge) : Event :=
  match tx with
  | .slashingEvidence e => .evidence e
  | tx => .transaction tx charge

def blockEvents (votes : List Attestation) (transactions : List Event) (creditSat : ℕ) : List Event :=
  .bookkeeping :: (votes.map .vote ++ .bookkeeping :: .bookkeeping :: (transactions ++
    [.fees creditSat, .bookkeeping]))

namespace CommittedState

section

variable {env : Env} {st post : CommittedState} {transactions : List PosTransaction} {header : BlockHeaderV4}
  {slot : ℕ} {m : BlockMeter}

theorem epoch_iterate_closeEpoch (env : Env) (st : CommittedState) (n : ℕ) :
    ((closeEpoch env)^[n] st).epoch = st.epoch + n := by
  induction n with
  | zero => rfl
  | succ n ih => rw [Function.iterate_succ_apply', epoch_closeEpoch, ih, add_assoc]

theorem epoch_advanceTo {epoch : ℕ} (ahead : st.epoch ≤ epoch) : (st.advanceTo env epoch).epoch = epoch := by
  rw [advanceTo, epoch_iterate_closeEpoch]
  omega

theorem iterate_closeEpoch_run (header : BlockHeaderV4) (n : ℕ) (ahead : st.epoch + n ≤ epochOf header.slot) :
    Run (Step env) st (List.replicate n .closeEpoch) ((closeEpoch env)^[n] st) := by
  induction n generalizing st with
  | zero => exact .nil st
  | succ n ih =>
    refine .cons (.closeEpoch (by omega : st.epoch < epochOf header.slot)) ?_
    rw [Function.iterate_succ_apply]
    apply ih
    rw [epoch_closeEpoch]
    omega

theorem advanceTo_run (ahead : st.epoch ≤ epochOf header.slot) :
    Run (Step env) st (List.replicate (epochOf header.slot - st.epoch) .closeEpoch)
      (st.advanceTo env (epochOf header.slot)) :=
  iterate_closeEpoch_run header _ (by omega)

theorem admitAttestation_step (admitted : admitAttestation env slot partition a entry = .ok a')
    (drawn : a.state.epochPartition env = partition) :
    a'.state.epochPartition env = partition ∧
      (a'.state = a.state ∨ Step env a.state (.vote entry.1) a'.state) := by
  simp only [admitAttestation, ok_iff, not_not] at admitted
  obtain ⟨timely, -, rest⟩ := admitted
  split_ifs at rest with known
  · rw [pure_eq_ok_iff] at rest
    subst rest
    exact ⟨drawn, .inl rfl⟩
  · simp only [ok_iff] at rest
    obtain ⟨valid, rfl⟩ := rest
    have seated : entry.1.validate env a.state.keys (a.state.committeeOf env entry.1.data) slot = .ok () := by
      rw [committeeOf, drawn]
      exact valid
    exact ⟨drawn, .inr (.vote timely seated)⟩

theorem admitAttestations_run (admitted : admitAttestations env st slot roster attestations = .ok post)
    (drawn : st.epochPartition env =
      epochCommittees env.crypto (st.seedForEpoch env.gates st.epoch) st.epoch roster) :
    ∃ votes : List Attestation, votes.Sublist attestations ∧
      Run (Step env) st (votes.map .vote ++ [.bookkeeping]) post := by
  simp only [admitAttestations, ok_iff] at admitted
  obtain ⟨-, a, folded, rfl⟩ := admitted
  obtain ⟨-, taken, sub, run⟩ := foldlM_subrun (P := fun a => a.state.epochPartition env = _)
    Admission.state (fun entry => Event.vote entry.1) admitAttestation_step folded drawn
  refine ⟨taken.map Prod.fst, ?_, ?_⟩
  · simpa using sub.map Prod.fst
  · rw [List.map_map]
    exact run.append (.single .forkchoice)

theorem applyInBlock_evidence {charge : TxCharge}
    (applied : exec (applyInBlock env terms (.slashingEvidence e)) st = (.ok charge, post)) :
    exec (applySlashingEvidence env e terms.proposerIndex terms.roster) st = (.ok (), post) ∧
      charge.feeSat = 0 := by
  simp only [applyInBlock, ok_iff] at applied
  obtain ⟨_, ⟨-, rfl⟩, _, ⟨-, rfl⟩, _, punished, _, _, ⟨rfl, rfl⟩, rfl, rfl⟩ := applied
  exact ⟨punished, feeSat_stakingTxCharge ..⟩

theorem step_of_applyInBlock {charge : TxCharge} (applied : exec (applyInBlock env terms tx) st = (.ok charge, post)) :
    Step env st (.inBlock tx charge) post := by
  cases tx with
  | slashingEvidence e => exact .evidence (applyInBlock_evidence applied).1
  | _ => exact .transaction applied

theorem apply_eq_ok (applied : m.apply env terms entry = .ok m') :
    ∃ charge, exec (applyInBlock env terms entry.1) m.state = (.ok charge, m'.state) ∧
      m' = m.add m'.state charge entry.1 := by
  simp only [BlockMeter.apply, ok_iff] at applied
  obtain ⟨charge, accepted, -, -, rfl⟩ := applied
  exact ⟨charge, Prod.ext accepted rfl, rfl⟩

theorem applyTransactions_runs
    (each : ∀ {s t tx charge}, exec (applyInBlock env terms tx) s = (.ok charge, t) → R s (.inBlock tx charge) t)
    (applied : applyTransactions env terms st transactions = .ok m) :
    ∃ charges : List TxCharge, charges.length = transactions.length ∧
      Run R st (List.zipWith Event.inBlock transactions charges) m.state := by
  simp only [applyTransactions, ok_iff] at applied
  obtain ⟨-, m, folded, -, -, rfl⟩ := applied
  obtain ⟨charges, length, run⟩ := foldlM_run BlockMeter.state (fun entry => Event.inBlock entry.1)
    (fun applied => by
      obtain ⟨charge, accepted, -⟩ := apply_eq_ok applied
      exact ⟨charge, each accepted⟩) folded
  refine ⟨charges, by simpa using length, ?_⟩
  rwa [← List.zipWith_map_left, List.zipIdx_map_fst] at run

theorem applyTransactions_run
    (applied : applyTransactions env terms st transactions = .ok m) :
    ∃ charges : List TxCharge, charges.length = transactions.length ∧
      Run (Step env) st (List.zipWith Event.inBlock transactions charges) m.state :=
  applyTransactions_runs step_of_applyInBlock applied

/-- What a header must say for the block to be looked at. -/
theorem checkHeader_ahead
    (checked : checkHeader env st header attestations transactions = .ok ()) :
    st.epoch ≤ epochOf header.slot := by
  simp only [checkHeader, ok_iff, not_lt] at checked
  exact checked.2.1

theorem partition_seated (kept : RegistryKept st.epoch st.validators post.validators)
    (frozen : post.frozen = st.frozen) (small : st.epoch < u64Max) :
    post.epochPartition env = epochCommittees env.crypto (post.seedForEpoch env.gates post.epoch) post.epoch
      (st.consensusRosterAt env.gates st.epoch) := by
  have epoch : post.epoch = st.epoch := congrArg Frozen.epoch frozen
  simp only [epochPartition, epochCommittees, map_index_consensusRosterAt, epoch, kept.active_keys small]

theorem openBlock_eq_ok
    (done : openBlock env st envelope attestations transactions = .ok opened) :
    let rolled := st.advanceTo env (epochOf envelope.header.slot)
    ∃ (seated : CommittedState) (votes : List Attestation), st.epoch ≤ epochOf envelope.header.slot ∧
      opened.1.proposerIndex = envelope.header.proposerIndex ∧ votes.Sublist attestations ∧
      seatProposer env rolled envelope (rolled.consensusRosterAt env.gates rolled.epoch) = .ok seated ∧
      Run (Step env) rolled (.bookkeeping :: (votes.map .vote ++ [.bookkeeping, .bookkeeping])) opened.2 := by
  simp only [openBlock, ok_iff] at done
  obtain ⟨checked, -, seated, seating, voted, voting, rfl⟩ := done
  have ahead := checkHeader_ahead checked
  have proposing : Step env (st.advanceTo env (epochOf envelope.header.slot)) .bookkeeping seated :=
    .proposer seating
  have small : (st.advanceTo env (epochOf envelope.header.slot)).epoch < u64Max :=
    (epoch_advanceTo ahead).trans_lt ((epochOf_lt envelope.header).trans (by decide))
  have frozen := proposing.frozen_eq (by simp)
  have kept := proposing.registryKept (by simp) small
  obtain ⟨votes, sub, run⟩ := admitAttestations_run voting (partition_seated kept frozen small)
  refine ⟨seated, votes, ahead, rfl, sub, seating, .cons proposing ?_⟩
  have voted := run.append (.single (t := voted.prepareL2 st) .prepareL2)
  rwa [List.append_assoc] at voted

theorem openBlock_run
    (done : openBlock env st envelope attestations transactions = .ok opened) :
    ∃ votes : List Attestation, votes.Sublist attestations ∧
      Run (Step env) st (List.replicate (epochOf envelope.header.slot - st.epoch) .closeEpoch ++
        .bookkeeping :: (votes.map .vote ++ [.bookkeeping, .bookkeeping])) opened.2 := by
  obtain ⟨_, votes, ahead, -, sub, -, run⟩ := openBlock_eq_ok done
  exact ⟨votes, sub, (advanceTo_run ahead).append run⟩

theorem runBlock_run (ran : runBlock env st envelope attestations transactions = .ok m) :
    ∃ (votes : List Attestation) (charges : List TxCharge) (creditSat : ℕ),
      votes.Sublist attestations ∧ charges.length = transactions.length ∧
      Run (Step env) st (List.replicate (epochOf envelope.header.slot - st.epoch) .closeEpoch ++
        .bookkeeping :: (votes.map .vote ++ .bookkeeping :: .bookkeeping ::
          (List.zipWith Event.inBlock transactions charges ++ [.fees creditSat]))) m.state := by
  simp only [runBlock, ok_iff] at ran
  obtain ⟨⟨terms, opened⟩, opening, applied, applying, rfl⟩ := ran
  obtain ⟨votes, sub, before⟩ := openBlock_run opening
  obtain ⟨charges, length, inside⟩ := applyTransactions_run applying
  have settled : Step env applied.state
      (.fees (applied.producerCredit env.gates terms.epoch envelope.header.slot))
      (applied.settleFees env.gates terms envelope.header.slot).state := .fees
  have all := (before.append inside).append (.single settled)
  exact ⟨votes, charges, _, sub, length, by simpa using all⟩

/-- An accepted block is a run of its events. -/
theorem computePostState_run
    (computed : computePostState env st envelope attestations transactions = .ok post) :
    ∃ (votes : List Attestation) (charges : List TxCharge) (creditSat : ℕ),
      votes.Sublist attestations ∧ charges.length = transactions.length ∧
      Run (Step env) st (List.replicate (epochOf envelope.header.slot - st.epoch) .closeEpoch ++
        blockEvents votes (List.zipWith Event.inBlock transactions charges) creditSat) post := by
  simp only [computePostState, ok_iff] at computed
  obtain ⟨m, ran, -, finished⟩ := computed
  obtain ⟨votes, charges, creditSat, sub, length, run⟩ := runBlock_run ran
  refine ⟨votes, charges, creditSat, sub, length, ?_⟩
  have all := run.append (.single (.finish finished))
  simpa [blockEvents] using all

theorem Reachable.block (reached : Reachable env st)
    (computed : computePostState env st envelope attestations transactions = .ok post) :
    Reachable env post := by
  obtain ⟨votes, charges, creditSat, -, -, run⟩ := computePostState_run computed
  exact reached.run run

/-- A block with votes and no transactions, over a hash that hands its argument on. -/
def votingBlock (env : Env) (pre : CommittedState) (slot : Fin (2 ^ 64)) (proposerIndex : ℕ)
    (votes : List Attestation) : ProposalEnvelope :=
  let st := pre.advanceTo env (epochOf slot)
  { header :=
      { version := VERSION_G4
        parent := pre.head
        stateRoot := 0
        bodyRoot := Derive.bodyRoot env.crypto []
        slot := slot
        proposerIndex := proposerIndex
        randaoReveal := 0
        randaoMix := mixIn env.crypto st.randaoMix 0
        justifiedRoot := st.finalityEngine.currentJustified.root
        finalizedRoot := st.finalityEngine.finalized.root
        attestationRoot := Derive.attestationRoot env.crypto votes
        coherenceRoot := pre.coherenceRoot env.crypto
        slot_lt := slot.isLt }
    proposerSig := [] }

end

end CommittedState

end BlochPos
