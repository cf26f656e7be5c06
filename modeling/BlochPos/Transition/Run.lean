import BlochPos.Transition.Block

/-! Runs of a state. A block is a run of small events, so what holds over every run of events holds over
every chain of blocks. -/
namespace BlochPos

open Attempt

/-- What a block does to the state, step by step. -/
inductive Event where
  | transaction (tx : PosTransaction) (charge : TxCharge)
  | evidence (evidence : SlashingEvidence)
  | vote (att : Attestation)
  | fees (creditSat : ℕ)
  | bookkeeping | closeEpoch

namespace CommittedState

def epochPartition (env : Env) (st : CommittedState) : List (List ℕ) :=
  epochCommittees env.crypto (st.seedForEpoch env.gates st.epoch) st.epoch
    (st.consensusRosterAt env.gates st.epoch)

def committeeOf (env : Env) (st : CommittedState) (data : AttestationData) : List ℕ :=
  ((st.epochPartition env)[data.slot % SLOTS_PER_EPOCH]?).getD []

/-- One event. An epoch is closed only for a block of a later one. -/
inductive Step (env : Env) : CommittedState → Event → CommittedState → Prop where
  | transaction {st post : CommittedState} {tx : PosTransaction} {totalActiveSat baseFee : ℕ}
      {charge : TxCharge}
      (applied : exec (applyTransaction env tx totalActiveSat baseFee) st = (.ok charge, post)) :
      Step env st (.transaction tx charge) post
  | evidence {st post : CommittedState} {e : SlashingEvidence} {includingProposer : ℕ}
      {roster : List Validator}
      (applied : exec (applySlashingEvidence env e includingProposer roster) st = (.ok (), post)) :
      Step env st (.evidence e) post
  | vote {st : CommittedState} {att : Attestation} {slot : ℕ}
      (timely : epochOf att.data.slot = st.epoch)
      (valid : att.validate env st.keys (st.committeeOf env att.data) slot = .ok ()) :
      Step env st (.vote att) (st.admitVote att.validator (att.data.signingRoot env.crypto) att.data)
  | fees {m : BlockMeter} {terms : BlockTerms} {slot : ℕ} :
      Step env m.state (.fees (m.producerCredit env.gates terms.epoch slot))
        (m.settleFees env.gates terms slot).state
  | proposer {st post : CommittedState} {envelope : ProposalEnvelope} {roster : List Validator}
      (seated : seatProposer env st envelope roster = .ok post) : Step env st .bookkeeping post
  | forkchoice {st : CommittedState} {roster : List Validator} {attestations : List Attestation}
      {slot : ℕ} :
      Step env st .bookkeeping (st.accumulateForkchoice env.gates roster attestations slot)
  | prepareL2 {st pre : CommittedState} : Step env st .bookkeeping (st.prepareL2 pre)
  | finish {st post : CommittedState} {header : BlockHeaderV4}
      (finished : finishBlock env.crypto st header = .ok post) : Step env st .bookkeeping post
  | closeEpoch {st : CommittedState} {header : BlockHeaderV4} (later : st.epoch < epochOf header.slot) :
      Step env st .closeEpoch (closeEpoch env st)

/-- What an event does to the state, its checks taken apart. -/
inductive Effect (env : Env) : CommittedState → Event → CommittedState → Prop where
  | transaction {st post tx totalActiveSat baseFee charge}
      (accepted : Accepted (env.gated st.epoch) st totalActiveSat baseFee tx charge post) :
      Effect env st (.transaction tx charge) post
  | evidence {st e includingProposer roster p}
      (planned : planSlashingEvidence env st e includingProposer roster = .ok p) :
      Effect env st (.evidence e) (st.withPunishment env.gates p)
  | vote {st att} :
      Effect env st (.vote att) (st.admitVote att.validator (att.data.signingRoot env.crypto) att.data)
  | fees {m : BlockMeter} {terms : BlockTerms} {slot : ℕ} :
      Effect env m.state (.fees (m.producerCredit env.gates terms.epoch slot))
        (m.settleFees env.gates terms slot).state
  | proposer {st index record commitment reveals mix proposed}
      (found : st.validators.get? index = some record) :
      Effect env st .bookkeeping { st with
        validators := st.validators.insert index { record with randaoCommitment := commitment }
        revealsUsed := reveals
        randaoMix := mix
        currentProposed := proposed }
  | forkchoice {st roster attestations slot} :
      Effect env st .bookkeeping (st.accumulateForkchoice env.gates roster attestations slot)
  | prepareL2 {st pre} : Effect env st .bookkeeping (st.prepareL2 pre)
  | finish {st l2 slot head} (escrow : (l2.map L2.State.escrowSat).getD 0 = st.escrowSat) :
      Effect env st .bookkeeping { st with l2Settlement := l2, slot := slot, head := head }
  | closeEpoch {st} : Effect env st .closeEpoch (closeEpoch env st)

theorem Step.effect (step : Step env st event post) : Effect env st event post := by
  cases step with
  | transaction applied => exact .transaction (accepted_of_applyTransaction applied)
  | evidence applied =>
    obtain ⟨p, planned, rfl⟩ := applySlashingEvidence_eq_ok_iff.mp applied
    exact .evidence planned
  | proposer seated =>
    obtain ⟨_, _, _, _, _, found, rfl⟩ := seatProposer_eq_ok seated
    exact .proposer found
  | finish finished =>
    obtain ⟨_, rfl, escrow⟩ := finishBlock_eq_ok finished
    exact .finish escrow
  | vote => exact .vote
  | fees => exact .fees
  | forkchoice => exact .forkchoice
  | prepareL2 => exact .prepareL2
  | closeEpoch => exact .closeEpoch

/-- What a run of events leads to from the start of a network. -/
def Reachable (env : Env) (st : CommittedState) : Prop :=
  ∃ start events, Initial env start ∧ Run (Step env) start events st

variable {env : Env} {st : CommittedState}

theorem Reachable.run (reached : Reachable env st)
    (run : Run (Step env) st events post) : Reachable env post := by
  obtain ⟨start, before, initial, first⟩ := reached
  exact ⟨start, before ++ events, initial, first.append run⟩

theorem Reachable.invariant {P : CommittedState → Prop} (start : ∀ {st}, Initial env st → P st)
    (keeps : ∀ {st event post}, Step env st event post → P st → P post)
    (reached : Reachable env st) : P st := by
  obtain ⟨_, _, initial, run⟩ := reached
  exact run.invariant keeps (start initial)

/-! The events that say all there is to say about themselves can be carried out, at
no base fee and for the full roster of the epoch. -/

def play (env : Env) (st : CommittedState) : Event → Option CommittedState
  | .transaction tx charge =>
    let result := exec (applyTransaction env tx (totalStake (st.consensusRosterAt env.gates st.epoch)) 0) st
    if result.1 = .ok charge then some result.2 else none
  | .evidence e =>
    let result := exec (applySlashingEvidence env e 0 (st.consensusRosterAt env.gates st.epoch)) st
    if result.1 = .ok () then some result.2 else none
  | .vote att =>
    if epochOf att.data.slot = st.epoch ∧
        att.validate env st.keys (st.committeeOf env att.data) att.data.slot = .ok () then
      some (st.admitVote att.validator (att.data.signingRoot env.crypto) att.data)
    else none
  | .closeEpoch => if st.epoch + 1 < 2 ^ 59 then some (closeEpoch env st) else none
  | _ => none

def playAll (env : Env) (st : CommittedState) (events : List Event) : Option CommittedState :=
  events.foldlM (play env) st

theorem step_of_play (played : play env st event = some post) : Step env st event post := by
  cases event with
  | transaction | evidence | vote =>
    simp only [play, Option.ite_none_right_eq_some, Option.some.injEq] at played
    obtain ⟨accepted, rfl⟩ := played
    first
    | exact .transaction (Prod.ext accepted rfl)
    | exact .evidence (Prod.ext accepted rfl)
    | exact .vote accepted.1 accepted.2
  | closeEpoch =>
    simp only [play, Option.ite_none_right_eq_some, Option.some.injEq] at played
    obtain ⟨small, rfl⟩ := played
    let next : BlockHeaderV4 := ⟨0, 0, 0, 0, (st.epoch + 1) * 32, 0, 0, 0, 0, 0, 0, 0, by omega⟩
    apply Step.closeEpoch
    show st.epoch < epochOf next.slot
    simp only [epochOf, SLOTS_PER_EPOCH, next]
    omega
  | fees | bookkeeping => cases played

theorem run_of_playAll (played : playAll env st events = some post) :
    Run (Step env) st events post := .of_foldlM_some step_of_play played

/-- The vote of epoch 1 in a network of one validator. -/
def soleVote : Attestation := ⟨0, ⟨32, 1, 0, 1, 1, 2⟩, []⟩

end CommittedState

end BlochPos
