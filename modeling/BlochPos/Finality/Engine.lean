import BlochPos.Attestation
import BlochPos.Lib.SortedMap

/-! The finality engine: a fold over epochs that justifies and finalizes checkpoints, leaks, and may
count over a frozen set. -/
namespace BlochPos

open SortedMap

structure EpochVotes where
  epoch : ℕ
  activeSet : List Validator
  attestations : List (ℕ × AttestationData)

structure EpochOutcome where
  (justified finalized : Option Checkpoint)
  equivocators : Finset ℕ
deriving DecidableEq

inductive FinalityError where
  | outOfOrderEpoch (got expected : ℕ)
deriving DecidableEq

structure FinalitySet where
  epoch : ℕ
  members : SortedMap ℕ ℕ
deriving DecidableEq

def FinalitySet.total (set : FinalitySet) : ℕ := set.members.sum (fun _ stake => stake)

structure FinalitySetState where
  current : FinalitySet
  pending : Option FinalitySet
  lastSeen : SortedMap ℕ ℕ
deriving DecidableEq

structure FinalityState where
  justified : SortedMap ℕ Bytes32
  (currentJustified finalized : Checkpoint)
  leaked : SortedMap ℕ ℕ
  nextEpoch : ℕ
  finalitySet : Option FinalitySetState
  ownCheckpoints : SortedMap ℕ Bytes32
deriving DecidableEq

namespace FinalityState

def new (genesis : Checkpoint) : FinalityState where
  justified := empty.insert genesis.epoch genesis.root
  currentJustified := genesis
  finalized := genesis
  leaked := .empty
  nextEpoch := genesis.epoch + 1
  finalitySet := none
  ownCheckpoints := .empty

section

variable (g : Gates) (st : FinalityState) (votes : EpochVotes)

def isJustified (cp : Checkpoint) : Bool :=
  st.justified.get? cp.epoch = some cp.root

/-- The engine drops all but the newest checkpoint and the justified epoch's. -/
def recordOwnCheckpoint (epoch : ℕ) (root : Bytes32) : FinalityState :=
  { st with
    ownCheckpoints := (st.ownCheckpoints.insert epoch root).filter
      (fun e _ => e = epoch ∨ e = st.currentJustified.epoch) }

def snapshot (lastSeen : SortedMap ℕ ℕ) : FinalitySet where
  epoch := votes.epoch
  members := ofList
    ((votes.activeSet.filter (fun v => 0 < v.effectiveStake ∧
        votes.epoch - lastSeen.getD v.index votes.epoch < NATIVE_FINALITY_SET_PRUNE_AFTER_EPOCHS)).map
      (fun v => (v.index, v.effectiveStake)))

def openFinalitySet : FinalityState :=
  match st.finalitySet with
  | none =>
    { st with
      finalitySet := some
        { current := snapshot votes .empty, pending := none, lastSeen := .empty } }
  | some fs =>
    if g.nativeFinalitySetRecoveryAt votes.epoch then
      { st with
        finalitySet := some
          { fs with current := snapshot votes fs.lastSeen, pending := none } }
    else st

/-- A member of the roster that voted is seen now; one that is new is given
the full horizon. -/
def markSeen (epoch : ℕ) (present : SortedMap ℕ AttestationData) (lastSeen : SortedMap ℕ ℕ)
    (v : Validator) : SortedMap ℕ ℕ :=
  if present.contains v.index then lastSeen.insert v.index epoch
  else if lastSeen.contains v.index then lastSeen
  else lastSeen.insert v.index epoch

def closeFinalitySet (finalizedNow : Option Checkpoint) (present : SortedMap ℕ AttestationData) :
    FinalityState :=
  match st.finalitySet with
  | none => st
  | some fs =>
    let current := match finalizedNow, fs.pending with
      | some f, some p => if p.epoch = f.epoch then p else fs.current
      | _, _ => fs.current
    let kept := fs.lastSeen.filter (fun v _ => v ∈ votes.activeSet.map Validator.index)
    let lastSeen := votes.activeSet.foldl (markSeen votes.epoch present) kept
    { st with
      finalitySet := some
        { current, pending := some (snapshot votes lastSeen), lastSeen } }

def stakeMap : SortedMap ℕ ℕ :=
  ofList (votes.activeSet.map
    (fun v => (v.index, v.effectiveStake - st.leaked.getD v.index 0)))

def unleakedTotal : ℕ := (votes.activeSet.map Validator.effectiveStake).sum

def leakAdjusted : ℕ :=
  (st.stakeMap votes).sum (fun _ stake => stake)

/-- The set in force, when the epoch is counted over a frozen set. -/
def frozenSet : Option FinalitySet :=
  if g.nativeFinalitySetActive votes.epoch then st.finalitySet.map FinalitySetState.current else none

def totalActive : ℕ :=
  match st.frozenSet g votes with
  | some set => set.total
  | none =>
    if votes.epoch < g.leakRecovery then st.leakAdjusted votes
    else max (st.leakAdjusted votes)
      (unleakedTotal votes * MIN_QUORUM_DENOMINATOR_NUM / MIN_QUORUM_DENOMINATOR_DEN)

/-- Votes seen so far: the first of each validator, and who contradicted it. -/
structure Ballots where
  firstVote : SortedMap ℕ AttestationData
  equivocators : Finset ℕ

def castVote (stake : SortedMap ℕ ℕ) (epoch : ℕ) (seen : Ballots)
    (vote : ℕ × AttestationData) : Ballots :=
  if stake.contains vote.1 = false then seen
  else if vote.2.targetEpoch ≠ epoch then seen
  else match seen.firstVote.get? vote.1 with
    | none => { seen with firstVote := seen.firstVote.insert vote.1 vote.2 }
    | some prev =>
      if prev ≠ vote.2 then { seen with equivocators := insert vote.1 seen.equivocators }
      else seen

def ballots : Ballots :=
  votes.attestations.foldl (castVote (st.stakeMap votes) votes.epoch) ⟨.empty, ∅⟩

def soleVotes : SortedMap ℕ AttestationData :=
  (st.ballots votes).firstVote.filter (fun v _ => v ∉ (st.ballots votes).equivocators)

def ownSource : Option Bytes32 :=
  st.ownCheckpoints.get? st.currentJustified.epoch

def admissible (d : AttestationData) : Bool :=
  (d.sourceEpoch = st.currentJustified.epoch ∧ d.sourceRoot = st.currentJustified.root ∧
    d.sourceEpoch < d.targetEpoch) ∧
  (g.ownTargetVotesActive votes.epoch = true → some d.targetRoot = st.ownCheckpoints.get? votes.epoch ∧
    st.ownSource.all (fun root => root = d.sourceRoot) = true)

def validVotes : SortedMap ℕ AttestationData :=
  (st.soleVotes votes).filter (fun _ d => st.admissible g votes d)

def sourceIsOwn : Bool :=
  g.ownTargetVotesActive votes.epoch = false ∨ st.ownSource = some st.currentJustified.root

/-- A member outside the frozen set weighs nothing. -/
def voteWeight (validator : ℕ) : ℕ :=
  match st.frozenSet g votes with
  | some set => set.members.getD validator 0
  | none => (st.stakeMap votes).getD validator 0

end

def tally (g : Gates) (st : FinalityState) (votes : EpochVotes) : SortedMap Bytes32 ℕ :=
  (st.validVotes g votes).entries.foldl
    (fun tally vote => tally.addAt vote.2.targetRoot (st.voteWeight g votes vote.1)) .empty

def reachesQuorum (weight total : ℕ) : Bool := 0 < total ∧ total * 2 ≤ weight * 3

variable (g : Gates) (st : FinalityState) (votes : EpochVotes)

/-- The first root, in key order, that two thirds of the weight voted for. -/
def justifiedNow : Option Checkpoint :=
  ((st.tally g votes).entries.find?
    (fun entry => reachesQuorum entry.2 (st.totalActive g votes))).map
      (fun entry => ⟨votes.epoch, entry.1⟩)

def finalizedNow : Option Checkpoint :=
  (st.justifiedNow g votes).bind (fun cp =>
    if st.currentJustified.epoch + 1 = cp.epoch ∧ st.finalized.epoch < st.currentJustified.epoch ∧
        st.sourceIsOwn g votes = true then some st.currentJustified
    else none)

/-- Record the epoch's checkpoint, and finalize its source when they are adjacent. -/
def record (justifiedNow finalizedNow : Option Checkpoint) : FinalityState :=
  match justifiedNow with
  | none => st
  | some cp =>
    { st with
      justified := st.justified.insert cp.epoch cp.root
      currentJustified :=
        if st.currentJustified.epoch < cp.epoch then cp else st.currentJustified
      finalized := finalizedNow.getD st.finalized }

/-- The bite is cast to 64 bits before it is held to what remains. -/
def leakBite (epoch since remaining : ℕ) : ℕ :=
  min (max (remaining * (since - INACTIVITY_LEAK_THRESHOLD_EPOCHS) / g.inactivityLeakQuotient epoch) 1
    % 2 ^ 64) remaining

def leakOne (epoch since : ℕ) (stake : SortedMap ℕ ℕ) (valid : SortedMap ℕ AttestationData)
    (leaked : SortedMap ℕ ℕ) (v : Validator) : SortedMap ℕ ℕ :=
  if valid.contains v.index then leaked
  else if stake.getD v.index 0 = 0 then leaked
  else leaked.addAt v.index (leakBite g epoch since (stake.getD v.index 0))

def recoverOne (leaking : Bool) (valid : SortedMap ℕ AttestationData)
    (acc : SortedMap ℕ ℕ × List ℕ) (v : Validator) : SortedMap ℕ ℕ × List ℕ :=
  if leaking && !valid.contains v.index then acc
  else match acc.1.get? v.index with
    | none => acc
    | some owed =>
      let back := min (max (owed / INACTIVITY_LEAK_RECOVERY_QUOTIENT) 1) owed
      (acc.1.insert v.index (owed - back), if owed - back = 0 then acc.2 ++ [v.index] else acc.2)

def updateLeak (stake : SortedMap ℕ ℕ) (valid : SortedMap ℕ AttestationData) : FinalityState :=
  let since := votes.epoch - st.finalized.epoch
  let leaking : Bool := INACTIVITY_LEAK_THRESHOLD_EPOCHS < since
  let leaked :=
    if leaking then votes.activeSet.foldl (leakOne g votes.epoch since stake valid) st.leaked
    else st.leaked
  if g.leakRecovery ≤ votes.epoch then
    let (paid, drained) := votes.activeSet.foldl (recoverOne leaking valid) (leaked, [])
    { st with leaked := drained.foldl erase paid }
  else { st with leaked }

def opened : FinalityState :=
  let st := { st with nextEpoch := st.nextEpoch + 1 }
  if g.nativeFinalitySetActive votes.epoch then st.openFinalitySet g votes else st

def closed : FinalityState :=
  let justified := st.justifiedNow g votes
  let finalized := st.finalizedNow g votes
  let recorded := st.record justified finalized
  let set := if g.nativeFinalitySetActive votes.epoch then
      recorded.closeFinalitySet votes finalized (st.soleVotes votes)
    else recorded
  set.updateLeak g votes (st.stakeMap votes) (st.validVotes g votes)

/-- The engine's answer and its state afterwards; a refusal changes nothing. -/
def processEpoch : Except FinalityError EpochOutcome × FinalityState :=
  if votes.epoch ≠ st.nextEpoch then (.error (.outOfOrderEpoch votes.epoch st.nextEpoch), st)
  else
    let st := st.opened g votes
    (.ok { justified := st.justifiedNow g votes
           finalized := st.finalizedNow g votes
           equivocators := (st.ballots votes).equivocators },
      st.closed g votes)

end FinalityState

end BlochPos
