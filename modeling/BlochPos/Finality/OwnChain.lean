import BlochPos.Finality.Run
import BlochPos.Lib.Run

/-! The chain's own checkpoints: under the own-target rule nothing foreign is justified. -/
namespace BlochPos.OwnChain

open SortedMap

open FinalityState hiding Run

def keepOwnCheckpoint (st : FinalityState) (epoch : ℕ) (root : Bytes32) : FinalityState :=
  { st with ownCheckpoints := st.ownCheckpoints.insert epoch root }

/-- An epoch is counted, then the checkpoint of the next is recorded. -/
def Closes (g : Gates) (record : FinalityState → ℕ → Bytes32 → FinalityState) (root : ℕ → Bytes32)
    (st : FinalityState) (label : EpochVotes × EpochOutcome) (post : FinalityState) : Prop :=
  ∃ counted, st.processEpoch g label.1 = (.ok label.2, counted) ∧
    record counted (label.1.epoch + 1) (root (label.1.epoch + 1)) = post

/-- What is recorded, and the justified checkpoint, are the chain's own. -/
structure Own (root : ℕ → Bytes32) (st : FinalityState) : Prop where
  known : ∀ epoch r, st.ownCheckpoints.get? epoch = some r → r = root epoch
  justified : st.currentJustified.root = root st.currentJustified.epoch

section

variable {g : Gates} {root : ℕ → Bytes32} {st : FinalityState} {votes : EpochVotes} {start full : FinalityState}

theorem ownCheckpoints_processEpoch (accepted : st.processEpoch g votes = (.ok outcome, counted)) :
    counted.ownCheckpoints = st.ownCheckpoints := by
  obtain ⟨-, -, -, rfl⟩ := processEpoch_ok accepted
  obtain ⟨set, opened⟩ := opened_eq g st votes
  obtain ⟨set', leaked, closed⟩ := closed_eq g (st.opened g votes) votes
  rw [closed]
  have kept : ∀ justified finalized, ((st.opened g votes).record justified finalized).ownCheckpoints =
      (st.opened g votes).ownCheckpoints := by
    intro justified finalized
    cases justified <;> rfl
  exact (kept _ _).trans (by rw [opened])

theorem get?_recordOwnCheckpoint (st : FinalityState) (epoch e : ℕ) (r : Bytes32) :
    (st.recordOwnCheckpoint epoch r).ownCheckpoints.get? e = if e = epoch then some r
      else if e = st.currentJustified.epoch then st.ownCheckpoints.get? e else none := by
  simp only [recordOwnCheckpoint, get?_filter, get?_insert]
  by_cases newest : e = epoch
  · simp [newest]
  · by_cases source : e = st.currentJustified.epoch
    · subst source
      rw [if_neg newest, if_neg newest, if_pos rfl]
      cases st.ownCheckpoints.get? st.currentJustified.epoch <;> simp
    · simp [newest, source]

theorem length_ownCheckpoints_recordOwnCheckpoint (epoch : ℕ) (r : Bytes32) :
    (st.recordOwnCheckpoint epoch r).ownCheckpoints.entries.length ≤ 2 := by
  let kept := (st.recordOwnCheckpoint epoch r).ownCheckpoints
  have among : kept.keys ⊆ [epoch, st.currentJustified.epoch] := by
    intro e member
    obtain ⟨root, found⟩ := mem_keys_iff.mp member
    rw [get?_recordOwnCheckpoint] at found
    split_ifs at found with newest source
    · simp [newest]
    · simp [source]
  have bound := (List.subperm_of_subset kept.keys_nodup among).length_le
  simpa [keys] using bound

theorem length_ownCheckpoints_of_run (run : Run (Closes g recordOwnCheckpoint root) st labels post)
    (moved : labels ≠ []) : post.ownCheckpoints.entries.length ≤ 2 := by
  induction run with
  | nil => exact absurd rfl moved
  | cons first later ih =>
    cases later with
    | nil =>
      obtain ⟨-, -, rfl⟩ := first
      exact length_ownCheckpoints_recordOwnCheckpoint ..
    | cons => exact ih (List.cons_ne_nil _ _)

theorem exists_vote_of_justifiedNow (justified : st.justifiedNow g votes = some cp) :
    ∃ d, st.admissible g votes d = true ∧ d.targetRoot = cp.root := by
  have quorum := (justifiedNow_some justified).2
  rw [tally_getD] at quorum
  have some_weight : ∑ v ∈ st.supporters g votes cp.root, st.voteWeight g votes v ≠ 0 := by
    simp only [reachesQuorum, decide_eq_true_eq] at quorum
    omega
  obtain ⟨v, member, -⟩ := Finset.exists_ne_zero_of_sum_ne_zero some_weight
  obtain ⟨d, valid, target⟩ := mem_supporters_iff.mp member
  exact ⟨d, (validVotes_get? valid).2.2, target⟩

theorem Own.justifies (own : Own root st) (active : g.ownTargetVotesActive votes.epoch = true)
    (accepted : st.processEpoch g votes = (.ok outcome, counted)) :
    ∀ cp ∈ outcome.justified, cp.root = root cp.epoch := by
  intro cp found
  obtain ⟨-, justified, -⟩ := processEpoch_ok accepted
  obtain ⟨set, opened⟩ := opened_eq g st votes
  obtain ⟨d, admitted, target⟩ := exists_vote_of_justifiedNow (justified.symm.trans found)
  rw [opened] at admitted
  simp only [admissible, decide_eq_true_eq] at admitted
  rw [← target, (recorded accepted).target cp found]
  exact own.known _ _ (admitted.2 active).1.symm

theorem Own.finalizes (own : Own root st) (accepted : st.processEpoch g votes = (.ok outcome, counted)) :
    ∀ cp ∈ outcome.finalized, cp.root = root cp.epoch := by
  intro cp found
  obtain ⟨rfl, -⟩ := ((recorded accepted).finalizes cp).mp found
  exact own.justified

theorem Own.count (own : Own root st) (active : g.ownTargetVotesActive votes.epoch = true)
    (accepted : st.processEpoch g votes = (.ok outcome, counted)) : Own root counted := by
  constructor
  · rw [ownCheckpoints_processEpoch accepted]
    exact own.known
  · rw [(recorded accepted).current]
    cases found : outcome.justified with
    | none => exact own.justified
    | some cp =>
      dsimp only [Option.elim]
      split_ifs
      · exact own.justifies active accepted cp found
      · exact own.justified

theorem Own.record (own : Own root st) (epoch : ℕ) : Own root (st.recordOwnCheckpoint epoch (root epoch)) := by
  constructor
  · intro e r found
    rw [get?_recordOwnCheckpoint] at found
    split_ifs at found with newest source
    · rw [← Option.some.inj found, newest]
    · exact own.known e r found
  · exact own.justified

theorem active_of_le (active : g.ownTargetVotesActive epoch = true) (le : epoch ≤ later) :
    g.ownTargetVotesActive later = true := by
  simp only [Gates.ownTargetVotesActive, epochGateActive, decide_eq_true_eq] at active ⊢
  exact ⟨active.1, active.2.trans le⟩

/-- A justified or finalized checkpoint is an old one or the chain's own. -/
structure Grown (root : ℕ → Bytes32) (start st : FinalityState) : Prop where
  own : Own root st
  epoch : start.nextEpoch ≤ st.nextEpoch
  justified : ∀ e r, st.justified.get? e = some r → start.justified.get? e = some r ∨ r = root e
  finalized : st.finalized = start.finalized ∨ st.finalized.root = root st.finalized.epoch

theorem Grown.closes (grown : Grown root start st)
    (active : g.ownTargetVotesActive start.nextEpoch = true)
    (closes : Closes g recordOwnCheckpoint root st label post) : Grown root start post := by
  obtain ⟨counted, accepted, rfl⟩ := closes
  have step := recorded accepted
  have activeHere : g.ownTargetVotesActive label.1.epoch = true :=
    active_of_le active (step.epoch ▸ grown.epoch)
  have own := grown.own.justifies activeHere accepted
  constructor
  · exact (grown.own.count activeHere accepted).record _
  · exact grown.epoch.trans (step.nextEpoch ▸ Nat.le_succ _)
  · intro e r found
    have found : counted.justified.get? e = some r := found
    rw [step.justified] at found
    cases answer : label.2.justified with
    | none =>
      rw [answer] at found
      exact grown.justified e r found
    | some cp =>
      rw [answer, Option.elim_some, get?_insert] at found
      split_ifs at found with here
      · right
        rw [← Option.some.inj found, here]
        exact own cp answer
      · exact grown.justified e r found
  · show counted.finalized = _ ∨ counted.finalized.root = root counted.finalized.epoch
    rw [step.finalized]
    cases answer : label.2.finalized with
    | none => exact grown.finalized
    | some cp => exact .inr (grown.own.finalizes accepted cp answer)

theorem reports_of_run (active : g.ownTargetVotesActive start.nextEpoch = true)
    (grown : Grown root start st) (run : Run (Closes g recordOwnCheckpoint root) st labels post) :
    (∀ label ∈ labels, (∀ cp ∈ label.2.justified, cp.root = root cp.epoch) ∧
      ∀ cp ∈ label.2.finalized, cp.root = root cp.epoch) ∧ Grown root start post := by
  induction run with
  | nil => exact ⟨by simp, grown⟩
  | @cons s t u label rest first _ ih =>
    obtain ⟨later, done⟩ := ih (grown.closes active first)
    refine ⟨?_, done⟩
    intro label' among
    rcases List.mem_cons.mp among with rfl | among
    · obtain ⟨counted, accepted, -⟩ := first
      have activeHere := active_of_le active (grown.epoch.trans (recorded accepted).epoch.ge)
      exact ⟨grown.own.justifies activeHere accepted, grown.own.finalizes accepted⟩
    · exact later label' among

def withOwn (st : FinalityState) (m : SortedMap ℕ Bytes32) : FinalityState := { st with ownCheckpoints := m }

/-- The roots a count of the epoch reads. -/
structure SameReads (st : FinalityState) (epoch : ℕ) (m : SortedMap ℕ Bytes32) : Prop where
  target : m.get? epoch = st.ownCheckpoints.get? epoch
  source : m.get? st.currentJustified.epoch = st.ownCheckpoints.get? st.currentJustified.epoch

theorem opened_withOwn (m : SortedMap ℕ Bytes32) :
    (withOwn st m).opened g votes = withOwn (st.opened g votes) m := by
  have opens : ∀ s : FinalityState,
      (withOwn s m).openFinalitySet g votes = withOwn (s.openFinalitySet g votes) m := by
    rintro ⟨_, _, _, _, _, set, _⟩
    cases set with
    | none => rfl
    | some fs =>
      simp only [openFinalitySet, withOwn]
      split_ifs <;> rfl
  simp only [FinalityState.opened]
  split_ifs
  · exact opens { st with nextEpoch := st.nextEpoch + 1 }
  · rfl

section

variable {m : SortedMap ℕ Bytes32}

section

variable (reads : SameReads st votes.epoch m)
include reads

theorem validVotes_withOwn : (withOwn st m).validVotes g votes = st.validVotes g votes := by
  have admits : ∀ d, (withOwn st m).admissible g votes d = st.admissible g votes d := by
    intro d
    have source : (withOwn st m).ownSource = st.ownSource := reads.source
    have target : (withOwn st m).ownCheckpoints.get? votes.epoch = st.ownCheckpoints.get? votes.epoch :=
      reads.target
    unfold admissible
    rw [source, target]
    rfl
  unfold validVotes
  simp only [admits]
  rfl

theorem justifiedNow_withOwn : (withOwn st m).justifiedNow g votes = st.justifiedNow g votes := by
  unfold justifiedNow tally
  rw [validVotes_withOwn reads]
  rfl

theorem finalizedNow_withOwn : (withOwn st m).finalizedNow g votes = st.finalizedNow g votes := by
  have source : (withOwn st m).ownSource = st.ownSource := reads.source
  unfold finalizedNow sourceIsOwn
  rw [justifiedNow_withOwn reads, source]
  rfl

theorem closed_withOwn : (withOwn st m).closed g votes = withOwn (st.closed g votes) m := by
  have record : ∀ justified finalized,
      (withOwn st m).record justified finalized = withOwn (st.record justified finalized) m := by
    intro justified finalized
    cases justified <;> rfl
  have close : ∀ (s : FinalityState) finalized present, (withOwn s m).closeFinalitySet votes finalized present =
      withOwn (s.closeFinalitySet votes finalized present) m := by
    rintro ⟨_, _, _, _, _, set, _⟩ - -
    cases set <;> rfl
  have leak : ∀ (s : FinalityState) stake valid, (withOwn s m).updateLeak g votes stake valid =
      withOwn (s.updateLeak g votes stake valid) m := by
    intro s stake valid
    unfold updateLeak withOwn
    dsimp only
    split_ifs <;> rfl
  have stake : (withOwn st m).stakeMap votes = st.stakeMap votes := rfl
  have sole : (withOwn st m).soleVotes votes = st.soleVotes votes := rfl
  unfold closed
  rw [justifiedNow_withOwn reads, finalizedNow_withOwn reads, validVotes_withOwn reads, stake, sole]
  dsimp only
  rw [record]
  split_ifs
  · rw [close, leak]
  · rw [leak]

theorem processEpoch_withOwn
    (accepted : st.processEpoch g votes = (.ok outcome, counted)) :
    (withOwn st m).processEpoch g votes = (.ok outcome, withOwn counted m) := by
  obtain ⟨set, opened⟩ := opened_eq g st votes
  have reads : SameReads (st.opened g votes) votes.epoch m := by
    rw [opened]
    exact ⟨reads.target, reads.source⟩
  have ballots : (withOwn (st.opened g votes) m).ballots votes = (st.opened g votes).ballots votes := rfl
  unfold FinalityState.processEpoch at accepted ⊢
  split_ifs at accepted with order
  · cases accepted
  · have order : ¬ votes.epoch ≠ (withOwn st m).nextEpoch := order
    rw [if_neg order, opened_withOwn]
    dsimp only
    rw [justifiedNow_withOwn reads, finalizedNow_withOwn reads, closed_withOwn reads, ballots]
    cases accepted
    rfl

end

end

/-- One engine keeps two roots, the other keeps all. -/
def Agrees (st full : FinalityState) : Prop :=
  ∃ m, full = withOwn st m ∧ SameReads st st.nextEpoch m

theorem Agrees.closes (agrees : Agrees st full)
    (closes : Closes g recordOwnCheckpoint root st label post) :
    ∃ full', Closes g keepOwnCheckpoint root full label full' ∧ Agrees post full' := by
  obtain ⟨m, rfl, reads⟩ := agrees
  obtain ⟨counted, accepted, rfl⟩ := closes
  have step := recorded accepted
  have same := ownCheckpoints_processEpoch accepted
  rw [← step.epoch] at reads
  let next := label.1.epoch + 1
  have current : m.get? counted.currentJustified.epoch =
      counted.ownCheckpoints.get? counted.currentJustified.epoch := by
    rw [same, step.current]
    cases answer : label.2.justified with
    | none => exact reads.source
    | some cp =>
      dsimp only [Option.elim]
      split_ifs
      · rw [step.target cp answer]
        exact reads.target
      · exact reads.source
  refine ⟨withOwn counted (m.insert next (root next)), ⟨withOwn counted m, processEpoch_withOwn reads accepted, rfl⟩,
    m.insert next (root next), rfl, ?_⟩
  have clock : counted.nextEpoch = next := by rw [step.nextEpoch, ← step.epoch]
  constructor
  · have newest : (counted.recordOwnCheckpoint next (root next)).ownCheckpoints.get? counted.nextEpoch =
        some (root next) := by rw [get?_recordOwnCheckpoint, if_pos clock]
    refine Eq.trans ?_ newest.symm
    rw [← clock]
    exact get?_insert_self ..
  · have source := get?_recordOwnCheckpoint counted next counted.currentJustified.epoch (root next)
    rw [if_pos rfl, ← current, ← get?_insert] at source
    exact source.symm

theorem agrees_refl (st : FinalityState) : Agrees st st := ⟨st.ownCheckpoints, rfl, rfl, rfl⟩

theorem Agrees.run (agrees : Agrees st full)
    (run : Run (Closes g recordOwnCheckpoint root) st labels post) :
    ∃ full', Run (Closes g keepOwnCheckpoint root) full labels full' ∧ Agrees post full' := by
  induction run generalizing full with
  | nil s => exact ⟨full, .nil full, agrees⟩
  | cons first _ ih =>
    obtain ⟨mid, closed, agrees⟩ := agrees.closes first
    obtain ⟨full', later, agrees⟩ := ih agrees
    exact ⟨full', .cons closed later, agrees⟩

end

/-- From a state of the chain's own checkpoints, under the own-target rule, whatever becomes justified or
finalized is the chain's own, and the two roots the engine keeps give the outcomes all would give. -/
theorem own_chain_finality {g : Gates} {root : ℕ → Bytes32} {st post : FinalityState}
    {labels : List (EpochVotes × EpochOutcome)} (own : Own root st)
    (active : g.ownTargetVotesActive st.nextEpoch = true)
    (run : Run (Closes g recordOwnCheckpoint root) st labels post) :
    (∀ label ∈ labels, (∀ cp ∈ label.2.justified, cp.root = root cp.epoch) ∧
      ∀ cp ∈ label.2.finalized, cp.root = root cp.epoch) ∧
    (∀ e r, post.justified.get? e = some r → st.justified.get? e = some r ∨ r = root e) ∧
    post.currentJustified.root = root post.currentJustified.epoch ∧
    (post.finalized = st.finalized ∨ post.finalized.root = root post.finalized.epoch) ∧
    (labels ≠ [] → post.ownCheckpoints.entries.length ≤ 2) ∧
    ∃ full, Run (Closes g keepOwnCheckpoint root) st labels full ∧ full.justified = post.justified ∧
      full.currentJustified = post.currentJustified ∧ full.finalized = post.finalized ∧
      full.leaked = post.leaked := by
  have start : Grown root st st := ⟨own, le_rfl, fun _ _ found => .inl found, .inl rfl⟩
  obtain ⟨reports, grown⟩ := reports_of_run active start run
  obtain ⟨full, kept, m, rfl, -⟩ := (agrees_refl st).run run
  exact ⟨reports, grown.justified, grown.own.justified, grown.finalized, length_ownCheckpoints_of_run run,
    withOwn post m, kept, rfl, rfl, rfl, rfl⟩

def closeWith (g : Gates) (root : ℕ → Bytes32) (st : FinalityState) (votes : EpochVotes) : FinalityState :=
  (st.processEpoch g votes).2.recordOwnCheckpoint (votes.epoch + 1) (root (votes.epoch + 1))

theorem closes_closeWith (root : ℕ → Bytes32) (accepted : (st.processEpoch g votes).1 = .ok outcome) :
    Closes g recordOwnCheckpoint root st (votes, outcome) (closeWith g root st votes) :=
  ⟨_, Prod.ext accepted rfl, rfl⟩

/-- Two epochs of a lone validator: the second finalizes the first. -/
theorem own_first_epoch_finalized : let g : Gates := { Gates.shipped with ownTargetVotes := 0 }
    let root : ℕ → Bytes32 := fun e => Fin.ofNat _ (e + 5)
    let start := (new ⟨0, root 0⟩).recordOwnCheckpoint 1 (root 1)
    let first : EpochVotes := ⟨1, [⟨1, 10⟩], [(1, ⟨32, 6, 0, 5, 1, 6⟩)]⟩
    let second : EpochVotes := ⟨2, [⟨1, 10⟩], [(1, ⟨64, 7, 1, 6, 2, 7⟩)]⟩
    let post := closeWith g root (closeWith g root start first) second
    ∃ outcomes, Run (Closes g recordOwnCheckpoint root) start ([first, second].zip outcomes) post ∧
      post.finalized.epoch = 1 ∧ post.finalized.root = root post.finalized.epoch := by
  intro g root start first second post
  have one : (start.processEpoch g first).1 = .ok ⟨some ⟨1, 6⟩, none, ∅⟩ := by decide +kernel
  have two : ((closeWith g root start first).processEpoch g second).1 =
      .ok ⟨some ⟨2, 7⟩, some ⟨1, 6⟩, ∅⟩ := by decide +kernel
  have run := Run.cons (closes_closeWith root one) (.cons (closes_closeWith root two) (.nil _))
  have own : Own root start := by
    constructor
    · intro e r found
      rw [get?_recordOwnCheckpoint] at found
      split_ifs at found with newest
      · rw [← Option.some.inj found, newest]
      · cases found
    · rfl
  have moved : post.finalized ≠ start.finalized := by decide +kernel
  have kept := (own_chain_finality own (by decide) run).2.2.2.1
  exact ⟨[_, _], run, by decide +kernel, kept.resolve_left moved⟩

end BlochPos.OwnChain
