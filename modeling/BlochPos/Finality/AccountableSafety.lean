import BlochPos.Finality.Run
import BlochPos.Lib.Supermajority

/-! Accountable safety of the frozen finality set, which changes only with a finalization. -/
namespace BlochPos.FinalityState

open SortedMap

open Relation Supermajority

variable {g : Gates} {st next final : FinalityState} {votes : EpochVotes} {history : List EpochVotes}
  {outcomes : List EpochOutcome} {set : FinalitySet}

/-- An epoch under the frozen set, outside a recovery. -/
def Frozen (g : Gates) (votes : EpochVotes) : Prop :=
  g.nativeFinalitySetActive votes.epoch = true ∧ g.nativeFinalitySetRecoveryAt votes.epoch = false

instance (g : Gates) (votes : EpochVotes) : Decidable (Frozen g votes) :=
  inferInstanceAs (Decidable (_ ∧ _))

/-- A vote of the history links the two checkpoints. -/
def Voted (history : List EpochVotes) (i : ℕ) (source target : Checkpoint) : Prop :=
  ∃ votes ∈ history, ∃ d, (i, d) ∈ votes.attestations ∧
    (d.sourceEpoch = source.epoch ∧ d.sourceRoot = source.root) ∧
    d.targetEpoch = target.epoch ∧ d.targetRoot = target.root

abbrev SetLink (set : FinalitySet) (history : List EpochVotes) : Checkpoint → Checkpoint → Prop :=
  Link Checkpoint.epoch (fun i => set.members.getD i 0) set.members.keyset (Voted history)

theorem SetLink.mono (within : ∀ votes ∈ history, votes ∈ whole)
    (link : SetLink set history s t) : SetLink set whole s t := by
  obtain ⟨rising, quorum, members, enough, cast⟩ := link
  refine ⟨rising, quorum, members, enough, ?_⟩
  intro i member
  obtain ⟨votes, epoch, ballot⟩ := cast i member
  exact ⟨votes, within votes epoch, ballot⟩

theorem opened_finalitySet (held : st.finalitySet = some fs) (frozen : Frozen g votes) :
    (st.opened g votes).finalitySet = some fs := by
  simp [opened, openFinalitySet, held, frozen.1, frozen.2]

theorem frozenSet_opened (held : st.finalitySet = some fs) (frozen : Frozen g votes) :
    (st.opened g votes).frozenSet g votes = some fs.current := by
  simp [frozenSet, frozen.1, opened_finalitySet held frozen]

theorem record_finalitySet (st : FinalityState) (justified finalized : Option Checkpoint) :
    (st.record justified finalized).finalitySet = st.finalitySet := by
  cases justified <;> rfl

theorem set_kept (accepted : st.processEpoch g votes = (.ok outcome, next))
    (held : st.finalitySet = some fs) (frozen : Frozen g votes) (none : outcome.finalized = none) :
    ∃ fs', next.finalitySet = some fs' ∧ fs'.current = fs.current := by
  obtain ⟨_, _, finalized, rfl⟩ := processEpoch_ok accepted
  rw [none] at finalized
  have recordedSet : ∀ justified finalized,
      ((st.opened g votes).record justified finalized).finalitySet = some fs := by
    intro justified finalized
    rw [record_finalitySet]
    exact opened_finalitySet held frozen
  obtain ⟨leaked, eq⟩ := updateLeak_eq g
    (((st.opened g votes).record ((st.opened g votes).justifiedNow g votes)
      ((st.opened g votes).finalizedNow g votes)).closeFinalitySet votes
        ((st.opened g votes).finalizedNow g votes) ((st.opened g votes).soleVotes votes))
    votes ((st.opened g votes).stakeMap votes) ((st.opened g votes).validVotes g votes)
  rw [closed, if_pos frozen.1, eq]
  simp only [closeFinalitySet, recordedSet, ← finalized]
  exact ⟨_, rfl, rfl⟩

/-- Supporters outside the set weigh nothing, so its members alone make the quorum. -/
theorem link_of_justified (accepted : st.processEpoch g votes = (.ok outcome, next))
    (coherent : st.Coherent) (held : st.finalitySet = some fs) (frozen : Frozen g votes)
    (justified : outcome.justified = some cp) :
    SetLink fs.current [votes] st.currentJustified cp := by
  obtain ⟨_, answer, _, _⟩ := processEpoch_ok accepted
  obtain ⟨epoch, quorum⟩ := justifiedNow_some (answer.symm.trans justified)
  obtain ⟨set, opened⟩ := opened_eq g st votes
  have source : (st.opened g votes).currentJustified = st.currentJustified := by rw [opened]
  have weights : ∀ v, (st.opened g votes).voteWeight g votes v = fs.current.members.getD v 0 := by
    intro v
    simp only [voteWeight, frozenSet_opened held frozen]
  have total : (st.opened g votes).totalActive g votes =
      ∑ i ∈ fs.current.members.keyset, fs.current.members.getD i 0 := by
    simp only [totalActive, frozenSet_opened held frozen, FinalitySet.total, sum_eq_sum_getD]
  simp only [reachesQuorum, decide_eq_true_eq, tally_getD, weights, total] at quorum
  refine ⟨((recorded accepted).justified_of_coherent coherent justified).1,
    {v ∈ (st.opened g votes).supporters g votes cp.root | v ∈ fs.current.members.keyset}, ?_, ?_, ?_⟩
  · intro v member
    exact (Finset.mem_filter.mp member).2
  · have inside : ∑ v ∈ (st.opened g votes).supporters g votes cp.root with
        v ∈ fs.current.members.keyset, fs.current.members.getD v 0 =
        ∑ v ∈ (st.opened g votes).supporters g votes cp.root, fs.current.members.getD v 0 := by
      refine Finset.sum_filter_of_ne ?_
      intro v _ positive
      by_contra outside
      exact positive (getD_eq_zero_of_notMem outside)
    dsimp only
    rw [inside]
    omega
  · intro v member
    obtain ⟨d, valid, root⟩ := mem_supporters_iff.mp (Finset.mem_filter.mp member).1
    obtain ⟨attested, targetEpoch, admitted⟩ := validVotes_get? valid
    simp only [admissible, decide_eq_true_eq, source] at admitted
    exact ⟨votes, List.mem_singleton_self votes, d, attested, ⟨admitted.1.1, admitted.1.2.1⟩,
      targetEpoch.trans epoch.symm, root⟩

/-- A link of the run: a quorum of the set cast it, and its target is justified
in the run's last state. -/
def RunLink (set : FinalitySet) (history : List EpochVotes) (final : FinalityState)
    (source target : Checkpoint) : Prop :=
  SetLink set history source target ∧ final.isJustified target = true

theorem RunLink.cons (link : RunLink set history final s t) : RunLink set (votes :: history) final s t :=
  ⟨link.1.mono (fun _ member => List.mem_cons_of_mem _ member), link.2⟩

section

variable (run : Run g st history outcomes final)
include run

/-- The first finalized checkpoint ends a chain of links from the checkpoint the run started on, over one
set, because only a finalization hands it over. -/
theorem Run.first_finalized (coherent : st.Coherent)
    (held : st.finalitySet = some fs) (frozen : ∀ votes ∈ history, Frozen g votes)
    (first : outcomes.findSome? EpochOutcome.finalized = some a) :
    ReflTransGen (RunLink fs.current history final) st.currentJustified a ∧
      ∃ above, RunLink fs.current history final a above ∧ above.epoch = a.epoch + 1 := by
  induction run generalizing fs with
  | nil => simp at first
  | @cons st next final votes outcome history outcomes accepted run ih =>
    have step := recorded accepted
    have nextCoherent := step.coherent coherent
    have here := frozen votes List.mem_cons_self
    have linked : ∀ cp, outcome.justified = some cp →
        RunLink fs.current (votes :: history) final st.currentJustified cp := by
      intro cp justified
      refine ⟨(link_of_justified accepted coherent held here justified).mono (by simp), ?_⟩
      obtain ⟨_, _, map, _⟩ := step.justified_of_coherent coherent justified
      have entry := run.justified_kept nextCoherent
        (show next.justified.get? cp.epoch = some cp.root by rw [map, get?_insert_self])
      simp [isJustified, entry]
    cases finalized : outcome.finalized with
    | some cp =>
      obtain rfl : cp = a := by simpa [finalized] using first
      obtain ⟨rfl, ⟨target, justified, adjacent⟩, _⟩ := (step.finalizes cp).mp finalized
      exact ⟨.refl, target, linked target justified, adjacent⟩
    | none =>
      obtain ⟨fs', held', same⟩ := set_kept accepted held here finalized
      have rest : outcomes.findSome? EpochOutcome.finalized = some a := by
        simpa [finalized] using first
      obtain ⟨chain, above, last, adjacent⟩ := ih nextCoherent held'
        (fun votes member => frozen votes (List.mem_cons_of_mem _ member)) rest
      rw [same] at chain last
      have chain' : ReflTransGen (RunLink fs.current (votes :: history) final)
          next.currentJustified a := chain.lift id (fun _ _ link => link.cons)
      refine ⟨?_, above, last.cons, adjacent⟩
      cases justified : outcome.justified with
      | none =>
        have stays : next.currentJustified = st.currentJustified := by
          rw [step.current, justified]
          rfl
        rwa [stays] at chain'
      | some cp =>
        obtain ⟨_, _, _, moved⟩ := step.justified_of_coherent coherent justified
        rw [moved] at chain'
        exact chain'.head (linked cp justified)

theorem Run.finalizes (coherent : st.Coherent)
    (held : st.finalitySet = some fs) (frozen : ∀ votes ∈ history, Frozen g votes)
    (first : outcomes.findSome? EpochOutcome.finalized = some a)
    (fresh : a ≠ st.currentJustified) :
    Finalizes Checkpoint.epoch (RunLink fs.current history final) st.currentJustified a := by
  obtain ⟨chain, above, last, adjacent⟩ := run.first_finalized coherent held frozen first
  rcases ReflTransGen.cases_tail chain with same | ⟨before, path, incoming⟩
  · exact absurd same fresh
  · exact ⟨before, above, path, incoming, last, adjacent⟩

theorem Run.reached_justified (coherent : st.Coherent)
    (chain : ReflTransGen (RunLink set history final) st.currentJustified x) :
    final.isJustified x = true := by
  rcases ReflTransGen.cases_tail chain with rfl | ⟨_, _, link⟩
  · simp [isJustified, run.justified_kept coherent coherent.current_mem]
  · exact link.2

end

/-- Two votes of one validator that must not both be cast. -/
def Offends (history : List EpochVotes) (i : ℕ) : Prop :=
  ∃ d d', (∃ votes ∈ history, (i, d) ∈ votes.attestations) ∧
    (∃ votes ∈ history, (i, d') ∈ votes.attestations) ∧
    (d.isDoubleVote d' = true ∨ d.surrounds d' = true)

theorem offends_of_conflict (conflict : Conflict Checkpoint.epoch (Voted history) i) : Offends history i := by
  obtain ⟨s, t, s', t', ⟨votes, epoch, d, cast, source, target⟩,
    ⟨votes', epoch', d', cast', source', target'⟩, offence⟩ := conflict
  refine ⟨d, d', ⟨votes, epoch, cast⟩, ⟨votes', epoch', cast'⟩, ?_⟩
  rcases offence with ⟨height, distinct⟩ | ⟨lower, higher⟩
  · refine .inl ?_
    simp only [AttestationData.isDoubleVote, decide_eq_true_eq]
    refine ⟨by omega, ?_⟩
    rintro rfl
    apply distinct
    cases s
    cases s'
    cases t
    cases t'
    simp_all
  · refine .inr ?_
    simp only [AttestationData.surrounds, decide_eq_true_eq]
    omega

/-- Two histories accepted from one state over a frozen set, whose first finalized checkpoints are foreign
to each other, hold a third of the set accountable. -/
theorem accountable_safety {genesis : Checkpoint} {S A' B' : FinalityState}
    (reached : Reachable g genesis S) (held : S.finalitySet = some fs)
    {A B : List EpochVotes} {outA outB : List EpochOutcome}
    (runA : Run g S A outA A') (runB : Run g S B outB B')
    (frozenA : ∀ votes ∈ A, Frozen g votes) (frozenB : ∀ votes ∈ B, Frozen g votes)
    {a b : Checkpoint} (firstA : outA.findSome? EpochOutcome.finalized = some a)
    (firstB : outB.findSome? EpochOutcome.finalized = some b)
    (foreignA : B'.isJustified a = false) (foreignB : A'.isJustified b = false) :
    ∃ guilty ⊆ fs.current.members.keyset, fs.current.total ≤ 3 * ∑ i ∈ guilty, fs.current.members.getD i 0 ∧
      ∀ i ∈ guilty, ∃ d d', (∃ votes ∈ A ++ B, (i, d) ∈ votes.attestations) ∧
        (∃ votes ∈ A ++ B, (i, d') ∈ votes.attestations) ∧
        (d.isDoubleVote d' = true ∨ d.surrounds d' = true) := by
  have coherent := reached.coherent
  have apartA : ¬ ReflTransGen (RunLink fs.current B B') S.currentJustified a := by
    intro chain
    simp [runB.reached_justified coherent chain] at foreignA
  have apartB : ¬ ReflTransGen (RunLink fs.current A A') S.currentJustified b := by
    intro chain
    simp [runA.reached_justified coherent chain] at foreignB
  have finalA := runA.finalizes coherent held frozenA firstA (fun eq => apartA (eq ▸ .refl))
  have finalB := runB.finalizes coherent held frozenB firstB (fun eq => apartB (eq ▸ .refl))
  have linkA : ∀ s t, RunLink fs.current A A' s t → SetLink fs.current (A ++ B) s t :=
    fun _ _ link => link.1.mono (fun _ member => List.mem_append_left _ member)
  have linkB : ∀ s t, RunLink fs.current B B' s t → SetLink fs.current (A ++ B) s t :=
    fun _ _ link => link.1.mono (fun _ member => List.mem_append_right _ member)
  obtain ⟨guilty, members, third, offences⟩ := conflicting_third linkA linkB finalA finalB apartA apartB
  refine ⟨guilty, members, ?_, fun i member => offends_of_conflict (offences i member)⟩
  rw [FinalitySet.total, sum_eq_sum_getD]
  exact third

def splitGates : Gates := { Gates.shipped with frozenFinalitySet := 0 }

def splitVotes (sourceEpoch : ℕ) (sourceRoot : Bytes32) (epoch : ℕ) (root : Bytes32) : EpochVotes where
  epoch := epoch
  activeSet := [⟨1, 10⟩]
  attestations := [(1, ⟨32 * epoch, root, sourceEpoch, sourceRoot, epoch, root⟩)]

def splitState : FinalityState :=
  ((new ⟨0, 0⟩).processEpoch splitGates ⟨1, [⟨1, 10⟩], []⟩).2

def splitSide (root : Bytes32) : List EpochVotes :=
  [splitVotes 0 0 2 root, splitVotes 2 root 3 (root + 1)]

def splitEnd (root : Bytes32) : FinalityState :=
  ((splitState.processEpoch splitGates (splitVotes 0 0 2 root)).2.processEpoch splitGates
    (splitVotes 2 root 3 (root + 1))).2

def splitOutcomes (root : Bytes32) : List EpochOutcome :=
  [⟨some ⟨2, root⟩, none, ∅⟩, ⟨some ⟨3, root + 1⟩, some ⟨2, root⟩, ∅⟩]

theorem splitRun_five : Run splitGates splitState (splitSide 5) (splitOutcomes 5) (splitEnd 5) :=
  .cons (Prod.ext (by decide) rfl) (.cons (Prod.ext (by decide) rfl) (.nil _))

theorem splitRun_seven : Run splitGates splitState (splitSide 7) (splitOutcomes 7) (splitEnd 7) :=
  .cons (Prod.ext (by decide) rfl) (.cons (Prod.ext (by decide) rfl) (.nil _))

def splitSet : FinalitySetState where
  current := ⟨1, empty.insert 1 10⟩
  pending := some ⟨1, empty.insert 1 10⟩
  lastSeen := empty.insert 1 1

theorem splitState_reachable : Reachable splitGates ⟨0, 0⟩ splitState := .epoch _ .new

theorem splitState_finalitySet : splitState.finalitySet = some splitSet := by decide

theorem accountable_safety_split :
    ∃ guilty ⊆ splitSet.current.members.keyset,
      splitSet.current.total ≤ 3 * ∑ i ∈ guilty, splitSet.current.members.getD i 0 ∧
      ∀ i ∈ guilty, ∃ d d', (∃ votes ∈ splitSide 5 ++ splitSide 7, (i, d) ∈ votes.attestations) ∧
        (∃ votes ∈ splitSide 5 ++ splitSide 7, (i, d') ∈ votes.attestations) ∧
        (d.isDoubleVote d' = true ∨ d.surrounds d' = true) :=
  accountable_safety splitState_reachable splitState_finalitySet splitRun_five splitRun_seven
    (by decide) (by decide) (a := ⟨2, 5⟩) (b := ⟨2, 7⟩) (by decide) (by decide) (by decide)
    (by decide)

end BlochPos.FinalityState
