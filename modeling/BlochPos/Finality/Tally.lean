import BlochPos.Finality.Engine

/-! What one epoch's votes amount to: who stands behind a root, and that at most one root can reach
the quorum. -/
namespace BlochPos.FinalityState

open SortedMap

variable {g : Gates} {st : FinalityState} {votes : EpochVotes} {d : AttestationData}

theorem mem_of_firstVote
    (cast : (st.ballots votes).firstVote.get? v = some d) :
    (v, d) ∈ votes.attestations ∧ d.targetEpoch = votes.epoch := by
  let Faithful (seen : Ballots) : Prop := ∀ v d, seen.firstVote.get? v = some d →
    (v, d) ∈ votes.attestations ∧ d.targetEpoch = votes.epoch
  have all : Faithful (st.ballots votes) := by
    refine List.foldlRecOn votes.attestations _ (motive := Faithful) ?_ ?_
    · intro v d impossible
      simp at impossible
    · intro seen faithful vote member v d found
      unfold castVote at found
      split_ifs at found with outside wrongEpoch
      · exact faithful v d found
      · exact faithful v d found
      · split at found
        · rw [get?_insert] at found
          split_ifs at found with same
          · obtain rfl : vote.2 = d := Option.some.inj found
            exact ⟨by rw [same]; exact member, not_not.mp wrongEpoch⟩
          · exact faithful v d found
        · split_ifs at found
          · exact faithful v d found
          · exact faithful v d found
  exact all v d cast

theorem validVotes_get?
    (valid : (st.validVotes g votes).get? v = some d) :
    (v, d) ∈ votes.attestations ∧ d.targetEpoch = votes.epoch ∧ st.admissible g votes d = true := by
  simp only [validVotes, soleVotes, get?_filter, Option.filter_eq_some_iff] at valid
  obtain ⟨⟨cast, _⟩, passes⟩ := valid
  exact ⟨(mem_of_firstVote cast).1, (mem_of_firstVote cast).2, passes⟩

/-- Who backs this root with a valid vote. -/
def supporters (g : Gates) (st : FinalityState) (votes : EpochVotes) (root : Bytes32) : Finset ℕ :=
  ((st.validVotes g votes).filter (fun _ d => d.targetRoot = root)).keyset

theorem mem_supporters_iff : v ∈ st.supporters g votes root ↔
    ∃ d, (st.validVotes g votes).get? v = some d ∧ d.targetRoot = root := by
  simp [supporters, mem_keyset_iff, Option.filter_eq_some_iff]

theorem tally_getD (root : Bytes32) : (st.tally g votes).getD root 0 =
    ∑ v ∈ st.supporters g votes root, st.voteWeight g votes v := by
  have counted := getD_foldl_addAt (st.validVotes g votes).entries
    (fun vote => vote.2.targetRoot) (fun vote => st.voteWeight g votes vote.1) .empty root
  have asMap : (((st.validVotes g votes).entries.filter (fun vote => vote.2.targetRoot = root)).map
      (fun vote => st.voteWeight g votes vote.1)).sum =
      ((st.validVotes g votes).filter (fun _ d => d.targetRoot = root)).sum
        (fun v _ => st.voteWeight g votes v) := rfl
  rw [asMap, sum_eq_sum_keyset] at counted
  refine counted.trans ?_
  simp only [getD, get?_empty, Option.getD_none, zero_add]
  refine Finset.sum_congr rfl ?_
  intro v member
  obtain ⟨d, found⟩ := mem_keyset_iff.mp member
  simp [found]

theorem sum_voteWeight_le (g : Gates) (st : FinalityState) (votes : EpochVotes) (voters : Finset ℕ) :
    ∑ v ∈ voters, st.voteWeight g votes v ≤ st.totalActive g votes := by
  unfold voteWeight totalActive
  cases st.frozenSet g votes with
  | some set => exact sum_getD_le set.members voters
  | none =>
    have bounded := sum_getD_le (st.stakeMap votes) voters
    dsimp only
    split_ifs
    · exact bounded
    · exact bounded.trans (le_max_left _ _)

theorem supporters_disjoint (distinct : left ≠ right) :
    Disjoint (st.supporters g votes left) (st.supporters g votes right) := by
  rw [Finset.disjoint_left]
  intro v inLeft inRight
  obtain ⟨d, found, rfl⟩ := mem_supporters_iff.mp inLeft
  obtain ⟨d', found', rfl⟩ := mem_supporters_iff.mp inRight
  obtain rfl : d = d' := Option.some.inj (found.symm.trans found')
  exact distinct rfl

/-- Two thirds twice would be more than the whole. -/
theorem quorum_unique
    (leftQuorum : reachesQuorum ((st.tally g votes).getD left 0) (st.totalActive g votes) = true)
    (rightQuorum : reachesQuorum ((st.tally g votes).getD right 0) (st.totalActive g votes) = true) :
    left = right := by
  by_contra distinct
  simp only [reachesQuorum, decide_eq_true_eq] at leftQuorum rightQuorum
  rw [tally_getD] at leftQuorum rightQuorum
  have both := sum_voteWeight_le g st votes
    (st.supporters g votes left ∪ st.supporters g votes right)
  rw [Finset.sum_union (supporters_disjoint distinct)] at both
  omega

theorem justifiedNow_some (justified : st.justifiedNow g votes = some cp) :
    cp.epoch = votes.epoch ∧
      reachesQuorum ((st.tally g votes).getD cp.root 0) (st.totalActive g votes) = true := by
  obtain ⟨entry, found, rfl⟩ := Option.map_eq_some_iff.mp justified
  have member := get?_eq_some_iff.mpr (List.mem_of_find?_eq_some found)
  refine ⟨rfl, ?_⟩
  rw [getD_eq_of_get? member]
  have quorum := List.find?_some found
  exact quorum

/-- A checkpoint of the epoch is justified exactly when its root has a quorum. -/
theorem justifiedNow_eq_some_iff : st.justifiedNow g votes = some cp ↔
    cp.epoch = votes.epoch ∧
      reachesQuorum ((st.tally g votes).getD cp.root 0) (st.totalActive g votes) = true := by
  refine ⟨justifiedNow_some, ?_⟩
  rintro ⟨epoch, quorum⟩
  have present : cp.root ∈ (st.tally g votes).keyset := by
    by_contra absent
    rw [getD_eq_zero_of_notMem absent] at quorum
    simp only [reachesQuorum, decide_eq_true_eq] at quorum
    omega
  obtain ⟨weight, found⟩ := mem_keyset_iff.mp present
  cases answer : st.justifiedNow g votes with
  | none =>
    simp only [justifiedNow, Option.map_eq_none_iff, List.find?_eq_none] at answer
    rw [getD_eq_of_get? found] at quorum
    exact absurd quorum (answer _ (get?_eq_some_iff.mp found))
  | some other =>
    obtain ⟨otherEpoch, otherQuorum⟩ := justifiedNow_some answer
    have root := quorum_unique otherQuorum quorum
    cases cp
    cases other
    simp_all

end BlochPos.FinalityState
