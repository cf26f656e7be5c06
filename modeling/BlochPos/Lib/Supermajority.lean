import Mathlib

/-! Two-thirds supermajority links between nodes that carry a height. A chain of links justifies its last
node, and a justified node with a link to the next height is finalized. Voters, nodes and weights are
arbitrary. -/
namespace Supermajority

open Relation

variable {ι ν : Type*}

/-- Two two-thirds quorums of one weighted set share a third of its weight. -/
theorem third_le_inter [DecidableEq ι] (weight : ι → ℕ) {members left right : Finset ι}
    (leftIn : left ⊆ members) (rightIn : right ⊆ members)
    (leftQuorum : 2 * ∑ i ∈ members, weight i ≤ 3 * ∑ i ∈ left, weight i)
    (rightQuorum : 2 * ∑ i ∈ members, weight i ≤ 3 * ∑ i ∈ right, weight i) :
    ∑ i ∈ members, weight i ≤ 3 * ∑ i ∈ left ∩ right, weight i := by
  have split : ∑ i ∈ left ∪ right, weight i + ∑ i ∈ left ∩ right, weight i =
      ∑ i ∈ left, weight i + ∑ i ∈ right, weight i := Finset.sum_union_inter
  have union : ∑ i ∈ left ∪ right, weight i ≤ ∑ i ∈ members, weight i :=
    Finset.sum_le_sum_of_subset (Finset.union_subset leftIn rightIn)
  omega

/-- A quorum of the members voted for this source and this target. -/
def Link (height : ν → ℕ) (weight : ι → ℕ) (members : Finset ι) (voted : ι → ν → ν → Prop)
    (source target : ν) : Prop :=
  height source < height target ∧ ∃ quorum ⊆ members,
    2 * ∑ i ∈ members, weight i ≤ 3 * ∑ i ∈ quorum, weight i ∧ ∀ i ∈ quorum, voted i source target

/-- One voter cast two votes of which one doubles or surrounds the other. -/
def Conflict (height : ν → ℕ) (voted : ι → ν → ν → Prop) (i : ι) : Prop :=
  ∃ s t s' t', voted i s t ∧ voted i s' t' ∧
    ((height t = height t' ∧ (s, t) ≠ (s', t')) ∨ (height s < height s' ∧ height t' < height t))

/-- The node is justified by a chain from the start and links to the next height. -/
def Finalizes (height : ν → ℕ) (link : ν → ν → Prop) (start node : ν) : Prop :=
  ∃ before next, ReflTransGen link start before ∧ link before node ∧ link node next ∧
    height next = height node + 1

section

variable {height : ν → ℕ} {voted : ι → ν → ν → Prop}

theorem height_le_of_chain (rising : ∀ s t, link s t → height s < height t)
    (chain : ReflTransGen link x y) : height x ≤ height y := by
  induction chain with
  | refl => exact le_rfl
  | tail _ last ih => exact ih.trans (rising _ _ last).le

theorem exists_crossing (chain : ReflTransGen link x y) (below : height x < level) (above : level ≤ height y) :
    ∃ s t, ReflTransGen link x t ∧ link s t ∧ height s < level ∧ level ≤ height t := by
  induction chain with
  | refl => omega
  | @tail u v before last ih =>
    by_cases reached : level ≤ height u
    · exact ih reached
    · exact ⟨u, v, before.tail last, last, not_le.mp reached, above⟩

/-- Members that voted for both of two conflicting links make up a third. -/
theorem Link.conflicting_third
    (one : Link height weight members voted s t) (other : Link height weight members voted s' t')
    (conflict : (height t = height t' ∧ (s, t) ≠ (s', t')) ∨ (height s < height s' ∧ height t' < height t)) :
    ∃ guilty ⊆ members, ∑ i ∈ members, weight i ≤ 3 * ∑ i ∈ guilty, weight i ∧
      ∀ i ∈ guilty, Conflict height voted i := by
  classical
  obtain ⟨_, left, leftIn, leftQuorum, leftVotes⟩ := one
  obtain ⟨_, right, rightIn, rightQuorum, rightVotes⟩ := other
  refine ⟨left ∩ right, Finset.inter_subset_left.trans leftIn,
    third_le_inter weight leftIn rightIn leftQuorum rightQuorum, ?_⟩
  intro i both
  obtain ⟨inLeft, inRight⟩ := Finset.mem_inter.mp both
  exact ⟨s, t, s', t', leftVotes i inLeft, rightVotes i inRight, conflict⟩

/-- The chain to the higher node crosses the height of the lower one. Where it
lands decides the offence: on that height or the next it doubles one of the two
links around the lower node, above them it surrounds the second. -/
theorem conflicting_third_of_le
    (quorumA : ∀ s t, linkA s t → Link height weight members voted s t)
    (quorumB : ∀ s t, linkB s t → Link height weight members voted s t)
    (finalA : Finalizes height linkA start x)
    (chainB : ReflTransGen linkB start y) (apart : ¬ ReflTransGen linkB start x)
    (order : height x ≤ height y) :
    ∃ guilty ⊆ members, ∑ i ∈ members, weight i ≤ 3 * ∑ i ∈ guilty, weight i ∧
      ∀ i ∈ guilty, Conflict height voted i := by
  obtain ⟨before, next, chainA, incoming, outgoing, nextHeight⟩ := finalA
  have low : height start < height x :=
    (height_le_of_chain (fun s t l => (quorumA s t l).1) chainA).trans_lt (quorumA _ _ incoming).1
  obtain ⟨s, t, reached, across, sourceLow, targetHigh⟩ := exists_crossing chainB low order
  rcases eq_or_lt_of_le targetHigh with same | above
  · have distinct : x ≠ t := fun eq => apart (eq ▸ reached)
    exact (quorumA _ _ incoming).conflicting_third (quorumB _ _ across)
      (.inl ⟨same, fun eq => distinct (congrArg Prod.snd eq)⟩)
  rcases eq_or_lt_of_le (Nat.succ_le_of_lt above) with same | beyond
  · have sources : s ≠ x := fun eq => by rw [eq] at sourceLow; exact lt_irrefl _ sourceLow
    exact (quorumB _ _ across).conflicting_third (quorumA _ _ outgoing)
      (.inl ⟨by omega, fun eq => sources (congrArg Prod.fst eq)⟩)
  · exact (quorumB _ _ across).conflicting_third (quorumA _ _ outgoing)
      (.inr ⟨sourceLow, by omega⟩)

/-- Two histories from one start that finalize nodes foreign to each other
expose a third of the members. -/
theorem conflicting_third
    (quorumA : ∀ s t, linkA s t → Link height weight members voted s t)
    (quorumB : ∀ s t, linkB s t → Link height weight members voted s t)
    (finalA : Finalizes height linkA start x)
    (finalB : Finalizes height linkB start y)
    (apartX : ¬ ReflTransGen linkB start x) (apartY : ¬ ReflTransGen linkA start y) :
    ∃ guilty ⊆ members, ∑ i ∈ members, weight i ≤ 3 * ∑ i ∈ guilty, weight i ∧
      ∀ i ∈ guilty, Conflict height voted i := by
  have chain : ∀ {link : ν → ν → Prop} {node}, Finalizes height link start node →
      ReflTransGen link start node := fun ⟨_, _, path, last, _⟩ => path.tail last
  rcases le_total (height x) (height y) with order | order
  · exact conflicting_third_of_le quorumA quorumB finalA (chain finalB) apartX order
  · exact conflicting_third_of_le quorumB quorumA finalB (chain finalA) apartY order

end

end Supermajority
