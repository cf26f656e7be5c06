import BlochPos.Delegation.Churn

/-! Delegations against the total. The search cannot tell delegations of one queue key apart. -/
namespace BlochPos

open List

theorem Delegation.queueKey_eq_iff {d d' : Delegation} : d.queueKey = d'.queueKey ↔
    d.requestedEpoch = d'.requestedEpoch ∧ d.validator = d'.validator ∧ d.delegator = d'.delegator ∧
      d.amountSat = d'.amountSat := by
  simp only [queueKey, EmbeddingLike.apply_eq_iff_eq, Prod.mk.injEq]

namespace Registry

variable {l : List (QueueKey × ℕ)} {k : QueueKey} {a : ℕ}

def highestMatch : KeySearch := fun l k =>
  ((l.filter (fun e => e.1 = k)).map Prod.snd).max?

theorem mem_matches : a ∈ (l.filter (fun e => e.1 = k)).map Prod.snd ↔ (k, a) ∈ l := by
  simp only [mem_map, mem_filter, decide_eq_true_eq]
  constructor
  · rintro ⟨⟨k', a'⟩, ⟨member, rfl⟩, rfl⟩
    exact member
  · exact fun member => ⟨(k, a), ⟨member, rfl⟩, rfl⟩

theorem highestMatch_searches : Searches highestMatch where
  found _ found := mem_matches.mp (max?_mem found)
  missed _ missed a member := by
    have none_ := max?_eq_none_iff.mp missed
    have listed := mem_matches.mpr member
    simp [none_] at listed

theorem le_highestMatch (member : (k, a) ∈ l) : a ≤ (highestMatch l k).getD 0 := by
  have listed := mem_matches.mpr member
  cases found : highestMatch l k with
  | none =>
    simp [max?_eq_none_iff.mp found] at listed
  | some top => exact (max?_eq_some_iff.mp found).2 a listed

section

variable {delegations : List Delegation} {e : ℕ} {search : KeySearch}
  {d : Delegation} {q : Queued}

theorem mem_activated : (k, a) ∈ (resolve delegations e).activated ↔
    ∃ q ∈ (schedule delegations e).queue, 0 < q.activated ∧ q.delegation.queueKey = k ∧ q.activated = a := by
  simp only [resolve, mem_insertionSort, mem_map, mem_filter, decide_eq_true_eq, Prod.mk.injEq, and_assoc]

section

variable (delegations : List Delegation) (e : ℕ)

theorem activated_sorted : (resolve delegations e).activated.Pairwise (fun x y => x.1 ≤ y.1) := by
  let before : QueueKey × ℕ → QueueKey × ℕ → Prop := fun a b => a.1 < b.1 ∨ (a.1 = b.1 ∧ a.2 ≤ b.2)
  have total : Std.Total before := by
    constructor
    intro a b
    rcases lt_trichotomy a.1 b.1 with less | same | more
    · exact .inl (.inl less)
    · rcases le_total a.2 b.2 with less | more
      · exact .inl (.inr ⟨same, less⟩)
      · exact .inr (.inr ⟨same.symm, more⟩)
    · exact .inr (.inl more)
  have trans : IsTrans (QueueKey × ℕ) before := by
    constructor
    rintro a b c (less | ⟨same, le⟩) (less' | ⟨same', le'⟩)
    · exact .inl (less.trans less')
    · exact .inl (same' ▸ less)
    · exact .inl (same ▸ less')
    · exact .inr ⟨same.trans same', le.trans le'⟩
  have sorted := pairwise_insertionSort before
    (((schedule delegations e).queue.filter (fun q => 0 < q.activated)).map
      (fun q => (q.delegation.queueKey, q.activated)))
  apply sorted.imp
  rintro a b (less | ⟨same, -⟩)
  · exact less.le
  · exact same.le

theorem answer_cases (searches : Searches search) (delegations : List Delegation) (e : ℕ) (d : Delegation) :
    (activatedSat search (resolve delegations e) d = 0 ∧
      ∀ q ∈ (schedule delegations e).queue, q.delegation.queueKey = d.queueKey → q.activated = 0) ∨
    ∃ q ∈ (schedule delegations e).queue, q.delegation.queueKey = d.queueKey ∧ 0 < q.activated ∧
      activatedSat search (resolve delegations e) d = q.activated := by
  unfold activatedSat
  cases found : search (resolve delegations e).activated d.queueKey with
  | none =>
    left
    refine ⟨rfl, ?_⟩
    intro q member key
    by_contra positive
    exact searches.missed (activated_sorted delegations e) found q.activated
      (mem_activated.mpr ⟨q, member, Nat.pos_of_ne_zero positive, key, rfl⟩)
  | some a =>
    right
    obtain ⟨q, member, positive, key, rfl⟩ :=
      mem_activated.mp (searches.found (activated_sorted delegations e) found)
    exact ⟨q, member, key, positive, rfl⟩

theorem answer_le_amount (searches : Searches search) (delegations : List Delegation) (e : ℕ) (d : Delegation) :
    activatedSat search (resolve delegations e) d ≤ d.amountSat := by
  rcases answer_cases searches delegations e d with ⟨zero, -⟩ | ⟨q, member, key, -, answer⟩
  · rw [zero]
    exact Nat.zero_le _
  · rw [answer, ← (Delegation.queueKey_eq_iff.mp key).2.2.2]
    exact (schedule_balanced delegations e).amounts q member

theorem queueOf_perm : (queueOf delegations).Perm (delegations.filter Delegation.counts) :=
  perm_insertionSort _ _

theorem sum_split (f : Delegation → ℕ) (delegations : List Delegation) (e : ℕ) :
    (delegations.map f).sum = ((schedule delegations e).queue.map (fun q => f q.delegation)).sum +
      ((delegations.filter (!·.counts)).map f).sum := by
  have queued : ((schedule delegations e).queue.map (fun q => f q.delegation)) =
      (queueOf delegations).map f := by
    rw [← map_delegation_schedule delegations e, map_map]
    rfl
  have parts := (filter_append_perm Delegation.counts delegations).map f
  rw [queued, ((queueOf_perm delegations).map f).sum_eq, ← parts.sum_eq, map_append, sum_append]

theorem sum_stakeBehind {validators : Finset ℕ} (named : ∀ q ∈ queue, q.delegation.validator ∈ validators) :
    ∑ v ∈ validators, stakeBehind v queue = stakeIn queue := by
  induction queue with
  | nil => simp [stakeIn, stakeBehind]
  | cons q rest ih =>
    simp only [stakeBehind_cons, stakeIn_cons, Finset.sum_add_distrib]
    rw [ih (fun q among => named q (mem_cons_of_mem _ among)), Finset.sum_ite_eq,
      if_pos (named q mem_cons_self)]

theorem sum_stakeOf : ∑ v ∈ (delegations.map Delegation.validator).toFinset, (resolve delegations e).stakeOf v =
    (resolve delegations e).totalActive := by
  have balanced := schedule_balanced delegations e
  have each (v : ℕ) : (resolve delegations e).stakeOf v = stakeBehind v (schedule delegations e).queue :=
    balanced.stakes v
  simp only [each]
  rw [sum_stakeBehind]
  · exact balanced.total.symm
  · intro q member
    rw [mem_toFinset]
    exact mem_map_of_mem (delegation_of_mem_schedule member).1

/-- Where a key is in, its entries are in alike and all eligible. -/
def EvenlyActivated : Prop :=
  ∀ q ∈ (schedule delegations e).queue, 0 < q.activated →
    (∀ q' ∈ (schedule delegations e).queue, q'.delegation.queueKey = q.delegation.queueKey →
      q'.activated = q.activated) ∧
    ∀ d ∈ delegations, d.queueKey = q.delegation.queueKey → d.eligible = true

end

/-- The answers for the delegations, the stakes of their validators and the total
agree, and no answer exceeds its delegation. -/
structure Accounted (delegations : List Delegation) (r : Registry)
    (search : List (QueueKey × ℕ) → QueueKey → Option ℕ) : Prop where
  total : (delegations.map (activatedSat search r)).sum = r.totalActive
  stakes : ∑ v ∈ (delegations.map Delegation.validator).toFinset, r.stakeOf v = r.totalActive
  amounts : ∀ d ∈ delegations, activatedSat search r d ≤ d.amountSat

section

variable (even : EvenlyActivated delegations e)
include even

theorem EvenlyActivated.answer (searches : Searches search)
    (member : q ∈ (schedule delegations e).queue) :
    activatedSat search (resolve delegations e) q.delegation = q.activated := by
  rcases answer_cases searches delegations e q.delegation with ⟨zero, idle⟩ | ⟨q', member', key, positive, answer⟩
  · rw [zero, idle q member rfl]
  · rw [answer]
    exact ((even q' member' positive).1 q member key.symm).symm

theorem EvenlyActivated.answer_outside (searches : Searches search)
    (among : d ∈ delegations) (outside : ¬ (d.eligible = true ∧ MIN_DELEGATION_SAT ≤ d.amountSat)) :
    activatedSat search (resolve delegations e) d = 0 := by
  rcases answer_cases searches delegations e d with ⟨zero, -⟩ | ⟨q, member, key, positive, -⟩
  · exact zero
  · have eligible := (even q member positive).2 d among key.symm
    have large := (delegation_of_mem_schedule member).2.2
    rw [(Delegation.queueKey_eq_iff.mp key).2.2.2] at large
    exact absurd ⟨eligible, large⟩ outside

theorem EvenlyActivated.accounted (searches : Searches search) :
    Accounted delegations (resolve delegations e) search := by
  refine ⟨?_, sum_stakeOf delegations e, fun d _ => answer_le_amount searches delegations e d⟩
  have inside : (schedule delegations e).queue.map
      (fun q => activatedSat search (resolve delegations e) q.delegation) =
      (schedule delegations e).queue.map Queued.activated :=
    map_congr_left (fun q member => even.answer searches member)
  have outside : ((delegations.filter (!·.counts)).map (activatedSat search (resolve delegations e))).sum = 0 := by
    apply sum_eq_zero
    intro answer listed
    obtain ⟨d, kept, rfl⟩ := mem_map.mp listed
    simp only [mem_filter, Bool.not_eq_true', Bool.and_eq_false_iff, decide_eq_false_iff_not] at kept
    apply even.answer_outside searches kept.1
    rintro ⟨eligible, large⟩
    simp [eligible, large] at kept
  rw [sum_split _ _ e, inside, outside]
  exact (schedule_balanced delegations e).total.symm

end

/-- The highest answers never fall short, so they add up only if none is too high. -/
theorem evenlyActivated_of_accounted
    (accounted : Accounted delegations (resolve delegations e) highestMatch) : EvenlyActivated delegations e := by
  have least : ∀ q ∈ (schedule delegations e).queue,
      q.activated ≤ activatedSat highestMatch (resolve delegations e) q.delegation := by
    intro q member
    rcases Nat.eq_zero_or_pos q.activated with idle | positive
    · rw [idle]
      exact Nat.zero_le _
    · exact le_highestMatch (mem_activated.mpr ⟨q, member, positive, rfl, rfl⟩)
  have total := accounted.total
  have held : (resolve delegations e).totalActive = stakeIn (schedule delegations e).queue :=
    (schedule_balanced delegations e).total
  have enough : stakeIn (schedule delegations e).queue ≤ ((schedule delegations e).queue.map
      (fun q => activatedSat highestMatch (resolve delegations e) q.delegation)).sum :=
    sum_le_sum least
  rw [sum_split _ _ e, held] at total
  have exact_ : ∀ q ∈ (schedule delegations e).queue,
      activatedSat highestMatch (resolve delegations e) q.delegation = q.activated := by
    intro q member
    by_contra differs
    have more : stakeIn (schedule delegations e).queue < ((schedule delegations e).queue.map
        (fun q => activatedSat highestMatch (resolve delegations e) q.delegation)).sum :=
      sum_lt_sum _ _ least ⟨q, member, lt_of_le_of_ne (least q member) (Ne.symm differs)⟩
    omega
  have answer {d : Delegation} {q : Queued} (key : d.queueKey = q.delegation.queueKey) :
      activatedSat highestMatch (resolve delegations e) d =
        activatedSat highestMatch (resolve delegations e) q.delegation := by
    rw [activatedSat, activatedSat, key]
  intro q member positive
  constructor
  · intro q' member' key
    rw [← exact_ q' member', ← exact_ q member, answer key]
  · intro d among key
    by_contra barred
    rw [Bool.not_eq_true] at barred
    have listed : activatedSat highestMatch (resolve delegations e) d ∈
        (delegations.filter (!·.counts)).map (activatedSat highestMatch (resolve delegations e)) := by
      apply mem_map_of_mem
      simp [among, barred]
    have most := le_sum_of_mem listed
    rw [answer key, exact_ q member] at most
    omega

theorem evenlyActivated_of_nodup (apart : (delegations.map Delegation.queueKey).Nodup) (e : ℕ) :
    EvenlyActivated delegations e := by
  have queued : ((schedule delegations e).queue.map (fun q => q.delegation.queueKey)).Nodup := by
    have whole : (schedule delegations e).queue.map (fun q => q.delegation.queueKey) =
        (queueOf delegations).map Delegation.queueKey := by
      rw [← map_delegation_schedule delegations e, map_map]
      rfl
    rw [whole, ((queueOf_perm delegations).map Delegation.queueKey).nodup_iff]
    exact (filter_sublist.map Delegation.queueKey).nodup apart
  intro q member _
  constructor
  · intro q' member' key
    rw [inj_on_of_nodup_map queued member' member key]
  · intro d among key
    obtain ⟨listed, eligible, -⟩ := delegation_of_mem_schedule member
    rwa [inj_on_of_nodup_map apart among listed key]

/-- Delegation accounting. Whichever entry of a key the search returns, the answers
add up exactly if delegations of one key are in alike, as they are if no two share
a key. -/
theorem delegation_accounting_iff (delegations : List Delegation) (e : ℕ) :
    ((∀ search, Searches search → Accounted delegations (resolve delegations e) search) ↔
      EvenlyActivated delegations e) ∧
    ((delegations.map Delegation.queueKey).Nodup →
      ∀ search, Searches search → Accounted delegations (resolve delegations e) search) := by
  constructor
  · constructor
    · intro accounted
      exact evenlyActivated_of_accounted (accounted highestMatch highestMatch_searches)
    · intro even search searches
      exact even.accounted searches
  · intro apart search searches
    exact (evenlyActivated_of_nodup apart e).accounted searches

end

/-- Two delegators behind one validator, half in. -/
theorem accounting_of_two_delegators :
    let delegations : List Delegation := [⟨0, 0, MIN_CHURN_SAT, 1, none, true⟩, ⟨1, 0, MIN_CHURN_SAT, 1, none, true⟩]
    Accounted delegations (resolve delegations 1) firstMatch := by
  intro delegations
  exact (delegation_accounting_iff delegations 1).2 (by decide) firstMatch firstMatch_searches

/-- One delegation made twice. After the first epoch the one is in whole, the other
by a quarter, and no answer for both is right. -/
theorem twin_delegations_miscounted : let twin : Delegation := ⟨0, 0, 40000000000000, 1, none, true⟩
    ∀ search, Searches search → ¬ Accounted [twin, twin] (resolve [twin, twin] 1) search := by
  intro twin search searches accounted
  have total := accounted.total
  have held : (resolve [twin, twin] 1).totalActive = 50000000000000 := by decide +kernel
  have figures : ∀ q ∈ (schedule [twin, twin] 1).queue,
      q.activated = 40000000000000 ∨ q.activated = 10000000000000 := by decide +kernel
  simp only [map_cons, map_nil, sum_cons, sum_nil, held] at total
  rcases answer_cases searches [twin, twin] 1 twin with ⟨zero, -⟩ | ⟨q, member, -, -, answer⟩
  · omega
  · have figure := figures q member
    omega

end Registry

end BlochPos
