import BlochPos.Attestation
import BlochPos.Lib.SortedMap

/-! Delegated stake. It enters and leaves consensus through a churn limit; `resolve` replays the
history of that limit up to an epoch. -/
namespace BlochPos

def SAT_PER_BLOCH : ℕ := 100000000
def WARMUP_RATE_BPS : ℕ := 25
def MIN_DELEGATION_SAT : ℕ := 10 * SAT_PER_BLOCH
def MIN_CHURN_SAT : ℕ := 500000 * SAT_PER_BLOCH
def MAX_VALIDATOR_STAKE_BPS : ℕ := 100
def CAP_FIXPOINT_ROUNDS : ℕ := 32
def COOLDOWN_EPOCHS : ℕ := 32

structure Delegation where
  (delegator validator amountSat requestedEpoch : ℕ)
  deactivateEpoch : Option ℕ
  eligible : Bool
deriving DecidableEq

/-- Requested epoch, validator, delegator, amount, compared in this order. -/
abbrev QueueKey := ℕ ×ₗ ℕ ×ₗ ℕ ×ₗ ℕ

def Delegation.queueKey (d : Delegation) : QueueKey :=
  toLex (d.requestedEpoch, toLex (d.validator, toLex (d.delegator, d.amountSat)))

inductive StakeState where
  | activating | active | deactivating | inactive
deriving DecidableEq

/-- Delegated stake as it stands at one epoch. -/
structure Registry where
  epoch : ℕ
  stakes : SortedMap ℕ ℕ
  totalActive : ℕ
  admitted : List QueueKey
  activated : List (QueueKey × ℕ)

namespace Registry

/-- A queued delegation with the part of it that counts. -/
structure Queued where
  delegation : Delegation
  activated : ℕ
deriving DecidableEq

/-- What a pass over the queue has used of its budget, and the stake so far. -/
structure Churn where
  (used totalActive : ℕ)
  active : SortedMap ℕ ℕ

def admitOne (e budget : ℕ) (c : Churn) (q : Queued) : Churn × Queued :=
  let d := q.delegation
  if e < d.requestedEpoch ∨ (∃ de ∈ d.deactivateEpoch, de ≤ e) then (c, q)
  else
    let remaining := d.amountSat - q.activated
    if remaining = 0 ∨ budget ≤ c.used then (c, q)
    else
      let take := min remaining (budget - c.used)
      (⟨c.used + take, c.totalActive + take, c.active.addAt d.validator take⟩,
        { q with activated := q.activated + take })

def releaseOne (e budget : ℕ) (c : Churn) (q : Queued) : Churn × Queued :=
  let d := q.delegation
  match d.deactivateEpoch with
  | none => (c, q)
  | some de =>
    if e < de ∨ q.activated = 0 ∨ budget ≤ c.used then (c, q)
    else
      let give := min q.activated (budget - c.used)
      let active := match c.active.get? d.validator with
        | none => c.active
        | some stake =>
          if stake - give = 0 then c.active.erase d.validator
          else c.active.insert d.validator (stake - give)
      (⟨c.used + give, c.totalActive - give, active⟩, { q with activated := q.activated - give })

def pass (step : Churn → Queued → Churn × Queued) : Churn → List Queued → Churn × List Queued
  | c, [] => (c, [])
  | c, q :: rest =>
    let (c, q) := step c q
    let (c, rest) := pass step c rest
    (c, q :: rest)

structure Schedule where
  totalActive : ℕ
  active : SortedMap ℕ ℕ
  queue : List Queued

/-- The genesis epoch admits everything; later ones a share of what is active. -/
def churnBudget (e totalActive : ℕ) : ℕ :=
  if e = 0 then u128Max else max (totalActive * WARMUP_RATE_BPS / 10000) MIN_CHURN_SAT

def advance (s : Schedule) (e : ℕ) : Schedule :=
  let budget := churnBudget e s.totalActive
  let (c, queue) := pass (admitOne e budget) ⟨0, s.totalActive, s.active⟩ s.queue
  let (c, queue) := pass (releaseOne e budget) ⟨0, c.totalActive, c.active⟩ queue
  ⟨c.totalActive, c.active, queue⟩

section

variable (delegations : List Delegation) (r : Registry)

def queueOf : List Delegation :=
  (delegations.filter (fun d => d.eligible && decide (MIN_DELEGATION_SAT ≤ d.amountSat))).insertionSort
    (fun a b => a.queueKey ≤ b.queueKey)

def schedule (epoch : ℕ) : Schedule :=
  (List.range (epoch + 1)).foldl advance
    ⟨0, .empty, (queueOf delegations).map (fun d => ⟨d, 0⟩)⟩

def resolve (epoch : ℕ) : Registry :=
  let s := schedule delegations epoch
  { epoch
    stakes := s.active
    totalActive := s.totalActive
    admitted := ((s.queue.filter (fun q => q.activated = q.delegation.amountSat)).map
      (fun q => q.delegation.queueKey)).insertionSort (· ≤ ·)
    activated := ((s.queue.filter (fun q => 0 < q.activated)).map
      (fun q => (q.delegation.queueKey, q.activated))).insertionSort
        (fun a b => a.1 < b.1 ∨ (a.1 = b.1 ∧ a.2 ≤ b.2)) }

/-- The cap feeds back into the total it is a share of. -/
def capFixpoint (stakes : List ℕ) : ℕ → ℕ → ℕ
  | 0, cap => cap
  | rounds + 1, cap =>
    let next := (stakes.map (fun s => min s cap)).sum * MAX_VALIDATOR_STAKE_BPS / 10000
    if next = cap then cap else capFixpoint stakes rounds next

def capSat : ℕ :=
  if r.totalActive = 0 then 0
  else capFixpoint r.stakes.values CAP_FIXPOINT_ROUNDS
    (r.totalActive * MAX_VALIDATOR_STAKE_BPS / 10000)

def validators : List Validator :=
  r.stakes.entries.map (fun e =>
    ⟨e.1, min (if 0 < r.capSat ∧ r.capSat < e.2 then r.capSat else e.2) u64Max⟩)

def validatorsWithAbsoluteCap (cap : ℕ) : List Validator :=
  r.stakes.entries.map (fun e => ⟨e.1, min (min e.2 cap) u64Max⟩)

def stakeOf (validator : ℕ) : ℕ := r.stakes.getD validator 0

end

abbrev KeySearch := List (QueueKey × ℕ) → QueueKey → Option ℕ

/-- What a binary search by key promises: an entry under the key, any of them if there are several,
and none only if there is none. -/
structure Searches (search : KeySearch) : Prop where
  found : ∀ {l k a}, l.Pairwise (fun x y => x.1 ≤ y.1) → search l k = some a → (k, a) ∈ l
  missed : ∀ {l k}, l.Pairwise (fun x y => x.1 ≤ y.1) → search l k = none → ∀ a, (k, a) ∉ l

def activatedSat (search : KeySearch) (r : Registry) (d : Delegation) : ℕ :=
  (search r.activated d.queueKey).getD 0

def firstMatch : KeySearch := fun l k => (l.find? (fun e => e.1 = k)).map Prod.snd

theorem firstMatch_searches : Searches firstMatch where
  found {l k a} _ found := by
    obtain ⟨⟨k', a'⟩, entry, rfl⟩ := Option.map_eq_some_iff.mp found
    have key : k' = k := by simpa using List.find?_some entry
    exact key ▸ List.mem_of_find?_eq_some entry
  missed {l k} _ missed a member := by
    simp only [firstMatch, Option.map_eq_none_iff, List.find?_eq_none] at missed
    exact missed (k, a) member (by simp)

def stateOf (r : Registry) (d : Delegation) : StakeState :=
  if d.eligible = false ∨ d.amountSat < MIN_DELEGATION_SAT then .inactive
  else match d.deactivateEpoch with
    | some de =>
      if de + COOLDOWN_EPOCHS ≤ r.epoch then .inactive
      else if de ≤ r.epoch then .deactivating
      else if d.queueKey ∈ r.admitted then .active else .activating
    | none => if d.queueKey ∈ r.admitted then .active else .activating

end Registry

/-- The per-validator cap over operator and delegated stake together. -/
def combinedCapSat (stakes : List ℕ) : ℕ :=
  let satSum := fun l : List ℕ => l.foldl (fun acc s => min (acc + s) u128Max) 0
  let share := fun total : ℕ => min (total * MAX_VALIDATOR_STAKE_BPS) u128Max / 10000
  let rec go : ℕ → ℕ → ℕ
    | 0, cap => cap
    | rounds + 1, cap =>
      let next := share (satSum (stakes.map (fun s => min s cap)))
      if next = cap then cap else go rounds next
  let n := (stakes.filter (fun s => 0 < s)).length
  if n = 0 then 0
  else max (go CAP_FIXPOINT_ROUNDS (share (satSum stakes))) (satSum stakes / n)

def applySlash (delegations : List Delegation) (validator penaltyBps : ℕ) : List ℕ :=
  delegations.map (fun d =>
    if d.validator = validator ∧ d.eligible = true then d.amountSat * min penaltyBps 10000 / 10000
    else 0)

end BlochPos
