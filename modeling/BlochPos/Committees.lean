import BlochPos.Staking

/-! Who acts when: the cap on the genesis cohort, stake-weighted sampling, committees, and the
reveal chain that seeds both. -/
namespace BlochPos

open List

def EPOCHS_PER_YEAR : ℕ := SLOTS_PER_YEAR / SLOTS_PER_EPOCH
def COHORT_CAP_START_BPS : ℕ := 10000
def COHORT_CAP_FLOOR_BPS : ℕ := 3333

section

variable (validators : List Validator) (cohort : List ℕ) (epoch : ℕ)

def cohortCapBps : ℕ :=
  if EPOCHS_PER_YEAR ≤ epoch then COHORT_CAP_FLOOR_BPS
  else COHORT_CAP_START_BPS - (COHORT_CAP_START_BPS - COHORT_CAP_FLOOR_BPS) * epoch / EPOCHS_PER_YEAR

inductive CapStatus where
  | notTapering
  | enforced (capSat : ℕ)
  | deferred (independentSat : ℕ)
deriving DecidableEq

def totalStake : ℕ := (validators.map Validator.effectiveStake).sum

def cohortStake : ℕ :=
  totalStake (validators.filter (fun v => v.index ∈ cohort))

def capStatus : CapStatus :=
  let bps := cohortCapBps epoch
  if 10000 ≤ bps then .notTapering
  else
    let others := totalStake validators - cohortStake validators cohort
    if others < MIN_DEPOSIT_SAT then .deferred others else .enforced (others * bps / (10000 - bps))

def applyCohortCap : List Validator :=
  if totalStake validators = 0 then validators
  else match capStatus validators cohort epoch with
    | .notTapering | .deferred _ => validators
    | .enforced cap =>
      if cohortStake validators cohort ≤ cap then validators
      else validators.map (fun v =>
        if v.index ∈ cohort then
          ⟨v.index, v.effectiveStake * cap / cohortStake validators cohort % 2 ^ 64⟩
        else v)

end

/-- Words the rejection loop may discard before the model stops waiting for a
good one; the source waits for ever. -/
def MAX_REJECTED_WORDS : ℕ := 2 ^ 64

/-- The first word below the limit, reduced modulo the bound, and where the
reader stands after it. -/
def drawBelow (word : ℕ → ℕ) (bound : ℕ) : ℕ → ℕ → ℕ × ℕ
  | 0, at_ => (word at_ % bound, at_ + 1)
  | tries + 1, at_ =>
    if word at_ < u128Max / bound * bound then (word at_ % bound, at_ + 1)
    else drawBelow word bound tries (at_ + 1)

inductive Role where
  | slotSubcommittee | epochCommittee
deriving DecidableEq

def Role.tag : Role → UInt8
  | .slotSubcommittee => 0x01
  | .epochCommittee => 0x02

/-- The position in the list whose cumulative stake interval holds `r`. -/
def positionOf : List Validator → ℕ → ℕ
  | [], _ => 0
  | v :: rest, r => if r < v.effectiveStake then 0 else positionOf rest (r - v.effectiveStake) + 1

def drawPositions (word : ℕ → ℕ) (eligible : List Validator) (k : ℕ) : ℕ → ℕ → List ℕ → List ℕ
  | 0, _, taken => taken
  | draws + 1, at_, taken =>
    if k ≤ taken.length then taken
    else
      let (r, at_) := drawBelow word (totalStake eligible) MAX_REJECTED_WORDS at_
      let pos := positionOf eligible r
      drawPositions word eligible k draws at_ (if pos ∈ taken then taken else taken ++ [pos])

section

variable (c : Crypto) (beaconMix : Bytes32) (epoch : ℕ)

def sample (index : ℕ) (role : Role) (validators : List Validator) (k : ℕ) : List ℕ :=
  let eligible := ((validators.filter (fun v => 0 < v.effectiveStake)).insertionSort
    (fun a b => a.index ≤ b.index)).destutter (fun a b => a.index ≠ b.index)
  if eligible = [] ∨ k = 0 then []
  else if eligible.length ≤ k then eligible.map Validator.index
  else
    let word := c.shakeWord (domainTag "BLCH4:SORTIT" ++ hashBytes beaconMix ++ leBytes 8 index ++ [role.tag])
    let taken := drawPositions word eligible k MAX_DRAWS_PER_SLOT 0 []
    let spare := (List.range eligible.length).filter (fun i => i ∉ taken)
    ((taken ++ spare.take (k - taken.length)).filterMap
      (fun i => (eligible[i]?).map Validator.index)).insertionSort (· ≤ ·)

def proposer (slot : ℕ) (validators : List Validator) : Option ℕ :=
  (sample c beaconMix slot .slotSubcommittee validators 1).head?

def swap (l : List ℕ) (i j : ℕ) : List ℕ :=
  match l[i]?, l[j]? with
  | some a, some b => (l.set i b).set j a
  | _, _ => l

/-- Fisher-Yates from the last position down. -/
def shuffle (word : ℕ → ℕ) : ℕ → ℕ → List ℕ → List ℕ
  | 0, _, l => l
  | i + 1, at_, l =>
    let (j, at_) := drawBelow word (i + 2) MAX_REJECTED_WORDS at_
    shuffle word i at_ (swap l (i + 1) j)

def cutSorted : List ℕ → List ℕ → List (List ℕ)
  | [], _ => []
  | size :: sizes, l => (l.take size).insertionSort (· ≤ ·) :: cutSorted sizes (l.drop size)

/-- The partition reads the roster's indices only, never its stakes. -/
def committeesOfIndices (indices : List ℕ) : List (List ℕ) :=
  let eligible := (indices.insertionSort (· ≤ ·)).dedup
  let len := eligible.length
  let word := c.shakeWord (domainTag "BLCH4:SORTIT" ++ hashBytes beaconMix ++ leBytes 8 epoch ++ [0x03])
  cutSorted ((List.range SLOTS_PER_EPOCH).map
      (fun slot => len / SLOTS_PER_EPOCH + if slot < len % SLOTS_PER_EPOCH then 1 else 0))
    (shuffle word (len - 1) 0 eligible)

def epochCommittees (validators : List Validator) : List (List ℕ) :=
  committeesOfIndices c beaconMix epoch (validators.map Validator.index)

theorem swap_perm (l : List ℕ) (i j : ℕ) : (swap l i j).Perm l := by
  unfold swap
  split
  · next a b at_i at_j =>
    obtain ⟨inI, rfl⟩ := List.getElem?_eq_some_iff.mp at_i
    obtain ⟨inJ, rfl⟩ := List.getElem?_eq_some_iff.mp at_j
    exact set_set_perm inI inJ
  · exact .refl l

theorem shuffle_perm (word : ℕ → ℕ) (i at_ : ℕ) (l : List ℕ) : (shuffle word i at_ l).Perm l := by
  induction i generalizing at_ l with
  | zero => exact .refl l
  | succ i ih =>
    simp only [shuffle]
    exact (ih _ _).trans (swap_perm _ _ _)

theorem flatten_cutSorted_perm (sizes l : List ℕ) : (cutSorted sizes l).flatten.Perm (l.take sizes.sum) := by
  induction sizes generalizing l with
  | nil => simp [cutSorted]
  | cons size sizes ih =>
    simp only [cutSorted, flatten_cons, sum_cons, take_add]
    exact (perm_insertionSort _ _).append (ih _)

theorem flatten_committeesOfIndices_nodup (indices : List ℕ) :
    (committeesOfIndices c beaconMix epoch indices).flatten.Nodup := by
  apply (flatten_cutSorted_perm _ _).nodup_iff.mpr
  apply List.Sublist.nodup (take_sublist _ _)
  exact (shuffle_perm _ _ _ _).nodup_iff.mpr (nodup_dedup _)

end

theorem seat_unique {v i j : ℕ} (first : v ∈ ((epochCommittees c beaconMix epoch validators)[i]?).getD [])
    (second : v ∈ ((epochCommittees c beaconMix epoch validators)[j]?).getD []) : i = j := by
  have nodup := flatten_committeesOfIndices_nodup c beaconMix epoch (validators.map Validator.index)
  have disjoint := pairwise_iff_getElem.mp (nodup_flatten.mp nodup).2
  have seated {i : ℕ} (member : v ∈ ((epochCommittees c beaconMix epoch validators)[i]?).getD []) :
      ∃ within : i < (epochCommittees c beaconMix epoch validators).length,
        v ∈ (epochCommittees c beaconMix epoch validators)[i] := by
    cases found : (epochCommittees c beaconMix epoch validators)[i]? with
    | none => simp [found] at member
    | some committee =>
      obtain ⟨within, rfl⟩ := List.getElem?_eq_some_iff.mp found
      exact ⟨within, by simpa [found] using member⟩
  obtain ⟨inI, atI⟩ := seated first
  obtain ⟨inJ, atJ⟩ := seated second
  rcases lt_trichotomy i j with less | same | more
  · exact absurd atJ (disjoint i j inI inJ less atI)
  · exact same
  · exact absurd atI (disjoint j i inJ inI more atJ)

structure RevealState where
  commitment : Bytes32
  revealsUsed : ℕ
deriving DecidableEq

def chainStep (c : Crypto) (x : Bytes32) : Bytes32 := c.shake32 (hashBytes x)

def mixIn (c : Crypto) (randaoMix reveal : Bytes32) : Bytes32 :=
  c.sha3 (domainTag "BLCH4:RANDAO" ++ hashBytes randaoMix ++ hashBytes reveal)

def recommitSigningRoot (c : Crypto) (validator epoch : ℕ) (newC0 : Bytes32) : Bytes32 :=
  c.sha3 (domainTag "BLCH4:RANDAO" ++ leBytes 4 validator ++ leBytes 8 epoch ++ hashBytes newC0)

inductive BeaconError where
  | invalidReveal | chainExhausted
deriving DecidableEq

def RevealState.verifyAndAdvance (c : Crypto) (state : RevealState) (reveal : Bytes32) :
    Except BeaconError RevealState :=
  if RANDAO_CHAIN_LENGTH ≤ state.revealsUsed then .error .chainExhausted
  else if chainStep c reveal ≠ state.commitment then .error .invalidReveal
  else .ok ⟨reveal, state.revealsUsed + 1⟩

def processReveal (c : Crypto) (state : RevealState) (randaoMix reveal : Bytes32) :
    Except BeaconError (RevealState × Bytes32) := do
  let next ← state.verifyAndAdvance c reveal
  pure (next, mixIn c randaoMix reveal)

end BlochPos
