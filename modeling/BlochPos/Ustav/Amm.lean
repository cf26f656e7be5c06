import BlochPos.FeeMarket
import BlochPos.Lib.Run

/-! The constant-product pool of the native ledger, rounded against the depositor. -/
namespace BlochPos.Amm

open Attempt

variable {a b d n : ℕ}

def VERSION : ℕ := 1
def MINIMUM_LIQUIDITY : ℕ := 1000
def BPS : ℕ := 10000

inductive Error where
  | invalidPool | invalidSnapshot | invalidAction | staleRevision | expired | overflow | slippage
  | insufficientLiquidity
deriving DecidableEq

def checkedMul (max a b : ℕ) : Option ℕ := if a * b ≤ max then some (a * b) else none

def checkedDiv (a b : ℕ) : Option ℕ := if b = 0 then none else some (a / b)

def toU64 (a : ℕ) : Option ℕ := if a ≤ u64Max then some a else none

theorem checkedMul_eq_some {max : ℕ} (product : checkedMul max a b = some c) : c = a * b ∧ c ≤ max := by
  unfold checkedMul at product
  split_ifs at product with fits
  cases product
  exact ⟨rfl, fits⟩

theorem checkedDiv_eq_some (quotient : checkedDiv a b = some c) : b ≠ 0 ∧ c = a / b := by
  unfold checkedDiv at quotient
  split_ifs at quotient with zero
  cases quotient
  exact ⟨zero, rfl⟩

theorem toU64_eq_some (word : toU64 a = some b) : b = a ∧ a ≤ u64Max := by
  unfold toU64 at word
  split_ifs at word with fits
  cases word
  exact ⟨rfl, fits⟩

/-- The same check for the first asset, then for the second. -/
def both {A : Type} (f : Fin 2 → Except Error A) : Except Error (Fin 2 → A) := do
  let first ← f 0
  let second ← f 1
  pure ![first, second]

theorem both_eq_ok {f : Fin 2 → Except Error A} {g : Fin 2 → A} (passed : both f = .ok g)
    (i : Fin 2) : f i = .ok (g i) := by
  simp only [both, ok_iff] at passed
  obtain ⟨a, first, b, second, rfl⟩ := passed
  fin_cases i
  · exact first
  · exact second

def mulDiv (a b d : ℕ) : Except Error ℕ := do
  refuse (d = 0) .insufficientLiquidity
  let value ← orRefuse ((checkedMul u128Max a b).bind (checkedDiv · d)) .overflow
  orRefuse (toU64 value) .overflow

def mulDivCeil (a b d : ℕ) : Except Error ℕ := do
  refuse (d = 0) .insufficientLiquidity
  let product ← orRefuse (checkedMul u128Max a b) .overflow
  let quotient ← orRefuse (checkedDiv product d) .overflow
  let rounded ← orRefuse (checkedAdd u128Max quotient (if product % d ≠ 0 then 1 else 0)) .overflow
  orRefuse (toU64 rounded) .overflow

theorem mulDiv_le (done : mulDiv a b d = .ok q) : q * d ≤ a * b := by
  simp only [mulDiv, ok_iff, Option.bind_eq_some_iff] at done
  obtain ⟨-, value, ⟨product, multiplied, divided⟩, word⟩ := done
  obtain ⟨rfl, -⟩ := checkedMul_eq_some multiplied
  obtain ⟨-, rfl⟩ := checkedDiv_eq_some divided
  obtain ⟨rfl, -⟩ := toU64_eq_some word
  exact Nat.div_mul_le_self _ _

theorem le_mulDivCeil (done : mulDivCeil a b d = .ok q) : a * b ≤ q * d := by
  simp only [mulDivCeil, ok_iff] at done
  obtain ⟨-, product, multiplied, quotient, divided, rounded, added, word⟩ := done
  obtain ⟨rfl, -⟩ := checkedMul_eq_some multiplied
  obtain ⟨nonzero, rfl⟩ := checkedDiv_eq_some divided
  obtain ⟨rfl, -⟩ := checkedAdd_eq_some added
  obtain ⟨rfl, -⟩ := toU64_eq_some word
  have split := Nat.div_add_mod' (a * b) d
  split_ifs with exact_
  · have below := Nat.mod_lt (a * b) (Nat.pos_of_ne_zero nonzero)
    rw [Nat.add_mul, Nat.one_mul]
    omega
  · rw [Nat.add_zero]
    omega

/-- The binary search, which halves its span in every pass. -/
def sqrtLoop (n : ℕ) : ℕ → ℕ → ℕ → ℕ
  | 0, low, _ => low
  | passes + 1, low, high =>
    if low < high then
      let halfSpan := satAdd u128Max (high - low) 1 / 2
      let mid := satAdd u128Max low halfSpan
      if satMul u128Max mid mid ≤ n then sqrtLoop n passes mid high
      else sqrtLoop n passes low (mid - 1)
    else low

def sqrt (n : ℕ) : ℕ := sqrtLoop n 64 0 u64Max

/-- The search ends at the root once its passes cover the span it starts with. -/
theorem sqrtLoop_eq (span : high - low < 2 ^ passes) (ordered : low ≤ high)
    (word : high ≤ u64Max) (below : low * low ≤ n) (above : n < (high + 1) * (high + 1)) :
    sqrtLoop n passes low high = Nat.sqrt n := by
  induction passes generalizing low high with
  | zero =>
    have met : low = high := by omega
    rw [sqrtLoop]
    exact Nat.eq_sqrt.mpr ⟨below, met ▸ above⟩
  | succ passes ih =>
    rw [sqrtLoop]
    split_ifs with apart
    · have wide : u64Max < u128Max := by decide
      have half : satAdd u128Max (high - low) 1 = high - low + 1 := Nat.min_eq_left (by omega)
      set mid := low + (high - low + 1) / 2 with middle
      have sum : satAdd u128Max low ((high - low + 1) / 2) = mid := Nat.min_eq_left (by omega)
      have inside : low < mid ∧ mid ≤ high := by omega
      have square : satMul u128Max mid mid = mid * mid := by
        have root : mid * mid ≤ u64Max * u64Max := Nat.mul_le_mul (by omega) (by omega)
        have fits : u64Max * u64Max ≤ u128Max := by decide
        exact Nat.min_eq_left (root.trans fits)
      rw [pow_succ] at span
      simp only [half, sum, square]
      split_ifs with low_
      · exact ih (by omega) inside.2 word low_ above
      · have back : mid - 1 + 1 = mid := by omega
        exact ih (by omega) (by omega) (by omega) below (by rw [back]; omega)
    · have met : low = high := by omega
      exact Nat.eq_sqrt.mpr ⟨below, met ▸ above⟩

theorem sqrt_eq (fits : n ≤ u128Max) : sqrt n = Nat.sqrt n :=
  sqrtLoop_eq (by decide) (Nat.zero_le _) le_rfl (Nat.zero_le _)
    (Nat.lt_of_le_of_lt fits (by decide))

@[ext]
structure PoolState where
  (domain seed id : Bytes32)
  assets : Fin 2 → Bytes32
  feeBps : ℕ
  reserves : Fin 2 → ℕ
  (lpSupply revision : ℕ)

-- field by field, since a pair of numbers is a function and is compared pointwise
instance : DecidableEq PoolState := fun _ _ => decidable_of_iff _ PoolState.ext_iff.symm

structure Snapshot where
  version : ℕ
  (domain seed id : Bytes32)
  assets : Fin 2 → Bytes32
  feeBps : ℕ
  reserves : Fin 2 → ℕ
  (lpSupply revision : ℕ)

inductive Action where
  | add (maximum : Fin 2 → ℕ) (minimumLp : ℕ)
  | swapExactInput (inputIndex amount minimumOut : ℕ)
  | remove (lp : ℕ) (minimum : Fin 2 → ℕ)

structure Request where
  pool : Bytes32
  (revision validUntil : ℕ)
  action : Action

structure Transition where
  next : PoolState
  (userDebit userCredit unusedMaximum : Fin 2 → ℕ)
  (lpMint lpBurn : ℕ)

def Action.bytes : Action → Bytes
  | .add maximum minimumLp => 0 :: beBytes 8 (maximum 0) ++ beBytes 8 (maximum 1) ++ beBytes 8 minimumLp
  | .swapExactInput inputIndex amount minimumOut =>
    [1, UInt8.ofNat inputIndex] ++ beBytes 8 amount ++ beBytes 8 minimumOut
  | .remove lp minimum => 2 :: beBytes 8 lp ++ beBytes 8 (minimum 0) ++ beBytes 8 (minimum 1)

variable (sha256 : Bytes → Bytes32)

def Snapshot.stateRoot (s : Snapshot) : Bytes32 :=
  sha256 (ascii "BLOCH-NATIVE-AMM-STATE-v1" ++ beBytes 4 s.version ++ hashBytes s.domain ++
    hashBytes s.seed ++ hashBytes s.id ++ hashBytes (s.assets 0) ++ hashBytes (s.assets 1) ++
    beBytes 2 s.feeBps ++ beBytes 8 (s.reserves 0) ++ beBytes 8 (s.reserves 1) ++
    beBytes 8 s.lpSupply ++ beBytes 8 s.revision)

namespace PoolState

variable {height : ℕ} {next : PoolState} {call : Request × ℕ}

def poolId (domain : Bytes32) (assets : Fin 2 → Bytes32) (feeBps : ℕ) (seed : Bytes32) : Bytes32 :=
  sha256 (ascii "BLOCH-NATIVE-AMM-v1" ++ hashBytes domain ++ hashBytes (assets 0) ++
    hashBytes (assets 1) ++ beBytes 2 feeBps ++ hashBytes seed)

def new (domain a b : Bytes32) (feeBps : ℕ) (seed : Bytes32) : Except Error PoolState := do
  refuse (domain = 0 ∨ a = b ∨ 10000 ≤ feeBps) .invalidPool
  let assets := if a < b then ![a, b] else ![b, a]
  pure ⟨domain, seed, poolId sha256 domain assets feeBps seed, assets, feeBps, 0, 0, 0⟩

def snapshot (pool : PoolState) : Snapshot :=
  ⟨VERSION, pool.domain, pool.seed, pool.id, pool.assets, pool.feeBps, pool.reserves, pool.lpSupply,
    pool.revision⟩

def stateRoot (pool : PoolState) : Bytes32 := pool.snapshot.stateRoot sha256

def authBytes (pool : PoolState) (request : Request) (fundingCommitment : Bytes32) : Bytes :=
  ascii "BLOCH-NATIVE-AMM-AUTH-v1" ++ beBytes 4 VERSION ++ hashBytes pool.domain ++
    hashBytes (pool.stateRoot sha256) ++ hashBytes request.pool ++ beBytes 8 request.revision ++
    beBytes 8 request.validUntil ++ request.action.bytes ++ hashBytes fundingCommitment

def signingHash (pool : PoolState) (request : Request) (fundingCommitment : Bytes32) : Except Error Bytes32 := do
  refuse (request.pool ≠ pool.id) .invalidPool
  refuse (request.revision ≠ pool.revision) .staleRevision
  refuse (fundingCommitment = 0) .invalidAction
  pure (sha256 (pool.authBytes sha256 request fundingCommitment))

/-- What a snapshot of a funded pool has to satisfy. -/
def checkFunded (s : Snapshot) : Except Error Unit := do
  let product ← orRefuse (checkedMul u128Max (s.reserves 0) (s.reserves 1)) .invalidSnapshot
  let squaredSupply ← orRefuse (checkedMul u128Max s.lpSupply s.lpSupply) .invalidSnapshot
  refuse ((∃ i, s.reserves i = 0) ∨ s.revision = 0 ∨ s.lpSupply < MINIMUM_LIQUIDITY ∨
    product < squaredSupply ∨
    s.revision = 1 ∧ (s.lpSupply ≤ MINIMUM_LIQUIDITY ∨ s.lpSupply ≠ sqrt product)) .invalidSnapshot

def restore (s : Snapshot) (trustedRoot : Bytes32) : Except Error PoolState := do
  refuse (s.version ≠ VERSION ∨ s.assets 1 ≤ s.assets 0 ∨ s.stateRoot sha256 ≠ trustedRoot)
    .invalidSnapshot
  let pool ← (new sha256 s.domain (s.assets 0) (s.assets 1) s.feeBps s.seed).mapError
    (fun _ => .invalidSnapshot)
  refuse (pool.id ≠ s.id) .invalidSnapshot
  (if s.lpSupply = 0 then refuse (s.reserves ≠ 0 ∨ s.revision ≠ 0) .invalidSnapshot
    else checkFunded s)
  pure { pool with reserves := s.reserves, lpSupply := s.lpSupply, revision := s.revision }

section

variable (pool : PoolState)

def still : Transition := ⟨pool, 0, 0, 0, 0, 0⟩

/-- The first deposit sets the price; part of what it is worth stays locked. -/
def addFirst (maximum : Fin 2 → ℕ) : Except Error Transition := do
  let product ← orRefuse (checkedMul u128Max (maximum 0) (maximum 1)) .overflow
  let root := sqrt product
  let lpMint ← orRefuse ((checkedSub root MINIMUM_LIQUIDITY).filter (0 < ·)) .insufficientLiquidity
  pure { still pool with next := { pool with lpSupply := root }, lpMint := lpMint, userDebit := maximum }

/-- A later deposit buys shares at the price of the pool. -/
def addShare (maximum : Fin 2 → ℕ) : Except Error Transition := do
  let candidates ← both (fun i =>
    orRefuse ((checkedMul u128Max (maximum i) pool.lpSupply).bind (checkedDiv · (pool.reserves i)))
      .overflow)
  let lpMint ← orRefuse (toU64 (min (candidates 0) (candidates 1))) .overflow
  refuse (lpMint = 0) .insufficientLiquidity
  let sides ← both (fun i => do
    let debit ← mulDivCeil lpMint (pool.reserves i) pool.lpSupply
    let unused ← orRefuse (checkedSub (maximum i) debit) .overflow
    pure (debit, unused))
  let lpSupply ← orRefuse (checkedAdd u64Max pool.lpSupply lpMint) .overflow
  pure { still pool with
    next := { pool with lpSupply := lpSupply }
    lpMint := lpMint
    userDebit := fun i => (sides i).1
    unusedMaximum := fun i => (sides i).2 }

def add (maximum : Fin 2 → ℕ) (minimumLp : ℕ) : Except Error Transition := do
  refuse (∃ i, maximum i = 0) .invalidAction
  let t ← (if pool.lpSupply = 0 then pool.addFirst maximum else pool.addShare maximum)
  refuse (t.lpMint < minimumLp) .slippage
  let reserves ← both (fun i =>
    orRefuse (checkedAdd u64Max (pool.reserves i) (t.userDebit i)) .overflow)
  pure { t with next := { t.next with reserves := reserves } }

def swapExactInput (inputIndex amount minimumOut : ℕ) : Except Error Transition := do
  refuse (1 < inputIndex ∨ amount = 0) .invalidAction
  let i : Fin 2 := Fin.ofNat 2 inputIndex
  let o : Fin 2 := 1 - i
  refuse (∃ i, pool.reserves i = 0) .insufficientLiquidity
  let feeMultiplier ← orRefuse (checkedSub BPS pool.feeBps) .overflow
  let effective ← orRefuse (checkedMul u128Max amount feeMultiplier) .overflow
  let numerator ← orRefuse (checkedMul u128Max effective (pool.reserves o)) .overflow
  let denominator ← orRefuse
    ((checkedMul u128Max (pool.reserves i) BPS).bind (checkedAdd u128Max · effective)) .overflow
  let quotient ← orRefuse (checkedDiv numerator denominator) .overflow
  let out ← orRefuse (toU64 quotient) .overflow
  refuse (out = 0 ∨ pool.reserves o ≤ out) .insufficientLiquidity
  refuse (out < minimumOut) .slippage
  let paidIn ← orRefuse (checkedAdd u64Max (pool.reserves i) amount) .overflow
  let left ← orRefuse (checkedSub (pool.reserves o) out) .overflow
  let reserves := Function.update (Function.update pool.reserves i paidIn) o left
  let nextProduct ← orRefuse (checkedMul u128Max (reserves 0) (reserves 1)) .overflow
  let previousProduct ← orRefuse (checkedMul u128Max (pool.reserves 0) (pool.reserves 1)) .overflow
  refuse (nextProduct < previousProduct) .invalidAction
  pure { still pool with
    next := { pool with reserves := reserves }
    userDebit := Function.update 0 i amount
    userCredit := Function.update 0 o out }

def remove (lp : ℕ) (minimum : Fin 2 → ℕ) : Except Error Transition := do
  refuse (lp = 0 ∨ pool.lpSupply - MINIMUM_LIQUIDITY < lp) .insufficientLiquidity
  let sides ← both (fun i => do
    let out ← mulDiv lp (pool.reserves i) pool.lpSupply
    refuse (out = 0) .insufficientLiquidity
    refuse (out < minimum i) .slippage
    let left ← orRefuse (checkedSub (pool.reserves i) out) .overflow
    pure (out, left))
  let lpSupply ← orRefuse (checkedSub pool.lpSupply lp) .overflow
  pure { still pool with
    next := { pool with reserves := fun i => (sides i).2, lpSupply := lpSupply }
    userCredit := fun i => (sides i).1
    lpBurn := lp }

def perform : Action → Except Error Transition
  | .add maximum minimumLp => pool.add maximum minimumLp
  | .swapExactInput inputIndex amount minimumOut => pool.swapExactInput inputIndex amount minimumOut
  | .remove lp minimum => pool.remove lp minimum

def transition (request : Request) (height : ℕ) : Except Error Transition := do
  refuse (request.pool ≠ pool.id) .invalidPool
  refuse (request.revision ≠ pool.revision) .staleRevision
  refuse (request.validUntil < height) .expired
  let t ← pool.perform request.action
  let revision ← orRefuse (checkedAdd u64Max pool.revision 1) .overflow
  pure { t with next := { t.next with revision := revision } }

end

/-- A pool nobody has used, or one whose shares are covered by its reserves. -/
def Sound (pool : PoolState) : Prop :=
  (pool.lpSupply = 0 ∧ (∀ i, pool.reserves i = 0) ∧ pool.revision = 0) ∨
  ((∀ i, 0 < pool.reserves i) ∧ MINIMUM_LIQUIDITY ≤ pool.lpSupply ∧
    pool.lpSupply ^ 2 ≤ pool.reserves 0 * pool.reserves 1)

/-- Every number of the pool is a 64-bit word. -/
structure Words (pool : PoolState) : Prop where
  reserves : ∀ i, pool.reserves i ≤ u64Max
  lpSupply : pool.lpSupply ≤ u64Max

variable {pool : PoolState} {t : Transition}

theorem Sound.reserves_eq_zero (sound : pool.Sound) (unused : pool.lpSupply = 0) (i : Fin 2) :
    pool.reserves i = 0 := by
  rcases sound with ⟨-, empty, -⟩ | ⟨-, supplied, -⟩
  · exact empty i
  · unfold MINIMUM_LIQUIDITY at supplied
    omega

theorem Sound.funded (sound : pool.Sound) (used : pool.lpSupply ≠ 0) :
    (∀ i, 0 < pool.reserves i) ∧ MINIMUM_LIQUIDITY ≤ pool.lpSupply ∧
      pool.lpSupply ^ 2 ≤ pool.reserves 0 * pool.reserves 1 :=
  sound.resolve_left (fun unused => used unused.1)

/-- The first deposit is worth the root of its product. -/
structure Opened (pool : PoolState) : Prop where
  reserves : ∀ i, 0 < pool.reserves i
  lpSupply : pool.lpSupply = Nat.sqrt (pool.reserves 0 * pool.reserves 1)
  unlocked : MINIMUM_LIQUIDITY < pool.lpSupply

/-- Shares of a pool in use are worth at least as much after as before: side by
side, or at the same supply in the product of the two sides. -/
inductive Fair (pool next : PoolState) : Prop where
  | sides (each : ∀ i, pool.reserves i * next.lpSupply ≤ next.reserves i * pool.lpSupply)
  | product (same : next.lpSupply = pool.lpSupply) (positive : ∀ i, 0 < next.reserves i)
      (grows : pool.reserves 0 * pool.reserves 1 ≤ next.reserves 0 * next.reserves 1)

/-- What an action does to the pool: the first one opens it and every later one is fair to the
shares that stay. -/
structure Moves (pool : PoolState) (t : Transition) : Prop where
  same : t.next = { pool with reserves := t.next.reserves, lpSupply := t.next.lpSupply }
  reserves : ∀ i, t.next.reserves i + t.userCredit i = pool.reserves i + t.userDebit i
  lpSupply : t.next.lpSupply + t.lpBurn =
    pool.lpSupply + t.lpMint + if pool.lpSupply = 0 then MINIMUM_LIQUIDITY else 0
  words : t.next.Words
  locked : MINIMUM_LIQUIDITY ≤ t.next.lpSupply
  opens : pool.lpSupply = 0 → t.next.Opened
  fair : pool.lpSupply ≠ 0 → Fair pool t.next

theorem addFirst_eq_ok (done : pool.addFirst maximum = .ok t) :
    maximum 0 * maximum 1 ≤ u128Max ∧ MINIMUM_LIQUIDITY < Nat.sqrt (maximum 0 * maximum 1) ∧
      t = { still pool with
        next := { pool with lpSupply := Nat.sqrt (maximum 0 * maximum 1) }
        lpMint := Nat.sqrt (maximum 0 * maximum 1) - MINIMUM_LIQUIDITY
        userDebit := maximum } := by
  simp only [addFirst, ok_iff, Option.filter_eq_some_iff, decide_eq_true_eq] at done
  obtain ⟨product, multiplied, lpMint, ⟨minted, positive⟩, rfl⟩ := done
  obtain ⟨rfl, fits⟩ := checkedMul_eq_some multiplied
  rw [sqrt_eq fits] at minted ⊢
  have rest := checkedSub_eq_some minted
  have part : lpMint = Nat.sqrt (maximum 0 * maximum 1) - MINIMUM_LIQUIDITY := by omega
  exact ⟨fits, by omega, by rw [part]⟩

theorem addShare_eq_ok (done : pool.addShare maximum = .ok t) :
    pool.lpSupply + t.lpMint ≤ u64Max ∧ t.next = { pool with lpSupply := pool.lpSupply + t.lpMint } ∧
      t.userCredit = 0 ∧ t.lpBurn = 0 ∧
      ∀ i, t.lpMint * pool.reserves i ≤ t.userDebit i * pool.lpSupply := by
  simp only [addShare, ok_iff] at done
  obtain ⟨candidates, -, lpMint, -, -, sides, priced, lpSupply, grown, rfl⟩ := done
  obtain ⟨rfl, fits⟩ := checkedAdd_eq_some grown
  refine ⟨fits, rfl, rfl, rfl, fun i => ?_⟩
  have side := both_eq_ok priced i
  simp only [ok_iff] at side
  obtain ⟨debit, divided, unused, -, same⟩ := side
  show lpMint * pool.reserves i ≤ (sides i).1 * pool.lpSupply
  rw [← same]
  exact le_mulDivCeil divided

theorem add_moves (sound : pool.Sound) (done : pool.add maximum minimumLp = .ok t) : Moves pool t := by
  simp only [add, ok_iff, not_exists] at done
  obtain ⟨given, t₀, planned, -, reserves, added, rfl⟩ := done
  have sums : ∀ i, reserves i = pool.reserves i + t₀.userDebit i ∧ reserves i ≤ u64Max := fun i =>
    checkedAdd_eq_some (orRefuse_eq_ok_iff.mp (both_eq_ok added i))
  split_ifs at planned with unused
  · obtain ⟨-, unlocked, rfl⟩ := addFirst_eq_ok planned
    have debit : reserves = maximum := by
      funext i
      rw [(sums i).1, sound.reserves_eq_zero unused i, Nat.zero_add]
    have root : Nat.sqrt (maximum 0 * maximum 1) ≤ u64Max := by
      have bound := Nat.mul_le_mul (sums 0).2 (sums 1).2
      rw [debit] at bound
      exact (Nat.sqrt_le_sqrt bound).trans (Nat.sqrt_eq u64Max).le
    exact {
      same := rfl
      reserves := fun i => by simp [(sums i).1, still]
      lpSupply := by
        simp only [still, unused, if_true]
        omega
      words := ⟨fun i => (sums i).2, root⟩
      locked := unlocked.le
      opens := fun _ => ⟨fun i => by simpa [debit] using Nat.pos_of_ne_zero (given i), by rw [debit],
        unlocked⟩
      fair := absurd unused }
  · obtain ⟨fits, moved, credit, burn, dear⟩ := addShare_eq_ok planned
    have supplied := (sound.funded unused).2.1
    exact {
      same := by rw [moved]
      reserves := fun i => by simp [(sums i).1, credit]
      lpSupply := by simp [moved, burn, unused]
      words := ⟨fun i => (sums i).2, by rwa [moved]⟩
      locked := by
        rw [moved]
        exact supplied.trans (Nat.le_add_right _ _)
      opens := fun absent => absurd absent unused
      fair := fun _ => .sides (fun i => by
        rw [moved]
        show pool.reserves i * (pool.lpSupply + t₀.lpMint) ≤ reserves i * pool.lpSupply
        rw [(sums i).1, Nat.mul_add, Nat.add_mul, Nat.mul_comm _ t₀.lpMint]
        exact Nat.add_le_add_left (dear i) _) }

theorem side_ne_other : ∀ i : Fin 2, i ≠ 1 - i := by decide

theorem side_or_other : ∀ i j : Fin 2, j = i ∨ j = 1 - i := by decide

theorem swap_moves (sound : pool.Sound) (words : pool.Words)
    (done : pool.swapExactInput inputIndex amount minimumOut = .ok t) : Moves pool t := by
  simp only [swapExactInput, ok_iff, not_exists, not_or, not_le, not_lt] at done
  obtain ⟨-, full, _, -, _, -, _, -, _, -, _, -, out, -, ⟨-, below⟩, -, paidIn, added, left, taken,
    nextProduct, multiplied, previousProduct, squared, grows, rfl⟩ := done
  have used : pool.lpSupply ≠ 0 := fun unused => full 0 (sound.reserves_eq_zero unused 0)
  have supplied := (sound.funded used).2.1
  generalize Fin.ofNat 2 inputIndex = i at *
  have apart := side_ne_other i
  obtain ⟨rfl, fits⟩ := checkedAdd_eq_some added
  have rest := checkedSub_eq_some taken
  obtain ⟨rfl, -⟩ := checkedMul_eq_some multiplied
  obtain ⟨rfl, -⟩ := checkedMul_eq_some squared
  have input : Function.update (Function.update pool.reserves i (pool.reserves i + amount)) (1 - i) left i =
      pool.reserves i + amount := by
    rw [Function.update_of_ne apart, Function.update_self]
  have output : Function.update (Function.update pool.reserves i (pool.reserves i + amount)) (1 - i) left
      (1 - i) = left := Function.update_self _ _ _
  exact {
    same := rfl
    reserves := fun j => by
      rcases side_or_other i j with rfl | rfl
      · simp only [input, Function.update_of_ne apart, Function.update_self, Pi.zero_apply, Nat.add_zero]
      · simp only [output, Function.update_of_ne apart.symm, Function.update_self, Pi.zero_apply]
        exact rest
    lpSupply := by simp [still, used]
    words := {
      reserves := fun j => by
        rcases side_or_other i j with rfl | rfl
        · exact input.trans_le fits
        · exact output.trans_le (((Nat.le_add_right _ _).trans rest.le).trans (words.reserves _))
      lpSupply := words.lpSupply }
    locked := supplied
    opens := fun absent => absurd absent used
    fair := fun _ => .product rfl (fun j => by
      rcases side_or_other i j with rfl | rfl
      · have held := full j
        exact Nat.lt_of_lt_of_eq (by omega) input.symm
      · exact Nat.lt_of_lt_of_eq (by omega) output.symm) grows }

theorem remove_moves {lp : ℕ} (sound : pool.Sound) (words : pool.Words)
    (done : pool.remove lp minimum = .ok t) : Moves pool t := by
  simp only [remove, ok_iff, not_or, not_lt] at done
  obtain ⟨⟨nonzero, most⟩, sides, paid, lpSupply, taken, rfl⟩ := done
  have burned := checkedSub_eq_some taken
  have used : pool.lpSupply ≠ 0 := by omega
  have supplied := (sound.funded used).2.1
  have side : ∀ i, (sides i).2 + (sides i).1 = pool.reserves i ∧
      (sides i).1 * pool.lpSupply ≤ lp * pool.reserves i := fun i => by
    have each := both_eq_ok paid i
    simp only [ok_iff] at each
    obtain ⟨out, divided, -, -, left, subtracted, same⟩ := each
    rw [← same]
    exact ⟨checkedSub_eq_some subtracted, mulDiv_le divided⟩
  exact {
    same := rfl
    reserves := fun i => by simp [(side i).1, still]
    lpSupply := by simp [still, used, burned]
    words := ⟨fun i => ((Nat.le_add_right _ _).trans (side i).1.le).trans (words.reserves i),
      ((Nat.le_add_right _ _).trans burned.le).trans words.lpSupply⟩
    locked := by
      show MINIMUM_LIQUIDITY ≤ lpSupply
      omega
    opens := fun absent => absurd absent used
    fair := fun _ => .sides (fun i => by
      show pool.reserves i * lpSupply ≤ (sides i).2 * pool.lpSupply
      have split : (sides i).2 * pool.lpSupply + (sides i).1 * pool.lpSupply =
          pool.reserves i * lpSupply + lp * pool.reserves i := by
        rw [← Nat.add_mul, (side i).1, ← burned, Nat.mul_add, Nat.mul_comm lp]
      have cheap := (side i).2
      omega) }

theorem perform_moves (sound : pool.Sound) (words : pool.Words)
    (done : pool.perform action = .ok t) : Moves pool t := by
  cases action with
  | add maximum minimumLp => exact add_moves sound done
  | swapExactInput inputIndex amount minimumOut => exact swap_moves sound words done
  | remove lp minimum => exact remove_moves sound words done

theorem transition_eq_ok (done : pool.transition request height = .ok t) :
    ∃ t₀, pool.perform request.action = .ok t₀ ∧
      t = { t₀ with next := { t₀.next with revision := pool.revision + 1 } } := by
  simp only [transition, ok_iff] at done
  obtain ⟨-, -, -, t₀, performed, revision, advanced, rfl⟩ := done
  obtain ⟨rfl, -⟩ := checkedAdd_eq_some advanced
  exact ⟨t₀, performed, rfl⟩

section

variable {pool next : PoolState}

/-- The product of the reserves per squared share does not fall, compared across. -/
def Richer (pool next : PoolState) : Prop :=
  pool.reserves 0 * pool.reserves 1 * next.lpSupply ^ 2 ≤
    next.reserves 0 * next.reserves 1 * pool.lpSupply ^ 2

theorem Fair.richer (fair : Fair pool next) : Richer pool next := by
  unfold Richer
  cases fair with
  | sides each =>
    calc pool.reserves 0 * pool.reserves 1 * next.lpSupply ^ 2
        = (pool.reserves 0 * next.lpSupply) * (pool.reserves 1 * next.lpSupply) := by ring
      _ ≤ (next.reserves 0 * pool.lpSupply) * (next.reserves 1 * pool.lpSupply) :=
          Nat.mul_le_mul (each 0) (each 1)
      _ = next.reserves 0 * next.reserves 1 * pool.lpSupply ^ 2 := by ring
  | product same positive grows =>
    rw [same]
    exact Nat.mul_le_mul_right _ grows

theorem Fair.positive (fair : Fair pool next) (full : ∀ i, 0 < pool.reserves i) (left : 0 < next.lpSupply)
    (i : Fin 2) : 0 < next.reserves i := by
  cases fair with
  | sides each =>
    by_contra empty
    have share := each i
    rw [Nat.eq_zero_of_not_pos empty, Nat.zero_mul] at share
    exact absurd (Nat.mul_pos (full i) left) (Nat.not_lt.mpr share)
  | product same positive grows => exact positive i

theorem Richer.trans (first : Richer pool next) (second : Richer next last) (used : 0 < next.lpSupply) :
    Richer pool last := by
  unfold Richer at *
  -- both comparisons are scaled to the supply in between, which cancels
  refine Nat.le_of_mul_le_mul_right ?_ (Nat.pow_pos used (n := 2))
  calc pool.reserves 0 * pool.reserves 1 * last.lpSupply ^ 2 * next.lpSupply ^ 2
      = pool.reserves 0 * pool.reserves 1 * next.lpSupply ^ 2 * last.lpSupply ^ 2 := by ring
    _ ≤ next.reserves 0 * next.reserves 1 * pool.lpSupply ^ 2 * last.lpSupply ^ 2 :=
        Nat.mul_le_mul_right _ first
    _ = next.reserves 0 * next.reserves 1 * last.lpSupply ^ 2 * pool.lpSupply ^ 2 := by ring
    _ ≤ last.reserves 0 * last.reserves 1 * next.lpSupply ^ 2 * pool.lpSupply ^ 2 :=
        Nat.mul_le_mul_right _ second
    _ = last.reserves 0 * last.reserves 1 * pool.lpSupply ^ 2 * next.lpSupply ^ 2 := by ring

theorem Richer.covered (richer : Richer pool next) (used : 0 < pool.lpSupply)
    (covered : pool.lpSupply ^ 2 ≤ pool.reserves 0 * pool.reserves 1) :
    next.lpSupply ^ 2 ≤ next.reserves 0 * next.reserves 1 := by
  refine Nat.le_of_mul_le_mul_right ?_ (Nat.pow_pos used (n := 2))
  calc next.lpSupply ^ 2 * pool.lpSupply ^ 2
      = pool.lpSupply ^ 2 * next.lpSupply ^ 2 := Nat.mul_comm _ _
    _ ≤ pool.reserves 0 * pool.reserves 1 * next.lpSupply ^ 2 := Nat.mul_le_mul_right _ covered
    _ ≤ next.reserves 0 * next.reserves 1 * pool.lpSupply ^ 2 := richer

theorem Richer.not_drained (richer : Richer pool next) (used : 0 < pool.lpSupply)
    (full : ∀ i, 0 < pool.reserves i) (same : next.lpSupply = pool.lpSupply) (i : Fin 2) :
    ¬ (next.reserves i < pool.reserves i ∧ next.reserves (1 - i) ≤ pool.reserves (1 - i)) := by
  rintro ⟨smaller, notLarger⟩
  unfold Richer at richer
  rw [same] at richer
  have product := Nat.le_of_mul_le_mul_right richer (Nat.pow_pos used (n := 2))
  have first := full 0
  have second := full 1
  fin_cases i
  · exact absurd product (Nat.not_le.mpr (Nat.mul_lt_mul_of_lt_of_le smaller notLarger second))
  · exact absurd product (Nat.not_le.mpr (Nat.mul_lt_mul_of_le_of_lt notLarger smaller first))

end

/-- What holds of every pool that transitions lead to. -/
structure Reached (sha256 : Bytes → Bytes32) (pool : PoolState) : Prop where
  built : new sha256 pool.domain (pool.assets 0) (pool.assets 1) pool.feeBps pool.seed =
    .ok { pool with reserves := 0, lpSupply := 0, revision := 0 }
  sorted : pool.assets 0 < pool.assets 1
  words : pool.Words
  sound : pool.Sound
  unused : pool.revision = 0 ↔ pool.lpSupply = 0
  opened : pool.revision = 1 → pool.Opened

variable {sha256}

theorem reached_new {domain a b seed : Bytes32} {feeBps : ℕ}
    (made : new sha256 domain a b feeBps seed = .ok pool) : Reached sha256 pool := by
  simp only [new, ok_iff, not_or] at made
  obtain ⟨⟨real, distinct, fee⟩, rfl⟩ := made
  have sorted : (if a < b then ![a, b] else ![b, a]) 0 < (if a < b then ![a, b] else ![b, a]) 1 := by
    split_ifs with ordered
    · exact ordered
    · exact lt_of_le_of_ne (not_lt.mp ordered) (Ne.symm distinct)
  have pair : ∀ assets : Fin 2 → Bytes32, ![assets 0, assets 1] = assets := by
    intro assets
    funext i
    fin_cases i <;> rfl
  exact {
    built := by
      simp only [new, ok_iff, not_or]
      refine ⟨⟨real, sorted.ne, fee⟩, ?_⟩
      rw [if_pos sorted, pair]
    sorted := sorted
    words := ⟨fun _ => Nat.zero_le _, Nat.zero_le _⟩
    sound := .inl ⟨rfl, fun _ => rfl, rfl⟩
    unused := Iff.rfl
    opened := fun one => absurd one Nat.zero_ne_one }

theorem Opened.sound (opened : pool.Opened) : pool.Sound := by
  refine .inr ⟨opened.reserves, opened.unlocked.le, ?_⟩
  rw [opened.lpSupply, sq]
  exact Nat.sqrt_le _

theorem Reached.moves (reached : Reached sha256 pool)
    (done : pool.transition request height = .ok t) :
    ∃ t₀, Moves pool t₀ ∧ t = { t₀ with next := { t₀.next with revision := pool.revision + 1 } } := by
  obtain ⟨t₀, performed, renewed⟩ := transition_eq_ok done
  exact ⟨t₀, perform_moves reached.sound reached.words performed, renewed⟩

theorem Reached.transition (reached : Reached sha256 pool)
    (done : pool.transition request height = .ok t) : Reached sha256 t.next := by
  obtain ⟨t₀, moves, rfl⟩ := reached.moves done
  have supplied : t₀.next.lpSupply ≠ 0 := by
    have := moves.locked
    unfold MINIMUM_LIQUIDITY at this
    omega
  have same := moves.same
  exact {
    built := by
      have built := reached.built
      rw [same]
      exact built
    sorted := by
      rw [same]
      exact reached.sorted
    words := ⟨moves.words.reserves, moves.words.lpSupply⟩
    sound := by
      by_cases used : pool.lpSupply = 0
      · have opened := moves.opens used
        exact Opened.sound ⟨opened.reserves, opened.lpSupply, opened.unlocked⟩
      · obtain ⟨full, -, covered⟩ := reached.sound.funded used
        have fair := moves.fair used
        exact .inr ⟨fair.positive full (Nat.pos_of_ne_zero supplied), moves.locked,
          fair.richer.covered (Nat.pos_of_ne_zero used) covered⟩
    unused := by simp [supplied]
    opened := fun one => by
      have fresh : pool.revision = 0 := by simpa using one
      have opened := moves.opens (reached.unused.mp fresh)
      exact ⟨opened.reserves, opened.lpSupply, opened.unlocked⟩ }

theorem Reached.restore (reached : Reached sha256 pool) :
    PoolState.restore sha256 pool.snapshot (pool.stateRoot sha256) = .ok pool := by
  simp only [PoolState.restore, ok_iff, not_or, not_not, not_le]
  refine ⟨⟨rfl, reached.sorted, rfl⟩, _, reached.built, rfl, ?_, rfl⟩
  have used := reached.unused
  show (if pool.lpSupply = 0 then _ else _) = _
  split_ifs with empty
  · rw [refuse_eq_ok_iff, not_or, not_not, not_not]
    exact ⟨funext (reached.sound.reserves_eq_zero empty), used.mpr empty⟩
  · obtain ⟨full, locked, covered⟩ := reached.sound.funded empty
    have wide : u64Max * u64Max ≤ u128Max := by decide
    have product : checkedMul u128Max (pool.reserves 0) (pool.reserves 1) =
        some (pool.reserves 0 * pool.reserves 1) :=
      if_pos ((Nat.mul_le_mul (reached.words.reserves 0) (reached.words.reserves 1)).trans wide)
    have square : checkedMul u128Max pool.lpSupply pool.lpSupply = some (pool.lpSupply * pool.lpSupply) :=
      if_pos ((Nat.mul_le_mul reached.words.lpSupply reached.words.lpSupply).trans wide)
    simp only [checkFunded, ok_iff, snapshot, product, square, Option.some.injEq, exists_eq_left']
    apply refuse_eq_ok_iff.mpr
    simp only [not_or, not_exists, not_and, not_lt]
    refine ⟨fun i => (full i).ne', mt used.mp empty, locked, sq pool.lpSupply ▸ covered, fun one => ?_⟩
    have opened := reached.opened one
    have fits := (Nat.mul_le_mul (reached.words.reserves 0) (reached.words.reserves 1)).trans wide
    rw [sqrt_eq fits]
    exact ⟨not_le.mpr opened.unlocked, not_not.mpr opened.lpSupply⟩

def Steps (pool : PoolState) (call : Request × ℕ) (next : PoolState) : Prop :=
  ∃ t, pool.transition call.1 call.2 = .ok t ∧ t.next = next

theorem steps_of_next (leads : (pool.transition call.1 call.2).toOption.map Transition.next = some next) :
    Steps pool call next := by
  obtain ⟨t, done, rfl⟩ := Option.map_eq_some_iff.mp leads
  exact ⟨t, toOption_eq_some_iff.mp done, rfl⟩

theorem Reached.steps (taken : Steps pool call next) (reached : Reached sha256 pool) : Reached sha256 next := by
  obtain ⟨t, done, rfl⟩ := taken
  exact reached.transition done

theorem Reached.richer (reached : Reached sha256 pool) (used : pool.lpSupply ≠ 0)
    (done : pool.transition request height = .ok t) : Richer pool t.next ∧ t.next.lpSupply ≠ 0 := by
  obtain ⟨t₀, moves, rfl⟩ := reached.moves done
  have locked := moves.locked
  refine ⟨(moves.fair used).richer, ?_⟩
  show t₀.next.lpSupply ≠ 0
  unfold MINIMUM_LIQUIDITY at locked
  omega

theorem richer_of_run (reached : Reached sha256 pool)
    (used : pool.lpSupply ≠ 0) (run : Run Steps pool calls last) : Richer pool last := by
  have kept := run.invariant
    (P := fun next => Reached sha256 next ∧ next.lpSupply ≠ 0 ∧ Richer pool next)
    (fun taken held => by
      obtain ⟨here, inUse, richer⟩ := held
      obtain ⟨t, done, rfl⟩ := taken
      obtain ⟨later, still_⟩ := here.richer inUse done
      exact ⟨here.transition done, still_, richer.trans later (Nat.pos_of_ne_zero inUse)⟩)
    ⟨reached, used, le_refl _⟩
  exact kept.2.2

/-- A pool moved by accepted transitions only is unused or covers its shares, comes back from its snapshot,
and loses no share value: no run back to the supply it started from has drained one side without filling the
other. -/
theorem pool_keeps_share_value {sha256 : Bytes → Bytes32} {domain a b seed : Bytes32} {feeBps : ℕ}
    {start pool : PoolState} {calls : List (Request × ℕ)}
    (built : new sha256 domain a b feeBps seed = .ok start) (run : Run Steps start calls pool) :
    pool.Sound ∧
    PoolState.restore sha256 pool.snapshot (pool.stateRoot sha256) = .ok pool ∧
    (∀ request height t, pool.transition request height = .ok t →
      (∀ i, t.next.reserves i + t.userCredit i = pool.reserves i + t.userDebit i) ∧
      t.next.lpSupply + t.lpBurn =
        pool.lpSupply + t.lpMint + (if pool.lpSupply = 0 then MINIMUM_LIQUIDITY else 0) ∧
      (pool.lpSupply ≠ 0 → pool.reserves 0 * pool.reserves 1 * t.next.lpSupply ^ 2 ≤
        t.next.reserves 0 * t.next.reserves 1 * pool.lpSupply ^ 2)) ∧
    ∀ later last, Run Steps pool later last → last.lpSupply = pool.lpSupply →
      ∀ i, ¬ (last.reserves i < pool.reserves i ∧ last.reserves (1 - i) ≤ pool.reserves (1 - i)) := by
  have reached : Reached sha256 pool := run.invariant Reached.steps (reached_new built)
  refine ⟨reached.sound, reached.restore, ?_, ?_⟩
  · intro request height t done
    obtain ⟨t₀, moves, rfl⟩ := reached.moves done
    exact ⟨moves.reserves, moves.lpSupply, fun used => (reached.richer used done).1⟩
  · intro later last onward same i
    by_cases used : pool.lpSupply = 0
    · rw [reached.sound.reserves_eq_zero used i]
      exact fun drained => Nat.not_lt_zero _ drained.1
    · exact (richer_of_run reached used onward).not_drained (Nat.pos_of_ne_zero used)
        (reached.sound.funded used).1 same i

def sample (reserves : Fin 2 → ℕ) (lpSupply revision : ℕ) : PoolState :=
  ⟨1, 0, poolId toHash 1 ![1, 2] 30 0, ![1, 2], 30, reserves, lpSupply, revision⟩

/-- A deposit, a swap and a removal leave a pool that covers its shares. -/
theorem sample_keeps_share_value : ∃ calls, Run Steps (sample 0 0 0) calls (sample ![4167, 6005] 5000 3) ∧
    PoolState.restore toHash (sample ![4167, 6005] 5000 3).snapshot
      ((sample ![4167, 6005] 5000 3).stateRoot toHash) = .ok (sample ![4167, 6005] 5000 3) := by
  have run : Run Steps (sample 0 0 0)
      [(⟨(sample 0 0 0).id, 0, 9, .add ![4000, 9000] 5000⟩, 0),
        (⟨(sample 0 0 0).id, 1, 9, .swapExactInput 0 1000 1⟩, 0),
        (⟨(sample 0 0 0).id, 2, 9, .remove 1000 ![1, 1]⟩, 0)] (sample ![4167, 6005] 5000 3) := by
    refine .cons (t := sample ![4000, 9000] 6000 1) (steps_of_next ?_)
      (.cons (t := sample ![5000, 7205] 6000 2) (steps_of_next ?_) (.single (steps_of_next ?_)))
    all_goals decide +kernel
  have built : new toHash 1 1 2 30 0 = .ok (sample 0 0 0) := by decide +kernel
  exact ⟨_, run, (pool_keeps_share_value built run).2.1⟩

end PoolState

end BlochPos.Amm
