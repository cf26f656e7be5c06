import BlochPos.FeeMarket
import BlochPos.Lib.Attempt

/-! Bonding rules: deposits, the activation queue and exits. -/
namespace BlochPos

open Attempt

def MIN_DEPOSIT_SAT : ℕ := 25000 * SAT_PER_BLOCH
def ACTIVATION_DELAY_EPOCHS : ℕ := 8
def MAX_ACTIVATIONS_PER_EPOCH : ℕ := 4
def GROWTH_WINDOW_EPOCHS : ℕ := 24
def GROWTH_DIV : ℕ := 64
def MAX_VALIDATOR_REGISTRY_ENTRIES : ℕ := 4096
def MAX_EXITS_PER_EPOCH : ℕ := 4
def EXIT_DELAY_EPOCHS : ℕ := 32
def WITHDRAWAL_DELAY_EPOCHS : ℕ := 2048

inductive DepositReject where
  | wrongSuite | belowMinimum | aboveMaximum | badProofOfPossession
deriving DecidableEq

def depositShape (suite pubkeyLen amountSat maxStakeSat : ℕ) : Except DepositReject Unit := do
  refuse (suite ≠ SUITE_MLDSA65_FALCON1024 ∨ pubkeyLen ≠ HYBRID_PK_BYTES) .wrongSuite
  refuse (amountSat < MIN_DEPOSIT_SAT) .belowMinimum
  refuse (maxStakeSat < amountSat) .aboveMaximum

def wireDepositPopRoot (c : Crypto) (pubkey : Bytes) (amountSat : ℕ) (randaoCommitment : Bytes32)
    (withdrawalCredentials : Bytes) (commissionBps : ℕ) : Bytes32 :=
  c.sha3 (domainTag "BLCH4:DEPOSIT" ++ putBytes pubkey ++ leBytes 16 amountSat ++
    hashBytes randaoCommitment ++ putBytes withdrawalCredentials ++ leBytes 16 commissionBps)

def exitSigningRoot (c : Crypto) (pubkeyHash : Bytes32) (epoch : ℕ) : Bytes32 :=
  c.sha3 (domainTag "BLCH4:EXIT" ++ hashBytes pubkeyHash ++ leBytes 8 epoch)

structure QueuedDeposit where
  pubkeyHash : Bytes32
  (depositEpoch amountSat : ℕ)
deriving DecidableEq

def activationQueuePriority (c : Crypto) (queueV2 : Bool) (seed pubkeyHash : Bytes32) : Bytes32 :=
  if queueV2 then
    c.sha3 (domainTag "BLCH4:SORTIT" ++ hashBytes seed ++ hashBytes pubkeyHash ++ [0x04])
  else pubkeyHash

/-- Places in the queue handed out so far. -/
structure ActivationCursor where
  (activationEpoch admitted : ℕ)

/-- Walk the sorted queue until a deposit would activate after the epoch. -/
def activationsFrom (epoch : ℕ) : ActivationCursor → List QueuedDeposit → List (Bytes32 × ℕ)
  | _, [] => []
  | c, deposit :: rest =>
    let eligible := satAdd u64Max deposit.depositEpoch ACTIVATION_DELAY_EPOCHS
    let c : ActivationCursor := if c.activationEpoch < eligible then ⟨eligible, 0⟩ else c
    let moved : Option ActivationCursor :=
      if c.admitted = MAX_ACTIVATIONS_PER_EPOCH then
        (checkedAdd u64Max c.activationEpoch 1).map (fun next => ⟨next, 0⟩)
      else some c
    match moved with
    | none => []
    | some c =>
      if epoch < c.activationEpoch then []
      else (deposit.pubkeyHash, c.activationEpoch) ::
        activationsFrom epoch { c with admitted := c.admitted + 1 } rest

def resolveActivations (deposits : List QueuedDeposit) (epoch : ℕ) : List (Bytes32 × ℕ) :=
  activationsFrom epoch ⟨0, 0⟩ (deposits.insertionSort (fun a b =>
    a.depositEpoch < b.depositEpoch ∨ (a.depositEpoch = b.depositEpoch ∧ a.pubkeyHash ≤ b.pubkeyHash)))

def growthBudgetSat (w : ℕ) : ℕ := max (w / GROWTH_DIV) MIN_DEPOSIT_SAT

/-- How many of the deposits fit the budget; the first of a window always does. -/
def growthAdmissions (budget : ℕ) : ℕ → List ℕ → ℕ
  | _, [] => 0
  | used, stake :: rest =>
    if used ≠ 0 ∧ budget < satAdd u128Max used stake then 0
    else growthAdmissions budget (satAdd u128Max used stake) rest + 1

end BlochPos
