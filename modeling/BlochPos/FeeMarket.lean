import BlochPos.Crypto
import BlochPos.Delegation

/-! Issuance, rewards and fees: the decaying emission, the split of issuance and of a block's fees,
and gas. -/
namespace BlochPos

def TOTAL_SUPPLY_SAT : ℕ := 100000000000 * SAT_PER_BLOCH
def VALIDATOR_EMISSION_SAT : ℕ :=
  (100000000000 - 18146400000 - 10000000000 - 10000000000 - 10000000000 - 4000000000 - 5000000000) *
    SAT_PER_BLOCH
def GENESIS_ISSUED_SAT : ℕ := TOTAL_SUPPLY_SAT - VALIDATOR_EMISSION_SAT
def GENESIS_UNFUNDED_BONDED_CEILING_SAT : ℕ := 1600000 * SAT_PER_BLOCH
def SLOTS_PER_YEAR : ℕ := 1051920
def EMISSION_SLOTS : ℕ := 40 * SLOTS_PER_YEAR
def INITIAL_ANNUAL_SAT : ℕ := 434965169252191762

def annualSat : ℕ → ℕ
  | 0 => INITIAL_ANNUAL_SAT
  | year + 1 => annualSat year * 9 / 10

def validatorRewardDecaySat (slot : ℕ) : ℕ :=
  if EMISSION_SLOTS ≤ slot then 0 else annualSat (slot / SLOTS_PER_YEAR) / SLOTS_PER_YEAR

def BPS : ℕ := 10000
def BASE_FEE_BURN_BPS : ℕ := 5000
def PRIORITY_FEE_PRODUCER_BPS : ℕ := 10000
def MAX_BLOCK_FEE_TO_PRODUCER_SAT : ℕ := 100 * SAT_PER_BLOCH
def MAX_COMMISSION_BPS : ℕ := 10000

structure FeeSplit where
  (toProducer burned : ℕ)

def splitFeesAt (baseFee priorityFee slot : ℕ) : FeeSplit :=
  if EMISSION_SLOTS ≤ slot then ⟨baseFee + priorityFee, 0⟩
  else
    let baseBurn := baseFee * BASE_FEE_BURN_BPS / BPS
    let prioProducer := priorityFee * PRIORITY_FEE_PRODUCER_BPS / BPS
    ⟨baseFee - baseBurn + prioProducer, baseBurn + (priorityFee - prioProducer)⟩

structure StakeAccount where
  (selfStake delegatedStake commissionBps credits maxCredits : ℕ)

structure Payout where
  (operator delegators forfeited : ℕ)

def distribute (acct : StakeAccount) (epochIssuance totalStake : ℕ) : Payout :=
  let stake := acct.selfStake + acct.delegatedStake
  if totalStake = 0 ∨ stake = 0 ∨ acct.maxCredits = 0 then ⟨0, 0, 0⟩
  else
    let gross := epochIssuance * stake / totalStake
    let earned := gross * min acct.credits acct.maxCredits / acct.maxCredits
    let delegatorGross := earned * acct.delegatedStake / stake
    let commission := delegatorGross * min acct.commissionBps MAX_COMMISSION_BPS / BPS
    ⟨earned - delegatorGross + commission, delegatorGross - commission, gross - earned⟩

def distributeProducerFees (acct : StakeAccount) (producerFeeSat : ℕ) : Payout :=
  let stake := acct.selfStake + acct.delegatedStake
  if stake = 0 then ⟨producerFeeSat, 0, 0⟩
  else
    let delegatorGross := producerFeeSat * acct.delegatedStake / stake
    let commission := delegatorGross * min acct.commissionBps MAX_COMMISSION_BPS / BPS
    ⟨producerFeeSat - delegatorGross + commission, delegatorGross - commission, 0⟩

def splitDelegatorFees (stakes : List (ℕ × ℕ)) (delegatorsSat : ℕ) : List (ℕ × ℕ) × ℕ :=
  let total := (stakes.map Prod.snd).sum
  if total = 0 ∨ delegatorsSat = 0 then (stakes.map (fun e => (e.1, 0)), delegatorsSat)
  else
    let parts := stakes.map (fun e => (e.1, delegatorsSat * e.2 / total))
    (parts, delegatorsSat - (parts.map Prod.snd).sum)

def BLOCK_GAS_LIMIT : ℕ := 60000000
def BLOCK_GAS_TARGET : ℕ := BLOCK_GAS_LIMIT / 2
def MAX_TX_GAS : ℕ := BLOCK_GAS_LIMIT
def GAS_PER_BYTE : ℕ := 16
def TX_FLAT_GAS : ℕ := 5000
def TX_BYTES_DECLARE_SLACK : ℕ := 4589
def HYBRID_VERIFY_GAS : ℕ := 7274849 / 100
def SLHDSA_FALCON_VERIFY_GAS : ℕ := 1067610
def SECP256K1_VERIFY_GAS : ℕ := 3000
def SHIELDED_VERIFY_GAS_PROVISIONAL : ℕ := 25 * HYBRID_VERIFY_GAS

def maxBlockTxBytes (g : Gates) (epoch : ℕ) : ℕ := if epoch < g.blockBytesV2 then 262144 else 524288

def blockTxBytesTarget (g : Gates) (epoch : ℕ) : ℕ := maxBlockTxBytes g epoch / 2

inductive VerifySuite where
  | hybrid | slhDsaFalcon
deriving DecidableEq

def verifySuiteOf (pubkey : Bytes) : VerifySuite :=
  if pubkey.length ≠ SLH_SUITE_PUBKEY_BYTES ∨ pubkey.take 2 ≠ SUITE_MAGIC then .hybrid
  else if ofLeBytes ((pubkey.drop 2).take 2) = SUITE_SLHDSA128S_FALCON1024 then .slhDsaFalcon
  else .hybrid

inductive TxClass where
  | eutxo (inputs : ℕ)
  | eutxoSuites (hybrid slhFalcon : ℕ)
  | evmPq | evmSecp256k1 | shielded
deriving DecidableEq

def u32Max : ℕ := 2 ^ 32 - 1

def eutxoClassForKeys (g : Gates) (epoch : ℕ) (keys : List Bytes) : TxClass :=
  let hybrid := min (keys.filter (fun k => verifySuiteOf k = .hybrid)).length u32Max
  let slhFalcon := min (keys.filter (fun k => verifySuiteOf k = .slhDsaFalcon)).length u32Max
  if g.slhSuiteActive epoch = false ∨ slhFalcon = 0 then .eutxo (satAdd u32Max hybrid slhFalcon)
  else .eutxoSuites hybrid slhFalcon

def satMul (max a b : ℕ) : ℕ := min (a * b) max

def verifyGas : TxClass → ℕ
  | .eutxo inputs => satMul u64Max HYBRID_VERIFY_GAS inputs
  | .eutxoSuites hybrid slhFalcon =>
    satAdd u64Max (satMul u64Max HYBRID_VERIFY_GAS hybrid)
      (satMul u64Max SLHDSA_FALCON_VERIFY_GAS slhFalcon)
  | .evmPq => HYBRID_VERIFY_GAS
  | .evmSecp256k1 => SECP256K1_VERIFY_GAS
  | .shielded => SHIELDED_VERIFY_GAS_PROVISIONAL

def intrinsicGas (cls : TxClass) (txBytes : ℕ) : ℕ :=
  satAdd u64Max (satAdd u64Max TX_FLAT_GAS (satMul u64Max txBytes GAS_PER_BYTE)) (verifyGas cls)

def MILLISAT_PER_SAT : ℕ := 1000
def MIN_BASE_FEE_MILLISAT_PER_GAS : ℕ := 10
def MAX_BASE_FEE_MILLISAT_PER_GAS : ℕ := TOTAL_SUPPLY_SAT * MILLISAT_PER_SAT
def MAX_TIP_MILLISAT_PER_GAS : ℕ := MAX_BASE_FEE_MILLISAT_PER_GAS
def BASE_FEE_CHANGE_DENOMINATOR : ℕ := 8

def clampBaseFee (v : ℕ) : ℕ :=
  if v < MIN_BASE_FEE_MILLISAT_PER_GAS then MIN_BASE_FEE_MILLISAT_PER_GAS
  else if MAX_BASE_FEE_MILLISAT_PER_GAS < v then MAX_BASE_FEE_MILLISAT_PER_GAS
  else v

/-- The next price follows whichever of gas and bytes the parent used more of. -/
def nextBaseFee (g : Gates) (parentBaseFee gasUsed txBytes epoch : ℕ) : ℕ :=
  let byteTarget := blockTxBytesTarget g epoch
  let usage : ℕ × ℕ :=
    if txBytes * BLOCK_GAS_TARGET ≤ gasUsed * byteTarget then (gasUsed, BLOCK_GAS_TARGET)
    else (txBytes, byteTarget)
  let base := clampBaseFee parentBaseFee
  if usage.1 = usage.2 then base
  else if usage.2 < usage.1 then
    let delta := base * (usage.1 - usage.2) / usage.2 / BASE_FEE_CHANGE_DENOMINATOR
    clampBaseFee (base + if delta = 0 then 1 else delta)
  else clampBaseFee (base - base * (usage.2 - usage.1) / usage.2 / BASE_FEE_CHANGE_DENOMINATOR)

def partSat (gasUsed price : ℕ) : ℕ :=
  let n := satMul u128Max gasUsed price
  n / MILLISAT_PER_SAT + if n % MILLISAT_PER_SAT ≠ 0 then 1 else 0

structure TxCharge where
  (gas txBytes baseFeeSat priorityFeeSat : ℕ)
deriving DecidableEq

namespace TxCharge

/-- A charge that takes block space but no coins. -/
def free (gas txBytes : ℕ) : TxCharge := ⟨gas, txBytes, 0, 0⟩

def feeSat (charge : TxCharge) : ℕ := charge.baseFeeSat + charge.priorityFeeSat

end TxCharge

def chargeFor (cls : TxClass) (txBytes baseFee tip : ℕ) : TxCharge :=
  let gas := intrinsicGas cls txBytes
  ⟨gas, txBytes, partSat gas baseFee, partSat gas tip⟩

end BlochPos
