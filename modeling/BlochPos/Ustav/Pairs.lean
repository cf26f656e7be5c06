import BlochPos.Lib.Exchange
import BlochPos.Ustav.Kernel

/-! Two exact transfers of different assets settled together, on a ledger staged with what they
touch. -/
namespace BlochPos.Ustav

open Attempt

def PAIR_VERSION : ℕ := 1
def SETTLEMENT_GAS : ℕ := 200

inductive PairError where
  | native (e : Error)
  | invalidPair | invalidSwap
deriving DecidableEq

structure Pair where
  domain : Bytes32
  assets : AssetId × AssetId
deriving DecidableEq

def Pair.new (domain : Bytes32) (a b : AssetId) : Except PairError Pair := do
  refuse (a = b ∨ a = BLCH ∨ b = BLCH) .invalidPair
  pure ⟨domain, if a < b then (a, b) else (b, a)⟩

def Pair.id (h : Hashes) (pair : Pair) : Bytes32 :=
  tagged h "USTAV-PAIR-v1" (hashBytes pair.domain ++ leBytes 4 KERNEL_VERSION ++ leBytes 4 PAIR_VERSION ++
    hashBytes pair.assets.1 ++ hashBytes pair.assets.2)

/-- Transfers in ascending order of their assets. -/
structure PairSwap where
  legs : Transaction × Transaction
deriving DecidableEq

/-- Whether a leg is anything but a plain transfer. -/
def Transaction.notTransfer (tx : Transaction) : Bool :=
  tx.delta ≠ 0 ∨ tx.mintNonce ≠ 0 ∨ tx.inputs = [] ∨ tx.outputs = []

def PairSwap.authorization (h : Hashes) (domain : Bytes32) (swap : PairSwap) :
    Except PairError (Pair × (Bytes32 × Bytes32) × Bytes32) := do
  let pair ← Pair.new domain swap.legs.1.asset swap.legs.2.asset
  refuse (pair.assets ≠ (swap.legs.1.asset, swap.legs.2.asset) ∨ swap.legs.1.notTransfer = true ∨
    swap.legs.2.notTransfer = true) .invalidSwap
  let first ← (swap.legs.1.signingHash h domain).mapError .native
  let second ← (swap.legs.2.signingHash h domain).mapError .native
  pure (pair, (first, second),
    tagged h "USTAV-PAIR-SWAP-v1" (hashBytes (pair.id h) ++ hashBytes first ++ hashBytes second))

structure PairReceipt where
  (pair authorization : Bytes32)
  legs : Receipt × Receipt
  gasUsed : ℕ
deriving DecidableEq

/-- Signatures under a leg's digest are checked against the digest of the whole swap. -/
def Verifier.pair (v : Verifier) (hashes : Bytes32 × Bytes32) (authorization : Bytes32) : Verifier where
  validPqKey := v.validPqKey
  verifyPq message key sig := (message = hashBytes hashes.1 || message = hashBytes hashes.2) &&
    v.verifyPq (hashBytes authorization) key sig

namespace Ledger

variable (h : Hashes) (l : Ledger)

def pair (a b : AssetId) : Except PairError Pair := do
  let pair ← Pair.new l.domain a b
  refuse (l.tokens.contains a = false ∨ l.tokens.contains b = false) (.native .unknownAsset)
  pure pair

def stageInput (tx : Transaction) (staged : Ledger) (id : OutPoint) : Metered Ledger := do
  let output ← Attempt.check (orRefuse (l.outputs.get? id) .missingInput)
  Attempt.check (refuse (output.asset ≠ tx.asset) .wrongAsset)
  charge (satAdd u64Max (words output.output.owner.length) 1) .outOfGas
  pure { staged with outputs := staged.outputs.insert id output }

/-- The new outputs are looked for in the full ledger, not among what is staged. -/
def checkCollisions (tx : Transaction) (hash : Bytes32) : Except Error Unit :=
  refuse (∃ id ∈ (List.range tx.outputs.length).map (outPoint hash), l.outputs.contains id) .outputCollision

def stageLeg (tx : Transaction) (w : Witnesses) (hash : Bytes32) (staged : Ledger) : Metered Ledger := do
  let token ← Attempt.check (orRefuse (l.tokens.get? tx.asset) .unknownAsset)
  let _ ← Attempt.check (w.check token.compiled.validators.length tx.inputs.length)
  charge (registrationCost token.registration) .outOfGas
  let staged ← tx.inputs.foldlM (l.stageInput tx) { staged with tokens := staged.tokens.insert tx.asset token }
  Attempt.check (l.checkCollisions tx hash)
  pure staged

def applyStaged (tx : Transaction) (w : Witnesses) (height : ℕ) (v : Verifier) (staged : Ledger) :
    Metered (Receipt × Ledger) := do
  let gas ← get
  let (receipt, staged) ← Attempt.check (outcome (Ledger.apply h tx w height v gas) staged)
  let left ← Attempt.check (orRefuse (checkedSub gas receipt.gasUsed) .outOfGas)
  set left
  pure (receipt, staged)

/-- A swap ready to be carried out. -/
structure Settlement where
  pair : Pair
  authorization : Bytes32
  (first second : Receipt)
  staged : Ledger

def checkSettle (swap : PairSwap) (w : Witnesses × Witnesses) (height : ℕ) (v : Verifier) :
    Attempt ℕ PairError Settlement := do
  let (pair, hashes, authorization) ← Attempt.check (swap.authorization h l.domain)
  let _ ← Attempt.check (l.pair pair.assets.1 pair.assets.2)
  charge SETTLEMENT_GAS (.native .outOfGas)
  let staged ← relabel .native (l.stageLeg swap.legs.1 w.1 hashes.1 (.new l.domain))
  let staged ← relabel .native (l.stageLeg swap.legs.2 w.2 hashes.2 staged)
  let count ← Attempt.check (orRefuse ((checkedSub l.outputs.size
    (swap.legs.1.inputs.length + swap.legs.2.inputs.length)).bind
    (checkedAdd u64Max · (swap.legs.1.outputs.length + swap.legs.2.outputs.length))) (.native .arithmeticOverflow))
  Attempt.check (refuse (MAX_LEDGER_OUTPUTS < count) (.native (.resourceLimit "ledger output count")))
  let joint := v.pair hashes authorization
  let (first, staged) ← relabel .native (applyStaged h swap.legs.1 w.1 height joint staged)
  let (second, staged) ← relabel .native (applyStaged h swap.legs.2 w.2 height joint staged)
  pure ⟨pair, authorization, first, second, staged⟩

/-- Puts what was staged in the place of the inputs. -/
def commitStaged (inputs : List OutPoint) (staged : Ledger) : Ledger :=
  { l with
    tokens := l.tokens.exchange [] staged.tokens.entries
    outputs := l.outputs.exchange inputs staged.outputs.entries }

def settlePair (swap : PairSwap) (w : Witnesses × Witnesses) (height : ℕ) (v : Verifier) (gasLimit : ℕ) :
    Attempt Ledger PairError PairReceipt :=
  transact (fun l => metered (l.checkSettle h swap w height v) gasLimit)
    (fun l plan => l.commitStaged (swap.legs.1.inputs ++ swap.legs.2.inputs) plan.1.staged)
    (fun plan => ⟨plan.1.pair.id h, plan.1.authorization, (plan.1.first, plan.1.second), gasLimit - plan.2⟩)

end Ledger

end BlochPos.Ustav
