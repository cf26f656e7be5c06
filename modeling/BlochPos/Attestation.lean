import BlochPos.Params

/-! The vote a validator signs. `slot` and `head` carry the fork-choice vote,
source and target the finality vote. -/
namespace BlochPos

structure AttestationData where
  slot : ℕ
  head : Bytes32
  sourceEpoch : ℕ
  sourceRoot : Bytes32
  targetEpoch : ℕ
  targetRoot : Bytes32
deriving DecidableEq

namespace AttestationData

def surrounds (self other : AttestationData) : Bool :=
  self.sourceEpoch < other.sourceEpoch ∧ other.targetEpoch < self.targetEpoch

def isDoubleVote (self other : AttestationData) : Bool :=
  self.targetEpoch = other.targetEpoch ∧ self ≠ other

end AttestationData

/-- A member of an epoch's roster, with the stake it is counted at. -/
structure Validator where
  (index effectiveStake : ℕ)
deriving DecidableEq

structure Checkpoint where
  epoch : ℕ
  root : Bytes32
deriving DecidableEq

end BlochPos
