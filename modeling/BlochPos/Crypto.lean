import BlochPos.Attestation

/-! Bytes, and the primitives as parameters: hashes are arbitrary functions and verifiers arbitrary
predicates. -/
namespace BlochPos

abbrev Bytes := List UInt8

/-- The low `width` bytes of a number, least significant first. -/
def leBytes : ℕ → ℕ → Bytes
  | 0, _ => []
  | width + 1, n => UInt8.ofNat n :: leBytes width (n / 256)

def beBytes (width n : ℕ) : Bytes := (leBytes width n).reverse

def ofLeBytes : Bytes → ℕ
  | [] => 0
  | b :: rest => b.toNat + 256 * ofLeBytes rest

def ofBeBytes (b : Bytes) : ℕ := ofLeBytes b.reverse

def hashBytes (h : Bytes32) : Bytes := beBytes 32 h.val

def toHash (b : Bytes) : Bytes32 := Fin.ofNat _ (ofBeBytes b)

def ascii (s : String) : Bytes := s.toList.map (fun c => UInt8.ofNat c.toNat)

def domainTag (name : String) : Bytes :=
  ascii name ++ List.replicate (16 - (ascii name).length) 0

/-- A byte string behind its length as a 32-bit number. -/
def putBytes (b : Bytes) : Bytes := leBytes 4 b.length ++ b

theorem length_leBytes (width n : ℕ) : (leBytes width n).length = width := by
  induction width generalizing n with
  | zero => rfl
  | succ width ih => rw [leBytes, List.length_cons, ih]

theorem ofLeBytes_lt (b : Bytes) : ofLeBytes b < 256 ^ b.length := by
  induction b with
  | nil => simp [ofLeBytes]
  | cons x rest ih =>
    have small : x.toNat < 256 := x.toNat_lt
    rw [ofLeBytes, List.length_cons, pow_succ]
    omega

theorem ofLeBytes_leBytes (fits : n < 256 ^ width) : ofLeBytes (leBytes width n) = n := by
  induction width generalizing n with
  | zero =>
    rw [pow_zero, Nat.lt_one_iff] at fits
    rw [fits]
    rfl
  | succ width ih =>
    have high : n / 256 < 256 ^ width := by
      rw [pow_succ] at fits
      exact Nat.div_lt_of_lt_mul (by omega)
    rw [leBytes, ofLeBytes, ih high, UInt8.toNat_ofNat']
    exact Nat.mod_add_div n 256

theorem leBytes_ofLeBytes (b : Bytes) : leBytes b.length (ofLeBytes b) = b := by
  induction b with
  | nil => rfl
  | cons x rest ih =>
    have small : x.toNat < 256 := x.toNat_lt
    have low : UInt8.ofNat (x.toNat + 256 * ofLeBytes rest) = x := by
      apply UInt8.toNat.inj
      rw [UInt8.toNat_ofNat']
      omega
    have high : (x.toNat + 256 * ofLeBytes rest) / 256 = ofLeBytes rest := by omega
    rw [ofLeBytes, List.length_cons, leBytes, low, high, ih]

theorem length_hashBytes (h : Bytes32) : (hashBytes h).length = 32 := by
  rw [hashBytes, beBytes, List.length_reverse, length_leBytes]

theorem toHash_hashBytes (h : Bytes32) : toHash (hashBytes h) = h := by
  have whole : ofBeBytes (hashBytes h) = h.val := by
    rw [ofBeBytes, hashBytes, beBytes, List.reverse_reverse]
    exact ofLeBytes_leBytes h.isLt
  rw [toHash, whole]
  exact Fin.cast_val_eq_self h

theorem hashBytes_toHash (size : b.length = 32) : hashBytes (toHash b) = b := by
  have fits : ofBeBytes b < 2 ^ 256 := by
    have bound := ofLeBytes_lt b.reverse
    rw [List.length_reverse, size] at bound
    exact bound
  have whole : (toHash b).val = ofBeBytes b := Nat.mod_eq_of_lt fits
  have width : 32 = b.reverse.length := by rw [List.length_reverse, size]
  rw [hashBytes, beBytes, whole, ofBeBytes, width, leBytes_ofLeBytes, List.reverse_reverse]

/-- The hash functions. The last is an extendable output, read byte by byte. -/
structure Crypto where
  (sha3 keccak : Bytes → Bytes32)
  shake256 : Bytes → ℕ → UInt8

namespace Crypto

variable (c : Crypto)

/-- The 16-byte words of an extendable output, as the samplers read them. -/
def shakeWord (seed : Bytes) (k : ℕ) : ℕ :=
  ofLeBytes ((List.range 16).map (fun i => c.shake256 seed (16 * k + i)))

def shake32 (input : Bytes) : Bytes32 := toHash ((List.range 32).map (c.shake256 input))

end Crypto

inductive SignaturePolicy where
  | compatible | compatiblePinned | canonicalUnbound | bound
deriving DecidableEq

namespace SignaturePolicy

def consensus (g : Gates) (epoch : ℕ) : SignaturePolicy :=
  if g.sigCanonicalActive epoch then .bound
  else if g.mldsaPinActive epoch then .compatiblePinned
  else .compatible

def transaction (g : Gates) (epoch : ℕ) : SignaturePolicy :=
  if g.mldsaPinActive epoch || g.sigCanonicalActive epoch then .compatiblePinned else .compatible

def strictest : SignaturePolicy → SignaturePolicy → SignaturePolicy
  | .bound, _ | _, .bound => .bound
  | .canonicalUnbound, _ | _, .canonicalUnbound => .canonicalUnbound
  | .compatiblePinned, _ | _, .compatiblePinned => .compatiblePinned
  | .compatible, .compatible => .compatible

end SignaturePolicy

/-- A forward-secure key: a Merkle tree of one-period keys and its first period. -/
structure KesPublic where
  depth : ℕ
  root : Bytes32
  startPeriod : ℕ
deriving DecidableEq

structure SignatureVerifier where
  verifyWithKey : Bytes → Bytes32 → Bytes → Bool
  verifyWithKeyUnder : SignaturePolicy → Bytes → Bytes32 → Bytes → Bool
  verifySpendAtEpoch : Bytes → Bytes32 → Bytes → ℕ → Bool
  verifyKes : KesPublic → ℕ → Bytes32 → Bytes → Bool
  verifyL2Settlement : Bytes32 → Bytes32 → Bytes → Bytes → Bool

def HYBRID_PK_BYTES : ℕ := 1952 + 1793
def SUITE_MLDSA65_FALCON1024 : ℕ := 1
def SUITE_SLHDSA128S_FALCON1024 : ℕ := 3
def SLH_SUITE_PUBKEY_BYTES : ℕ := 4 + 32 + 1793
def SUITE_MAGIC : Bytes := [0xb1, 0x0c]

def keySuite (pubkey : Bytes) : Option ℕ :=
  if pubkey.length = HYBRID_PK_BYTES then some SUITE_MLDSA65_FALCON1024
  else if pubkey.length < 4 ∨ pubkey.take 2 ≠ SUITE_MAGIC then none
  else some (ofLeBytes ((pubkey.drop 2).take 2))

def isHashBasedKey (pubkey : Bytes) : Bool :=
  keySuite pubkey = some SUITE_SLHDSA128S_FALCON1024 ∧ pubkey.length = SLH_SUITE_PUBKEY_BYTES

theorem isHashBasedKey_of_length {pubkey : Bytes} (other : pubkey.length ≠ SLH_SUITE_PUBKEY_BYTES) :
    isHashBasedKey pubkey = false := by
  simp [isHashBasedKey, other]

def SignatureVerifier.under (v : SignatureVerifier) (policy : SignaturePolicy) : SignatureVerifier where
  verifyWithKey := v.verifyWithKeyUnder policy
  verifyWithKeyUnder other := v.verifyWithKeyUnder (policy.strictest other)
  verifySpendAtEpoch pubkey root signature epoch :=
    if keySuite pubkey = some SUITE_SLHDSA128S_FALCON1024 then
      v.verifySpendAtEpoch pubkey root signature epoch
    else v.verifyWithKeyUnder policy pubkey root signature
  verifyKes := v.verifyKes
  verifyL2Settlement := v.verifyL2Settlement

end BlochPos
