import BlochPos.Crypto

/-! Forward-secure validator keys: the key in force, a scheduled successor and the retired keys that
old evidence is judged by. -/
namespace BlochPos

namespace Kes

def MIN_DEPTH : ℕ := 1
def MAX_DEPTH : ℕ := 16
def MAX_LEAF_PK_LEN : ℕ := 3749
def MAX_LEAF_SIG_LEN : ℕ := 4 + 3309 + 1462
def SIGNATURE_MAGIC : Bytes := ascii "KES1"
def MAX_SIGNATURE_LEN : ℕ := 4 + 4 + 4 + MAX_LEAF_PK_LEN + 4 + MAX_LEAF_SIG_LEN + 1 + 32 * MAX_DEPTH

def leafHash (c : Crypto) (pk : Bytes) : Bytes32 := c.sha3 (ascii "BLOCH-KES-v1/pk" ++ pk)

def nodeHash (c : Crypto) (l r : Bytes32) : Bytes32 :=
  c.sha3 (ascii "BLOCH-KES-v1/node" ++ hashBytes l ++ hashBytes r)

end Kes

namespace KesPublic

def periods (k : KesPublic) : ℕ := 2 ^ min k.depth Kes.MAX_DEPTH

def leafIndex (k : KesPublic) (period : ℕ) : Option ℕ :=
  if Kes.MIN_DEPTH ≤ k.depth ∧ k.depth ≤ Kes.MAX_DEPTH then
    (checkedSub period k.startPeriod).filter (fun leaf => leaf < k.periods)
  else none

def endPeriod (k : KesPublic) : ℕ := satAdd u64Max k.startPeriod k.periods

def sameTree (k other : KesPublic) : Bool := k.depth = other.depth ∧ k.root = other.root

end KesPublic

structure RetiredKes where
  publicKey : KesPublic
  endPeriod : ℕ
deriving DecidableEq

def RetiredKes.covers (r : RetiredKes) (period : ℕ) : Bool :=
  r.publicKey.startPeriod ≤ period ∧ period < r.endPeriod

structure KesEntry where
  current : KesPublic
  next : Option KesPublic
  retired : List RetiredKes
deriving DecidableEq

namespace KesEntry

def ofPublic (current : KesPublic) : KesEntry := ⟨current, none, []⟩

variable (e : KesEntry) (period : ℕ)

def inForce : KesPublic :=
  match e.next.filter (fun next => next.startPeriod ≤ period) with
  | some next => next
  | none =>
    if e.current.startPeriod ≤ period then e.current
    else ((e.retired.reverse.find? (fun r => r.covers period)).map RetiredKes.publicKey).getD e.current

def prune : KesEntry :=
  { e with retired := e.retired.filter (fun r => period - KES_KEY_HISTORY_PERIODS < r.endPeriod) }

def settled : KesEntry :=
  let promoted : KesEntry :=
    match e.next.filter (fun next => next.startPeriod ≤ period) with
    | some next => ⟨next, none, e.retired ++ [⟨e.current, next.startPeriod⟩]⟩
    | none => e
  promoted.prune period

def replacedBy (fresh : KesPublic) (period : ℕ) : KesEntry :=
  let retired : List RetiredKes :=
    match e.next with
    | some next =>
      e.retired ++ [⟨e.current, next.startPeriod⟩, ⟨next, min next.endPeriod fresh.startPeriod⟩]
    | none => e.retired ++ [⟨e.current, min e.current.endPeriod fresh.startPeriod⟩]
  KesEntry.prune ⟨fresh, none, retired⟩ period

def pendingAt : Option KesPublic :=
  e.next.filter (fun next => period < next.startPeriod)

end KesEntry

structure KesSignature where
  index : ℕ
  (leafPk sig : Bytes)
  path : List Bytes32
deriving DecidableEq

namespace Kes

def take (n : ℕ) (b : Bytes) : Option (Bytes × Bytes) :=
  if n ≤ b.length then some (b.take n, b.drop n) else none

def takePath : ℕ → Bytes → Option (List Bytes32 × Bytes)
  | 0, b => some ([], b)
  | n + 1, b => do
    let (node, b) ← take 32 b
    let (path, b) ← takePath n b
    some (toHash node :: path, b)

def decode (bytes : Bytes) : Option KesSignature := do
  if MAX_SIGNATURE_LEN < bytes.length ∨ bytes.take 4 ≠ SIGNATURE_MAGIC then none
  else
    let (index, b) ← take 4 (bytes.drop 4)
    let (pkLen, b) ← take 4 b
    if MAX_LEAF_PK_LEN < ofLeBytes pkLen then none
    else
      let (leafPk, b) ← take (ofLeBytes pkLen) b
      let (sigLen, b) ← take 4 b
      if MAX_LEAF_SIG_LEN < ofLeBytes sigLen then none
      else
        let (sig, b) ← take (ofLeBytes sigLen) b
        let (depth, b) ← take 1 b
        if MAX_DEPTH < ofLeBytes depth then none
        else
          let (path, b) ← takePath (ofLeBytes depth) b
          if b = [] then some ⟨ofLeBytes index, leafPk, sig, path⟩ else none

/-- The root a leaf and its siblings hash to; the low bit of the index says
which side the path is on. -/
def climb (c : Crypto) : Bytes32 → ℕ → List Bytes32 → Bytes32
  | node, _, [] => node
  | node, i, sib :: path =>
    climb c (if i % 2 = 0 then nodeHash c node sib else nodeHash c sib node) (i / 2) path

/-- A signature of the tree: a leaf of the right index, on a path to the root,
whose key signed the message. -/
def verify (c : Crypto) (verifyLeaf : Bytes → Bytes32 → Bytes → Bool) (k : KesPublic) (period : ℕ)
    (message : Bytes32) (signature : Bytes) : Bool :=
  match k.leafIndex period, decode signature with
  | some leaf, some s =>
    s.index = leaf ∧ s.path.length = k.depth ∧ climb c (leafHash c s.leafPk) leaf s.path = k.root ∧
      verifyLeaf s.leafPk message s.sig = true
  | _, _ => false

def registerSigningRoot (c : Crypto) (domain : Bytes32) (validator : ℕ) (k : KesPublic) : Bytes32 :=
  c.sha3 (ascii "BLOCH-KES-v1/register" ++ hashBytes domain ++ leBytes 4 validator ++
    leBytes 1 k.depth ++ hashBytes k.root)

def rotateSigningRoot (c : Crypto) (domain : Bytes32) (validator period depth : ℕ)
    (root : Bytes32) : Bytes32 :=
  c.sha3 (ascii "BLOCH-KES-v1/rotate" ++ hashBytes domain ++ leBytes 4 validator ++
    leBytes 8 period ++ leBytes 1 depth ++ hashBytes root)

def boundSigningRoot (c : Crypto) (domain : Bytes32) (validator : ℕ) (k : KesPublic) (period : ℕ)
    (signingRoot : Bytes32) : Bytes32 :=
  c.sha3 (ascii "BLOCH-KES-v2/sign" ++ hashBytes domain ++ leBytes 4 validator ++
    leBytes 1 k.depth ++ hashBytes k.root ++ leBytes 8 period ++ hashBytes signingRoot)

def leafMessage (c : Crypto) (domain : Option Bytes32) (validator : ℕ) (k : KesPublic) (period : ℕ)
    (signingRoot : Bytes32) : Option Bytes32 :=
  domain.map (fun domain => boundSigningRoot c domain validator k period signingRoot)

end Kes

/-- A verifier whose forward-secure signatures are judged by the tree. -/
def SignatureVerifier.ofPredicates (c : Crypto) (withKey : Bytes → Bytes32 → Bytes → Bool)
    (withKeyUnder : SignaturePolicy → Bytes → Bytes32 → Bytes → Bool)
    (spend : Bytes → Bytes32 → Bytes → ℕ → Bool) (leaf : Bytes → Bytes32 → Bytes → Bool)
    (settlement : Bytes32 → Bytes32 → Bytes → Bytes → Bool) : SignatureVerifier where
  verifyWithKey := withKey
  verifyWithKeyUnder := withKeyUnder
  verifySpendAtEpoch := spend
  verifyKes := Kes.verify c leaf
  verifyL2Settlement := settlement

/-- What a state knows of its validators' keys. The outer option of
`kesEnforcedFrom` is absent for a lookup that does not know. -/
structure KeyLookup where
  pubkey : ℕ → Option Bytes
  kesPublic : ℕ → ℕ → Option KesPublic
  kesNetworkDomain : Option Bytes32
  kesEnforcedFrom : Option (Option ℕ)

inductive SigningMode where
  | static
  | kes (period : ℕ)
  | failClosed
deriving DecidableEq

namespace Kes

def signingMode (g : Gates) (keys : KeyLookup) (validator epoch : ℕ) : SigningMode :=
  match g.kesPeriod epoch with
  | none => .static
  | some period =>
    match keys.kesEnforcedFrom with
    | none => .failClosed
    | some none => .static
    | some (some bound) =>
      if epoch < bound then .static
      else match keys.kesPublic validator period with
        | some _ => .kes period
        | none => .static

def verifyValidatorIn (c : Crypto) (keys : KeyLookup) (v : SignatureVerifier) (validator : ℕ)
    (period : Option ℕ) (signingRoot : Bytes32) (signature : Bytes) : Option Bool :=
  (keys.pubkey validator).map (fun staticKey =>
    match period with
    | none => v.verifyWithKey staticKey signingRoot signature
    | some period =>
      match keys.kesPublic validator period with
      | none => false
      | some k =>
        match leafMessage c keys.kesNetworkDomain validator k period signingRoot with
        | none => false
        | some message => v.verifyKes k period message signature)

def verifyValidator (c : Crypto) (g : Gates) (keys : KeyLookup) (v : SignatureVerifier)
    (validator epoch : ℕ) (signingRoot : Bytes32) (signature : Bytes) : Option Bool :=
  match signingMode g keys validator epoch with
  | .static => verifyValidatorIn c keys v validator none signingRoot signature
  | .kes period => verifyValidatorIn c keys v validator (some period) signingRoot signature
  | .failClosed => (keys.pubkey validator).map (fun _ => false)

end Kes

end BlochPos
