import BlochPos.Ustav.Vm

/-! The sparse Merkle tree that commits to a map of byte strings, and the proofs
that open one slot of it. Levels count from the leaves up. -/
namespace BlochPos.Ustav

def TREE_DEPTH : ℕ := 256
def EMPTY_LEAF : Bytes32 := 0
def KEY_TAG : UInt8 := 0x02
def LEAF_TAG : UInt8 := 0x00
def NODE_TAG : UInt8 := 0x01
def SHAKE256_GAS : ℕ := 60

def verifyGas : ℕ := SHAKE256_GAS * (TREE_DEPTH + 2)

structure SparseMerkleTree where
  map : SortedMap Bytes Bytes

/-- An opening of one slot: of a value there, or of nothing. -/
structure Proof where
  key : Bytes
  value : Option Bytes
  siblings : List Bytes32
deriving DecidableEq

section

variable (h : Hashes)

def keyHash (key : Bytes) : Bytes32 := h.shake256 (KEY_TAG :: key)

def leafHash (kh : Bytes32) (value : Bytes) : Bytes32 :=
  h.shake256 (LEAF_TAG :: hashBytes kh ++ leBytes 8 value.length ++ value)

def nodeHash (left right : Bytes32) : Bytes32 :=
  h.shake256 (NODE_TAG :: hashBytes left ++ hashBytes right)

def bitAt (kh : Bytes32) (depth : ℕ) : Bool := kh.val.testBit (TREE_DEPTH - 1 - depth)

/-- The empty subtree of a height. -/
def emptyHash : ℕ → Bytes32
  | 0 => EMPTY_LEAF
  | level + 1 => nodeHash h (emptyHash level) (emptyHash level)

/-- The subtree of a height over leaves sorted by key, which its bit splits in two. -/
def subtreeHash : ℕ → List (Bytes32 × Bytes32) → Bytes32
  | level, [] => emptyHash h level
  | 0, leaf :: _ => leaf.2
  | level + 1, leaf :: rest =>
    let left := (leaf :: rest).takeWhile (fun e => !bitAt e.1 (TREE_DEPTH - (level + 1)))
    let right := (leaf :: rest).dropWhile (fun e => !bitAt e.1 (TREE_DEPTH - (level + 1)))
    nodeHash h (subtreeHash level left) (subtreeHash level right)

/-- Accepts an opening that leads back to the root. -/
def Proof.verify (root : Bytes32) (proof : Proof) : Bool :=
  let kh := keyHash h proof.key
  let leaf := match proof.value with
    | some v => leafHash h kh v
    | none => EMPTY_LEAF
  proof.siblings.length = TREE_DEPTH ∧
    proof.siblings.zipIdx.foldr (fun sib cur =>
      if bitAt kh sib.2 then nodeHash h sib.1 cur else nodeHash h cur sib.1) leaf = root

end

namespace SparseMerkleTree

def new : SparseMerkleTree := ⟨.empty⟩

def insert (t : SparseMerkleTree) (key value : Bytes) : SparseMerkleTree := ⟨t.map.insert key value⟩

variable (h : Hashes)

def entries (t : SparseMerkleTree) : List (Bytes32 × Bytes32) :=
  (t.map.entries.map (fun e => (keyHash h e.1, leafHash h (keyHash h e.1) e.2))).mergeSort
    (fun a b => a.1 ≤ b.1)

def root (t : SparseMerkleTree) : Bytes32 := subtreeHash h TREE_DEPTH (t.entries h)

end SparseMerkleTree

end BlochPos.Ustav
