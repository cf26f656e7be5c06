import BlochPos.Params
import BlochPos.Lib.SortedMap

/-! LMD-GHOST fork choice: the store of latest messages, the single-pass head and the reference head that
tests descent for every vote and child. Hash maps whose iteration order shows are association lists in an
arbitrary order. -/
namespace BlochPos.ForkChoice

structure LatestMessage where
  slot : ℕ
  root : Bytes32
deriving DecidableEq

/-- Child block to parent block, in the order the map happens to iterate. -/
abbrev BlockTree := AList (fun _ : Bytes32 => Bytes32)

abbrev Children := SortedMap Bytes32 (List Bytes32)

structure Store where
  latest : SortedMap ℕ LatestMessage
  stake : SortedMap ℕ ℕ
  equivocators : Finset ℕ

namespace Store

def new : Store := ⟨.empty, .empty, ∅⟩

def setStake (st : Store) (validator effectiveStake : ℕ) : Store :=
  { st with stake := st.stake.insert validator effectiveStake }

/-- Whether the message was taken, and the store after it. Two roots for one
slot bar the validator for good. -/
def observe (st : Store) (validator : ℕ) (msg : LatestMessage) : Bool × Store :=
  if validator ∈ st.equivocators then (false, st)
  else match st.latest.get? validator with
    | none => (true, { st with latest := st.latest.insert validator msg })
    | some prev =>
      if prev.slot = msg.slot ∧ prev.root ≠ msg.root then
        (false, { st with
          latest := st.latest.erase validator
          equivocators := insert validator st.equivocators })
      else if msg.slot ≤ prev.slot then (false, st)
      else (true, { st with latest := st.latest.insert validator msg })

def stakeOf (st : Store) (validator : ℕ) : ℕ := st.stake.getD validator 0

end Store

/-- The walk up gives up once it has made more steps than the tree has blocks. -/
def climb (tree : BlockTree) (ancestor : Bytes32) : ℕ → Bytes32 → Bool
  | 0, cur => cur = ancestor
  | budget + 1, cur =>
    if cur = ancestor then true
    else match tree.lookup cur with
      | some parent => climb tree ancestor budget parent
      | none => false

def isDescendantOrSelf (tree : BlockTree) (node ancestor : Bytes32) : Bool :=
  climb tree ancestor (tree.keys.length + 1) node

def Store.weight (st : Store) (tree : BlockTree) (root : Bytes32) : ℕ :=
  st.latest.sum (fun validator msg =>
    if isDescendantOrSelf tree msg.root root then st.stakeOf validator else 0)

section

variable (st : Store) (weight : Bytes32 → ℕ) (slots : Option (SortedMap Bytes32 ℕ))

/-- Weights so far, how many children each block still waits for, and the blocks that wait for none
(last in, first out). -/
structure Sweep where
  (weights pending : SortedMap Bytes32 ℕ)
  ready : List Bytes32

def directWeights (tree : BlockTree) : SortedMap Bytes32 ℕ :=
  let voted := st.latest.entries.foldl
    (fun weights vote => weights.addAt vote.2.root (st.stakeOf vote.1)) .empty
  tree.keys.foldl (fun weights id => if weights.contains id then weights else weights.insert id 0)
    voted

def pendingChildren (tree : BlockTree) : SortedMap Bytes32 ℕ :=
  tree.entries.foldl (fun pending edge => pending.addAt edge.2 1) .empty

def startSweep (tree : BlockTree) : Sweep where
  weights := directWeights st tree
  pending := pendingChildren tree
  ready := (tree.keys.filter (fun id => (pendingChildren tree).getD id 0 = 0)).reverse

/-- Take one block off the stack and add its weight to its parent, which
becomes ready with its last child. -/
def sweepOne (tree : BlockTree) (id : Bytes32) (rest : List Bytes32) (s : Sweep) : Sweep :=
  match tree.lookup id with
  | none => { s with ready := rest }
  | some parent =>
    let weights := s.weights.addAt parent (s.weights.getD id 0)
    match s.pending.get? parent with
    | none => { s with weights, ready := rest }
    | some n =>
      { weights
        pending := s.pending.insert parent (n - 1)
        ready := if n - 1 = 0 ∧ parent ∈ tree.keys then parent :: rest else rest }

def sweep (tree : BlockTree) : ℕ → Sweep → Sweep
  | 0, s => s
  | fuel + 1, s => match s.ready with
    | [] => s
    | id :: rest => sweep tree fuel (sweepOne tree id rest s)

/-- Each block is taken off the stack at most once, so the number of blocks is
enough fuel (`sweep_ready`). -/
def subtreeWeights (tree : BlockTree) : SortedMap Bytes32 ℕ :=
  (sweep tree tree.keys.length (startSweep st tree)).weights

/-- Does the child displace the best so far when their weights are equal? -/
def winsTie (child best : Bytes32) : Bool :=
  match slots with
  | none => best < child
  | some slots =>
    let childSlot := slots.getD child u64Max
    let bestSlot := slots.getD best u64Max
    childSlot < bestSlot ∨ (childSlot = bestSlot ∧ best < child)

def heavier (best : Bytes32 × ℕ) (child : Bytes32) : Bytes32 × ℕ :=
  let w := weight child
  if best.2 < w ∨ (w = best.2 ∧ winsTie slots child best.1 = true) then (child, w) else best

def bestChild (children : Children) (current : Bytes32) : Option Bytes32 :=
  match children.get? current with
  | some (first :: others) =>
    some (others.foldl (heavier weight slots) (first, weight first)).1
  | _ => none

end

def descend (weight : Bytes32 → ℕ) (slots : Option (SortedMap Bytes32 ℕ)) (children : Children) :
    ℕ → Bytes32 → Bytes32
  | 0, current => current
  | levels + 1, current => match bestChild weight slots children current with
    | none => current
    | some best => descend weight slots children levels best

section

variable (st : Store) (tree : BlockTree) (justified : Bytes32)

/-- Levels run from zero to the limit, both included. -/
def headInner (children : Children) (slots : Option (SortedMap Bytes32 ℕ)) : Bytes32 :=
  let weights := subtreeWeights st tree
  let limit := tree.keys.length + children.keys.length + 1
  descend (fun b => weights.getD b 0) slots children (limit + 1) justified

def head (children : Children) : Bytes32 :=
  headInner st tree justified children none

def headWithSlotTiebreak (children : Children) (slots : SortedMap Bytes32 ℕ) : Bytes32 :=
  headInner st tree justified children (some slots)

end

/-- The reference loop has no bound of its own: `none` when the fuel ends first. -/
def headReference (st : Store) (tree : BlockTree) (children : Children) : ℕ → Bytes32 → Option Bytes32
  | 0, _ => none
  | fuel + 1, current => match bestChild (st.weight tree) none children current with
    | none => some current
    | some best => headReference st tree children fuel best

end BlochPos.ForkChoice
