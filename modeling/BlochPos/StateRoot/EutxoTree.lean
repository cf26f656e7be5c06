import BlochPos.StateRoot.Smt
import BlochPos.Transition.Eutxo

/-! The set of unspent outputs with the subtree of its leaves beside it. -/
namespace BlochPos

open SortedMap

namespace StateRoot

def MARK_KEY : UInt8 := 0x03
def MARK_VALUE : UInt8 := 0x04
def TAG_EUTXO : UInt8 := 0x01

def deriveKey (c : Crypto) (componentTag : UInt8) (entryKey : Bytes) : Bytes32 :=
  c.sha3 (DS_STATE ++ [MARK_KEY] ++ [componentTag] ++ entryKey)

def hashValue (c : Crypto) (serialized : Bytes) : Bytes32 :=
  c.sha3 (DS_STATE ++ [MARK_VALUE] ++ serialized)

end StateRoot

open StateRoot

def EutxoEntry.entryKey (e : EutxoEntry) : Bytes := hashBytes e.txid ++ leBytes 4 e.vout

def EutxoEntry.serialize (e : EutxoEntry) : Bytes :=
  hashBytes e.txid ++ leBytes 4 e.vout ++ leBytes 8 e.value ++ hashBytes e.scriptHash

def eutxoLeaf (c : Crypto) (e : EutxoEntry) : Bytes32 × Bytes32 :=
  (deriveKey c TAG_EUTXO e.entryKey, hashValue c e.serialize)

def eutxoLeaves (c : Crypto) (entries : SortedMap Outpoint EutxoEntry) : SortedMap Bytes32 Bytes32 :=
  entries.refile (fun e => (eutxoLeaf c e).1) (fun e => (eutxoLeaf c e).2)

/-- The whole set as the source keeps it. -/
structure KeptEutxoSet (c : Crypto) extends EutxoSet where
  tree : Smt (treeHash c)

namespace KeptEutxoSet

variable {c : Crypto}

def default (c : Crypto) : KeptEutxoSet c where
  byOutpoint := .empty
  byScript := .empty
  totalSat := 0
  tree := Smt.new (treeHash c)

def insert (s : KeptEutxoSet c) (e : EutxoEntry) : KeptEutxoSet c where
  toEutxoSet := s.toEutxoSet.insert e
  tree := s.tree.insert (eutxoLeaf c e).1 (eutxoLeaf c e).2

def remove (s : KeptEutxoSet c) (op : Outpoint) : KeptEutxoSet c where
  toEutxoSet := s.toEutxoSet.remove op
  tree := match s.byOutpoint.get? op with
    | none => s.tree
    | some e => s.tree.remove (eutxoLeaf c e).1

def fromIter (c : Crypto) (entries : List EutxoEntry) : KeptEutxoSet c where
  toEutxoSet := .ofList entries
  tree := Smt.fromLeafMap (treeHash c) (eutxoLeaves c (EutxoSet.ofList entries).byOutpoint)

theorem fromIter_nil : fromIter c [] = default c := rfl

/-- No two outputs among these share a leaf. -/
def LeavesApart (c : Crypto) (entries : List EutxoEntry) : Prop :=
  ∀ e ∈ entries, ∀ e' ∈ entries, (eutxoLeaf c e).1 = (eutxoLeaf c e').1 → e.outpoint = e'.outpoint

def leafKey (c : Crypto) (op : Outpoint) : Bytes32 :=
  deriveKey c TAG_EUTXO (hashBytes (ofLex op).1 ++ leBytes 4 (ofLex op).2)

/-- Index, total and tree follow the entries, all of them known. -/
structure InStep (s : KeptEutxoSet c) (known : List EutxoEntry) : Prop where
  derived : s.Derived
  known : ∀ {op e}, s.byOutpoint.get? op = some e → e ∈ known
  tree : s.tree = Smt.fromLeafMap (treeHash c) (eutxoLeaves c s.byOutpoint)

variable {s : KeptEutxoSet c} {known : List EutxoEntry} {m : SortedMap Outpoint EutxoEntry}

theorem files_of_known (apart : LeavesApart c known)
    (key : ∀ {op e}, m.get? op = some e → e.outpoint = op)
    (held : ∀ {op e}, m.get? op = some e → e ∈ known) :
    m.Files (fun e => (eutxoLeaf c e).1) (leafKey c) where
  key_eq found := by
    rw [← key found]
    rfl
  inj := by
    intro op op' e e' found found' same
    rw [← key found, ← key found'] at same ⊢
    exact apart e (held found) e' (held found') same

theorem InStep.insert (apart : LeavesApart c known) (step : s.InStep known)
    (member : e ∈ known) : (s.insert e).InStep known := by
  have derived := step.derived.insert e
  have held : ∀ {op e'}, (s.insert e).byOutpoint.get? op = some e' → e' ∈ known := by
    intro op e' found
    change (s.byOutpoint.insert e.outpoint e).get? op = some e' at found
    rw [get?_insert] at found
    split_ifs at found
    · exact Option.some.inj found ▸ member
    · exact step.known found
  refine ⟨derived, held, ?_⟩
  have grown : eutxoLeaves c (s.insert e).byOutpoint =
      (eutxoLeaves c s.byOutpoint).insert (eutxoLeaf c e).1 (eutxoLeaf c e).2 :=
    refile_insert (files_of_known apart step.derived.key step.known)
      (files_of_known apart derived.key held)
  rw [grown, ← Smt.insert_fromLeafMap, ← step.tree]
  rfl

theorem InStep.remove (apart : LeavesApart c known) (step : s.InStep known) (op : Outpoint) :
    (s.remove op).InStep known := by
  have files := files_of_known apart step.derived.key step.known
  refine ⟨step.derived.remove op, ?_, ?_⟩
  · intro op' e' found
    simp only [KeptEutxoSet.remove, EutxoSet.remove] at found
    cases held : s.byOutpoint.get? op with
    | none =>
      rw [held] at found
      exact step.known found
    | some e =>
      rw [held, get?_erase] at found
      split_ifs at found
      exact step.known found
  · simp only [KeptEutxoSet.remove, EutxoSet.remove]
    cases held : s.byOutpoint.get? op with
    | none => exact step.tree
    | some e =>
      have shrunk : eutxoLeaves c (s.byOutpoint.erase op) =
          (eutxoLeaves c s.byOutpoint).erase (eutxoLeaf c e).1 := refile_erase files held
      dsimp only
      rw [shrunk, ← Smt.remove_fromLeafMap, ← step.tree]

theorem mem_of_ofList (entries : List EutxoEntry)
    (found : (EutxoSet.ofList entries).byOutpoint.get? op = some e) : e ∈ entries := by
  obtain ⟨_, member, same⟩ := List.mem_map.mp (mem_of_get?_ofList found)
  cases same
  exact member

theorem inStep_fromIter {entries : List EutxoEntry} (among : ∀ e ∈ entries, e ∈ known) :
    (fromIter c entries).InStep known :=
  ⟨EutxoSet.ofList_derived entries, fun found => among _ (mem_of_ofList entries found), rfl⟩

inductive Update where
  | insert (e : EutxoEntry)
  | remove (op : Outpoint)
deriving DecidableEq

def Update.apply (s : KeptEutxoSet c) : Update → KeptEutxoSet c
  | .insert e => s.insert e
  | .remove op => s.remove op

def inserted (updates : List Update) : List EutxoEntry :=
  updates.filterMap (fun
    | .insert e => some e
    | .remove _ => none)

theorem InStep.run (apart : LeavesApart c known) (step : s.InStep known)
    (among : ∀ e ∈ inserted updates, e ∈ known) : (updates.foldl Update.apply s).InStep known := by
  induction updates generalizing s with
  | nil => exact step
  | cons u rest ih =>
    cases u with
    | insert e =>
      refine ih (step.insert apart (among e (by simp [inserted]))) ?_
      exact fun e' member => among e' (by simp [inserted] at member ⊢; exact .inr member)
    | remove op => exact ih (step.remove apart op) among

/-- From an empty or bulk-loaded set, after any inserts and removals the index lists for a script exactly
the outputs locked to it, the total is the sum of the values, and the tree is the one built in bulk. -/
theorem eutxo_parts_stay_derived (c : Crypto) (initial : List EutxoEntry) (updates : List Update)
    (apart : LeavesApart c (initial ++ inserted updates)) :
    let s := updates.foldl Update.apply (fromIter c initial)
    (initial = [] → s = updates.foldl Update.apply (default c)) ∧
      (∀ script op, op ∈ s.byScript.getD script ∅ ↔
        ∃ e, s.byOutpoint.get? op = some e ∧ e.scriptHash = script) ∧
      (∀ script, s.byScript.get? script ≠ some ∅) ∧
      s.totalSat = s.byOutpoint.sum (fun _ e => e.value) ∧
      s.tree.root = (Smt.fromLeafMap (treeHash c) (eutxoLeaves c s.byOutpoint)).root := by
  intro s
  have start : (fromIter c initial).InStep (initial ++ inserted updates) :=
    inStep_fromIter (fun e member => List.mem_append_left _ member)
  have kept : s.InStep (initial ++ inserted updates) :=
    start.run apart (fun e member => List.mem_append_right _ member)
  refine ⟨?_, kept.derived.script, kept.derived.nonempty, kept.derived.total, ?_⟩
  · rintro rfl
    rw [← fromIter_nil]
  · rw [kept.tree]

/-- A hash that keeps the last bytes of an output's key. -/
def tailCrypto : Crypto where
  sha3 b := toHash (b.drop 50)
  keccak _ := 0
  shake256 _ _ := 0

/-- An output written twice under different scripts, another spent, a third spent without being
there. -/
def overwriteHistory : List Update :=
  [.insert ⟨1, 0, 5, 9⟩, .insert ⟨1, 0, 7, 8⟩, .insert ⟨1, 1, 2, 8⟩, .remove (outpoint 1 1),
    .remove (outpoint 3 3)]

theorem overwritten_output_in_step :
    LeavesApart tailCrypto ([] ++ inserted overwriteHistory) ∧
      (overwriteHistory.foldl Update.apply (default tailCrypto)).totalSat = 7 ∧
      (overwriteHistory.foldl Update.apply (default tailCrypto)).tree.root =
        (Smt.fromLeafMap (treeHash tailCrypto) (eutxoLeaves tailCrypto
          (overwriteHistory.foldl Update.apply (default tailCrypto)).byOutpoint)).root := by
  have apart : LeavesApart tailCrypto ([] ++ inserted overwriteHistory) := by
    unfold LeavesApart
    decide +kernel
  obtain ⟨start, _, _, total, tree⟩ := eutxo_parts_stay_derived tailCrypto [] overwriteHistory apart
  rw [start rfl] at total tree
  exact ⟨apart, total.trans (by decide +kernel), tree⟩

end KeptEutxoSet

end BlochPos
