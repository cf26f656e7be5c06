import BlochPos.Lib.Exchange
import BlochPos.Transition.Types

/-! The set of unspent outputs, with an index by script and a running total
that are kept in step with the entries. -/
namespace BlochPos

open SortedMap

abbrev Outpoint := Bytes32 ×ₗ ℕ

def outpoint (txid : Bytes32) (vout : ℕ) : Outpoint := toLex (txid, vout)

structure EutxoEntry where
  txid : Bytes32
  (vout value : ℕ)
  scriptHash : Bytes32
deriving DecidableEq

def EutxoEntry.outpoint (e : EutxoEntry) : Outpoint := BlochPos.outpoint e.txid e.vout

/-- The coins, their index by script, and their total. -/
structure EutxoSet where
  byOutpoint : SortedMap Outpoint EutxoEntry
  byScript : SortedMap Bytes32 (Finset Outpoint)
  totalSat : ℕ
deriving DecidableEq

namespace EutxoSet

def unlink (index : SortedMap Bytes32 (Finset Outpoint)) (script : Bytes32) (op : Outpoint) :
    SortedMap Bytes32 (Finset Outpoint) :=
  match index.get? script with
  | none => index
  | some set => if set.erase op = ∅ then index.erase script else index.insert script (set.erase op)

def link (index : SortedMap Bytes32 (Finset Outpoint)) (script : Bytes32) (op : Outpoint) :
    SortedMap Bytes32 (Finset Outpoint) :=
  index.insert script (insert op (index.getD script ∅))

def insert (s : EutxoSet) (e : EutxoEntry) : EutxoSet :=
  let replaced := s.byOutpoint.get? e.outpoint
  let index := match replaced with
    | some old => if old.scriptHash ≠ e.scriptHash then unlink s.byScript old.scriptHash e.outpoint
        else s.byScript
    | none => s.byScript
  { byOutpoint := s.byOutpoint.insert e.outpoint e
    byScript := link index e.scriptHash e.outpoint
    totalSat := s.totalSat - replaced.elim 0 EutxoEntry.value + e.value }

def remove (s : EutxoSet) (op : Outpoint) : EutxoSet :=
  match s.byOutpoint.get? op with
  | none => s
  | some e =>
    { byOutpoint := s.byOutpoint.erase op
      byScript := unlink s.byScript e.scriptHash op
      totalSat := s.totalSat - e.value }

def ofList (entries : List EutxoEntry) : EutxoSet :=
  let byOutpoint := SortedMap.ofList (entries.map (fun e => (e.outpoint, e)))
  { byOutpoint
    byScript := byOutpoint.values.foldl (fun index e => link index e.scriptHash e.outpoint) .empty
    totalSat := byOutpoint.sum (fun _ e => e.value) }

def scriptLen (s : EutxoSet) (script : Bytes32) : ℕ := ((s.byScript.get? script).map Finset.card).getD 0

/-- The index and the total say what the entries say. -/
structure Derived (s : EutxoSet) : Prop where
  key : ∀ {op e}, s.byOutpoint.get? op = some e → e.outpoint = op
  total : s.totalSat = s.byOutpoint.sum (fun _ e => e.value)
  script : ∀ script op, op ∈ s.byScript.getD script ∅ ↔
    ∃ e, s.byOutpoint.get? op = some e ∧ e.scriptHash = script
  nonempty : ∀ script, s.byScript.get? script ≠ some ∅

section

variable {s : EutxoSet}

theorem mem_link (script script' : Bytes32) (op op' : Outpoint) :
    op' ∈ (link index script op).getD script' ∅ ↔
      (op' = op ∧ script' = script) ∨ op' ∈ index.getD script' ∅ := by
  rw [link, getD, get?_insert]
  by_cases same : script' = script
  · subst same
    simp
  · simp [same, getD]

theorem mem_unlink (script script' : Bytes32) (op op' : Outpoint) :
    op' ∈ (unlink index script op).getD script' ∅ ↔
      op' ∈ index.getD script' ∅ ∧ ¬ (op' = op ∧ script' = script) := by
  rw [unlink]
  cases found : index.get? script with
  | none =>
    refine ⟨fun member => ⟨member, ?_⟩, And.left⟩
    rintro ⟨-, rfl⟩
    simp [getD, found] at member
  | some set =>
    by_cases same : script' = script
    · subst same
      have held : index.getD script' ∅ = set := getD_eq_of_get? found
      simp only [held, and_true]
      split_ifs with vanished
      · have only : op' ∈ set.erase op ↔ False := by simp [vanished]
        simpa [getD, get?_erase, and_comm] using only
      · simp [getD, and_comm]
    · dsimp only
      split_ifs <;> simp [getD, get?_erase, get?_insert, same]

theorem link_nonempty (kept : ∀ script, index.get? script ≠ some ∅) (script script' : Bytes32)
    (op : Outpoint) : (link index script op).get? script' ≠ some ∅ := by
  rw [link, get?_insert]
  split_ifs
  · simp
  · exact kept script'

theorem unlink_nonempty (kept : ∀ script, index.get? script ≠ some ∅) (script script' : Bytes32)
    (op : Outpoint) : (unlink index script op).get? script' ≠ some ∅ := by
  rw [unlink]
  cases index.get? script with
  | none => exact kept script'
  | some set =>
    dsimp only
    split_ifs with vanished
    · rw [get?_erase]
      split_ifs
      · simp
      · exact kept script'
    · rw [get?_insert]
      split_ifs
      · simpa using vanished
      · exact kept script'

theorem Derived.value_le (d : s.Derived) (op : Outpoint) :
    (s.byOutpoint.get? op).elim 0 EutxoEntry.value ≤ s.totalSat := by
  rw [d.total, s.byOutpoint.sum_erase op]
  exact Nat.le_add_right _ _

/-- Index and total stay those of the coins. -/
theorem Derived.insert (d : s.Derived) (e : EutxoEntry) : (s.insert e).Derived := by
  refine ⟨?_, ?_, ?_, ?_⟩
  · intro op held found
    rw [EutxoSet.insert, get?_insert] at found
    split_ifs at found with same
    · rw [← Option.some.inj found, same]
    · exact d.key found
  · have room := d.value_le e.outpoint
    have split := s.byOutpoint.sum_erase e.outpoint (fun _ e => e.value)
    simp only [EutxoSet.insert, sum_insert]
    rw [d.total] at room ⊢
    cases found : s.byOutpoint.get? e.outpoint <;> simp only [found, Option.elim] at room split ⊢ <;>
      omega
  · intro script op
    simp only [EutxoSet.insert, mem_link, get?_insert]
    by_cases same : op = e.outpoint
    · subst same
      cases found : s.byOutpoint.get? e.outpoint with
      | none =>
        have absent : e.outpoint ∉ s.byScript.getD script ∅ := by simp [d.script, found]
        simp [absent, eq_comm]
      | some old =>
        have held : e.outpoint ∈ s.byScript.getD script ∅ ↔ old.scriptHash = script := by
          simp [d.script, found]
        by_cases moved : old.scriptHash = e.scriptHash
        · simp only [moved, ne_eq, not_true_eq_false, ↓reduceIte, held]
          simp [eq_comm]
        · simp only [ne_eq, moved, not_false_eq_true, ↓reduceIte, mem_unlink, held]
          simp only [true_and, Option.some.injEq, exists_eq_left']
          constructor
          · rintro (rfl | ⟨rfl, other⟩)
            · rfl
            · exact absurd rfl other
          · rintro rfl
            exact Or.inl rfl
    · simp only [same, false_and, false_or, ↓reduceIte, ← d.script]
      cases s.byOutpoint.get? e.outpoint with
      | none => rfl
      | some old =>
        dsimp only
        split_ifs
        · simp [mem_unlink, same]
        · rfl
  · intro script
    refine link_nonempty ?_ _ _ _
    intro script
    cases s.byOutpoint.get? e.outpoint with
    | none => exact d.nonempty script
    | some old =>
      dsimp only
      split_ifs
      · exact unlink_nonempty d.nonempty _ _ _
      · exact d.nonempty script

theorem Derived.remove (d : s.Derived) (op : Outpoint) : (s.remove op).Derived := by
  rw [EutxoSet.remove]
  cases found : s.byOutpoint.get? op with
  | none => exact d
  | some e =>
    refine ⟨?_, ?_, ?_, fun script => unlink_nonempty d.nonempty _ _ _⟩
    · intro op' held found'
      dsimp only at found'
      rw [get?_erase] at found'
      split_ifs at found'
      exact d.key found'
    · have split := s.byOutpoint.sum_erase op (fun _ e => e.value)
      have kept := d.total
      simp only [found, Option.elim] at split
      dsimp only
      omega
    · intro script op'
      simp only [mem_unlink, get?_erase, d.script]
      by_cases same : op' = op
      · subst same
        simp [found, eq_comm]
      · simp [same]

section

variable (entries : List EutxoEntry)
include entries

theorem key_foldl_insert : ∀ m : SortedMap Outpoint EutxoEntry,
    (∀ op e, m.get? op = some e → e.outpoint = op) → ∀ op e,
    ((entries.map (fun e => (e.outpoint, e))).foldl (fun m e => m.insert e.1 e.2) m).get? op = some e →
    e.outpoint = op := by
  induction entries with
  | nil => exact fun m start => start
  | cons x entries ih =>
    intro m start
    refine ih _ (fun op e found => ?_)
    dsimp only at found
    rw [get?_insert] at found
    split_ifs at found with same
    · rw [← Option.some.inj found, same]
    · exact start op e found

theorem mem_foldl_link (script : Bytes32) (op : Outpoint) :
    ∀ index : SortedMap Bytes32 (Finset Outpoint),
      op ∈ (entries.foldl (fun index e => link index e.scriptHash e.outpoint) index).getD script ∅ ↔
        (∃ e ∈ entries, e.outpoint = op ∧ e.scriptHash = script) ∨ op ∈ index.getD script ∅ := by
  induction entries with
  | nil => simp
  | cons x entries ih =>
    intro index
    rw [List.foldl_cons, ih, mem_link, List.exists_mem_cons_iff, @eq_comm _ op, @eq_comm _ script]
    rw [← or_assoc, or_comm (a := ∃ e ∈ entries, _)]

theorem foldl_link_nonempty :
    ∀ index : SortedMap Bytes32 (Finset Outpoint), (∀ script, index.get? script ≠ some ∅) → ∀ script,
      (entries.foldl (fun index e => link index e.scriptHash e.outpoint) index).get? script ≠ some ∅ := by
  induction entries with
  | nil => exact fun index start => start
  | cons x entries ih => exact fun index start => ih _ (fun script => link_nonempty start _ _ _)

theorem ofList_derived : (ofList entries).Derived := by
  have key := key_foldl_insert entries .empty (by simp)
  refine ⟨key _ _, rfl, ?_, foldl_link_nonempty _ _ (by simp)⟩
  intro script op
  have nowhere : op ∉ (SortedMap.empty : SortedMap Bytes32 (Finset Outpoint)).getD script ∅ :=
    Finset.notMem_empty op
  simp only [ofList, mem_foldl_link, mem_values_iff, nowhere, or_false]
  constructor
  · rintro ⟨e, ⟨op', found⟩, rfl, held⟩
    refine ⟨e, ?_, held⟩
    rwa [key op' e found]
  · rintro ⟨e, found, held⟩
    exact ⟨e, ⟨op, found⟩, key op e found, held⟩

end

end

end EutxoSet

/-- The set a state keeps. -/
structure Eutxos extends EutxoSet where
  derived : toEutxoSet.Derived
deriving DecidableEq

namespace Eutxos

variable {op : Outpoint} {spent : List Outpoint}

section

variable (s : Eutxos) (op : Outpoint)

def get? : Option EutxoEntry := s.byOutpoint.get? op

def contains : Bool := s.byOutpoint.contains op

def insert (e : EutxoEntry) : Eutxos := ⟨s.toEutxoSet.insert e, s.derived.insert e⟩

def remove : Eutxos := ⟨s.toEutxoSet.remove op, s.derived.remove op⟩

def ofList (entries : List EutxoEntry) : Eutxos := ⟨.ofList entries, EutxoSet.ofList_derived entries⟩

/-- Remove the spent outpoints, then add the new entries. -/
def exchange (spent : List Outpoint) (created : List EutxoEntry) : Eutxos :=
  created.foldl insert (spent.foldl remove s)

def valueAt : ℕ := (s.get? op).elim 0 EutxoEntry.value

end

variable {s : Eutxos} {created : List EutxoEntry}

theorem valueAt_of_get? (found : s.get? op = some e) : s.valueAt op = e.value := by simp [valueAt, found]

section

variable (spent : List Outpoint) (s : Eutxos)

theorem get?_insert (e : EutxoEntry) (op : Outpoint) :
    (s.insert e).get? op = if op = e.outpoint then some e else s.get? op :=
  SortedMap.get?_insert ..

theorem get?_remove (op op' : Outpoint) : (s.remove op).get? op' = if op' = op then none else s.get? op' := by
  simp only [get?, remove, EutxoSet.remove]
  cases found : s.byOutpoint.get? op with
  | none =>
    split_ifs with same
    · rw [same, found]
    · rfl
  | some e => exact get?_erase ..

theorem byOutpoint_remove (op : Outpoint) : (s.remove op).byOutpoint = s.byOutpoint.erase op := by
  refine ext_get? (fun op' => ?_)
  rw [get?_erase]
  exact s.get?_remove op op'

theorem byOutpoint_foldl_remove : (spent.foldl remove s).byOutpoint = spent.foldl erase s.byOutpoint :=
  (List.foldl_hom (fun s : Eutxos => s.byOutpoint) (fun s op => (s.byOutpoint_remove op).symm)).symm

theorem byOutpoint_exchange (spent : List Outpoint) (created : List EutxoEntry) :
    (s.exchange spent created).byOutpoint = s.byOutpoint.exchange spent
    (created.map (fun e => (e.outpoint, e))) := by
  rw [SortedMap.exchange, List.foldl_map, ← byOutpoint_foldl_remove]
  exact (List.foldl_hom (fun s : Eutxos => s.byOutpoint) (fun _ _ => rfl)).symm

theorem get?_foldl_remove (op : Outpoint) :
    (spent.foldl remove s).get? op = if op ∈ spent then none else s.get? op := by
  rw [get?, byOutpoint_foldl_remove, get?_foldl_erase]
  split_ifs <;> rfl

end

theorem get?_foldl_insert (found : (created.foldl insert s).get? op = some e) :
    (e ∈ created ∧ e.outpoint = op) ∨ s.get? op = some e := by
  induction created generalizing s with
  | nil => exact .inr found
  | cons first rest ih =>
    rcases ih found with ⟨member, same⟩ | there
    · exact .inl ⟨List.mem_cons_of_mem _ member, same⟩
    · rw [get?_insert] at there
      split_ifs at there with here
      · cases there
        exact .inl ⟨List.mem_cons_self, here.symm⟩
      · exact .inr there

theorem get?_foldl_insert_of_notMem (absent : op ∉ created.map EutxoEntry.outpoint) :
    (created.foldl insert s).get? op = s.get? op := by
  induction created generalizing s with
  | nil => rfl
  | cons first rest ih =>
    rw [List.map_cons, List.mem_cons, not_or] at absent
    rw [List.foldl_cons, ih absent.2, get?_insert, if_neg absent.1]

theorem get?_foldl_insert_of_nodup (distinct : (created.map EutxoEntry.outpoint).Nodup)
    (member : e ∈ created) : (created.foldl insert s).get? e.outpoint = some e := by
  induction created generalizing s with
  | nil => cases member
  | cons first rest ih =>
    rw [List.map_cons, List.nodup_cons] at distinct
    rcases List.mem_cons.mp member with rfl | later
    · rw [List.foldl_cons, get?_foldl_insert_of_notMem distinct.1, get?_insert, if_pos rfl]
    · exact ih distinct.2 later

theorem totalSat_insert_le (s : Eutxos) (e : EutxoEntry) : (s.insert e).totalSat ≤ s.totalSat + e.value := by
  change s.totalSat - _ + e.value ≤ _
  omega

theorem totalSat_foldl_remove (spent : List Outpoint) (s : Eutxos) (distinct : spent.Nodup) :
    (spent.foldl remove s).totalSat + (spent.map s.valueAt).sum = s.totalSat := by
  rw [(spent.foldl remove s).derived.total, s.derived.total, byOutpoint_foldl_remove, Nat.add_comm]
  exact (sum_foldl_erase _ distinct).symm

theorem totalSat_foldl_insert_le (created : List EutxoEntry) :
    ∀ s : Eutxos, (created.foldl insert s).totalSat ≤ s.totalSat + (created.map EutxoEntry.value).sum := by
  induction created with
  | nil => simp
  | cons e created ih =>
    intro s
    have tail := ih (s.insert e)
    have first := s.totalSat_insert_le e
    simp only [List.foldl_cons, List.map_cons, List.sum_cons]
    omega

theorem totalSat_exchange_le (s : Eutxos) (distinct : spent.Nodup)
    (created : List EutxoEntry) :
    (s.exchange spent created).totalSat + (spent.map s.valueAt).sum ≤
      s.totalSat + (created.map EutxoEntry.value).sum := by
  have removed := totalSat_foldl_remove spent s distinct
  have added := totalSat_foldl_insert_le created (spent.foldl remove s)
  rw [exchange]
  omega

theorem totalSat_insert_of_free (free : s.get? e.outpoint = none) :
    (s.insert e).totalSat = s.totalSat + e.value := by
  change s.totalSat - (s.get? e.outpoint).elim 0 EutxoEntry.value + e.value = _
  rw [free]
  rfl

theorem totalSat_exchange_of_free (distinct : spent.Nodup)
    (apart : (created.map EutxoEntry.outpoint).Nodup) (free : ∀ e ∈ created, s.get? e.outpoint = none) :
    (s.exchange spent created).totalSat + (spent.map s.valueAt).sum =
      s.totalSat + (created.map EutxoEntry.value).sum := by
  simp only [get?] at free
  have own : ((created.map (fun e => (e.outpoint, e))).map Prod.fst).Nodup := by
    simpa [Function.comp_def] using apart
  have traded := sum_exchange (m := s.byOutpoint) (fun _ e => e.value) distinct own (by simpa using free)
  rw [List.map_map] at traded
  rw [(s.exchange spent created).derived.total, s.derived.total, byOutpoint_exchange]
  exact traded

end Eutxos

end BlochPos
