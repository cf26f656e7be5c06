import BlochPos.ForkChoice.Store
import BlochPos.Lib.Run

/-! What a store makes of the messages it hears, in whatever order they come. -/
namespace BlochPos.ForkChoice

open List

def said (v : ℕ) (messages : List (ℕ × LatestMessage)) : List LatestMessage :=
  (messages.filter (fun m => m.1 = v)).map Prod.snd

/-- No two of the messages name different roots for one slot. -/
def Consistent (heard : List LatestMessage) : Prop := ∀ m ∈ heard, ∀ m' ∈ heard, m.slot = m'.slot → m.root = m'.root

/-- A message heard that no other is later than. -/
def Newest (heard : List LatestMessage) (m : LatestMessage) : Prop := m ∈ heard ∧ ∀ m' ∈ heard, m'.slot ≤ m.slot

def observeAll (st : Store) (messages : List (ℕ × LatestMessage)) : Store :=
  messages.foldl (fun st m => (st.observe m.1 m.2).2) st

variable {st : Store} {v : ℕ} {msg : LatestMessage}

/-- What the store holds of a validator tells of the messages heard of it. -/
structure Tells (v : ℕ) (heard : List LatestMessage) (st : Store) : Prop where
  barred : v ∈ st.equivocators → st.latest.get? v = none ∧ ¬ Consistent heard
  newest : ∀ m, st.latest.get? v = some m → Newest heard m
  silent : v ∉ st.equivocators → st.latest.get? v = none → heard = []

theorem Tells.other (tells : Tells v heard st) (other : v ≠ u) : Tells v heard (st.observe u msg).2 := by
  have latest : (st.observe u msg).2.latest.get? v = st.latest.get? v ∧
      (v ∈ (st.observe u msg).2.equivocators ↔ v ∈ st.equivocators) := by
    unfold Store.observe
    split_ifs
    · exact ⟨rfl, .rfl⟩
    · split
      · exact ⟨SortedMap.get?_insert_of_ne _ _ other, .rfl⟩
      · split_ifs <;> simp [SortedMap.get?_erase, SortedMap.get?_insert, other]
  constructor
  all_goals rw [latest.1]
  · exact fun barred => tells.barred (latest.2.mp barred)
  · exact tells.newest
  · exact fun free => tells.silent (fun barred => free (latest.2.mpr barred))

theorem Tells.own (tells : Tells v heard st) : Tells v (heard ++ [msg]) (st.observe v msg).2 := by
  unfold Store.observe
  by_cases barred : v ∈ st.equivocators
  · rw [if_pos barred]
    obtain ⟨none, clash⟩ := tells.barred barred
    refine ⟨fun _ => ⟨none, fun all => clash ?_⟩, fun m found => ?_, fun free => absurd barred free⟩
    · exact fun m among m' among' => all m (mem_append_left _ among) m' (mem_append_left _ among')
    · cases none.symm.trans found
  rw [if_neg barred]
  -- what is stored is the message itself, or the one before it if that is not older
  have stores (kept : LatestMessage) (among : kept ∈ heard ++ [msg]) (above : ∀ m ∈ heard, m.slot ≤ kept.slot)
      (late : msg.slot ≤ kept.slot) {s : Store} (latest : s.latest.get? v = some kept)
      (same : s.equivocators = st.equivocators) : Tells v (heard ++ [msg]) s := by
    refine ⟨fun is => absurd (same ▸ is) barred, fun m found => ?_, fun _ none => ?_⟩
    · cases latest.symm.trans found
      exact ⟨among, fun m' there => (mem_append.mp there).elim (above m') (fun own => mem_singleton.mp own ▸ late)⟩
    · cases latest.symm.trans none
  cases known : st.latest.get? v with
  | none =>
    refine stores msg (by simp) ?_ le_rfl (SortedMap.get?_insert_self ..) rfl
    simp [tells.silent barred known]
  | some prev =>
    obtain ⟨among, above⟩ := tells.newest prev known
    dsimp only
    split_ifs with clash late
    · refine ⟨fun _ => ⟨by simp [SortedMap.get?_erase], fun all => clash.2 ?_⟩, fun m found => ?_, fun free => ?_⟩
      · exact all prev (mem_append_left _ among) msg (by simp) clash.1
      · simp [SortedMap.get?_erase] at found
      · simp at free
    · exact stores prev (mem_append_left _ among) above late known rfl
    · exact stores msg (by simp) (fun m there => (above m there).trans (by omega)) le_rfl
        (SortedMap.get?_insert_self ..) rfl

theorem tells_observeAll (stake : SortedMap ℕ ℕ) (messages : List (ℕ × LatestMessage)) (v : ℕ) :
    Tells v (said v messages) (observeAll ⟨.empty, stake, ∅⟩ messages) := by
  induction messages using List.reverseRecOn with
  | nil => exact ⟨fun is => absurd is (Finset.notMem_empty v), fun m found => (by cases found), fun _ _ => rfl⟩
  | append_singleton before m ih =>
    rw [observeAll, foldl_append, foldl_cons, foldl_nil, ← observeAll, said, filter_append, map_append]
    by_cases own : m.1 = v
    · subst own
      simpa [said] using ih.own
    · simpa [said, own] using ih.other (Ne.symm own)

theorem Tells.latest_iff (tells : Tells v heard st) (consistent : Consistent heard) (m : LatestMessage) :
    v ∉ st.equivocators ∧ (st.latest.get? v = some m ↔ Newest heard m) := by
  have free : v ∉ st.equivocators := fun barred => (tells.barred barred).2 consistent
  refine ⟨free, tells.newest m, fun newest => ?_⟩
  cases latest : st.latest.get? v with
  | none => simp [Newest, tells.silent free latest] at newest
  | some p =>
    obtain ⟨among, above⟩ := tells.newest p latest
    have slot : p.slot = m.slot := le_antisymm (newest.2 p among) (above m newest.1)
    have root := consistent p among m newest.1 slot
    cases p
    cases m
    simp_all

theorem stake_observeAll (st : Store) (messages : List (ℕ × LatestMessage)) :
    (observeAll st messages).stake = st.stake := by
  refine List.foldl_leaves Store.stake (fun s m => ?_) messages st
  rw [Store.observe]
  split_ifs
  · rfl
  · split <;> [rfl; split_ifs <;> rfl]

/-- Only a validator that named two roots for one slot is barred, and none of its votes is kept. Of any
other the newest message is, whatever came before or between. So where nobody contradicts itself, all
orders of the messages lead to one store. -/
theorem store_follows_messages (stake : SortedMap ℕ ℕ) (messages : List (ℕ × LatestMessage)) :
    let heard := observeAll ⟨.empty, stake, ∅⟩
    (∀ v ∈ (heard messages).equivocators, (heard messages).latest.get? v = none ∧ ¬ Consistent (said v messages)) ∧
    (∀ v, Consistent (said v messages) → ∀ m, (heard messages).latest.get? v = some m ↔ Newest (said v messages) m) ∧
    ((∀ v, Consistent (said v messages)) → ∀ messages', messages'.Perm messages →
      heard messages' = heard messages) := by
  intro heard
  have tells := tells_observeAll stake
  refine ⟨fun v => (tells messages v).barred, fun v consistent m => ((tells messages v).latest_iff consistent m).2,
    fun all messages' perm => ?_⟩
  have members v m : m ∈ said v messages' ↔ m ∈ said v messages := ((perm.filter _).map _).mem_iff
  have all' v : Consistent (said v messages') := by
    simp only [Consistent, members]
    exact all v
  have latest : (heard messages').latest = (heard messages).latest := by
    refine SortedMap.ext_get? (fun v => Option.ext fun m => ?_)
    rw [((tells messages' v).latest_iff (all' v) m).2, ((tells messages v).latest_iff (all v) m).2]
    simp only [Newest, members]
  have free : (heard messages').equivocators = (heard messages).equivocators := by
    ext v
    exact iff_of_false ((tells messages' v).latest_iff (all' v) ⟨0, 0⟩).1
      ((tells messages v).latest_iff (all v) ⟨0, 0⟩).1
  have stakes := (stake_observeAll _ messages').trans (stake_observeAll ⟨.empty, stake, ∅⟩ messages).symm
  change (heard messages').stake = (heard messages).stake at stakes
  generalize heard messages' = a, heard messages = b at latest free stakes
  cases a
  cases b
  simp_all

end BlochPos.ForkChoice
