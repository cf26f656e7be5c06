import BlochPos.Lib.Run
import BlochPos.Transition.State

/-! What a block's votes make of the fork-choice part of a state, once recent votes are retained. -/
namespace BlochPos

open SortedMap

open ForkChoice

/-- The fork-choice part of a state. -/
@[ext] structure Fork where
  latestMessages : SortedMap ℕ LatestMessage
  fcEquivocators : Finset ℕ
  fcRecentVotes : SortedMap ℕ (SortedMap ℕ Bytes32)

def CommittedState.fork (st : CommittedState) : Fork where
  latestMessages := st.latestMessages
  fcEquivocators := st.fcEquivocators
  fcRecentVotes := st.fcRecentVotes

def CommittedState.FcAccum.fork (a : CommittedState.FcAccum) : Fork where
  latestMessages := a.latestMessages
  fcEquivocators := a.fcEquivocators
  fcRecentVotes := a.fcRecentVotes

abbrev VoteSet := ℕ → LatestMessage → Prop

def Attestation.message (att : Attestation) : LatestMessage := ⟨att.data.slot, att.data.head⟩

def votesOf (attestations : List Attestation) : VoteSet :=
  fun v m => ∃ att ∈ attestations, att.validator = v ∧ att.message = m

theorem votesOf_append (first second : List Attestation) :
    votesOf (first ++ second) = fun v m => votesOf first v m ∨ votesOf second v m := by
  funext v m
  simp only [votesOf, List.mem_append, or_and_right, exists_or]

theorem votesOf_singleton (att : Attestation) :
    votesOf [att] = fun v m => v = att.validator ∧ m = att.message := by
  funext v m
  simp only [votesOf, List.mem_singleton, exists_eq_left, eq_iff_iff]
  exact and_congr eq_comm eq_comm

/-- Two roots for one slot. -/
def ForkChoice.LatestMessage.Clash (m m' : LatestMessage) : Prop := m.slot = m'.slot ∧ m.root ≠ m'.root

theorem ForkChoice.LatestMessage.Clash.symm {m m' : LatestMessage} (clash : m.Clash m') : m'.Clash m :=
  ⟨clash.1.symm, clash.2.symm⟩

namespace Fork

section

variable (f : Fork) (V : VoteSet) (v : ℕ)

def Retains (m : LatestMessage) : Prop :=
  (f.fcRecentVotes.getD v .empty).get? m.slot = some m.root

/-- A vote against one on record or another of the same set. -/
def Conflict : Prop :=
  ∃ m m', (f.Retains v m ∨ V v m) ∧ V v m' ∧ m.Clash m'

/-- What may become the latest message of a validator. -/
def Candidate (m : LatestMessage) : Prop :=
  f.latestMessages.get? v = some m ∨ V v m

def Latest : Option LatestMessage → Prop
  | none => ∀ m, ¬ f.Candidate V v m
  | some m => f.Candidate V v m ∧ ∀ m', f.Candidate V v m' → m'.slot ≤ m.slot

end

/-- The barred hold nothing, and the latest are on record. -/
structure Sound (f : Fork) (epoch : ℕ) : Prop where
  barred : ∀ {v}, v ∈ f.fcEquivocators → f.latestMessages.get? v = none ∧ f.fcRecentVotes.get? v = none
  kept : ∀ {v m}, f.latestMessages.get? v = some m → epochOf m.slot = epoch → f.Retains v m

/-- The fork-choice part after a set of votes: a validator is barred if it was or
its votes conflict; otherwise its messages are folded in and, from a slot on, on
record. -/
structure Takes (f : Fork) (V : VoteSet) (floor : ℕ) (f' : Fork) : Prop where
  barred : ∀ v, v ∈ f'.fcEquivocators ↔ v ∈ f.fcEquivocators ∨ f.Conflict V v
  gone : ∀ {v}, v ∈ f'.fcEquivocators → f'.latestMessages.get? v = none ∧ f'.fcRecentVotes.get? v = none
  latest : ∀ {v}, v ∉ f'.fcEquivocators → f.Latest V v (f'.latestMessages.get? v)
  record : ∀ {v}, v ∉ f'.fcEquivocators → ∀ m, f'.Retains v m ↔ floor ≤ m.slot ∧ (f.Retains v m ∨ V v m)

section

variable {f f' : Fork} {v : ℕ}

theorem Retains.root_eq (first : f.Retains v m) (second : f.Retains v m') (slot : m.slot = m'.slot) :
    m.root = m'.root := by
  rw [Retains, slot] at first
  exact Option.some.inj (first.symm.trans second)

theorem takes_none (sound : f.Sound epoch) : f.Takes (fun _ _ => False) 0 f where
  barred v := by simp [Conflict]
  gone := sound.barred
  latest {v} _ := by
    cases found : f.latestMessages.get? v with
    | none => simp [Latest, Candidate, found]
    | some m => simp [Latest, Candidate, found]
  record _ m := by simp

theorem Candidate.root_eq (sound : f.Sound epoch) (inEpoch : ∀ m, V v m → epochOf m.slot = epoch)
    (free : ¬ f.Conflict V v) (first : f.Candidate V v m) (second : f.Candidate V v m')
    (slot : m.slot = m'.slot) : m.root = m'.root := by
  by_contra differ
  rcases first with committed | voted <;> rcases second with committed' | voted'
  · rw [committed] at committed'
    cases committed'
    exact differ rfl
  · have retained := sound.kept committed (slot ▸ inEpoch m' voted')
    exact free ⟨m, m', .inl retained, voted', slot, differ⟩
  · have retained := sound.kept committed' (slot ▸ inEpoch m voted)
    exact free ⟨m', m, .inl retained, voted, slot.symm, Ne.symm differ⟩
  · exact free ⟨m, m', .inr voted, voted', slot, differ⟩

theorem Latest.unique (sound : f.Sound epoch) (inEpoch : ∀ m, V v m → epochOf m.slot = epoch)
    (free : ¬ f.Conflict V v) (first : f.Latest V v o)
    (second : f.Latest V v o') : o = o' := by
  cases o with
  | none =>
    cases o' with
    | none => rfl
    | some m' => exact absurd second.1 (first m')
  | some m =>
    cases o' with
    | none => exact absurd first.1 (second m)
    | some m' =>
      have slot : m.slot = m'.slot := le_antisymm (second.2 m first.1) (first.2 m' second.1)
      have root := Candidate.root_eq sound inEpoch free first.1 second.1 slot
      cases m
      cases m'
      cases slot
      cases root
      rfl

/-- The outcome is determined by the votes and the slot the record reaches back to. -/
theorem Takes.unique (sound : f.Sound epoch) (inEpoch : ∀ v m, V v m → epochOf m.slot = epoch)
    (first : f.Takes V floor f') (second : f.Takes V floor f'')
    (trimmed : ∀ v votes, f'.fcRecentVotes.get? v = some votes → votes ≠ .empty)
    (trimmed' : ∀ v votes, f''.fcRecentVotes.get? v = some votes → votes ≠ .empty) : f' = f'' := by
  have barred : f'.fcEquivocators = f''.fcEquivocators := by
    ext v
    rw [first.barred, second.barred]
  apply Fork.ext
  · apply ext_get?
    intro v
    by_cases out : v ∈ f'.fcEquivocators
    · rw [(first.gone out).1, (second.gone (barred ▸ out)).1]
    · have free : ¬ f.Conflict V v := fun conflict => out ((first.barred v).mpr (.inr conflict))
      exact (first.latest out).unique sound (inEpoch v) free (second.latest (barred ▸ out))
  · exact barred
  · apply ext_get?
    intro v
    by_cases out : v ∈ f'.fcEquivocators
    · rw [(first.gone out).2, (second.gone (barred ▸ out)).2]
    · have same : f'.fcRecentVotes.getD v .empty = f''.fcRecentVotes.getD v .empty := by
        apply ext_get?
        intro slot
        ext root
        have here := (first.record out ⟨slot, root⟩).trans (second.record (barred ▸ out) ⟨slot, root⟩).symm
        exact here
      cases found : f'.fcRecentVotes.get? v with
      | none =>
        cases found' : f''.fcRecentVotes.get? v with
        | none => rfl
        | some votes =>
          simp only [getD, found, found', Option.getD_none, Option.getD_some] at same
          exact absurd same.symm (trimmed' v votes found')
      | some votes =>
        cases found' : f''.fcRecentVotes.get? v with
        | none =>
          simp only [getD, found, found', Option.getD_none, Option.getD_some] at same
          exact absurd same (trimmed v votes found)
        | some votes' =>
          simp only [getD, found, found', Option.getD_some] at same
          rw [same]

theorem Takes.sound (sound : f.Sound epoch) (taken : f.Takes V floor f')
    (reach : ∀ m : LatestMessage, epochOf m.slot = epoch → floor ≤ m.slot) : f'.Sound epoch where
  barred := taken.gone
  kept {v m} found inEpoch := by
    by_cases out : v ∈ f'.fcEquivocators
    · simp [(taken.gone out).1] at found
    · have latest := taken.latest out
      rw [found] at latest
      apply (taken.record out m).mpr
      refine ⟨reach m inEpoch, ?_⟩
      rcases latest.1 with committed | voted
      · exact .inl (sound.kept committed inEpoch)
      · exact .inr voted

theorem Takes.trans (first : f.Takes V floor f') (second : f'.Takes W floor' f'') (rising : floor ≤ floor')
    (covered : ∀ v m, W v m → floor ≤ m.slot) : f.Takes (fun v m => V v m ∨ W v m) floor' f'' := by
  have still {v : ℕ} (free : v ∉ f''.fcEquivocators) : v ∉ f'.fcEquivocators :=
    fun out => free ((second.barred v).mpr (.inl out))
  constructor
  · intro v
    rw [second.barred, first.barred]
    by_cases out : v ∈ f'.fcEquivocators
    · have before := (first.barred v).mp out
      constructor
      · rintro -
        rcases before with already | ⟨m, m', held, voted, clash⟩
        · exact .inl already
        · exact .inr ⟨m, m', held.imp_right .inl, .inl voted, clash⟩
      · exact fun _ => .inl before
    · have retained {m : LatestMessage} (reached : floor ≤ m.slot) (held : f.Retains v m ∨ V v m) :
          f'.Retains v m := (first.record out m).mpr ⟨reached, held⟩
      have free : ¬ (v ∈ f.fcEquivocators ∨ f.Conflict V v) := fun barred => out ((first.barred v).mpr barred)
      constructor
      · rintro (before | ⟨m, m', held, voted, clash⟩)
        · exact absurd before free
        · refine .inr ⟨m, m', ?_, .inr voted, clash⟩
          rcases held with held | later
          · exact ((first.record out m).mp held).2.imp_right .inl
          · exact .inr (.inr later)
      · rintro (already | ⟨m, m', held, voted, clash⟩)
        · exact absurd (.inl already) free
        · right
          rcases voted with early | late
          · -- The later of the two votes must be the other one.
            rcases held with held | held | late
            · exact absurd (.inr ⟨m, m', .inl held, early, clash⟩) free
            · exact absurd (.inr ⟨m, m', .inr held, early, clash⟩) free
            · have reached : floor ≤ m'.slot := clash.1 ▸ covered v m late
              exact ⟨m', m, .inl (retained reached (.inr early)), late, clash.symm⟩
          · have reached : floor ≤ m.slot := clash.1 ▸ covered v m' late
            rcases held with held | held | held
            · exact ⟨m, m', .inl (retained reached (.inl held)), late, clash⟩
            · exact ⟨m, m', .inl (retained reached (.inr held)), late, clash⟩
            · exact ⟨m, m', .inr held, late, clash⟩
  · exact second.gone
  · intro v free
    have before := first.latest (still free)
    have after := second.latest free
    cases found : f''.latestMessages.get? v with
    | none =>
      rw [found] at after
      intro m candidate
      have idle : f'.latestMessages.get? v = none := by
        apply Option.eq_none_iff_forall_ne_some.mpr
        intro m committed
        exact after m (.inl committed)
      rw [idle] at before
      rcases candidate with committed | early | late
      · exact before m (.inl committed)
      · exact before m (.inr early)
      · exact after m (.inr late)
    | some m =>
      rw [found] at after
      constructor
      · rcases after.1 with committed | late
        · rw [committed] at before
          exact before.1.imp_right .inl
        · exact .inr (.inr late)
      · intro m' candidate
        have early (candidate : f.Candidate V v m') : m'.slot ≤ m.slot := by
          cases middle : f'.latestMessages.get? v with
          | none =>
            rw [middle] at before
            exact absurd candidate (before m')
          | some p =>
            rw [middle] at before
            exact (before.2 m' candidate).trans (after.2 p (.inl middle))
        rcases candidate with committed | voted | late
        · exact early (.inl committed)
        · exact early (.inr voted)
        · exact after.2 m' (.inr late)
  · intro v free m
    rw [second.record free, first.record (still free)]
    constructor
    · rintro ⟨reached, ⟨-, held⟩ | late⟩
      · exact ⟨reached, held.imp_right .inl⟩
      · exact ⟨reached, .inr (.inr late)⟩
    · rintro ⟨reached, held | early | late⟩
      · exact ⟨reached, .inl ⟨rising.trans reached, .inl held⟩⟩
      · exact ⟨reached, .inl ⟨rising.trans reached, .inr early⟩⟩
      · exact ⟨reached, .inr late⟩

/-- Nothing changes for a validator but one. -/
structure SameElsewhere (f f' : Fork) (v : ℕ) : Prop where
  barred : ∀ {w}, w ≠ v → (w ∈ f'.fcEquivocators ↔ w ∈ f.fcEquivocators)
  latest : ∀ {w}, w ≠ v → f'.latestMessages.get? w = f.latestMessages.get? w
  record : ∀ {w}, w ≠ v → f'.fcRecentVotes.get? w = f.fcRecentVotes.get? w

theorem Latest.of_idle (idle : ∀ m, ¬ V v m) : f.Latest V v (f.latestMessages.get? v) := by
  cases found : f.latestMessages.get? v with
  | none => exact fun m candidate => candidate.elim (by simp [found]) (idle m)
  | some m =>
    refine ⟨.inl found, ?_⟩
    rintro m' (committed | voted)
    · rw [found] at committed
      cases committed
      exact le_rfl
    · exact absurd voted (idle m')

theorem takes_barring (sound : f.Sound epoch) (same : f.SameElsewhere f' v)
    (barred : v ∈ f.fcEquivocators ∨ f.Conflict (fun w m' => w = v ∧ m' = m) v)
    (out : v ∈ f'.fcEquivocators)
    (gone : f'.latestMessages.get? v = none ∧ f'.fcRecentVotes.get? v = none) :
    f.Takes (fun w m' => w = v ∧ m' = m) 0 f' := by
  have other {w : ℕ} (free : w ∉ f'.fcEquivocators) : w ≠ v := by
    rintro rfl
    exact free out
  constructor
  · intro w
    by_cases here : w = v
    · subst here
      exact iff_of_true out barred
    · rw [same.barred here]
      simp [Conflict, here]
  · intro w barred
    by_cases here : w = v
    · exact here ▸ gone
    · rw [same.latest here, same.record here]
      exact sound.barred ((same.barred here).mp barred)
  · intro w free
    rw [same.latest (other free)]
    exact .of_idle (fun _ voted => other free voted.1)
  · intro w free m'
    simp only [Retains, getD, same.record (other free), other free, false_and, or_false,
      Nat.zero_le, true_and]

theorem takes_single (sound : f.Sound epoch) (same : f.SameElsewhere f' v)
    (free : v ∉ f.fcEquivocators) (stays : v ∉ f'.fcEquivocators)
    (agrees : ∀ m', f.Retains v m' → ¬ m'.Clash m)
    (latest : f.Latest (fun w m' => w = v ∧ m' = m) v (f'.latestMessages.get? v))
    (record : ∀ m', f'.Retains v m' ↔ f.Retains v m' ∨ m' = m) :
    f.Takes (fun w m' => w = v ∧ m' = m) 0 f' := by
  constructor
  · intro w
    by_cases here : w = v
    · subst here
      apply iff_of_false stays
      rintro (barred | ⟨first, second, held, ⟨-, rfl⟩, clash⟩)
      · exact free barred
      · rcases held with held | ⟨-, rfl⟩
        · exact agrees first held clash
        · exact clash.2 rfl
    · rw [same.barred here]
      simp [Conflict, here]
  · intro w barred
    by_cases here : w = v
    · subst here
      exact absurd barred stays
    · rw [same.latest here, same.record here]
      exact sound.barred ((same.barred here).mp barred)
  · intro w _
    by_cases here : w = v
    · subst here
      exact latest
    · rw [same.latest here]
      exact .of_idle (fun _ voted => here voted.1)
  · intro w _ m'
    by_cases here : w = v
    · subst here
      simp [record]
    · simp only [Retains, getD, same.record here, here, false_and, or_false, Nat.zero_le, true_and]

end

end Fork

namespace CommittedState.FcAccum

variable {a : FcAccum} {epoch : ℕ}

/-- The store has the messages of all who are not barred. -/
structure Mirrors (a : FcAccum) : Prop where
  clean : a.store.equivocators = ∅
  latest : ∀ {v}, v ∉ a.fcEquivocators → a.store.latest.get? v = a.latestMessages.get? v

theorem recordRecentVoteConflicts_eq (a : FcAccum) (v : ℕ) (m : LatestMessage) :
    (a.recordRecentVoteConflicts v m = (true, a) ∧ ∃ m', a.fork.Retains v m' ∧ m'.Clash m) ∨
    ∃ recent, a.recordRecentVoteConflicts v m = (false, { a with fcRecentVotes := recent }) ∧
      (∀ m', a.fork.Retains v m' → ¬ m'.Clash m) ∧
      (∀ w, w ≠ v → recent.get? w = a.fcRecentVotes.get? w) ∧
      ∀ m', (recent.getD v .empty).get? m'.slot = some m'.root ↔ a.fork.Retains v m' ∨ m' = m := by
  unfold recordRecentVoteConflicts
  cases found : (a.fcRecentVotes.getD v .empty).get? m.slot with
  | some prev =>
    by_cases same : prev = m.root
    · right
      refine ⟨a.fcRecentVotes, by simp [found, same], ?_, fun _ _ => rfl, ?_⟩
      · rintro m' held ⟨slot, root⟩
        rw [Fork.Retains, slot] at held
        exact root (Option.some.inj (held.symm.trans (found.trans (congrArg some same))))
      · intro m'
        refine ⟨.inl, ?_⟩
        rintro (held | rfl)
        · exact held
        · rw [found, same]
    · left
      exact ⟨by simp [found, same], ⟨m.slot, prev⟩, found, rfl, same⟩
  | none =>
    right
    refine ⟨_, by simp only [found]; rfl, ?_, ?_, ?_⟩
    · rintro m' held ⟨slot, -⟩
      rw [Fork.Retains, slot] at held
      simp [fork, found] at held
    · intro w other
      exact get?_insert_of_ne _ _ other
    · intro m'
      simp only [getD, get?_insert_self, Option.getD_some, get?_insert]
      split_ifs with slot
      · constructor
        · intro root
          cases m
          cases m'
          cases slot
          cases root
          exact .inr rfl
        · rintro (held | rfl)
          · rw [Fork.Retains, slot] at held
            simp [fork, found] at held
          · rfl
      · constructor
        · exact .inl
        · rintro (held | rfl)
          · exact held
          · exact absurd rfl slot

theorem take_eq (mirrors : a.Mirrors) (free : v ∉ a.fcEquivocators)
    (agrees : ∀ p, a.latestMessages.get? v = some p → ¬ p.Clash m) :
    ∃ store latest, a.take v m = { a with store := store, latestMessages := latest } ∧
      (a.take v m).Mirrors ∧ (∀ w, w ≠ v → latest.get? w = a.latestMessages.get? w) ∧
      a.fork.Latest (fun w m' => w = v ∧ m' = m) v (latest.get? v) := by
  have here := mirrors.latest free
  have clean : v ∉ a.store.equivocators := by simp [mirrors.clean]
  have inserted : ({ a with
      store := { a.store with latest := a.store.latest.insert v m }
      latestMessages := a.latestMessages.insert v m } : FcAccum).Mirrors := by
    refine ⟨mirrors.clean, ?_⟩
    intro w free
    simp only [get?_insert]
    split_ifs
    · rfl
    · exact mirrors.latest free
  unfold take Store.observe
  rw [if_neg clean, here]
  cases found : a.latestMessages.get? v with
  | none =>
    refine ⟨_, _, rfl, inserted, fun _ other => get?_insert_of_ne _ _ other, ?_⟩
    simp only [if_true, get?_insert_self]
    refine ⟨.inr ⟨rfl, rfl⟩, ?_⟩
    rintro m' (committed | ⟨-, rfl⟩)
    · exact absurd (found.symm.trans committed) (by simp)
    · exact le_rfl
  | some p =>
    have clash : ¬ (p.slot = m.slot ∧ p.root ≠ m.root) := agrees p found
    have only {m' : LatestMessage} (committed : a.fork.latestMessages.get? v = some m') : m' = p :=
      Option.some.inj (committed.symm.trans found)
    simp only [if_neg clash]
    by_cases old : m.slot ≤ p.slot
    · simp only [if_pos old]
      refine ⟨_, _, rfl, mirrors, fun _ _ => rfl, ?_⟩
      simp only [Bool.false_eq_true, if_false, found]
      refine ⟨.inl found, ?_⟩
      rintro m' (committed | ⟨-, rfl⟩)
      · exact (congrArg LatestMessage.slot (only committed)).le
      · exact old
    · simp only [if_neg old]
      refine ⟨_, _, rfl, inserted, fun _ other => get?_insert_of_ne _ _ other, ?_⟩
      simp only [if_true, get?_insert_self]
      refine ⟨.inr ⟨rfl, rfl⟩, ?_⟩
      rintro m' (committed | ⟨-, rfl⟩)
      · rw [only committed]
        omega
      · exact le_rfl

theorem bar_mirrors (mirrors : a.Mirrors) (barred : Finset ℕ) : (a.bar barred true).Mirrors := by
  refine ⟨mirrors.clean, ?_⟩
  intro w free
  simp only [bar, Finset.mem_union, not_or] at free
  rw [bar, mirrors.latest free.1]
  exact (get?_filter_of_kept _ (fun _ => by simp [free.2])).symm

theorem observe_takes (mirrors : a.Mirrors) (sound : a.fork.Sound epoch)
    (timely : epochOf att.data.slot = epoch) :
    a.fork.Takes (votesOf [att]) 0 (a.observe true att).fork ∧ (a.observe true att).Mirrors := by
  rw [votesOf_singleton]
  unfold observe
  by_cases barred : att.validator ∈ a.fcEquivocators
  · rw [if_pos barred]
    refine ⟨?_, mirrors⟩
    exact Fork.takes_barring sound ⟨fun _ => Iff.rfl, fun _ => rfl, fun _ => rfl⟩ (.inl barred) barred
      (sound.barred barred)
  · rw [if_neg barred, if_pos rfl]
    rcases a.recordRecentVoteConflicts_eq att.validator att.message with
      ⟨recorded, m', held, clash⟩ | ⟨recent, recorded, agrees, elsewhere, record⟩
    · -- A vote on record for the slot names another root.
      rw [Attestation.message] at recorded
      simp only [recorded, if_true]
      refine ⟨Fork.takes_barring sound ?_ (.inr ⟨m', _, .inl held, ⟨rfl, rfl⟩, clash⟩) ?_ ?_,
        bar_mirrors mirrors _⟩
      · constructor <;> intro w other
        · simp [fork, bar, other]
        · exact get?_filter_of_kept _ (fun _ => by simp [other])
        · simp only [fork, bar, if_true]
          exact get?_filter_of_kept _ (fun _ => by simp [other])
      · simp [fork, bar]
      · constructor <;> simp [fork, bar]
    · rw [Attestation.message] at recorded
      simp only [recorded, Bool.false_eq_true, if_false]
      have following : ({ a with fcRecentVotes := recent } : FcAccum).Mirrors := ⟨mirrors.clean, mirrors.latest⟩
      have newer : ∀ p, a.latestMessages.get? att.validator = some p → ¬ p.Clash att.message := by
        intro p committed clash
        exact agrees p (sound.kept committed (clash.1 ▸ timely)) clash
      obtain ⟨store, latest, taken, after, others, top⟩ := take_eq following barred newer
      rw [Attestation.message] at taken after
      rw [taken] at after ⊢
      refine ⟨Fork.takes_single sound ⟨fun _ => Iff.rfl, fun other => others _ other,
        fun other => elsewhere _ other⟩ barred barred agrees top record, after⟩

theorem foldl_observe_takes (mirrors : a.Mirrors)
    (sound : a.fork.Sound epoch) (timely : ∀ att ∈ attestations, epochOf att.data.slot = epoch) :
    a.fork.Takes (votesOf attestations) 0 (attestations.foldl (observe true) a).fork ∧
      (attestations.foldl (observe true) a).Mirrors := by
  induction attestations generalizing a with
  | nil =>
    have none : votesOf [] = fun _ _ => False := by
      funext v m
      simp [votesOf]
    rw [none]
    exact ⟨Fork.takes_none sound, mirrors⟩
  | cons att rest ih =>
    obtain ⟨first, following⟩ := observe_takes mirrors sound (timely att List.mem_cons_self)
    have still := first.sound sound (fun _ _ => Nat.zero_le _)
    obtain ⟨later, last⟩ := ih following still (fun att among => timely att (List.mem_cons_of_mem _ among))
    rw [List.foldl_cons, ← List.singleton_append, votesOf_append]
    exact ⟨first.trans later le_rfl (fun _ _ _ => Nat.zero_le _), last⟩

theorem fork_bar_empty (a : FcAccum) : (a.bar ∅ true).fork = a.fork := by
  apply Fork.ext
  · apply ext_get?
    intro v
    exact get?_filter_of_kept _ (fun _ => by simp)
  · exact Finset.union_empty _
  · apply ext_get?
    intro v
    simp only [fork, bar, if_true]
    exact get?_filter_of_kept _ (fun _ => by simp)

end CommittedState.FcAccum

namespace CommittedState

theorem foldl_observe_entries (entries : List (ℕ × LatestMessage)) (unique : (entries.map Prod.fst).Nodup)
    (s : Store) (clean : s.equivocators = ∅) (absent : ∀ e ∈ entries, s.latest.get? e.1 = none) :
    (entries.foldl (fun s m => (s.observe m.1 m.2).2) s).equivocators = ∅ ∧
      (entries.foldl (fun s m => (s.observe m.1 m.2).2) s).latest =
        entries.foldl (fun latest e => latest.insert e.1 e.2) s.latest := by
  induction entries generalizing s with
  | nil => exact ⟨clean, rfl⟩
  | cons e rest ih =>
    have first : (s.observe e.1 e.2).2 = { s with latest := s.latest.insert e.1 e.2 } := by
      unfold Store.observe
      rw [if_neg (by simp [clean]), absent e List.mem_cons_self]
    obtain ⟨fresh, unique⟩ := List.nodup_cons.mp unique
    rw [List.foldl_cons, List.foldl_cons, first]
    apply ih unique { s with latest := s.latest.insert e.1 e.2 } clean
    intro other among
    have apart : other.1 ≠ e.1 := fun same => fresh (same ▸ List.mem_map_of_mem among)
    rw [get?_insert_of_ne _ _ apart]
    exact absent other (List.mem_cons_of_mem _ among)

theorem ofList_entries {K V : Type} [LinearOrder K] (m : SortedMap K V) : ofList m.entries = m := by
  apply ext_get?
  intro k
  exact get?_ofList_of_nodup m.keys_nodup k

theorem mirrors_start (st : CommittedState) (roster : List Validator) :
    FcAccum.Mirrors ⟨st.latestMessages.entries.foldl (fun s m => (s.observe m.1 m.2).2)
      (roster.foldl (fun s v => s.setStake v.index v.effectiveStake) Store.new),
      st.latestMessages, st.fcEquivocators, st.fcRecentVotes⟩ := by
  have clean : (roster.foldl (fun s v => s.setStake v.index v.effectiveStake) Store.new).equivocators = ∅ := by
    apply List.foldl_leaves Store.equivocators
    exact fun _ _ => rfl
  have latest : (roster.foldl (fun s v => s.setStake v.index v.effectiveStake) Store.new).latest = .empty := by
    apply List.foldl_leaves Store.latest
    exact fun _ _ => rfl
  obtain ⟨unbarred, all⟩ := foldl_observe_entries st.latestMessages.entries st.latestMessages.keys_nodup _
    clean (fun _ _ => by rw [latest]; rfl)
  refine ⟨unbarred, ?_⟩
  intro v _
  rw [all, latest]
  exact congrArg (fun m => m.get? v) (ofList_entries st.latestMessages)

theorem get?_pruneRecentVotes (votes : SortedMap ℕ (SortedMap ℕ Bytes32)) (blockSlot v slot : ℕ) :
    ((pruneRecentVotes votes blockSlot).getD v .empty).get? slot =
      if recentVoteFloor blockSlot ≤ slot then (votes.getD v .empty).get? slot else none := by
  simp only [getD, pruneRecentVotes, get?_filter, get?_mapVal]
  cases votes.get? v with
  | none => simp
  | some held =>
    have inside : (held.filter (fun slot _ => recentVoteFloor blockSlot ≤ slot)).get? slot =
        if recentVoteFloor blockSlot ≤ slot then held.get? slot else none := by
      rw [get?_filter]
      cases held.get? slot with
      | none => simp
      | some root => simp [Option.filter]
    by_cases blank : (held.filter (fun slot _ => recentVoteFloor blockSlot ≤ slot)).entries = []
    · have nothing : (held.filter (fun slot _ => recentVoteFloor blockSlot ≤ slot)).get? slot = none := by
        simp [get?, blank]
      rw [inside] at nothing
      simp [Option.filter, blank, nothing]
    · rw [Option.map_some, Option.filter_some_pos (by simpa using blank), Option.getD_some, inside,
        Option.getD_some]

theorem pruneRecentVotes_trimmed (found : (pruneRecentVotes votes blockSlot).get? v = some held) :
    held ≠ .empty := by
  simp only [pruneRecentVotes, get?_filter, Option.filter_eq_some_iff, decide_eq_true_eq] at found
  rintro rfl
  exact found.2 rfl

theorem Fork.Takes.prune {f f' : Fork} (taken : f.Takes V 0 f') (blockSlot : ℕ) :
    f.Takes V (recentVoteFloor blockSlot)
      { f' with fcRecentVotes := pruneRecentVotes f'.fcRecentVotes blockSlot } := by
  constructor
  · exact taken.barred
  · intro v out
    obtain ⟨latest, record⟩ := taken.gone out
    refine ⟨latest, ?_⟩
    simp [pruneRecentVotes, record]
  · exact taken.latest
  · intro v free m
    have before := taken.record free m
    rw [Fork.Retains] at before
    rw [Fork.Retains, get?_pruneRecentVotes]
    split_ifs with reached
    · simp [before, reached]
    · simp [reached]

/-- What a block makes of its votes. -/
theorem accumulateForkchoice_takes {st : CommittedState} (roster : List Validator) (blockSlot : ℕ)
    (active : g.forkchoiceEquivocationHorizonActive st.epoch = true) (sound : st.fork.Sound st.epoch)
    (timely : ∀ att ∈ attestations, epochOf att.data.slot = st.epoch) :
    st.fork.Takes (votesOf attestations) (recentVoteFloor blockSlot)
        (st.accumulateForkchoice g roster attestations blockSlot).fork ∧
      ∀ v held, (st.accumulateForkchoice g roster attestations blockSlot).fcRecentVotes.get? v = some held →
        held ≠ .empty := by
  obtain ⟨taken, mirrors⟩ := FcAccum.foldl_observe_takes (mirrors_start st roster) sound timely
  rw [← FcAccum.fork_bar_empty (List.foldl ..)] at taken
  rw [accumulateForkchoice, active]
  simp only [mirrors.clean, if_true]
  exact ⟨Fork.Takes.prune taken blockSlot, fun v held found => pruneRecentVotes_trimmed found⟩

end CommittedState

end BlochPos
