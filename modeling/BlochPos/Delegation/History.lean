import BlochPos.Delegation.Accounting
import BlochPos.Lib.Shadow

/-! What a resolved registry depends on: not on delegations never open by its epoch, nor on later
exits. -/
namespace BlochPos

namespace Delegation

/-- Open at no epoch so far. -/
def Unopened (d : Delegation) (e : ℕ) : Prop := ∀ e', e' ≤ e → ¬ d.Open e'

/-- Delegations no epoch so far tells apart. -/
structure Alike (e : ℕ) (d d' : Delegation) : Prop where
  key : d.queueKey = d'.queueKey
  eligible : d.eligible = d'.eligible
  left : ∀ e', e' ≤ e → (d.Left e' ↔ d'.Left e')

theorem Alike.refl (e : ℕ) (d : Delegation) : d.Alike e d := ⟨rfl, rfl, fun _ _ => Iff.rfl⟩

end Delegation

namespace Registry

def AlikeQueued (e : ℕ) (q q' : Queued) : Prop :=
  q.delegation.Alike e q'.delegation ∧ q.activated = q'.activated

/-- Queued to no effect. -/
structure Idle (e : ℕ) (q : Queued) : Prop where
  unopened : q.delegation.Unopened e
  activated : q.activated = 0
  amount : 0 < q.delegation.amountSat

section

variable {e : ℕ} {q : Queued} {s s' : Schedule} {delegations : List Delegation} {d : Delegation} {k : QueueKey}

theorem AlikeQueued.admitOne (alike : AlikeQueued e q q') (by_ : e' ≤ e) (budget : ℕ) (c : Churn) :
    (Registry.admitOne e' budget c q).1 = (Registry.admitOne e' budget c q').1 ∧
      AlikeQueued e (Registry.admitOne e' budget c q).2 (Registry.admitOne e' budget c q').2 := by
  obtain ⟨same, activated⟩ := alike
  obtain ⟨requested, validator, -, amount⟩ := Delegation.queueKey_eq_iff.mp same.key
  rw [admitOne_eq, admitOne_eq]
  simp only [requested, validator, amount, activated, same.left e' by_]
  split_ifs
  · exact ⟨rfl, same, activated⟩
  · exact ⟨rfl, same, activated⟩
  · exact ⟨rfl, same, rfl⟩

theorem AlikeQueued.releaseOne (alike : AlikeQueued e q q') (by_ : e' ≤ e) (budget : ℕ) (c : Churn) :
    (Registry.releaseOne e' budget c q).1 = (Registry.releaseOne e' budget c q').1 ∧
      AlikeQueued e (Registry.releaseOne e' budget c q).2 (Registry.releaseOne e' budget c q').2 := by
  obtain ⟨same, activated⟩ := alike
  obtain ⟨-, validator, -, -⟩ := Delegation.queueKey_eq_iff.mp same.key
  rw [releaseOne_eq, releaseOne_eq]
  simp only [validator, activated, same.left e' by_]
  split_ifs
  · exact ⟨rfl, same, activated⟩
  · exact ⟨rfl, same, rfl⟩

theorem Idle.admitOne (idle : Idle e q) (by_ : e' ≤ e) (budget : ℕ) (c : Churn) :
    Registry.admitOne e' budget c q = (c, q) := by
  rcases admitOne_cases e' budget c q with done | ⟨take, free, -⟩
  · exact done
  · exact absurd free (idle.unopened e' by_)

theorem Idle.releaseOne (idle : Idle e q) (e' budget : ℕ) (c : Churn) :
    Registry.releaseOne e' budget c q = (c, q) := by
  rw [releaseOne_eq, if_pos (.inr (.inl idle.activated))]

theorem pass_shadow (both : ∀ c q q', AlikeQueued e q q' →
      (step c q).1 = (step c q').1 ∧ AlikeQueued e (step c q).2 (step c q').2)
    (extra : ∀ c q, Idle e q → step c q = (c, q)) (shadow : Shadow (AlikeQueued e) (Idle e) l l') (c : Churn) :
    (pass step c l).1 = (pass step c l').1 ∧
      Shadow (AlikeQueued e) (Idle e) (pass step c l).2 (pass step c l').2 := by
  induction shadow generalizing c with
  | nil => exact ⟨rfl, .nil⟩
  | @both q q' l l' related _ ih =>
    obtain ⟨churn, next⟩ := both c q q' related
    obtain ⟨same, rest⟩ := ih (step c q).1
    simp only [pass, ← churn]
    exact ⟨same, .both next rest⟩
  | @extra q l l' idle _ ih =>
    obtain ⟨same, rest⟩ := ih c
    simp only [pass, extra c q idle]
    exact ⟨same, .extra idle rest⟩

/-- Schedules alike up to extra entries that are idle. -/
structure Twin (e : ℕ) (s s' : Schedule) : Prop where
  total : s.totalActive = s'.totalActive
  active : s.active = s'.active
  queue : Shadow (AlikeQueued e) (Idle e) s.queue s'.queue

theorem Twin.advance (twin : Twin e s s') (by_ : e' ≤ e) :
    Twin e (Registry.advance s e') (Registry.advance s' e') := by
  obtain ⟨admitted, queue⟩ := pass_shadow (fun c _ _ alike => alike.admitOne by_ (churnBudget e' s.totalActive) c)
    (fun c _ idle => idle.admitOne by_ _ c) twin.queue ⟨0, s.totalActive, s.active⟩
  obtain ⟨released, queue⟩ := pass_shadow
    (fun c _ _ alike => alike.releaseOne by_ (churnBudget e' s.totalActive) c)
    (fun c _ idle => idle.releaseOne e' _ c) queue
    ⟨0, (admitPass s e').1.totalActive, (admitPass s e').1.active⟩
  have first : admitPass s' e' = pass (Registry.admitOne e' (churnBudget e' s.totalActive))
      ⟨0, s.totalActive, s.active⟩ s'.queue := by
    rw [admitPass, twin.total, twin.active]
  have second : releasePass s' e' = pass (Registry.releaseOne e' (churnBudget e' s.totalActive))
      ⟨0, (admitPass s e').1.totalActive, (admitPass s e').1.active⟩ (admitPass s' e').2 := by
    rw [releasePass, ← twin.total, first, ← admitted]
    rfl
  rw [advance_eq, advance_eq, second, first]
  exact ⟨congrArg Churn.totalActive released, congrArg Churn.active released, queue⟩

theorem schedule_twin (start : Twin e (opening delegations) (opening delegations')) (by_ : e' ≤ e) :
    Twin e (schedule delegations e') (schedule delegations' e') := by
  induction e' with
  | zero => exact start.advance by_
  | succ n ih =>
    rw [schedule_succ, schedule_succ]
    exact (ih (Nat.le_of_succ_le by_)).advance by_

theorem opening_twin (shadow : Shadow (Delegation.Alike e) (fun d => d.Unopened e) delegations delegations') :
    Twin e (opening delegations) (opening delegations') := by
  refine ⟨rfl, rfl, ?_⟩
  have kept : Shadow (Delegation.Alike e) (fun d => d.Unopened e ∧ 0 < d.amountSat)
      (delegations.filter Delegation.counts) (delegations'.filter Delegation.counts) := by
    apply shadow.filter
    · intro d d' alike
      rw [Delegation.counts, alike.eligible, (Delegation.queueKey_eq_iff.mp alike.key).2.2.2]
    · intro d unopened counted
      simp only [Bool.and_eq_true, decide_eq_true_eq] at counted
      exact ⟨unopened, (by decide : 0 < MIN_DELEGATION_SAT).trans_le counted.2⟩
  have sorted := kept.insertionSort (fun _ _ alike => alike.key)
  exact sorted.map (fun d d' alike => ⟨alike, rfl⟩) (fun d idle => ⟨idle.1, rfl, idle.2⟩)

theorem resolve_shadow
    (shadow : Shadow (Delegation.Alike e) (fun d => d.Unopened e) delegations delegations') (by_ : e' ≤ e) :
    resolve delegations e' = resolve delegations' e' := by
  have twin := schedule_twin (opening_twin shadow) by_
  have admitted := twin.queue.map_filter_eq (p := fun q => q.activated = q.delegation.amountSat)
    (q := fun q => q.activated = q.delegation.amountSat) (f := fun q => q.delegation.queueKey)
    (g := fun q => q.delegation.queueKey)
    (fun q q' alike => by
      rw [alike.2, (Delegation.queueKey_eq_iff.mp alike.1.key).2.2.2]
      exact ⟨rfl, alike.1.key⟩)
    (fun q idle => by simp [idle.activated, idle.amount.ne])
  have activated := twin.queue.map_filter_eq (p := fun q => 0 < q.activated) (q := fun q => 0 < q.activated)
    (f := fun q => (q.delegation.queueKey, q.activated)) (g := fun q => (q.delegation.queueKey, q.activated))
    (fun q q' alike => by
      rw [alike.2, alike.1.key]
      exact ⟨rfl, rfl⟩)
    (fun q idle => by simp [idle.activated])
  simp only [resolve, twin.total, twin.active, admitted, activated]

/-- Counted delegations of one queue key have one exit. -/
def TiesAlike (delegations : List Delegation) : Prop :=
  ∀ d ∈ delegations, ∀ d' ∈ delegations, d.eligible = true → d'.eligible = true →
    MIN_DELEGATION_SAT ≤ d.amountSat → d.queueKey = d'.queueKey →
    d.Open d.requestedEpoch → d'.Open d'.requestedEpoch → d.deactivateEpoch = d'.deactivateEpoch
deriving Decidable

theorem unopened_of_not_open (never : ¬ d.Open d.requestedEpoch) (e : ℕ) : d.Unopened e := by
  intro e' _ still
  apply never
  refine ⟨le_rfl, ?_⟩
  intro de asked
  exact still.1.trans_lt (still.2 de asked)

theorem resolve_filter_open (delegations : List Delegation) (e : ℕ) :
    resolve delegations e = resolve (delegations.filter (fun d => d.Open d.requestedEpoch)) e := by
  apply resolve_shadow (e := e)
  · apply Shadow.filter_self (Delegation.Alike.refl e)
    intro d _ closed
    exact unopened_of_not_open (by simpa using closed) e
  · exact le_rfl

theorem queueOf_eq_of_perm (same : delegations'.Perm delegations)
    (ties : ∀ d ∈ queueOf delegations, ∀ d' ∈ queueOf delegations, d.queueKey = d'.queueKey → d = d') :
    queueOf delegations' = queueOf delegations := by
  have total : Std.Total (fun d d' : Delegation => d.queueKey ≤ d'.queueKey) :=
    ⟨fun d d' => le_total d.queueKey d'.queueKey⟩
  have trans : IsTrans Delegation (fun d d' => d.queueKey ≤ d'.queueKey) := ⟨fun _ _ _ => le_trans⟩
  have queues : (queueOf delegations').Perm (queueOf delegations) :=
    (queueOf_perm delegations').trans ((same.filter _).trans (queueOf_perm delegations).symm)
  apply List.Perm.eq_of_pairwise _ (List.pairwise_insertionSort _ _) (List.pairwise_insertionSort _ _) queues
  intro d d' queued queued' le le'
  exact ties d (queues.mem_iff.mp queued) d' queued' (le_antisymm le le')

/-- Delegation resolution does not depend on the order of the records as long as
records of one key leave together. -/
theorem resolution_order_independent {delegations delegations' : List Delegation}
    (ties : TiesAlike delegations) (same : delegations'.Perm delegations) (e : ℕ) :
    (resolve delegations' e).totalActive = (resolve delegations e).totalActive ∧
    (resolve delegations' e).stakes = (resolve delegations e).stakes ∧
    (resolve delegations' e).validators = (resolve delegations e).validators := by
  have queues : queueOf (delegations'.filter (fun d => d.Open d.requestedEpoch)) =
      queueOf (delegations.filter (fun d => d.Open d.requestedEpoch)) := by
    apply queueOf_eq_of_perm (same.filter _)
    intro d queued d' queued' key
    simp only [mem_queueOf, List.mem_filter, decide_eq_true_eq] at queued queued'
    obtain ⟨⟨among, opened⟩, eligible, large⟩ := queued
    obtain ⟨⟨among', opened'⟩, eligible', -⟩ := queued'
    have leaves := ties d among d' among' eligible eligible' large key opened opened'
    obtain ⟨requested, validator, delegator, amount⟩ := Delegation.queueKey_eq_iff.mp key
    cases d
    cases d'
    simp_all
  have whole : resolve delegations' e = resolve delegations e := by
    rw [resolve_filter_open delegations', resolve_filter_open delegations]
    simp only [resolve, schedule, queues]
  rw [whole]
  exact ⟨rfl, rfl, rfl⟩

/-- Records of one key that leave together, in two orders. -/
theorem resolution_of_twin_leavers : let leaver : Delegation := ⟨0, 0, MIN_CHURN_SAT, 1, some 3, true⟩
    let other : Delegation := ⟨1, 0, MIN_CHURN_SAT, 1, none, true⟩
    (resolve [other, leaver, leaver] 2).totalActive = (resolve [leaver, other, leaver] 2).totalActive := by
  intro leaver other
  have ties : TiesAlike [leaver, other, leaver] := by decide
  exact (resolution_order_independent ties (List.Perm.swap leaver other [leaver]) 2).1

/-- Two records of one key, the one to leave in epoch 2. Whoever comes first in the
slice has the budget of epoch 1. -/
theorem tie_resolved_by_slice_order : let leaver : Delegation := ⟨0, 0, 100000000000000, 1, some 2, true⟩
    let stayer : Delegation := ⟨0, 0, 100000000000000, 1, none, true⟩
    [stayer, leaver].Perm [leaver, stayer] ∧ (resolve [leaver, stayer] 2).totalActive = 50000000000000 ∧
      (resolve [stayer, leaver] 2).totalActive = 100000000000000 := by
  intro leaver stayer
  exact ⟨List.Perm.swap leaver stayer [], by decide +kernel, by decide +kernel⟩

theorem resolve_append (later : ∀ d ∈ added, e < d.requestedEpoch)
    (by_ : e' ≤ e) : resolve (delegations ++ added) e' = resolve delegations e' := by
  have shadow : Shadow (Delegation.Alike e) (fun d => d.Unopened e) (delegations ++ added) (delegations ++ []) := by
    apply (Shadow.refl (Delegation.Alike.refl e) delegations).append
    apply Shadow.extras
    intro d among e' before still
    exact absurd (still.1.trans before) (not_le.mpr (later d among))
  rw [List.append_nil] at shadow
  exact resolve_shadow shadow by_

theorem resolve_deactivate (stays : d.deactivateEpoch = none) (later : e < de) (by_ : e' ≤ e) :
    resolve (before ++ { d with deactivateEpoch := some de } :: after) e' = resolve (before ++ d :: after) e' := by
  have alike : Delegation.Alike e { d with deactivateEpoch := some de } d := by
    refine ⟨rfl, rfl, ?_⟩
    intro e' within
    simp only [Delegation.Left, stays, Option.mem_def, Option.some.injEq, exists_eq_left', reduceCtorEq,
      false_and, exists_false, iff_false, not_le]
    omega
  have same := Delegation.Alike.refl e
  exact resolve_shadow ((Shadow.refl same before).append (.both alike (Shadow.refl same after))) by_

theorem out_schedule (out : ∀ q ∈ (schedule delegations e).queue,
      q.delegation.queueKey = k → q.delegation.Left e → q.activated = 0) (later : e ≤ e') :
    ∀ q ∈ (schedule delegations e').queue, q.delegation.queueKey = k → q.delegation.Left e → q.activated = 0 := by
  induction e', later using Nat.le_induction with
  | base => exact out
  | succ n later ih =>
    rw [schedule_succ]
    refine pass_all (fun c q out key left => ?_) (pass_all (fun c q out key left => ?_) ih)
    · rw [delegation_releaseOne] at key left
      rw [releaseOne_eq, if_pos (.inr (.inl (out key left)))]
      exact out key left
    · rw [delegation_admitOne] at key left
      rw [admitOne_left (left.mono (later.trans (Nat.le_succ n)))]
      exact out key left

theorem answer_eq_zero_iff (searches : Searches search) (delegations : List Delegation) (e : ℕ) (d : Delegation) :
    activatedSat search (resolve delegations e) d = 0 ↔
      ∀ q ∈ (schedule delegations e).queue, q.delegation.queueKey = d.queueKey → q.activated = 0 := by
  rcases answer_cases searches delegations e d with ⟨zero, idle⟩ | ⟨q, member, key, positive, answer⟩
  · exact iff_of_true zero idle
  · exact iff_of_false (by omega) (fun idle => by have := idle q member key; omega)

theorem answer_stays_zero_iff (searches : Searches search)
    (zero : activatedSat search (resolve delegations e) d = 0) :
    (∀ e', e ≤ e' → activatedSat search (resolve delegations e') d = 0) ↔
      ∀ e', e ≤ e' → ∀ q ∈ (schedule delegations e').queue,
        q.delegation.queueKey = d.queueKey → ¬ q.delegation.Left e → q.activated = 0 := by
  simp only [answer_eq_zero_iff searches] at zero ⊢
  refine forall₂_congr (fun e' later => ⟨fun none_ q member key _ => none_ q member key, fun rest q member key => ?_⟩)
  by_cases left : q.delegation.Left e
  · exact out_schedule (fun q member key _ => zero q member key) later q member key left
  · exact rest q member key left

theorem answer_zero_of_left (searches : Searches search)
    (peers : ∀ a ∈ delegations, a.eligible = true → MIN_DELEGATION_SAT ≤ a.amountSat →
      a.queueKey = d.queueKey → a.Left e)
    (zero : activatedSat search (resolve delegations e) d = 0) (later : e ≤ e') :
    activatedSat search (resolve delegations e') d = 0 := by
  refine (answer_stays_zero_iff searches zero).mpr (fun e' _ q member key stays => ?_) e' later
  obtain ⟨listed, eligible, enough⟩ := delegation_of_mem_schedule member
  exact absurd (peers q.delegation listed eligible enough key) stays

/-- What those still there have yet to see admitted. -/
def owed (e : ℕ) (queue : List Queued) : ℕ :=
  (queue.map (fun q => if q.delegation.Left e then 0 else q.delegation.amountSat - q.activated)).sum

@[simp] theorem owed_cons (e : ℕ) (q : Queued) (rest : List Queued) : owed e (q :: rest) =
    (if q.delegation.Left e then 0 else q.delegation.amountSat - q.activated) + owed e rest := by
  simp [owed]

theorem admitOne_fills (free : q.delegation.Open e) (budget : ℕ) (c : Churn) :
    q.delegation.amountSat ≤ (admitOne e budget c q).2.activated ∨ budget ≤ (admitOne e budget c q).1.used := by
  have here : ¬ (e < q.delegation.requestedEpoch ∨ q.delegation.Left e) := by
    rintro (early | left)
    · exact absurd free.1 (not_le.mpr early)
    · exact left.not_open free
  rw [admitOne_eq, if_neg here]
  split_ifs with done
  · exact done.imp_left Nat.le_of_sub_eq_zero
  · dsimp only
    omega

theorem owed_admit (e budget : ℕ) (c : Churn) (queue : List Queued) :
    let post := pass (admitOne e budget) c queue
    owed e post.2 + post.1.used = owed e queue + c.used ∧ c.used ≤ post.1.used ∧
      ∀ q ∈ post.2, q.delegation.Open e → q.delegation.amountSat ≤ q.activated ∨ budget ≤ post.1.used := by
  induction queue generalizing c with
  | nil => exact ⟨rfl, le_rfl, fun q member => nomatch member⟩
  | cons q rest ih =>
    obtain ⟨paid, grows, filled⟩ := ih (admitOne e budget c q).1
    have step : owed e [(admitOne e budget c q).2] + (admitOne e budget c q).1.used = owed e [q] + c.used ∧
        c.used ≤ (admitOne e budget c q).1.used := by
      rcases admitOne_cases e budget c q with idle | ⟨take, free, bound, -, taken⟩
      · simp [idle]
      · have stays : ¬ q.delegation.Left e := fun left => left.not_open free
        simp only [taken, owed_cons, stays, ↓reduceIte]
        omega
    simp only [owed_cons, pass] at paid step ⊢
    refine ⟨by omega, step.2.trans grows, fun q' member free => ?_⟩
    rcases List.mem_cons.mp member with rfl | member
    · rw [delegation_admitOne] at free ⊢
      exact (admitOne_fills free budget c).imp_right grows.trans'
    · exact filled q' member free

theorem owed_release (e budget : ℕ) (c : Churn) (queue : List Queued) :
    owed e (pass (releaseOne e budget) c queue).2 = owed e queue ∧
      ∀ q ∈ (pass (releaseOne e budget) c queue).2, ¬ q.delegation.Left e → q ∈ queue := by
  induction queue generalizing c with
  | nil => exact ⟨rfl, fun q member => nomatch member⟩
  | cons q rest ih =>
    obtain ⟨same, kept⟩ := ih (releaseOne e budget c q).1
    simp only [pass, owed_cons, same, delegation_releaseOne, List.mem_cons]
    rcases releaseOne_cases e budget c q with ⟨idle, -⟩ | ⟨give, active, left, -, -, -, -, given⟩
    · rw [idle] at kept ⊢
      exact ⟨rfl, fun q' member stays => member.imp_right (kept q' · stays)⟩
    · refine ⟨by simp [left], fun q' member stays => member.elim (fun same => ?_) (.inr <| kept q' · stays)⟩
      rw [same, delegation_releaseOne] at stays
      exact absurd left stays

/-- While one who is open is not yet wholly in, the whole budget goes to those waiting. -/
theorem owed_advance (waits : q ∈ (advance s e).queue) (free : q.delegation.Open e)
    (short : q.activated < q.delegation.amountSat) :
    owed e (advance s e).queue + churnBudget e s.totalActive ≤ owed e s.queue := by
  obtain ⟨same, kept⟩ := owed_release e (churnBudget e s.totalActive)
    ⟨0, (admitPass s e).1.totalActive, (admitPass s e).1.active⟩ (admitPass s e).2
  obtain ⟨paid, -, filled⟩ := owed_admit e (churnBudget e s.totalActive) ⟨0, s.totalActive, s.active⟩ s.queue
  have spent := filled q (kept q waits (fun left => left.not_open free)) free
  rw [advance_eq, releasePass, same, admitPass]
  dsimp only at paid
  omega

theorem owed_succ_le (e : ℕ) (queue : List Queued) : owed (e + 1) queue ≤ owed e queue := by
  refine List.sum_le_sum (fun q _ => ?_)
  by_cases left : q.delegation.Left e
  · simp [left.mono (Nat.le_succ e)]
  · split_ifs <;> omega

theorem admitted_in_the_end (counts : d ∈ queueOf delegations) (stays : d.deactivateEpoch = none)
    (asked : d.requestedEpoch ≤ e) :
    ∃ e', e ≤ e' ∧ ∃ q ∈ (schedule delegations e').queue, q.delegation = d ∧ d.amountSat ≤ q.activated := by
  by_contra never
  push Not at never
  -- Were it never wholly in, what is owed would fall for ever.
  have falls (n : ℕ) :
      owed (e + n) (schedule delegations (e + n)).queue + n ≤ owed e (schedule delegations e).queue := by
    induction n with
    | zero => exact le_rfl
    | succ n ih =>
      have listed := counts
      rw [← map_delegation_schedule delegations (e + n + 1)] at listed
      obtain ⟨q, waits, rfl⟩ := List.mem_map.mp listed
      have short := never (e + n + 1) (by omega) q waits rfl
      have free : q.delegation.Open (e + n + 1) := ⟨by omega, by simp [stays]⟩
      have budget := min_le_churnBudget (e + n) (schedule delegations (e + n)).totalActive
      have positive : 0 < MIN_CHURN_SAT := by decide
      have aged := owed_succ_le (e + n) (schedule delegations (e + n)).queue
      rw [schedule_succ] at waits
      have paid := owed_advance waits free short
      rw [← schedule_succ] at paid
      rw [← Nat.add_assoc e n 1]
      omega
  have := falls (owed e (schedule delegations e).queue + 1)
  omega

/-- Neither later records nor later exits change what an epoch resolved to. One who left with nothing in comes
back exactly if a record of the same key that was still there is admitted later: not if all of them had left,
and always if one of them never leaves. -/
theorem delegation_history_causal (delegations : List Delegation) (e : ℕ) :
    (∀ added : List Delegation, (∀ a ∈ added, e < a.requestedEpoch) →
      ∀ e', e' ≤ e → resolve (delegations ++ added) e' = resolve delegations e') ∧
    (∀ before d after de, delegations = before ++ d :: after → d.deactivateEpoch = none → e < de →
      ∀ e', e' ≤ e → resolve (before ++ { d with deactivateEpoch := some de } :: after) e' =
        resolve delegations e') ∧
    (∀ search, Searches search → ∀ d ∈ delegations, d.Left e → ∀ added : List Delegation,
      (∀ a ∈ added, e < a.requestedEpoch) → activatedSat search (resolve delegations e) d = 0 →
      let final := ∀ e', e ≤ e' → activatedSat search (resolve (delegations ++ added) e') d = 0
      let twins := (delegations ++ added).filter (fun a =>
        a.eligible ∧ MIN_DELEGATION_SAT ≤ a.amountSat ∧ a.queueKey = d.queueKey)
      (final ↔ ∀ e', e ≤ e' → ∀ q ∈ (schedule (delegations ++ added) e').queue,
        q.delegation ∈ twins → ¬ q.delegation.Left e → q.activated = 0) ∧
      ((∀ a ∈ twins, a.Left e) → final) ∧
      ((∀ a ∈ twins, a.Left e ∨ a.deactivateEpoch = none) → final → ∀ a ∈ twins, a.Left e)) := by
  refine ⟨fun added later e' by_ => resolve_append later by_, ?_, ?_⟩
  · rintro - d after de rfl stays later e' by_
    exact resolve_deactivate stays later by_
  · intro search searches d among left added later zero final twins
    -- At the epoch itself the added records do not show, so nothing under the key is in.
    rw [← resolve_append later le_rfl] at zero
    have twin {a : Delegation} : a ∈ twins ↔ a ∈ queueOf (delegations ++ added) ∧ a.queueKey = d.queueKey := by
      simp only [twins, List.mem_filter, mem_queueOf, decide_eq_true_eq, and_assoc]
    refine ⟨(answer_stays_zero_iff searches zero).trans ?_, fun peers => ?_, fun peers stays a member => ?_⟩
    · refine forall₄_congr (fun e' _ q member => ?_)
      have queued := mem_queueOf.mpr (delegation_of_mem_schedule member)
      simp only [twin, queued, true_and]
    · exact fun e' => answer_zero_of_left searches
        (fun a listed eligible enough key => peers a (twin.mpr ⟨mem_queueOf.mpr ⟨listed, eligible, enough⟩, key⟩)) zero
    · refine (peers a member).resolve_right (fun never => ?_)
      obtain ⟨counts, key⟩ := twin.mp member
      obtain ⟨e', late, q, queued, rfl, full⟩ := admitted_in_the_end counts never (le_max_right e a.requestedEpoch)
      have idle := (answer_eq_zero_iff searches _ _ _).mp (stays e' (le_of_max_le_left late)) q queued key
      have large := (mem_queueOf.mp counts).2.2
      have positive : 0 < MIN_DELEGATION_SAT := by decide
      omega

/-- An exit before the budget came round, with a record added later. -/
theorem exit_final_past_added_record : let front : Delegation := ⟨0, 0, 2 * MIN_CHURN_SAT, 1, none, true⟩
    let leaver : Delegation := ⟨1, 1, MIN_CHURN_SAT, 1, some 2, true⟩
    let added : Delegation := ⟨2, 1, MIN_CHURN_SAT, 5, none, true⟩
    activatedSat firstMatch (resolve [front, leaver, added] 9) leaver = 0 := by
  intro front leaver added
  exact ((delegation_history_causal [front, leaver] 2).2.2 firstMatch firstMatch_searches leaver
    (by decide) (by decide) [added] (by decide) (by decide +kernel)).2.1 (by decide) 9 (by decide)

/-- The same delegation made twice, one of them withdrawn before the budget came
round: once the other is in, both are reported to be. -/
theorem exit_undone_by_twin : let front : Delegation := ⟨0, 0, 2 * MIN_CHURN_SAT, 1, none, true⟩
    let leaver : Delegation := ⟨1, 1, MIN_CHURN_SAT, 1, some 2, true⟩
    let twin : Delegation := ⟨1, 1, MIN_CHURN_SAT, 1, none, true⟩
    leaver.Left 2 ∧ ∀ search, Searches search →
      activatedSat search (resolve [front, leaver, twin] 2) leaver = 0 ∧
      activatedSat search (resolve [front, leaver, twin] 3) leaver = MIN_CHURN_SAT := by
  intro front leaver twin
  refine ⟨by decide, ?_⟩
  intro search searches
  have after : ∀ q ∈ (schedule [front, leaver, twin] 3).queue,
      q.delegation.queueKey = leaver.queueKey → q.activated = 0 ∨ q.activated = MIN_CHURN_SAT := by
    decide +kernel
  have some_ : ∃ q ∈ (schedule [front, leaver, twin] 3).queue,
      q.delegation.queueKey = leaver.queueKey ∧ q.activated = MIN_CHURN_SAT := by decide +kernel
  constructor
  · exact (answer_eq_zero_iff searches _ _ leaver).mpr (by decide +kernel)
  · rcases answer_cases searches [front, leaver, twin] 3 leaver with ⟨-, idle⟩ | ⟨q, member, key, positive, answer⟩
    · obtain ⟨q, member, key, held⟩ := some_
      have zero := idle q member key
      rw [held] at zero
      cases zero
    · rw [answer]
      exact (after q member key).resolve_left positive.ne'

end

end Registry

end BlochPos
