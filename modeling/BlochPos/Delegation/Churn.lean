import BlochPos.Delegation

/-! The churn limit. Stake enters and leaves consensus by at most the budget of an epoch, and a
queue everybody leaves runs dry. -/
namespace BlochPos

open SortedMap

variable {d : Delegation} {e : ℕ}

/-- Asked for by the epoch, and not left. -/
def Delegation.Open (d : Delegation) (e : ℕ) : Prop :=
  d.requestedEpoch ≤ e ∧ ∀ de ∈ d.deactivateEpoch, e < de
deriving Decidable

def Delegation.Left (d : Delegation) (e : ℕ) : Prop := ∃ de ∈ d.deactivateEpoch, de ≤ e
deriving Decidable

theorem Delegation.Left.mono (left : d.Left e) (later : e ≤ e') : d.Left e' := by
  obtain ⟨de, found, past⟩ := left
  exact ⟨de, found, past.trans later⟩

theorem Delegation.Left.not_open (left : d.Left e) : ¬ d.Open e := by
  obtain ⟨de, found, past⟩ := left
  exact fun still => absurd (still.2 de found) (not_lt.mpr past)

abbrev Delegation.counts (d : Delegation) : Bool := d.eligible && decide (MIN_DELEGATION_SAT ≤ d.amountSat)

namespace Registry

def stakeIn (queue : List Queued) : ℕ := (queue.map Queued.activated).sum

def stakeBehind (v : ℕ) (queue : List Queued) : ℕ :=
  (queue.map (fun q => if q.delegation.validator = v then q.activated else 0)).sum

@[simp] theorem stakeIn_cons (q : Queued) (rest : List Queued) :
    stakeIn (q :: rest) = q.activated + stakeIn rest := by
  simp [stakeIn]

@[simp] theorem stakeIn_append (front rest : List Queued) :
    stakeIn (front ++ rest) = stakeIn front + stakeIn rest := by
  simp [stakeIn]

@[simp] theorem stakeBehind_cons (v : ℕ) (q : Queued) (rest : List Queued) :
    stakeBehind v (q :: rest) = (if q.delegation.validator = v then q.activated else 0) + stakeBehind v rest := by
  simp [stakeBehind]

@[simp] theorem stakeBehind_append (v : ℕ) (front rest : List Queued) :
    stakeBehind v (front ++ rest) = stakeBehind v front + stakeBehind v rest := by
  simp [stakeBehind]

section

variable {e : ℕ} {c : Churn} {q : Queued} {queue : List Queued} {c' : Churn}

theorem admitOne_eq (e budget : ℕ) (c : Churn) (q : Queued) : admitOne e budget c q =
    if e < q.delegation.requestedEpoch ∨ q.delegation.Left e then (c, q)
    else if q.delegation.amountSat - q.activated = 0 ∨ budget ≤ c.used then (c, q)
    else (⟨c.used + min (q.delegation.amountSat - q.activated) (budget - c.used),
        c.totalActive + min (q.delegation.amountSat - q.activated) (budget - c.used),
        c.active.addAt q.delegation.validator (min (q.delegation.amountSat - q.activated) (budget - c.used))⟩,
      { q with activated := q.activated + min (q.delegation.amountSat - q.activated) (budget - c.used) }) := rfl

theorem admitOne_cases (e budget : ℕ) (c : Churn) (q : Queued) : admitOne e budget c q = (c, q) ∨
    ∃ take, q.delegation.Open e ∧ q.activated + take ≤ q.delegation.amountSat ∧ c.used + take ≤ budget ∧
      admitOne e budget c q =
        (⟨c.used + take, c.totalActive + take, c.active.addAt q.delegation.validator take⟩,
          { q with activated := q.activated + take }) := by
  rw [admitOne_eq]
  by_cases closed : e < q.delegation.requestedEpoch ∨ q.delegation.Left e
  · exact .inl (if_pos closed)
  · by_cases done : q.delegation.amountSat - q.activated = 0 ∨ budget ≤ c.used
    · left
      rw [if_neg closed, if_pos done]
    · right
      have free : q.delegation.Open e := by
        simp only [Delegation.Left] at closed
        push Not at closed
        exact closed
      refine ⟨min (q.delegation.amountSat - q.activated) (budget - c.used), free, ?_, ?_, ?_⟩
      · omega
      · omega
      · rw [if_neg closed, if_neg done]

/-- Stakes with some taken from behind a validator, who goes when none is left. -/
def lowered (active : SortedMap ℕ ℕ) (v give : ℕ) : SortedMap ℕ ℕ :=
  match active.get? v with
  | none => active
  | some stake => if stake - give = 0 then active.erase v else active.insert v (stake - give)

theorem getD_lowered (active : SortedMap ℕ ℕ) (v give w : ℕ) :
    (lowered active v give).getD w 0 = active.getD w 0 - if v = w then give else 0 := by
  unfold lowered
  cases found : active.get? v with
  | none =>
    split_ifs with here
    · subst here
      simp [getD, found]
    · rfl
  | some stake =>
    simp only [getD]
    by_cases here : v = w
    · subst here
      simp only [found, if_true, Option.getD_some]
      split_ifs with gone
      · simp [get?_erase, gone]
      · simp
    · have other : w ≠ v := Ne.symm here
      simp only [if_neg here, Nat.sub_zero]
      split_ifs
      · rw [get?_erase, if_neg other]
      · rw [get?_insert_of_ne _ _ other]

theorem releaseOne_eq (e budget : ℕ) (c : Churn) (q : Queued) : releaseOne e budget c q =
    if ¬ q.delegation.Left e ∨ q.activated = 0 ∨ budget ≤ c.used then (c, q)
    else (⟨c.used + min q.activated (budget - c.used), c.totalActive - min q.activated (budget - c.used),
        lowered c.active q.delegation.validator (min q.activated (budget - c.used))⟩,
      { q with activated := q.activated - min q.activated (budget - c.used) }) := by
  cases asked : q.delegation.deactivateEpoch with
  | none =>
    have stays : ¬ q.delegation.Left e := by simp [Delegation.Left, asked]
    simp only [releaseOne, asked, if_pos (Or.inl stays)]
  | some de =>
    have left : q.delegation.Left e ↔ de ≤ e := by simp [Delegation.Left, asked]
    simp only [releaseOne, asked, left, not_le]
    rfl

theorem releaseOne_cases (e budget : ℕ) (c : Churn) (q : Queued) :
    (releaseOne e budget c q = (c, q) ∧ (q.delegation.Left e → q.activated = 0 ∨ budget ≤ c.used)) ∨
    ∃ give active, q.delegation.Left e ∧ give ≤ q.activated ∧ c.used + give ≤ budget ∧
      (q.activated - give = 0 ∨ budget ≤ c.used + give) ∧
      (∀ v, active.getD v 0 = c.active.getD v 0 - if q.delegation.validator = v then give else 0) ∧
      releaseOne e budget c q =
        (⟨c.used + give, c.totalActive - give, active⟩, { q with activated := q.activated - give }) := by
  rw [releaseOne_eq]
  by_cases held : ¬ q.delegation.Left e ∨ q.activated = 0 ∨ budget ≤ c.used
  · left
    refine ⟨if_pos held, ?_⟩
    intro left
    exact held.resolve_left (not_not_intro left)
  · right
    have left : q.delegation.Left e := by
      by_contra stays
      exact held (.inl stays)
    exact ⟨min q.activated (budget - c.used), _, left, by omega, by omega, by omega,
      getD_lowered c.active q.delegation.validator _, if_neg held⟩

/-- The totals are those of the queue. -/
structure Totals (c : Churn) (queue : List Queued) : Prop where
  total : c.totalActive = stakeIn queue
  stakes : ∀ v, c.active.getD v 0 = stakeBehind v queue

/-- What each step keeps, between those passed and those to come, a pass keeps. -/
theorem pass_keeps (R : Churn → List Queued → Prop)
    (each : ∀ c front q rest, R c (front ++ q :: rest) → R (step c q).1 (front ++ (step c q).2 :: rest))
    (front : List Queued) (start : R c (front ++ queue)) :
    R (pass step c queue).1 (front ++ (pass step c queue).2) := by
  induction queue generalizing c front with
  | nil => exact start
  | cons q rest ih =>
    have next := each c front q rest start
    rw [List.append_cons] at next
    have last := ih _ next
    rwa [← List.append_cons] at last

theorem pass_all {P : Queued → Prop} (each : ∀ c q, P q → P (step c q).2) (all : ∀ q ∈ queue, P q) :
    ∀ q ∈ (pass step c queue).2, P q := by
  induction queue generalizing c with
  | nil => exact all
  | cons q rest ih =>
    intro q' member
    rcases List.mem_cons.mp member with rfl | later
    · exact each c q (all q List.mem_cons_self)
    · exact ih (fun q among => all q (List.mem_cons_of_mem _ among)) q' later

theorem map_delegation_pass (same : ∀ c q, (step c q).2.delegation = q.delegation) (queue : List Queued)
    (c : Churn) : (pass step c queue).2.map Queued.delegation = queue.map Queued.delegation := by
  induction queue generalizing c with
  | nil => rfl
  | cons q rest ih => simp only [pass, List.map_cons, same, ih]

theorem delegation_admitOne (e budget : ℕ) (c : Churn) (q : Queued) :
    (admitOne e budget c q).2.delegation = q.delegation := by
  rcases admitOne_cases e budget c q with idle | ⟨take, -, -, -, taken⟩
  · rw [idle]
  · rw [taken]

theorem delegation_releaseOne (e budget : ℕ) (c : Churn) (q : Queued) :
    (releaseOne e budget c q).2.delegation = q.delegation := by
  rcases releaseOne_cases e budget c q with ⟨idle, -⟩ | ⟨give, active, -, -, -, -, -, given⟩
  · rw [idle]
  · rw [given]

/-- The totals are those of the queue, and nothing is in beyond its amount. -/
structure Balanced (s : Schedule) : Prop where
  total : s.totalActive = stakeIn s.queue
  stakes : ∀ v, s.active.getD v 0 = stakeBehind v s.queue
  amounts : ∀ q ∈ s.queue, q.activated ≤ q.delegation.amountSat

theorem admitOne_amount (e budget : ℕ) (c : Churn) (q : Queued)
    (within : q.activated ≤ q.delegation.amountSat) :
    (admitOne e budget c q).2.activated ≤ (admitOne e budget c q).2.delegation.amountSat := by
  rcases admitOne_cases e budget c q with idle | ⟨take, -, bound, -, taken⟩
  · rw [idle]
    exact within
  · rw [taken]
    exact bound

theorem releaseOne_amount (e budget : ℕ) (c : Churn) (q : Queued)
    (within : q.activated ≤ q.delegation.amountSat) :
    (releaseOne e budget c q).2.activated ≤ (releaseOne e budget c q).2.delegation.amountSat := by
  rcases releaseOne_cases e budget c q with ⟨idle, -⟩ | ⟨give, active, -, -, -, -, -, given⟩
  · rw [idle]
    exact within
  · rw [given]
    exact (Nat.sub_le _ _).trans within

def admitPass (s : Schedule) (e : ℕ) : Churn × List Queued :=
  pass (admitOne e (churnBudget e s.totalActive)) ⟨0, s.totalActive, s.active⟩ s.queue

def releasePass (s : Schedule) (e : ℕ) : Churn × List Queued :=
  pass (releaseOne e (churnBudget e s.totalActive))
    ⟨0, (admitPass s e).1.totalActive, (admitPass s e).1.active⟩ (admitPass s e).2

theorem advance_eq (s : Schedule) (e : ℕ) :
    advance s e = ⟨(releasePass s e).1.totalActive, (releasePass s e).1.active, (releasePass s e).2⟩ := rfl

theorem Balanced.admitted (balanced : Balanced s) (e : ℕ) : let (c, queue) := admitPass s e
    Totals c queue ∧ c.totalActive = s.totalActive + c.used ∧ c.used ≤ churnBudget e s.totalActive := by
  refine pass_keeps (fun c queue => Totals c queue ∧ c.totalActive = s.totalActive + c.used ∧
    c.used ≤ churnBudget e s.totalActive) (fun c front q rest held => ?_) []
    ⟨⟨balanced.total, balanced.stakes⟩, rfl, Nat.zero_le _⟩
  rcases admitOne_cases e (churnBudget e s.totalActive) c q with idle | ⟨take, -, -, within, taken⟩
  · rwa [idle]
  · obtain ⟨⟨total, stakes⟩, grown, -⟩ := held
    rw [taken]
    refine ⟨⟨?_, fun v => ?_⟩, by dsimp only; omega, within⟩
    · simp only [stakeIn_append, stakeIn_cons] at *
      omega
    · simp only [getD_addAt, stakeBehind_append, stakeBehind_cons, stakes v, eq_comm (a := v)]
      split_ifs <;> omega

theorem Balanced.released (balanced : Balanced s) (e : ℕ) : let (c, queue) := releasePass s e
    Totals c queue ∧ c.totalActive + c.used = (admitPass s e).1.totalActive ∧
      c.used ≤ churnBudget e s.totalActive := by
  have start := (balanced.admitted e).1
  refine pass_keeps (fun c queue => Totals c queue ∧ c.totalActive + c.used = (admitPass s e).1.totalActive ∧
    c.used ≤ churnBudget e s.totalActive) (fun c front q rest held => ?_) []
    ⟨⟨start.total, start.stakes⟩, rfl, Nat.zero_le _⟩
  rcases releaseOne_cases e (churnBudget e s.totalActive) c q with
    ⟨idle, -⟩ | ⟨give, active, -, bound, within, -, lower, given⟩
  · rwa [idle]
  · obtain ⟨⟨total, stakes⟩, left, -⟩ := held
    rw [given]
    simp only [stakeIn_append, stakeIn_cons] at total
    refine ⟨⟨?_, fun v => ?_⟩, by dsimp only; omega, within⟩
    · simp only [stakeIn_append, stakeIn_cons]
      omega
    · simp only [lower, stakes v, stakeBehind_append, stakeBehind_cons]
      split_ifs <;> omega

theorem Balanced.advance (balanced : Balanced s) (e : ℕ) : Balanced (Registry.advance s e) :=
  ⟨(balanced.released e).1.total, (balanced.released e).1.stakes,
    pass_all (releaseOne_amount e _) (pass_all (admitOne_amount e _) balanced.amounts)⟩

theorem Balanced.churn (balanced : Balanced s) (e : ℕ) :
    ∃ admitted released, admitted ≤ churnBudget e s.totalActive ∧ released ≤ churnBudget e s.totalActive ∧
      (Registry.advance s e).totalActive + released = s.totalActive + admitted := by
  obtain ⟨-, grown, bound⟩ := balanced.admitted e
  obtain ⟨-, left, bound'⟩ := balanced.released e
  exact ⟨_, _, bound, bound', left.trans grown⟩

theorem map_delegation_advance (s : Schedule) (e : ℕ) :
    (Registry.advance s e).queue.map Queued.delegation = s.queue.map Queued.delegation := by
  simp only [Registry.advance, map_delegation_pass (delegation_releaseOne e _),
    map_delegation_pass (delegation_admitOne e _)]

theorem admitOne_left (left : q.delegation.Left e) (budget : ℕ) (c : Churn) : admitOne e budget c q = (c, q) := by
  rcases admitOne_cases e budget c q with idle | ⟨take, free, -⟩
  · exact idle
  · exact absurd free left.not_open

theorem admit_left (left : ∀ q ∈ queue, q.delegation.Left e) (c : Churn) :
    pass (admitOne e budget) c queue = (c, queue) := by
  induction queue with
  | nil => rfl
  | cons q rest ih =>
    simp only [pass, admitOne_left (left q List.mem_cons_self),
      ih (fun q among => left q (List.mem_cons_of_mem _ among))]

theorem release_left (budget : ℕ) (left : ∀ q ∈ queue, q.delegation.Left e) (c : Churn) :
    stakeIn (pass (releaseOne e budget) c queue).2 = 0 ∨
      budget ≤ (pass (releaseOne e budget) c queue).1.used := by
  induction queue generalizing c with
  | nil => exact .inl rfl
  | cons q rest ih =>
    have gone := left q List.mem_cons_self
    have later (c : Churn) := ih (fun q among => left q (List.mem_cons_of_mem _ among)) c
    -- Once the budget is used up it stays so.
    have full {c : Churn} (used : budget ≤ c.used) : budget ≤ (pass (releaseOne e budget) c rest).1.used := by
      refine pass_keeps (fun c _ => budget ≤ c.used) (fun c _ q _ used => ?_) [] used
      rwa [releaseOne_eq, if_pos (.inr (.inr used))]
    simp only [pass, stakeIn_cons]
    rcases releaseOne_cases e budget c q with ⟨idle, done⟩ | ⟨give, active, -, -, -, done, -, given⟩
    · simp only [idle]
      rcases done gone with empty | used
      · exact (later c).imp_left (fun rest => by omega)
      · exact .inr (full used)
    · simp only [given]
      rcases done with empty | used
      · exact (later ⟨c.used + give, _, _⟩).imp_left (fun rest => by omega)
      · exact .inr (full (c := ⟨c.used + give, _, _⟩) used)

theorem Balanced.drains (balanced : Balanced s) (left : ∀ q ∈ s.queue, q.delegation.Left e) :
    (Registry.advance s e).totalActive = 0 ∨
      (Registry.advance s e).totalActive + churnBudget e s.totalActive ≤ s.totalActive := by
  have still : admitPass s e = (⟨0, s.totalActive, s.active⟩, s.queue) := admit_left left _
  obtain ⟨totals, used, -⟩ := balanced.released e
  have released := release_left (churnBudget e s.totalActive) left ⟨0, s.totalActive, s.active⟩
  have total := totals.total
  rw [advance_eq]
  simp only [releasePass, still] at *
  omega

end

section

variable {delegations : List Delegation}

def opening (delegations : List Delegation) : Schedule :=
  ⟨0, .empty, (queueOf delegations).map (fun d => ⟨d, 0⟩)⟩

theorem schedule_succ (delegations : List Delegation) (e : ℕ) :
    schedule delegations (e + 1) = advance (schedule delegations e) (e + 1) := by
  rw [schedule, List.range_succ, List.foldl_append]
  rfl

theorem schedule_invariant {P : Schedule → Prop} (start : P (opening delegations))
    (keeps : ∀ s e, P s → P (advance s e)) (e : ℕ) : P (schedule delegations e) := by
  induction e with
  | zero => exact keeps _ 0 start
  | succ e ih =>
    rw [schedule_succ]
    exact keeps _ _ ih

theorem map_delegation_schedule (delegations : List Delegation) (e : ℕ) :
    (schedule delegations e).queue.map Queued.delegation = queueOf delegations := by
  apply schedule_invariant (P := fun s => s.queue.map Queued.delegation = queueOf delegations)
  · simp [opening, Function.comp_def]
  · intro s e same
    rw [map_delegation_advance, same]

theorem schedule_balanced (delegations : List Delegation) (e : ℕ) : Balanced (schedule delegations e) := by
  apply schedule_invariant
  · constructor
    · simp [opening, stakeIn, Function.comp_def]
    · intro v
      simp [opening, stakeBehind, Function.comp_def, getD]
    · intro q member
      obtain ⟨d, -, rfl⟩ := List.mem_map.mp member
      exact Nat.zero_le _
  · exact fun s e balanced => balanced.advance e

theorem mem_queueOf :
    d ∈ queueOf delegations ↔ d ∈ delegations ∧ d.eligible = true ∧ MIN_DELEGATION_SAT ≤ d.amountSat := by
  simp [queueOf, List.mem_insertionSort]

theorem delegation_of_mem_schedule (member : q ∈ (schedule delegations e).queue) :
    q.delegation ∈ delegations ∧ q.delegation.eligible = true ∧ MIN_DELEGATION_SAT ≤ q.delegation.amountSat := by
  rw [← mem_queueOf, ← map_delegation_schedule delegations e]
  exact List.mem_map_of_mem member

theorem min_le_churnBudget (e total : ℕ) : MIN_CHURN_SAT ≤ churnBudget (e + 1) total := by
  simp [churnBudget]

/-- From an epoch all have left by, each epoch lets out the minimum until nothing
is in. -/
theorem drained (left : ∀ d ∈ delegations, d.eligible = true → d.Left last) (n : ℕ) :
    (schedule delegations (last + n)).totalActive = 0 ∨
      (schedule delegations (last + n)).totalActive + n * MIN_CHURN_SAT ≤
        (schedule delegations last).totalActive := by
  induction n with
  | zero => exact .inr (by simp)
  | succ n ih =>
    have gone : ∀ q ∈ (schedule delegations (last + n)).queue, q.delegation.Left (last + n + 1) := by
      intro q member
      obtain ⟨among, eligible, -⟩ := delegation_of_mem_schedule member
      exact (left _ among eligible).mono (by omega)
    have least := min_le_churnBudget (last + n) (schedule delegations (last + n)).totalActive
    rw [← Nat.add_assoc, schedule_succ, Nat.succ_mul]
    rcases (schedule_balanced delegations (last + n)).drains gone with empty | drops
    · exact .inl empty
    · omega

/-- The churn limit. Between two epochs the stake in consensus changes by at most
the budget, either way; and if all have asked to leave, it comes to nothing. -/
theorem delegation_churn_bounded (delegations : List Delegation) :
    (∀ e, let total := fun e => (resolve delegations e).totalActive
      let budget := max (total e * WARMUP_RATE_BPS / 10000) MIN_CHURN_SAT
      total (e + 1) - total e ≤ budget ∧ total e - total (e + 1) ≤ budget) ∧
    ((∀ d ∈ delegations, d.eligible = true → d.deactivateEpoch ≠ none) →
      ∃ last, ∀ e, last ≤ e → (resolve delegations e).totalActive = 0) := by
  constructor
  · intro e total budget
    obtain ⟨admitted, released, most, most', moved⟩ := (schedule_balanced delegations e).churn (e + 1)
    rw [← schedule_succ] at moved
    have limit : churnBudget (e + 1) (schedule delegations e).totalActive = budget := if_neg (Nat.succ_ne_zero e)
    have here : total e = (schedule delegations e).totalActive := rfl
    have next : total (e + 1) = (schedule delegations (e + 1)).totalActive := rfl
    omega
  · intro asked
    let last := (delegations.map (fun d => d.deactivateEpoch.getD 0)).sum
    have left : ∀ d ∈ delegations, d.eligible = true → d.Left last := by
      intro d member eligible
      obtain ⟨de, found⟩ := Option.ne_none_iff_exists'.mp (asked d member eligible)
      refine ⟨de, found, ?_⟩
      have among : de ∈ delegations.map (fun d => d.deactivateEpoch.getD 0) :=
        List.mem_map.mpr ⟨d, member, by simp [found]⟩
      exact List.le_sum_of_mem among
    refine ⟨last + (schedule delegations last).totalActive + 1, ?_⟩
    intro e late
    obtain ⟨n, rfl⟩ := Nat.exists_eq_add_of_le (show last ≤ e by omega)
    have many : (schedule delegations last).totalActive < n := by omega
    have enough : n ≤ n * MIN_CHURN_SAT := Nat.le_mul_of_pos_right n (by decide)
    rcases drained left n with empty | drops
    · exact empty
    · omega

end

/-- A delegation that asks to leave, beside one that does not count. -/
theorem churn_of_a_leaver :
    ∃ last, ∀ e, last ≤ e → (resolve [⟨0, 0, MIN_CHURN_SAT, 1, some 2, true⟩,
      ⟨1, 0, MIN_CHURN_SAT, 1, none, false⟩] e).totalActive = 0 := by
  apply (delegation_churn_bounded _).2
  decide

end Registry

end BlochPos
