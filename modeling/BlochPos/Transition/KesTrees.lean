import BlochPos.Transition.KesHistory

/-! Which key trees a validator may bring. -/
namespace BlochPos

open Attempt List Option

theorem KesPublic.startPeriod_lt_endPeriod {k : KesPublic} (small : k.startPeriod < u64Max) :
    k.startPeriod < k.endPeriod := by
  have some_ : 0 < k.periods := Nat.two_pow_pos _
  simp only [KesPublic.endPeriod, satAdd]
  omega

namespace KesEntry

variable {e : KesEntry} {q q₀ : ℕ} {tree : ℕ × Bytes32} {r : RetiredKes}

def trees (e : KesEntry) : List (ℕ × Bytes32) :=
  e.current.tree :: (e.next.toList.map KesPublic.tree ++ e.retired.map (fun r => r.publicKey.tree))

/-- The current key has the tree, and a successor has replaced it within the history. -/
def Replaced (q : ℕ) (tree : ℕ × Bytes32) (e : KesEntry) : Prop :=
  e.current.tree = tree ∧ ∃ next ∈ e.next, q - KES_KEY_HISTORY_PERIODS < next.startPeriod

/-- No retired key reaches beyond a period. -/
def RetiredBy (q : ℕ) (e : KesEntry) : Prop := ∀ r ∈ e.retired, r.endPeriod ≤ q

theorem RetiredBy.mono (retired : e.RetiredBy q) (later : q ≤ q') : e.RetiredBy q' :=
  fun r among => (retired r among).trans later

theorem inForce_of_retiredBy (retired : e.RetiredBy q) :
    e.inForce q = (e.next.filter (fun next => next.startPeriod ≤ q)).getD e.current := by
  have uncovered : e.retired.reverse.find? (fun r => r.covers q) = none := by
    rw [find?_eq_none]
    intro r among covers
    have ended := retired r (mem_reverse.mp among)
    simp only [RetiredKes.covers, decide_eq_true_eq] at covers
    omega
  unfold inForce
  cases e.next.filter (fun next => next.startPeriod ≤ q) with
  | some next => rfl
  | none =>
    rw [uncovered]
    exact ite_self _

theorem current_settled (e : KesEntry) (q : ℕ) :
    (e.settled q).current = (e.next.filter (fun next => next.startPeriod ≤ q)).getD e.current := by
  unfold settled
  cases e.next.filter (fun next => next.startPeriod ≤ q) <;> rfl

theorem mem_retired_settled : r ∈ (e.settled q).retired ↔
    (r ∈ e.retired ∨ ∃ next ∈ e.next, next.startPeriod ≤ q ∧ r = ⟨e.current, next.startPeriod⟩) ∧
      q - KES_KEY_HISTORY_PERIODS < r.endPeriod := by
  unfold settled prune
  cases found : e.next with
  | none => simp
  | some next =>
    by_cases started : next.startPeriod ≤ q <;> simp [Option.filter, started, or_and_right]

theorem mem_retired_replacedBy : r ∈ (e.replacedBy fresh q).retired ↔ (r ∈ e.retired ∨
      (∃ next ∈ e.next, r = ⟨e.current, next.startPeriod⟩ ∨ r = ⟨next, min next.endPeriod fresh.startPeriod⟩) ∨
      (e.next = none ∧ r = ⟨e.current, min e.current.endPeriod fresh.startPeriod⟩)) ∧
      q - KES_KEY_HISTORY_PERIODS < r.endPeriod := by
  unfold replacedBy prune
  cases e.next <;> simp [or_and_right]

theorem RetiredBy.settled (retired : e.RetiredBy q) : (e.settled q).RetiredBy q := by
  intro r among
  obtain ⟨among | ⟨next, -, started, rfl⟩, -⟩ := mem_retired_settled.mp among
  · exact retired r among
  · exact started

theorem Install.pendingAt_eq_none (install : Install bound q tree (some e) e') : e.pendingAt q = none := by
  cases install with
  | rescue _ _ _ idle => exact idle
  | rotation _ _ idle =>
    have none_ := next_eq_none_of_pendingAt idle
    simp only [settled, prune] at none_
    cases due : e.next.filter (fun next => next.startPeriod ≤ q) with
    | none =>
      simp only [due] at none_
      rw [pendingAt, none_]
      rfl
    | some next =>
      obtain ⟨found, started⟩ := filter_eq_some_iff.mp due
      simpa [pendingAt, found, Option.filter] using started

theorem started_of_pendingAt (idle : e.pendingAt q = none) {next : KesPublic} (found : e.next = some next) :
    next.startPeriod ≤ q := by
  simpa [pendingAt, found, Option.filter] using idle

theorem next_settled_of_pendingAt (idle : e.pendingAt q = none) : (e.settled q).next = none := by
  unfold settled prune
  cases found : e.next with
  | none => simp [found]
  | some next => simp [Option.filter, started_of_pendingAt idle found]

theorem Install.mem_trees_iff (install : Install bound q tree (some e) e') (retired : e.RetiredBy q) :
    tree ∈ (e.settled q).trees ↔ e.Replaced q tree := by
  have idle := install.pendingAt_eq_none
  have noNext := next_settled_of_pendingAt idle
  have members : tree ∈ (e.settled q).trees ↔
      (e.settled q).current.tree = tree ∨ ∃ r ∈ (e.settled q).retired, r.publicKey.tree = tree := by
    simp [trees, noNext, eq_comm]
  have replaced : e.Replaced q tree → ∃ r ∈ (e.settled q).retired, r.publicKey.tree = tree := by
    rintro ⟨same, next, found, recent⟩
    exact ⟨_, mem_retired_settled.mpr
      ⟨.inr ⟨next, found, started_of_pendingAt idle found, rfl⟩, recent⟩, same⟩
  rw [members]
  cases install with
  | rotation _ _ _ inForce unretired =>
    have current : ((e.settled q).inForce q) = (e.settled q).current := by
      rw [inForce_of_retiredBy retired.settled, noNext]
      rfl
    rw [current] at inForce
    constructor
    · rintro (same | ⟨r, among, same⟩)
      · exact absurd same inForce
      · exact absurd same (unretired r among)
    · intro revived
      obtain ⟨r, among, same⟩ := replaced revived
      exact absurd same (unretired r among)
  | rescue _ _ _ _ inForce next unretired =>
    rw [inForce_of_retiredBy retired, ← current_settled] at inForce
    constructor
    · rintro (same | ⟨r, among, same⟩)
      · exact absurd (congrArg Prod.snd same) inForce
      · obtain ⟨among | ⟨next, found, -, rfl⟩, recent⟩ := mem_retired_settled.mp among
        · exact absurd (congrArg Prod.snd same) (unretired r among)
        · exact ⟨same, next, found, recent⟩
    · exact fun revived => .inr (replaced revived)

theorem Install.retiredBy (install : Install bound q tree old e')
    (retired : ∀ e, old = some e → e.RetiredBy q) : e'.RetiredBy q := by
  cases install with
  | first => exact fun r among => nomatch among
  | @rotation e next => exact (retired e rfl).settled
  | @rescue e fresh _ _ expired idle =>
    rw [inForce_of_retiredBy (retired e rfl)] at expired
    intro r among
    obtain ⟨among | ⟨next, found, replaced⟩ | ⟨found, rfl⟩, -⟩ := mem_retired_replacedBy.mp among
    · exact retired e rfl r among
    · have started := started_of_pendingAt idle found
      rw [mem_def] at found
      simp only [found, Option.filter, started, decide_true, if_true, getD_some] at expired
      rcases replaced with rfl | rfl
      · exact started
      · exact (min_le_left _ _).trans expired
    · simp only [found, filter_none, getD_none] at expired
      exact (min_le_left _ _).trans expired

/-- The entry has the tree beyond the period. -/
inductive HeldSince (q₀ : ℕ) (tree : ℕ × Bytes32) (e : KesEntry) : Prop where
  | next {key : KesPublic} (found : e.next = some key) (same : key.tree = tree) (ends : q₀ < key.endPeriod)
  | current (same : e.current.tree = tree) (ends : q₀ < e.current.endPeriod)
      (replaced : ∀ next ∈ e.next, q₀ < next.startPeriod)
  | retired {r : RetiredKes} (among : r ∈ e.retired) (same : r.publicKey.tree = tree) (ends : q₀ < r.endPeriod)

theorem HeldSince.settled (held : HeldSince q₀ tree e) (recent : q ≤ q₀ + KES_KEY_HISTORY_PERIODS)
    (idle : e.pendingAt q = none) :
    (e.settled q).current.tree = tree ∧ q₀ < (e.settled q).current.endPeriod ∨
      ∃ r ∈ (e.settled q).retired, r.publicKey.tree = tree ∧ q₀ < r.endPeriod := by
  have kept {r : RetiredKes} (ends : q₀ < r.endPeriod) : q - KES_KEY_HISTORY_PERIODS < r.endPeriod := by omega
  rw [current_settled]
  cases held with
  | @next key found same ends =>
    left
    simpa [found, Option.filter, started_of_pendingAt idle found] using And.intro same ends
  | current same ends replaced =>
    cases found : e.next with
    | none => exact .inl ⟨same, ends⟩
    | some next =>
      right
      have later := replaced next found
      exact ⟨_, mem_retired_settled.mpr
        ⟨.inr ⟨next, found, started_of_pendingAt idle found, rfl⟩, kept later⟩, same, later⟩
  | @retired r among same ends => exact .inr ⟨r, mem_retired_settled.mpr ⟨.inl among, kept ends⟩, same, ends⟩

theorem Install.replaced_of_heldSince (install : Install bound q tree (some e) e') (retired : e.RetiredBy q)
    (held : HeldSince q₀ tree e) (recent : q ≤ q₀ + KES_KEY_HISTORY_PERIODS) : e.Replaced q tree := by
  rw [← install.mem_trees_iff retired]
  rcases held.settled recent install.pendingAt_eq_none with ⟨same, -⟩ | ⟨r, among, same, -⟩
  · exact mem_cons.mpr (.inl same.symm)
  · exact mem_cons_of_mem _ (mem_append_right _ (mem_map.mpr ⟨r, among, same⟩))

theorem HeldSince.install (before : HeldSince q₀ held e)
    (install : Install bound q tree (some e) e') (recent : q ≤ q₀ + KES_KEY_HISTORY_PERIODS)
    (past : q₀ ≤ q) : HeldSince q₀ held e' := by
  have idle := install.pendingAt_eq_none
  cases install with
  | @rotation _ next _ starts =>
    rcases before.settled recent idle with ⟨same, ends⟩ | ⟨r, among, same, ends⟩
    · refine .current same ends (fun key found => ?_)
      cases found
      omega
    · exact .retired among same ends
  | @rescue _ fresh _ starts =>
    rw [KES_RESCUE_DELAY_PERIODS] at starts
    have kept {ends : ℕ} (later : q₀ < ends) : q - KES_KEY_HISTORY_PERIODS < ends := by omega
    cases before with
    | @next key found same ends =>
      have later : q₀ < min key.endPeriod fresh.startPeriod := lt_min ends (by omega)
      exact .retired (mem_retired_replacedBy.mpr ⟨.inr (.inl ⟨key, found, .inr rfl⟩), kept later⟩) same later
    | current same ends replaced =>
      cases found : e.next with
      | none =>
        have later : q₀ < min e.current.endPeriod fresh.startPeriod := lt_min ends (by omega)
        exact .retired (mem_retired_replacedBy.mpr ⟨.inr (.inr ⟨found, rfl⟩), kept later⟩) same later
      | some key =>
        have later := replaced key found
        exact .retired (mem_retired_replacedBy.mpr ⟨.inr (.inl ⟨key, found, .inl rfl⟩), kept later⟩) same later
    | @retired r among same ends =>
      exact .retired (mem_retired_replacedBy.mpr ⟨.inl among, kept ends⟩) same ends

theorem Install.heldSince (install : Install true q tree old e') (small : q < 2 ^ 59)
    (past : q₀ ≤ q) : HeldSince q₀ tree e' := by
  have ends {k : KesPublic} (starts : k.startPeriod = q + 1 ∨ k.startPeriod = q + KES_RESCUE_DELAY_PERIODS) :
      q₀ < k.endPeriod := by
    rw [KES_RESCUE_DELAY_PERIODS] at starts
    have grows := KesPublic.startPeriod_lt_endPeriod (k := k) (by simp only [u64Max]; omega)
    omega
  cases install with
  | first brings starts => exact .current brings (ends (.inl (starts rfl))) (by simp [ofPublic])
  | rescue brings starts => exact .current brings (ends (.inr starts)) (by simp [replacedBy, prune])
  | rotation brings starts => exact .next rfl brings (ends (.inl starts))

theorem heldSince_of_covers (small : q₀ < u64Max)
    (inUse : (k = e.inForce q₀ ∧ (k.leafIndex q₀).isSome = true) ∨ e.pendingAt q₀ = some k) :
    HeldSince q₀ k.tree e := by
  rcases inUse with ⟨rfl, covers⟩ | pending
  · have ends := KesPublic.lt_endPeriod covers small
    cases due : e.next.filter (fun next => next.startPeriod ≤ q₀) with
    | some next =>
      obtain ⟨found, started⟩ := filter_eq_some_iff.mp due
      have here := inForce_of_started found (of_decide_eq_true started)
      exact .next found (by rw [here]) (here ▸ ends)
    | none =>
      have waiting : ∀ next, e.next = some next → q₀ < next.startPeriod := by
        intro next found
        simpa [found, Option.filter] using due
      have here := inForce_of_waiting waiting
      split_ifs at here with started
      · exact .current (by rw [here]) (here ▸ ends) waiting
      · cases found : e.retired.reverse.find? (fun r => r.covers q₀) with
        | none =>
          rw [found] at here
          rw [here] at covers
          exact absurd (KesPublic.start_le_of_leafIndex covers).1 started
        | some r =>
          rw [found] at here
          have range := find?_some found
          simp only [RetiredKes.covers, decide_eq_true_eq] at range
          exact .retired (mem_reverse.mp (mem_of_find?_eq_some found)) (congrArg _ here.symm) range.2
  · obtain ⟨found, later⟩ := filter_eq_some_iff.mp pending
    exact .next found rfl (lt_min (Nat.lt_add_right _ (of_decide_eq_true later)) small)

end KesEntry

def Event.rotates (v : ℕ) : Event → Bool
  | .transaction (.kesRotate w ..) _ => w = v
  | _ => false

theorem Event.kesTree_of_rotates {event : Event} (turns : event.rotates v = true) :
    (event.kesTree v).isSome = true := by
  unfold rotates at turns
  split at turns
  · simp only [decide_eq_true_eq] at turns
    simp [kesTree, turns]
  · cases turns

def kesTrees (v : ℕ) (events : List Event) : List (ℕ × Bytes32) := events.filterMap (Event.kesTree v)

namespace CommittedState

/-- The tree is the one an entry's current key had before its successor took over. -/
def Revives (g : Gates) (st : CommittedState) (v : ℕ) (tree : ℕ × Bytes32) : Prop :=
  ∃ e ∈ st.kes.get? v, e.Replaced (st.kesPeriod g) tree

/-- An event that brings no validator such a tree. -/
def StepForward (env : Env) (st : CommittedState) (event : Event) (post : CommittedState) : Prop :=
  Step env st event post ∧ ∀ v tree, event.kesTree v = some tree → ¬ st.Revives env.gates v tree

section

variable {env : Env} {st post : CommittedState} {v q₀ : ℕ} {tree : ℕ × Bytes32} {e : KesEntry}

theorem kesPeriod_mono (g : Gates) (later : st.epoch ≤ post.epoch) : st.kesPeriod g ≤ post.kesPeriod g := by
  cases period : g.kesPeriod st.epoch with
  | none =>
    rw [CommittedState.kesPeriod, period]
    exact Nat.zero_le _
  | some q =>
    obtain ⟨q', period', ahead⟩ := Gates.kesPeriod_mono period later
    rw [CommittedState.kesPeriod, CommittedState.kesPeriod, period, period']
    exact ahead

theorem Reachable.retiredBy (reached : Reachable env st) (found : st.kes.get? v = some e) :
    e.RetiredBy (st.kesPeriod env.gates) := by
  have all := reached.invariant (P := fun st => st.epoch < 2 ^ 59 ∧
    ∀ v e, st.kes.get? v = some e → e.RetiredBy (st.kesPeriod env.gates)) ?_ ?_
  · exact all.2 v e found
  · intro start initial
    obtain ⟨gen, -, l2, rfl, -⟩ := initial.eq_genesisState
    exact ⟨Nat.two_pow_pos 59, fun v e found => nomatch found⟩
  · intro s event s' step held
    refine ⟨step.epoch_lt held.1, fun v e found => ?_⟩
    have ahead := kesPeriod_mono env.gates step.epoch_le
    rcases step.kesInstall held.1 v with ⟨-, same⟩ | ⟨tree, entry, -, renewed, install⟩
    · exact (held.2 v e (same ▸ found)).mono ahead
    · rw [renewed, Option.some.injEq] at found
      subst found
      exact (install.retiredBy (held.2 v)).mono ahead

/-- Where forward-secure keys bind, periods are counted. -/
theorem Reachable.kesPeriod_isSome (reached : Reachable env st) (bound : st.kesBound = true) :
    (env.gates.kesPeriod st.epoch).isSome = true := by
  have all := reached.invariant (P := fun st => st.epoch < 2 ^ 59 ∧
    ∀ b, st.kesEnforcedFrom = some b → (env.gates.kesPeriod b).isSome = true) ?_ ?_
  · simp only [kesBound, Option.any_eq_true, decide_eq_true_eq] at bound
    obtain ⟨b, decided, past⟩ := bound
    obtain ⟨q, period⟩ := isSome_iff_exists.mp (all.2 b decided)
    obtain ⟨q', period', -⟩ := Gates.kesPeriod_mono period past
    rw [period']
    rfl
  · intro start initial
    obtain ⟨gen, -, l2, rfl, -⟩ := initial.eq_genesisState
    exact ⟨Nat.two_pow_pos 59, fun b decided => nomatch decided⟩
  · intro s event s' step held
    refine ⟨step.epoch_lt held.1, fun b decided => ?_⟩
    rcases step.kesEnforcedFrom_eq held.1 with same | ⟨-, scheduled, fresh⟩
    · exact held.2 b (same ▸ decided)
    · rw [fresh, Option.some.injEq] at decided
      obtain ⟨q, period⟩ := isSome_iff_exists.mp scheduled
      obtain ⟨q', period', -⟩ := Gates.kesPeriod_mono period (by omega : s.epoch + 1 ≤ b)
      rw [period']
      rfl

theorem Step.kesBound (step : Step env st event post) (small : st.epoch < 2 ^ 59) (bound : st.kesBound = true) :
    post.kesBound = true := by
  simp only [CommittedState.kesBound, Option.any_eq_true, decide_eq_true_eq] at bound ⊢
  obtain ⟨b, decided, past⟩ := bound
  exact ⟨b, kesEnforcedFrom_of_run (.single step) small decided, past.trans step.epoch_le⟩

def HoldsSince (q₀ v : ℕ) (tree : ℕ × Bytes32) (st : CommittedState) : Prop :=
  ∃ e, st.kes.get? v = some e ∧ e.HeldSince q₀ tree

theorem HoldsSince.step (held : HoldsSince q₀ v tree st) (reached : Reachable env st)
    (step : StepForward env st event post) (past : q₀ ≤ st.kesPeriod env.gates)
    (recent : st.kesPeriod env.gates ≤ q₀ + KES_KEY_HISTORY_PERIODS) :
    event.kesTree v ≠ some tree ∧ HoldsSince q₀ v tree post := by
  obtain ⟨e, found, held⟩ := held
  rcases step.1.kesInstall reached.epoch_lt v with ⟨idle, same⟩ | ⟨other, entry, brings, renewed, install⟩
  · rw [idle]
    exact ⟨nofun, e, same.trans found, held⟩
  · rw [found] at install
    refine ⟨?_, entry, renewed, held.install install recent past⟩
    rintro again
    rw [brings, Option.some.injEq] at again
    subst again
    exact step.2 v other brings
      ⟨e, found, install.replaced_of_heldSince (reached.retiredBy found) held recent⟩

theorem HoldsSince.not_mem (held : HoldsSince q₀ v tree st) (reached : Reachable env st)
    (run : Run (StepForward env) st events post) (past : q₀ ≤ st.kesPeriod env.gates)
    (recent : post.kesPeriod env.gates ≤ q₀ + KES_KEY_HISTORY_PERIODS) : tree ∉ kesTrees v events := by
  induction run with
  | nil => exact not_mem_nil
  | @cons s mid post event events step rest ih =>
    have later : Run (Step env) mid events post := rest.mono (fun _ step => step.1)
    have within : s.kesPeriod env.gates ≤ post.kesPeriod env.gates :=
      kesPeriod_mono env.gates (step.1.epoch_le.trans (epoch_le_of_run later))
    obtain ⟨other, still⟩ := held.step reached step past (within.trans recent)
    have rest := ih still (reached.run (.single step.1))
      (past.trans (kesPeriod_mono env.gates step.1.epoch_le)) recent
    unfold kesTrees at rest ⊢
    rw [mem_filterMap] at rest ⊢
    rintro ⟨event', among, brings⟩
    rcases mem_cons.mp among with rfl | later
    · exact other brings
    · exact rest ⟨event', later, brings⟩

/-- Once keys bind, no tree is brought twice within the history. -/
theorem kesTrees_nodup (reached : Reachable env st) (bound : st.kesBound = true)
    (run : Run (StepForward env) st events post)
    (recent : post.kesPeriod env.gates ≤ st.kesPeriod env.gates + KES_KEY_HISTORY_PERIODS) :
    (kesTrees v events).Nodup := by
  induction run with
  | nil => exact nodup_nil
  | @cons s mid post event events step rest ih =>
    have ahead := kesPeriod_mono env.gates step.1.epoch_le
    have reachedMid := reached.run (.single step.1)
    have rest_ := ih reachedMid (step.1.kesBound reached.epoch_lt bound)
      (recent.trans (Nat.add_le_add_right ahead _))
    rcases step.1.kesInstall reached.epoch_lt v with ⟨idle, -⟩ | ⟨tree, entry, brings, renewed, install⟩
    · rw [kesTrees, filterMap_cons_none idle]
      exact rest_
    · rw [kesTrees, filterMap_cons_some brings, nodup_cons]
      refine ⟨?_, rest_⟩
      rw [KesInstall, reached.kesPeriod_isSome bound, bound] at install
      have held : HoldsSince (s.kesPeriod env.gates) v tree mid :=
        ⟨entry, renewed, install.heldSince (kesPeriod_lt reached.epoch_lt _) le_rfl⟩
      exact held.not_mem reachedMid rest ahead recent

theorem kesTrees_of_pending (reached : Reachable env st) (run : Run (Step env) st events post)
    (same : post.kesPeriod env.gates = st.kesPeriod env.gates) (found : st.kes.get? v = some e)
    (pending : e.pendingAt (st.kesPeriod env.gates) ≠ none) : kesTrees v events = [] := by
  induction run with
  | nil => rfl
  | @cons s mid post event events step rest ih =>
    have ahead := kesPeriod_mono env.gates step.epoch_le
    have after := kesPeriod_mono env.gates (epoch_le_of_run rest)
    have here : mid.kesPeriod env.gates = s.kesPeriod env.gates := by omega
    rcases step.kesInstall reached.epoch_lt v with ⟨idle, kept⟩ | ⟨_, _, -, -, install⟩
    · rw [kesTrees, filterMap_cons_none idle]
      exact ih (reached.run (.single step)) (same.trans here.symm) (kept.trans found) (here ▸ pending)
    · rw [found] at install
      exact absurd install.pendingAt_eq_none pending

theorem Step.pending_of_rotates (step : Step env st event post) (small : st.epoch < 2 ^ 59)
    (turns : event.rotates v = true) :
    ∃ e, post.kes.get? v = some e ∧ e.pendingAt (st.kesPeriod env.gates) ≠ none := by
  have low := kesPeriod_lt small env.gates
  unfold Event.rotates at turns
  split at turns
  next w period depth root signature charge =>
    rw [decide_eq_true_eq] at turns
    subst turns
    cases step with
    | transaction applied =>
      cases accepted_of_applyTransaction applied with
      | bridge kind => cases kind
      | kesRotate planned =>
        simp only [planKesRotate, checkKesRotate, ok_iff, not_or, ne_eq, not_not] at planned
        obtain ⟨-, ⟨here, -⟩, old, -, -, -, -, -, -, -, rfl⟩ := planned
        have counted : st.kesPeriod env.gates = period := kesPeriod_eq here
        rw [counted] at low
        have later : period < satAdd u64Max period 1 := by
          simp only [satAdd, u64Max]
          omega
        refine ⟨_, SortedMap.get?_insert_self .., ?_⟩
        simp [counted, KesEntry.pendingAt, Option.filter, later]
  next => cases turns

theorem rotations_le_one (reached : Reachable env st) (run : Run (Step env) st events post)
    (same : post.kesPeriod env.gates = st.kesPeriod env.gates) :
    events.countP (Event.rotates v) ≤ 1 := by
  induction run with
  | nil => exact Nat.zero_le _
  | @cons s mid post event events step rest ih =>
    have ahead := kesPeriod_mono env.gates step.epoch_le
    have after := kesPeriod_mono env.gates (epoch_le_of_run rest)
    have here : mid.kesPeriod env.gates = s.kesPeriod env.gates := by omega
    have reachedMid := reached.run (.single step)
    rw [countP_cons]
    by_cases turns : event.rotates v = true
    · obtain ⟨e, found, pending⟩ := step.pending_of_rotates reached.epoch_lt turns
      have nothing := kesTrees_of_pending reachedMid rest (same.trans here.symm) found (here ▸ pending)
      have none_ : events.countP (Event.rotates v) = 0 := by
        rw [countP_eq_zero]
        intro other among turns
        have brings := Event.kesTree_of_rotates turns
        simp [filterMap_eq_nil_iff.mp nothing other among] at brings
      rw [none_, if_pos turns]
    · rw [if_neg turns]
      exact ih reachedMid (same.trans here.symm)

/-- The static key speaks for a registered validator only once its tree has run out. -/
theorem Step.expired_of_kesRegister {charge : TxCharge}
    (step : Step env st (.transaction (.kesRegister v depth root signature) charge) post)
    (found : st.kes.get? v = some e) :
    (e.inForce (st.kesPeriod env.gates)).endPeriod ≤ st.kesPeriod env.gates ∧
      e.pendingAt (st.kesPeriod env.gates) = none := by
  cases step with
  | transaction applied =>
    cases accepted_of_applyTransaction applied with
    | bridge kind => cases kind
    | kesRegister planned =>
      simp only [planKesRegister, checkKesRegister, kesRescueStart, ok_iff, found,
        Bool.not_eq_false] at planned
      obtain ⟨-, key, ⟨-, -, -, -, start, ⟨opened, -⟩, -⟩, -⟩ := planned
      simp only [kesRescueOpen, found, decide_eq_true_eq] at opened
      exact opened.2

/-- The static key displaces no live tree, and a validator rotates once a period. An accepted tree is one
its entry already has only where an expired successor replaced it; over a run without such a revival, no
longer than the history, no tree is brought twice, nor one in use at its start. -/
theorem kes_trees_installed_once (reached : Reachable env st) (bound : st.kesBound = true) :
    (∀ v depth root signature charge post e,
      Step env st (.transaction (.kesRegister v depth root signature) charge) post → st.kes.get? v = some e →
        (e.inForce (st.kesPeriod env.gates)).endPeriod ≤ st.kesPeriod env.gates ∧
          e.pendingAt (st.kesPeriod env.gates) = none) ∧
    (∀ v events post, Run (Step env) st events post →
      post.kesPeriod env.gates = st.kesPeriod env.gates → events.countP (Event.rotates v) ≤ 1) ∧
    (∀ v event post e tree, Step env st event post → event.kesTree v = some tree →
      st.kes.get? v = some e →
        (tree ∉ (e.settled (st.kesPeriod env.gates)).trees ↔ ¬ st.Revives env.gates v tree)) ∧
    ∀ v events post, Run (StepForward env) st events post →
      post.kesPeriod env.gates ≤ st.kesPeriod env.gates + KES_KEY_HISTORY_PERIODS →
      (kesTrees v events).Nodup ∧ ∀ e, st.kes.get? v = some e → ∀ k,
        (k = e.inForce (st.kesPeriod env.gates) ∧ (k.leafIndex (st.kesPeriod env.gates)).isSome = true) ∨
          e.pendingAt (st.kesPeriod env.gates) = some k → k.tree ∉ kesTrees v events := by
  refine ⟨fun v depth root signature charge post e step found => step.expired_of_kesRegister found,
    fun v events post run same => rotations_le_one reached run same,
    fun v event post e tree step brings found => not_congr ?_,
    fun v events post run recent => ⟨kesTrees_nodup reached bound run recent, fun e found k inUse => ?_⟩⟩
  · rcases step.kesInstall reached.epoch_lt v with ⟨idle, -⟩ | ⟨other, entry, brought, -, install⟩
    · simp [idle] at brings
    · rw [brings, Option.some.injEq] at brought
      subst brought
      rw [found] at install
      rw [install.mem_trees_iff (reached.retiredBy found)]
      simp [Revives, found]
  · have small : st.kesPeriod env.gates < u64Max :=
      (kesPeriod_lt reached.epoch_lt env.gates).trans (by decide)
    have held : HoldsSince (st.kesPeriod env.gates) v k.tree st :=
      ⟨e, found, KesEntry.heldSince_of_covers small inUse⟩
    exact held.not_mem reached run le_rfl recent

end

/-- Keys can be registered at once and are enforced from epoch 1 on; a period is an epoch, and a tree
may have two leaves. -/
def shortPeriods : Env :=
  .accepting { Gates.shipped with kesRegistration := 0, kesActivation := 1, kesPeriodEpochs := 1,
                                  kesMinDepth := 1 }

def treeRegistered (root : Bytes32) (depth : ℕ) : Event :=
  .transaction (.kesRegister 0 depth root []) (.free 0 0)

def treeRotated (root : Bytes32) (period depth : ℕ) : Event :=
  .transaction (.kesRotate 0 period depth root []) (.free 0 0)

/-- Epoch 3, where the only validator's key binds it. -/
theorem exists_keys_bound : ∃ st, Reachable shortPeriods st ∧
    playAll shortPeriods (genesisState shortPeriods (.small 1))
      [treeRegistered 0 3, .closeEpoch, .closeEpoch, .closeEpoch] = some st ∧ st.kesBound = true ∧
    st.kesPeriod shortPeriods.gates = 2 ∧ st.kes.get? 0 = some (.ofPublic ⟨3, 0, 0⟩) := by
  have registered : (playAll shortPeriods (genesisState shortPeriods (.small 1))
      [treeRegistered 0 3, .closeEpoch, .closeEpoch, .closeEpoch]).map (fun st => (st.kesBound,
        st.kesPeriod shortPeriods.gates, st.kes.get? 0)) =
      some (true, 2, some (.ofPublic ⟨3, 0, 0⟩)) := by decide +kernel
  obtain ⟨st, played, facts⟩ := map_eq_some_iff.mp registered
  simp only [Prod.mk.injEq] at facts
  exact ⟨st, ⟨_, _, initial_genesisState (by decide +kernel), run_of_playAll played⟩, played, facts⟩

/-- The first rotation of a bound key: the tree it brings is not the one in use. -/
theorem rotation_brings_other_tree :
    ∃ st post, Run (StepForward shortPeriods) st [treeRotated 1 2 3] post ∧
      st.kes.get? 0 = some (.ofPublic ⟨3, 0, 0⟩) ∧ (kesTrees 0 [treeRotated 1 2 3]).Nodup ∧
      (3, 0) ∉ kesTrees 0 [treeRotated 1 2 3] := by
  obtain ⟨st, reached, played, bound, period, found⟩ := exists_keys_bound
  have rotated : (playAll shortPeriods (genesisState shortPeriods (.small 1)) [treeRegistered 0 3,
      .closeEpoch, .closeEpoch, .closeEpoch] >>= (playAll shortPeriods · [treeRotated 1 2 3])).map
        (fun post => post.kesPeriod shortPeriods.gates) = some 2 := by decide +kernel
  rw [played] at rotated
  obtain ⟨post, rotated, there⟩ := map_eq_some_iff.mp rotated
  have run : Run (StepForward shortPeriods) st [treeRotated 1 2 3] post := by
    cases run_of_playAll rotated with
    | cons step rest =>
      cases rest
      refine .single ⟨step, fun v tree brings => ?_⟩
      have here : v = 0 := by
        by_contra other
        simp [treeRotated, Event.kesTree, Ne.symm other] at brings
      subst here
      simp [Revives, KesEntry.Replaced, found, KesEntry.ofPublic]
  obtain ⟨-, -, -, distinct⟩ := kes_trees_installed_once reached bound
  rw [period] at distinct
  obtain ⟨nodup, unused⟩ := distinct 0 _ post run (there.le.trans (by decide))
  exact ⟨st, post, run, found, nodup, unused _ found ⟨3, 0, 0⟩ (.inl (by decide))⟩

/-- A rescue brings back a tree that was rotated away: its successor has expired, and the entry has not
been settled since. -/
theorem replaced_tree_brought_back :
    ∃ st events post, Reachable shortPeriods st ∧ st.kesBound = true ∧
      Run (Step shortPeriods) st events post ∧ ¬ (kesTrees 0 events).Nodup := by
  obtain ⟨st, reached, played, bound, -, -⟩ := exists_keys_bound
  let events := [treeRotated 1 2 3, .closeEpoch, treeRotated 2 3 1, .closeEpoch, .closeEpoch, .closeEpoch,
    treeRegistered 1 3]
  have back : ((playAll shortPeriods (genesisState shortPeriods (.small 1)) [treeRegistered 0 3,
      .closeEpoch, .closeEpoch, .closeEpoch]) >>= (playAll shortPeriods · events)).isSome = true := by
    decide +kernel
  rw [played] at back
  obtain ⟨post, back⟩ := isSome_iff_exists.mp back
  exact ⟨st, events, post, reached, bound, run_of_playAll back, by decide⟩

end CommittedState

end BlochPos
