import BlochPos.Transition.InEpoch

/-! Forward-secure keys over time: what a replaced key signed is still judged by it. -/
namespace BlochPos

open Attempt Option

variable {g : Gates} {epoch p : ℕ}

namespace KesPublic

variable {k : KesPublic}

def tree (k : KesPublic) : ℕ × Bytes32 := (k.depth, k.root)

theorem sameTree_iff : k.sameTree other = true ↔ k.tree = other.tree := by
  simp [sameTree, tree]

theorem start_le_of_leafIndex (covers : (k.leafIndex p).isSome) :
    k.startPeriod ≤ p ∧ p < k.startPeriod + k.periods := by
  obtain ⟨leaf, found⟩ := isSome_iff_exists.mp covers
  simp only [leafIndex, ite_none_right_eq_some, filter_eq_some_iff, checkedSub,
    Option.some.injEq, decide_eq_true_eq] at found
  obtain ⟨-, ⟨started, rfl⟩, inside⟩ := found
  omega

theorem lt_endPeriod (covers : (k.leafIndex p).isSome) (small : p < u64Max) : p < k.endPeriod := by
  have range := start_le_of_leafIndex covers
  simp only [endPeriod, satAdd]
  omega

end KesPublic

namespace KesEntry

variable {e : KesEntry} {q : ℕ} {next : KesPublic} {fresh : KesPublic}

theorem find?_prune (retired : List RetiredKes) (recent : q ≤ p + KES_KEY_HISTORY_PERIODS) :
    (retired.filter (fun r => q - KES_KEY_HISTORY_PERIODS < r.endPeriod)).reverse.find?
        (fun r => r.covers p) =
      retired.reverse.find? (fun r => r.covers p) := by
  rw [← List.filter_reverse, List.find?_filter]
  congr 1
  funext r
  by_cases covers : r.covers p
  · simp only [RetiredKes.covers, decide_eq_true_eq] at covers
    have kept : q - KES_KEY_HISTORY_PERIODS < r.endPeriod := by omega
    simp [kept]
  · simp [covers]

theorem inForce_prune (e : KesEntry) (recent : q ≤ p + KES_KEY_HISTORY_PERIODS) :
    (e.prune q).inForce p = e.inForce p := by
  simp only [inForce, prune, find?_prune e.retired recent]

theorem inForce_of_waiting (waiting : ∀ next, e.next = some next → p < next.startPeriod) :
    e.inForce p = if e.current.startPeriod ≤ p then e.current
      else ((e.retired.reverse.find? (fun r => r.covers p)).map RetiredKes.publicKey).getD e.current := by
  have none : e.next.filter (fun next => next.startPeriod ≤ p) = none := by
    rw [filter_eq_none_iff]
    intro next found
    simpa using waiting next found
  simp only [inForce, none]

theorem inForce_of_started (found : e.next = some next) (started : next.startPeriod ≤ p) :
    e.inForce p = next := by
  simp [inForce, found, Option.filter, started]

theorem inForce_replaced (waiting : ∀ next, e.next = some next → p < next.startPeriod)
    (covers : ((e.inForce p).leafIndex p).isSome) (later : p < fresh.startPeriod)
    (reaches : e.current.startPeriod ≤ p → p < end_) :
    KesEntry.inForce ⟨fresh, none, e.retired ++ [⟨e.current, end_⟩]⟩ p = e.inForce p := by
  have before := inForce_of_waiting waiting
  have fromStart : ¬ fresh.startPeriod ≤ p := by omega
  simp only [inForce, filter_none, fromStart, if_false, List.reverse_append,
    List.reverse_singleton, List.singleton_append, List.find?_cons]
  rw [inForce] at before
  rw [before]
  by_cases current : e.current.startPeriod ≤ p
  · have own : RetiredKes.covers ⟨e.current, end_⟩ p = true := by
      simp [RetiredKes.covers, current, reaches current]
    simp [own, current]
  · have own : RetiredKes.covers ⟨e.current, end_⟩ p = false := by simp [RetiredKes.covers, current]
    simp only [own, current, if_false]
    cases found : e.retired.reverse.find? (fun r => r.covers p) with
    | some r => rfl
    | none =>
      -- The current key has no leaf before its start.
      rw [inForce, before, if_neg current, found] at covers
      exact absurd (KesPublic.start_le_of_leafIndex covers).1 current

theorem inForce_promoted (found : e.next = some next) (covers : ((e.inForce p).leafIndex p).isSome) :
    KesEntry.inForce ⟨next, none, e.retired ++ [⟨e.current, next.startPeriod⟩]⟩ p = e.inForce p := by
  by_cases started : next.startPeriod ≤ p
  · rw [inForce_of_started found started]
    simp [inForce, started]
  · apply inForce_replaced _ covers (by omega) (fun _ => by omega)
    intro other same
    rw [found] at same
    cases same
    omega

theorem inForce_settled (covers : ((e.inForce p).leafIndex p).isSome)
    (recent : q ≤ p + KES_KEY_HISTORY_PERIODS) : (e.settled q).inForce p = e.inForce p := by
  unfold settled
  rw [inForce_prune _ recent]
  cases due : e.next.filter (fun next => next.startPeriod ≤ q) with
  | none => rfl
  | some next => exact inForce_promoted (filter_eq_some_iff.mp due).1 covers

theorem inForce_expired (fresh : KesPublic) (idle : e.next = none)
    (covers : ((e.inForce p).leafIndex p).isSome) (small : p < u64Max) (later : p < fresh.startPeriod) :
    KesEntry.inForce ⟨fresh, none, e.retired ++ [⟨e.current, min e.current.endPeriod fresh.startPeriod⟩]⟩ p =
      e.inForce p := by
  have waiting : ∀ next, e.next = some next → p < next.startPeriod := by simp [idle]
  apply inForce_replaced waiting covers later
  intro current
  rw [inForce_of_waiting waiting, if_pos current] at covers
  exact lt_min (KesPublic.lt_endPeriod covers small) later

theorem inForce_replacedBy (covers : ((e.inForce p).leafIndex p).isSome)
    (small : p < u64Max) (later : p < fresh.startPeriod) (recent : q ≤ p + KES_KEY_HISTORY_PERIODS) :
    (e.replacedBy fresh q).inForce p = e.inForce p := by
  unfold replacedBy
  rw [inForce_prune _ recent]
  cases found : e.next with
  | none => exact inForce_expired fresh found covers small later
  | some next =>
    -- The successor took over from the current key, and then expired in turn.
    have promoted := inForce_promoted found covers
    rw [← promoted] at covers ⊢
    have expired := inForce_expired fresh rfl covers small later
    rw [List.append_assoc] at expired
    exact expired

theorem inForce_rotated (idle : e.next = none) (later : p < next.startPeriod) :
    KesEntry.inForce { e with next := some next } p = e.inForce p := by
  rw [inForce_of_waiting (e := { e with next := some next }) (by simp [later]),
    inForce_of_waiting (by simp [idle])]

theorem next_eq_none_of_pendingAt (idle : (e.settled q).pendingAt q = none) : (e.settled q).next = none := by
  simp only [pendingAt, settled, prune] at idle ⊢
  cases due : e.next.filter (fun next => next.startPeriod ≤ q) with
  | some next => rfl
  | none =>
    simp only [due] at idle ⊢
    cases found : e.next with
    | none => rfl
    | some next =>
      -- A successor is either due or pending.
      simp only [found, filter_eq_none_iff, Option.some.injEq, forall_eq', decide_eq_true_eq]
        at due idle
      exact absurd (not_le.mp due) idle

/-- A first key, a rescue of it, or a successor. -/
inductive Renewal (q : ℕ) : Option KesEntry → KesEntry → Prop where
  | first (key : KesPublic) : Renewal q none (.ofPublic key)
  | rescue {e : KesEntry} {fresh : KesPublic} (later : q < fresh.startPeriod) :
      Renewal q (some e) (e.replacedBy fresh q)
  | rotation {e : KesEntry} {next : KesPublic} (idle : (e.settled q).next = none)
      (later : q < next.startPeriod) : Renewal q (some e) { e.settled q with next := some next }

/-- How an entry takes up a tree. -/
inductive Install (bound : Bool) (q : ℕ) (tree : ℕ × Bytes32) : Option KesEntry → KesEntry → Prop where
  | first {key : KesPublic} (brings : key.tree = tree) (starts : bound = true → key.startPeriod = q + 1) :
      Install bound q tree none (.ofPublic key)
  | rescue {e : KesEntry} {fresh : KesPublic} (brings : fresh.tree = tree)
      (starts : fresh.startPeriod = q + KES_RESCUE_DELAY_PERIODS)
      (expired : (e.inForce q).endPeriod ≤ q) (idle : e.pendingAt q = none)
      (inForce : (e.inForce q).root ≠ tree.2) (next : ∀ next ∈ e.next, next.root ≠ tree.2)
      (retired : ∀ r ∈ e.retired, r.publicKey.root ≠ tree.2) :
      Install bound q tree (some e) (e.replacedBy fresh q)
  | rotation {e : KesEntry} {next : KesPublic} (brings : next.tree = tree) (starts : next.startPeriod = q + 1)
      (idle : (e.settled q).pendingAt q = none) (inForce : ((e.settled q).inForce q).tree ≠ tree)
      (retired : ∀ r ∈ (e.settled q).retired, r.publicKey.tree ≠ tree) :
      Install bound q tree (some e) { e.settled q with next := some next }

theorem Install.renewal (install : Install bound q tree old e') : Renewal q old e' := by
  cases install with
  | first => exact .first _
  | rescue _ starts => exact .rescue (by rw [starts, KES_RESCUE_DELAY_PERIODS]; omega)
  | rotation _ starts idle => exact .rotation (next_eq_none_of_pendingAt idle) (by omega)

theorem Renewal.inForce_eq (renewal : Renewal q (some e) e')
    (covers : ((e.inForce p).leafIndex p).isSome) (small : p < u64Max) (past : p ≤ q)
    (recent : q ≤ p + KES_KEY_HISTORY_PERIODS) : e'.inForce p = e.inForce p := by
  cases renewal with
  | rescue later => exact inForce_replacedBy covers small (past.trans_lt later) recent
  | rotation idle later =>
    rw [inForce_rotated idle (past.trans_lt later)]
    exact inForce_settled covers recent

end KesEntry

theorem Gates.kesPeriod_mono (here : g.kesPeriod epoch = some p)
    (ahead : epoch ≤ later) : ∃ q, g.kesPeriod later = some q ∧ p ≤ q := by
  simp only [kesPeriod, epochGateActive, decide_eq_true_eq, ite_none_right_eq_some,
    Option.some.injEq] at here ⊢
  obtain ⟨⟨scheduled, started⟩, rfl⟩ := here
  have later : (epoch - g.kesActivation) / g.kesPeriodEpochs ≤ (later - g.kesActivation) / g.kesPeriodEpochs :=
    Nat.div_le_div_right (Nat.sub_le_sub_right ahead _)
  exact ⟨_, ⟨⟨scheduled, started.trans ahead⟩, rfl⟩, later⟩

theorem Gates.kesPeriod_lt (here : g.kesPeriod epoch = some p)
    (small : epoch < 2 ^ 59) : p < 2 ^ 59 := by
  simp only [kesPeriod, ite_none_right_eq_some, Option.some.injEq] at here
  obtain ⟨-, rfl⟩ := here
  exact (Nat.div_le_self _ _).trans_lt ((Nat.sub_le _ _).trans_lt small)

def Event.kesTree (v : ℕ) : Event → Option (ℕ × Bytes32)
  | .transaction (.kesRegister w depth root _) _ | .transaction (.kesRotate w _ depth root _) _ =>
    if w = v then some (depth, root) else none
  | _ => none

theorem Event.kesTree_of_isBridge {charge : TxCharge}
    (kind : tx.isBridge = true) : Event.kesTree v (.transaction tx charge) = none := by
  cases tx with
  | kesRegister | kesRotate => cases kind
  | _ => rfl

namespace CommittedState

section

variable {env : Env} {st post : CommittedState} {event : Event} {events : List Event} {v q : ℕ}
  {signature : Bytes} {message : Bytes32} {m p : ℕ}

def kesPeriod (g : Gates) (st : CommittedState) : ℕ := (g.kesPeriod st.epoch).getD 0

theorem kesPeriod_eq (period : env.gates.kesPeriod st.epoch = some q) : st.kesPeriod env.gates = q := by
  rw [CommittedState.kesPeriod, period, getD_some]

theorem kesPeriod_lt (small : st.epoch < 2 ^ 59) (g : Gates) : st.kesPeriod g < 2 ^ 59 := by
  unfold CommittedState.kesPeriod
  cases period : g.kesPeriod st.epoch with
  | none => decide
  | some q => exact Gates.kesPeriod_lt period small

/-- The acceptance of a tree at a state. -/
def KesInstall (g : Gates) (st : CommittedState) : ℕ × Bytes32 → Option KesEntry → KesEntry → Prop :=
  KesEntry.Install ((g.kesPeriod st.epoch).isSome && st.kesBound) (st.kesPeriod g)

theorem planKesRegister_installs
    (planned : planKesRegister env st v depth root signature = .ok entry) (small : st.epoch < 2 ^ 59) :
    st.KesInstall env.gates (depth, root) (st.kes.get? v) entry := by
  have low := kesPeriod_lt small env.gates
  cases found : st.kes.get? v with
  | none =>
    simp only [planKesRegister, checkKesRegister, ok_iff, found] at planned
    obtain ⟨-, key, ⟨-, record, -, -, start, rfl, -, rfl⟩, rfl⟩ := planned
    refine .first rfl (fun bound => ?_)
    obtain ⟨scheduled, bound⟩ := Bool.and_eq_true_iff.mp bound
    obtain ⟨q, period⟩ := isSome_iff_exists.mp scheduled
    rw [kesPeriod_eq period] at low ⊢
    simp only [kesRegistrationStart, period, bound, if_true, satAdd, u64Max]
    omega
  | some old =>
    simp only [planKesRegister, checkKesRegister, kesRescueStart, ok_iff, found, not_or, not_exists, not_and,
      Bool.not_eq_false] at planned
    obtain ⟨-, key, ⟨-, -, -, -, start, ⟨opened, ⟨inForce, next, retired⟩, rfl⟩, -, rfl⟩, rfl⟩ := planned
    simp only [kesRescueOpen, found, decide_eq_true_eq] at opened
    refine .rescue rfl ?_ opened.2.1 opened.2.2 inForce next retired
    change satAdd u64Max (st.kesPeriod env.gates) KES_RESCUE_DELAY_PERIODS = _
    simp only [satAdd, KES_RESCUE_DELAY_PERIODS, u64Max]
    omega

theorem planKesRotate_installs
    (planned : planKesRotate env st v period depth root signature = .ok entry) (small : st.epoch < 2 ^ 59) :
    st.KesInstall env.gates (depth, root) (st.kes.get? v) entry := by
  simp only [planKesRotate, checkKesRotate, ok_iff, not_or, not_exists, not_and, ne_eq, not_not,
    KesPublic.sameTree_iff] at planned
  obtain ⟨-, ⟨here, -⟩, old, found, -, -, -, idle, ⟨inForce, retired⟩, -, rfl⟩ := planned
  have low := kesPeriod_lt small env.gates
  rw [KesInstall, found]
  rw [kesPeriod_eq here] at low ⊢
  refine .rotation rfl ?_ idle (fun same => inForce same.symm) retired
  simp only [satAdd, u64Max]
  omega

section

variable (step : Step env st event post)
include step

theorem Step.kesInstall (small : st.epoch < 2 ^ 59) (v : ℕ) :
    (event.kesTree v = none ∧ post.kes.get? v = st.kes.get? v) ∨
      ∃ tree entry, event.kesTree v = some tree ∧ post.kes.get? v = some entry ∧
        st.KesInstall env.gates tree (st.kes.get? v) entry := by
  have insert {i : ℕ} {tree : ℕ × Bytes32} {entry : KesEntry}
      (brings : event.kesTree v = if i = v then some tree else none)
      (install : st.KesInstall env.gates tree (st.kes.get? i) entry) :
      (event.kesTree v = none ∧ (st.withKes i entry).kes.get? v = st.kes.get? v) ∨
        ∃ tree entry', event.kesTree v = some tree ∧ (st.withKes i entry).kes.get? v = some entry' ∧
          st.KesInstall env.gates tree (st.kes.get? v) entry' := by
    by_cases here : i = v
    · subst here
      exact .inr ⟨tree, entry, brings.trans (if_pos rfl), SortedMap.get?_insert_self .., install⟩
    · exact .inl ⟨brings.trans (if_neg here), SortedMap.get?_insert_of_ne _ _ (Ne.symm here)⟩
  cases step.effect with
  | transaction accepted =>
    cases accepted with
    | kesRegister planned =>
      have install := planKesRegister_installs planned small
      exact insert rfl install
    | kesRotate planned =>
      have install := planKesRotate_installs planned small
      exact insert rfl install
    | bridge kind bridged =>
      rw [bridged.state]
      exact .inl ⟨Event.kesTree_of_isBridge kind, rfl⟩
    | _ => exact .inl ⟨rfl, rfl⟩
  | closeEpoch =>
    have same : (CommittedState.closeEpoch env st).kes = st.kes := congrArg Standing.kes (standing_closeEpoch env st)
    rw [same]
    exact .inl ⟨rfl, rfl⟩
  | evidence | vote | fees | proposer | forkchoice | prepareL2 | finish => exact .inl ⟨rfl, rfl⟩

theorem Step.kes_get? (small : st.epoch < 2 ^ 59)
    (period : env.gates.kesPeriod st.epoch = some q) :
    post.kes.get? v = st.kes.get? v ∨
      ∃ entry, post.kes.get? v = some entry ∧ KesEntry.Renewal q (st.kes.get? v) entry := by
  rcases step.kesInstall small v with ⟨-, same⟩ | ⟨tree, entry, -, renewed, install⟩
  · exact .inl same
  · rw [KesInstall, kesPeriod_eq period] at install
    exact .inr ⟨entry, renewed, install.renewal⟩

theorem Step.pubkey_eq (small : st.epoch < 2 ^ 59)
    (known : st.keys.pubkey v = some key) : post.keys.pubkey v = some key := by
  simp only [keys, map_eq_some_iff] at known ⊢
  obtain ⟨r, found, rfl⟩ := known
  by_cases close : event = .closeEpoch
  · subst close
    cases step with
    | closeEpoch =>
      have identity := identity_closeEpoch env st v
      rw [found] at identity
      obtain ⟨r', found', same⟩ := map_eq_some_iff.mp identity
      exact ⟨r', found', congrArg Prod.fst same⟩
  · have kept := step.registryKept close (small.trans (by decide))
    obtain ⟨r', found', same⟩ := kept.kept found
    exact ⟨r', found', same.pubkey⟩

theorem Step.networkDomain_eq : post.admissionNetworkDomain = st.admissionNetworkDomain := by
  by_cases close : event = .closeEpoch
  · subst close
    cases step
    exact congrArg Standing.networkDomain (standing_closeEpoch env st)
  · exact congrArg Frozen.networkDomain (step.frozen_eq close)

theorem Step.kesEnforcedFrom_eq (small : st.epoch < 2 ^ 59) :
    post.kesEnforcedFrom = st.kesEnforcedFrom ∨ (st.kesEnforcedFrom = none ∧
      (env.gates.kesPeriod (st.epoch + 1)).isSome = true ∧
      post.kesEnforcedFrom = some (st.epoch + 1 + KES_BIND_DELAY_EPOCHS)) := by
  by_cases close : event = .closeEpoch
  · subst close
    cases step
    have room : satAdd u64Max (st.epoch + 1) KES_BIND_DELAY_EPOCHS =
        st.epoch + 1 + KES_BIND_DELAY_EPOCHS := by
      simp only [satAdd, KES_BIND_DELAY_EPOCHS, u64Max]
      omega
    rw [← room]
    exact kesBinding_closeEpoch env st
  · exact .inl (congrArg Frozen.kesEnforcedFrom (step.frozen_eq close))

/-- The static key judges the validator's messages of an epoch. -/
def StaticAt (v m : ℕ) (st : CommittedState) : Prop :=
  (∀ bound, st.kesEnforcedFrom = some bound → m < bound) ∨ st.kes.get? v = none

/-- A step that takes the validator's messages of an epoch from the static key: its first registration after the
epoch is bound, or a close that binds the epoch after it has registered. -/
def Displaces (env : Env) (v m : ℕ) (st : CommittedState) (event : Event) : Prop :=
  ((∃ bound ∈ st.kesEnforcedFrom, bound ≤ m) ∧ st.kes.get? v = none ∧ (event.kesTree v).isSome) ∨
    (event = .closeEpoch ∧ st.kesEnforcedFrom = none ∧ st.kes.get? v ≠ none ∧
      ∃ bound ∈ (closeEpoch env st).kesEnforcedFrom, bound ≤ m)

theorem Step.staticAt (small : st.epoch < 2 ^ 59) (keeps : ¬ Displaces env v m st event)
    (static : st.StaticAt v m) : post.StaticAt v m := by
  by_cases close : event = .closeEpoch
  · subst close
    have binding := step.kesEnforcedFrom_eq small
    cases step
    have kes : (CommittedState.closeEpoch env st).kes = st.kes := congrArg Standing.kes (standing_closeEpoch env st)
    rw [StaticAt, kes]
    refine or_iff_not_imp_right.mpr (fun registered bound decided => ?_)
    rcases binding with same | ⟨undecided, -⟩
    · exact static.resolve_right registered bound (same ▸ decided)
    · by_contra late
      exact keeps (.inr ⟨rfl, undecided, registered, bound, decided, not_lt.mp late⟩)
  · rw [StaticAt, show post.kesEnforcedFrom = _ from congrArg Frozen.kesEnforcedFrom (step.frozen_eq close)]
    rcases step.kesInstall small v with ⟨-, same⟩ | ⟨tree, entry, brings, -⟩
    · rwa [same]
    · left
      by_cases absent : st.kes.get? v = none
      · intro bound decided
        by_contra late
        exact keeps (.inl ⟨⟨bound, decided, not_lt.mp late⟩, absent, brings ▸ rfl⟩)
      · exact static.resolve_right absent

end

section

variable (run : Run (Step env) st events post)
include run

theorem inForce_of_run (small : st.epoch < 2 ^ 59)
    (found : st.kes.get? v = some e) (covers : ((e.inForce p).leafIndex p).isSome)
    (here : env.gates.kesPeriod st.epoch = some q) (past : p ≤ q)
    (there : env.gates.kesPeriod post.epoch = some last) (recent : last ≤ p + KES_KEY_HISTORY_PERIODS) :
    ∃ e', post.kes.get? v = some e' ∧ e'.inForce p = e.inForce p := by
  induction run generalizing q e with
  | nil => exact ⟨e, found, rfl⟩
  | @cons st mid post event events taken rest ih =>
    obtain ⟨q', period, ahead⟩ := Gates.kesPeriod_mono here taken.epoch_le
    obtain ⟨_, final, within⟩ := Gates.kesPeriod_mono here (taken.epoch_le.trans (epoch_le_of_run rest))
    rw [there] at final
    cases final
    have low := Gates.kesPeriod_lt here small
    have kept : ∃ e', mid.kes.get? v = some e' ∧ e'.inForce p = e.inForce p := by
      rcases taken.kes_get? (v := v) small here with same | ⟨e', renewed, renewal⟩
      · exact ⟨e, same.trans found, rfl⟩
      · rw [found] at renewal
        have below : p < u64Max := (past.trans_lt low).trans (by decide)
        exact ⟨e', renewed, renewal.inForce_eq covers below past (within.trans recent)⟩
    obtain ⟨e', found', same⟩ := kept
    rw [← same] at covers
    obtain ⟨e'', found'', same'⟩ := ih (taken.epoch_lt small) found' covers period (past.trans ahead) there
    exact ⟨e'', found'', same'.trans same⟩

theorem pubkey_of_run (small : st.epoch < 2 ^ 59)
    (known : st.keys.pubkey v = some key) : post.keys.pubkey v = some key := by
  have both := run.invariant (P := fun st => st.epoch < 2 ^ 59 ∧ st.keys.pubkey v = some key)
    (fun step both => ⟨step.epoch_lt both.1, step.pubkey_eq both.1 both.2⟩) ⟨small, known⟩
  exact both.2

theorem networkDomain_of_run : post.admissionNetworkDomain = st.admissionNetworkDomain :=
  run.invariant (P := fun later => later.admissionNetworkDomain = st.admissionNetworkDomain)
    (fun step same => step.networkDomain_eq.trans same) rfl

theorem kesEnforcedFrom_of_run (small : st.epoch < 2 ^ 59)
    (decided : st.kesEnforcedFrom = some bound) : post.kesEnforcedFrom = some bound := by
  have both := run.invariant (P := fun st => st.epoch < 2 ^ 59 ∧ st.kesEnforcedFrom = some bound)
    (fun step both => ⟨step.epoch_lt both.1, ?_⟩) ⟨small, decided⟩
  · exact both.2
  · rcases step.kesEnforcedFrom_eq both.1 with same | ⟨undecided, -⟩
    · exact same.trans both.2
    · simp [both.2] at undecided

end

theorem verifyValidator_static
    (free : st.StaticAt v m) :
    Kes.verifyValidator env.crypto env.gates st.keys verifier v m message signature =
      (st.keys.pubkey v).map (fun key => verifier.verifyWithKey key message signature) := by
  have mode : Kes.signingMode env.gates st.keys v m = .static := by
    simp only [Kes.signingMode]
    cases env.gates.kesPeriod m with
    | none => rfl
    | some p =>
      cases decided : st.kesEnforcedFrom with
      | none => simp [keys, decided]
      | some bound =>
        rcases free with early | absent
        · simp [keys, decided, early bound decided]
        · simp [keys, decided, absent]
  rw [Kes.verifyValidator, mode]
  rfl

theorem verifyValidator_kes
    (period : env.gates.kesPeriod m = some p) (decided : st.kesEnforcedFrom = some bound)
    (binds : bound ≤ m) (found : st.kes.get? v = some e) :
    Kes.verifyValidator env.crypto env.gates st.keys verifier v m message signature =
      (st.keys.pubkey v).map (fun _ => verifier.verifyKes (e.inForce p) p
        (Kes.boundSigningRoot env.crypto (st.admissionNetworkDomain.getD 0) v (e.inForce p) p message)
        signature) := by
  have mode : Kes.signingMode env.gates st.keys v m = .kes p := by
    simp [Kes.signingMode, period, keys, decided, not_lt.mpr binds, found]
  rw [Kes.verifyValidator, mode]
  simp [Kes.verifyValidatorIn, keys, found, Kes.leafMessage]

theorem covers_of_verify (valid : Kes.verify c leaf k p message signature = true) : (k.leafIndex p).isSome := by
  cases found : k.leafIndex p with
  | none => simp [Kes.verify, found] at valid
  | some _ => rfl

section

variable {withKey : Bytes → Bytes32 → Bytes → Bool}
  {withKeyUnder : SignaturePolicy → Bytes → Bytes32 → Bytes → Bool}
  {spend : Bytes → Bytes32 → Bytes → ℕ → Bool} {leaf : Bytes → Bytes32 → Bytes → Bool}
  {settlement : Bytes32 → Bytes32 → Bytes → Bytes → Bool} {m p : ℕ} {message : Bytes32}
  {signature : Bytes}

/-- What verified while its period was the state's still verifies within the history, over every run in which
no step takes the message from the validator's static key. -/
theorem evidence_stays_provable (reached : Reachable env st)
    (kept : Run (fun s event s' => Step env s event s' ∧ ¬ Displaces env v m s event) st events post)
    (period : env.gates.kesPeriod m = some p) (here : env.gates.kesPeriod st.epoch = some p)
    (there : env.gates.kesPeriod post.epoch = some q) (recent : q ≤ p + KES_KEY_HISTORY_PERIODS)
    (valid : Kes.verifyValidator env.crypto env.gates st.keys
      (.ofPredicates env.crypto withKey withKeyUnder spend leaf settlement) v m message signature =
        some true) :
    Kes.verifyValidator env.crypto env.gates post.keys
      (.ofPredicates env.crypto withKey withKeyUnder spend leaf settlement) v m message signature =
        some true := by
  have small := reached.epoch_lt
  have run : Run (Step env) st events post := kept.mono (fun _ taken => taken.1)
  by_cases static : st.StaticAt v m
  · -- The static key judged before and judges now.
    have still := (kept.invariant (P := fun s => s.epoch < 2 ^ 59 ∧ s.StaticAt v m) (fun taken both =>
      ⟨taken.1.epoch_lt both.1, taken.1.staticAt both.1 taken.2 both.2⟩) ⟨small, static⟩).2
    rw [verifyValidator_static static, map_eq_some_iff] at valid
    obtain ⟨key, known, valid⟩ := valid
    rw [verifyValidator_static still, pubkey_of_run run small known, map_some, valid]
  · rw [StaticAt, not_or] at static
    push Not at static
    obtain ⟨⟨bound, decided, binds⟩, registered⟩ := static
    obtain ⟨e, found⟩ := ne_none_iff_exists'.mp registered
    rw [verifyValidator_kes period decided binds found, map_eq_some_iff] at valid
    obtain ⟨key, known, valid⟩ := valid
    obtain ⟨e', found', same⟩ :=
      inForce_of_run run small found (covers_of_verify valid) here le_rfl there recent
    rw [verifyValidator_kes period (kesEnforcedFrom_of_run run small decided) binds found',
      pubkey_of_run run small known, networkDomain_of_run run, same, map_some, valid]

end

end

/-- Keys can be registered at once and are enforced from epoch 1 on; a period has
its shipped length. -/
def rehearsal : Env := .accepting { Gates.shipped with kesRegistration := 0, kesActivation := 1 }

def lenient : SignatureVerifier :=
  .ofPredicates rehearsal.crypto (fun _ _ _ => true) (fun _ _ _ _ => true) (fun _ _ _ _ => true)
    (fun _ _ _ => true) (fun _ _ _ _ => true)

def registrationOf (v : ℕ) : Event := .transaction (.kesRegister v 8 0 []) (.free 0 0)

def rotationOf (v : ℕ) : Event := .transaction (.kesRotate v 0 8 1 []) (.free 0 0)

def leafSignature : Bytes :=
  Kes.SIGNATURE_MAGIC ++ leBytes 4 0 ++ leBytes 4 0 ++ leBytes 4 0 ++ leBytes 1 8 ++ List.replicate 256 0

/-- A vote of epoch 3 signed by a leaf is provable after the key has been rotated. -/
theorem evidence_provable_after_rotation :
    ∃ st post, Run (Step rehearsal) st [rotationOf 0] post ∧
      Kes.verifyValidator rehearsal.crypto rehearsal.gates post.keys lenient 0 3 0 leafSignature =
        some true := by
  let start := genesisState rehearsal (.small 1)
  let before := [registrationOf 0, .closeEpoch, .closeEpoch, .closeEpoch]
  have enforced : (playAll rehearsal start before).map (fun st => (st.epoch, st.kesEnforcedFrom,
      (st.kes.get? 0).isSome, Kes.verifyValidator rehearsal.crypto rehearsal.gates st.keys lenient 0 3 0
        leafSignature)) = some (3, some 3, true, some true) := by decide +kernel
  have rotated : ((playAll rehearsal start before).bind (fun st =>
      playAll rehearsal st [rotationOf 0])).map CommittedState.epoch = some 3 := by decide +kernel
  obtain ⟨st, played, facts⟩ := map_eq_some_iff.mp enforced
  rw [played, bind_some, map_eq_some_iff] at rotated
  obtain ⟨post, rotated, later⟩ := rotated
  simp only [Prod.mk.injEq] at facts
  obtain ⟨epoch, -, registered, valid⟩ := facts
  have reached : Reachable rehearsal st :=
    ⟨start, before, initial_genesisState (by decide +kernel), run_of_playAll played⟩
  have run := run_of_playAll rotated
  have holds : ¬ Displaces rehearsal 0 3 st (rotationOf 0) := by
    rintro (⟨-, absent, -⟩ | ⟨close, -⟩)
    · simp [absent] at registered
    · cases close
  have kept : Run (fun s event s' => Step rehearsal s event s' ∧ ¬ Displaces rehearsal 0 3 s event) st
      [rotationOf 0] post := by
    obtain _ | ⟨step, _ | _⟩ := run
    exact .single ⟨step, holds⟩
  exact ⟨st, post, run, evidence_stays_provable reached kept (by decide : _ = some 0) (epoch ▸ by decide)
    (later ▸ by decide : _ = some 0) (by decide) valid⟩

/-- A signature that verified in a state of its period and does not in a later one
of the same period. -/
def Erased (env : Env) (verifier : SignatureVerifier) (v m p : ℕ) (st post : CommittedState) : Prop :=
  env.gates.kesPeriod m = some p ∧ env.gates.kesPeriod st.epoch = some p ∧
    env.gates.kesPeriod post.epoch = some p ∧
    Kes.verifyValidator env.crypto env.gates st.keys verifier v m 0 [] = some true ∧
    Kes.verifyValidator env.crypto env.gates post.keys verifier v m 0 [] = some false
deriving Decidable

theorem exists_erased (gen : Genesis) (before : List Event) (started : (genesis rehearsal gen).isSome)
    (played : ∃ st ∈ playAll rehearsal (genesisState rehearsal gen) before,
      ∃ post ∈ playAll rehearsal st after, Erased rehearsal lenient v m p st post) :
    ∃ st post, Reachable rehearsal st ∧ Run (Step rehearsal) st after post ∧
      Erased rehearsal lenient v m p st post := by
  obtain ⟨st, first, post, second, erased⟩ := played
  exact ⟨st, post, ⟨_, before, initial_genesisState started, run_of_playAll first⟩,
    run_of_playAll second, erased⟩

/-- Nine of ten validators register and enforcement sets in; the tenth votes with its static key, registers,
and the vote can no longer be proved. Enforcement decided at a close also takes in a message dated ahead. -/
theorem registration_erases_static_evidence :
    (∃ st post, Reachable rehearsal st ∧ Run (Step rehearsal) st [registrationOf 9] post ∧
      Erased rehearsal lenient 9 3 0 st post) ∧
    ∃ st post, Reachable rehearsal st ∧ Run (Step rehearsal) st [.closeEpoch] post ∧
      Erased rehearsal lenient 0 5 0 st post := by
  constructor
  · apply exists_erased (.small 10)
      ((List.range 9).map registrationOf ++ [.closeEpoch, .closeEpoch, .closeEpoch])
    · decide +kernel
    · decide +kernel
  · apply exists_erased (.small 1) [.closeEpoch, registrationOf 0]
    · decide +kernel
    · decide +kernel

end CommittedState

end BlochPos
