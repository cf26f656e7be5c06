import BlochPos.Transition.InEpoch

/-! One slash for a validator, and only for a conflict it signed. -/
namespace BlochPos

open Attempt SortedMap Option

namespace SlashingEvidence

/-- The same two messages, whatever their order and their signatures. -/
def SamePair : SlashingEvidence → SlashingEvidence → Prop
  | .proposerEquivocation a b, .proposerEquivocation a' b' =>
    (a.header = a'.header ∧ b.header = b'.header) ∨ (a.header = b'.header ∧ b.header = a'.header)
  | .attestationOffence a b, .attestationOffence a' b' =>
    ((a.validator = a'.validator ∧ a.data = a'.data) ∧ (b.validator = b'.validator ∧ b.data = b'.data)) ∨
      ((a.validator = b'.validator ∧ a.data = b'.data) ∧ (b.validator = a'.validator ∧ b.data = a'.data))
  | _, _ => False

/-- Two messages of one validator that it must not both sign. -/
def Conflict (c : Crypto) : SlashingEvidence → Prop
  | .proposerEquivocation a b => a.header.proposerIndex = b.header.proposerIndex ∧
    a.header.slot = b.header.slot ∧ a.header.id c ≠ b.header.id c
  | .attestationOffence a b => a.validator = b.validator ∧
    (a.data.isDoubleVote b.data = true ∨ a.data.surrounds b.data = true ∨ b.data.surrounds a.data = true)

/-- The message verifies as the validator's. -/
def Signed (env : Env) (keys : KeyLookup) (validator : ℕ) (m : SignedMessage) : Prop :=
  Kes.verifyValidator env.crypto env.gates keys (env.verifier.under (.consensus env.gates m.epoch)) validator
    m.epoch m.root m.signature = some true

section

variable {keys : KeyLookup} {e : SlashingEvidence} {offense : SlashableOffense}

theorem conflict_of_offense (found : e.offense c = .ok offense) : e.Conflict c := by
  cases e with
  | proposerEquivocation a b =>
    simp only [SlashingEvidence.offense, ok_iff, not_or, ne_eq, not_not] at found
    obtain ⟨validator, ⟨slot, block⟩, -⟩ := found
    exact ⟨validator, slot, block⟩
  | attestationOffence a b =>
    simp only [SlashingEvidence.offense, ok_iff, ne_eq, not_not] at found
    obtain ⟨validator, kind⟩ := found
    refine ⟨validator, ?_⟩
    split_ifs at kind with double surround
    · exact .inl double
    · exact .inr surround

theorem offense_of_conflict (conflict : e.Conflict c) : ∃ offense, e.offense c = .ok offense := by
  cases e with
  | proposerEquivocation a b =>
    obtain ⟨validator, slot, block⟩ := conflict
    refine ⟨.proposerEquivocation, ?_⟩
    simp [SlashingEvidence.offense, refuse, validator, slot, block]
  | attestationOffence a b =>
    obtain ⟨validator, kind⟩ := conflict
    by_cases double : a.data.isDoubleVote b.data = true
    · exact ⟨.doubleVote, by simp [SlashingEvidence.offense, refuse, validator, double]⟩
    · have surround := kind.resolve_left double
      exact ⟨.surroundVote, by simp [SlashingEvidence.offense, refuse, validator, double, surround]⟩

theorem Conflict.symm_of_votes (conflict : (attestationOffence a b).Conflict c) :
    (attestationOffence b a).Conflict c := by
  obtain ⟨validator, kind⟩ := conflict
  refine ⟨validator.symm, ?_⟩
  rcases kind with double | around | within
  · left
    simp only [AttestationData.isDoubleVote, decide_eq_true_eq] at double ⊢
    exact ⟨double.1.symm, Ne.symm double.2⟩
  · exact .inr (.inr around)
  · exact .inr (.inl within)

theorem Conflict.samePair (conflict : e.Conflict c) (same : e.SamePair e') :
    e'.Conflict c ∧ e'.id c = e.id c := by
  cases e with
  | proposerEquivocation a b =>
    cases e' with
    | attestationOffence => exact same.elim
    | proposerEquivocation a' b' =>
      obtain ⟨validator, slot, block⟩ := conflict
      rcases same with ⟨first, second⟩ | ⟨first, second⟩
      · simp only [Conflict, id, messages, offender, ← first, ← second]
        exact ⟨⟨validator, slot, block⟩, trivial⟩
      · simp only [Conflict, id, messages, offender, ← first, ← second]
        rw [min_comm, max_comm, validator]
        exact ⟨⟨rfl, slot.symm, Ne.symm block⟩, rfl⟩
  | attestationOffence a b =>
    cases e' with
    | proposerEquivocation => exact same.elim
    | attestationOffence a' b' =>
      rcases same with ⟨⟨who, first⟩, who', second⟩ | ⟨⟨who, first⟩, who', second⟩
      · simp only [Conflict, id, messages, offender, ← first, ← second, ← who, ← who']
        exact ⟨conflict, trivial⟩
      · have turned := conflict.symm_of_votes
        simp only [Conflict, id, messages, offender, ← first, ← second, ← who, ← who']
        rw [min_comm, max_comm, conflict.1]
        exact ⟨⟨rfl, turned.2⟩, rfl⟩

theorem verifySigned_eq_ok_iff : verifySigned env keys validator m = .ok u ↔ Signed env keys validator m := by
  simp only [verifySigned, Signed]
  rcases Kes.verifyValidator env.crypto env.gates keys (env.verifier.under (.consensus env.gates m.epoch))
    validator m.epoch m.root m.signature with _ | _ | _ <;> simp

/-- What a judgement against a validator rests on. -/
theorem judge_eq_ok (judged : e.judge env keys slashing = .ok offense) :
    e.Conflict env.crypto ∧ e.id env.crypto ∉ slashing.applied ∧ e.offender ∉ slashing.ejected ∧
      Signed env keys e.offender (e.messages env.crypto).1 ∧
      Signed env keys e.offender (e.messages env.crypto).2 := by
  simp only [judge, ok_iff, verifySigned_eq_ok_iff] at judged
  obtain ⟨offense, found, fresh, free, first, second, -⟩ := judged
  exact ⟨conflict_of_offense found, fresh, free, first, second⟩

theorem judge_applied (env : Env) (keys : KeyLookup) (conflict : e.Conflict env.crypto)
    (applied : e.id env.crypto ∈ slashing.applied) : e.judge env keys slashing = .error .alreadyApplied := by
  obtain ⟨offense, found⟩ := offense_of_conflict conflict
  simp [judge, found, refuse, applied, bind, Except.bind]

end

end SlashingEvidence

namespace SlashingState

/-- An application of evidence, with all it reads. -/
structure Call where
  evidence : SlashingEvidence
  (epoch ownBondSat : ℕ)
  delegations : List Delegation
  (totalActiveSat offenderEffectiveSat includingProposer : ℕ)
  keys : KeyLookup
  verifier : SignatureVerifier

def Call.judging (env : Env) (call : Call) : Env := { env with verifier := call.verifier }

def Call.offence (c : Crypto) (call : Call) (offense : SlashableOffense) : Offence where
  id := call.evidence.id c
  validator := call.evidence.offender
  offense := offense
  epoch := call.epoch
  ownBondSat := call.ownBondSat
  delegations := call.delegations
  offenderEffectiveSat := call.offenderEffectiveSat
  includingProposer := call.includingProposer

def plan (env : Env) (call : Call) (st : SlashingState) :
    Except EvidenceError (SlashingOutcome × SlashingState) := do
  let offense ← call.evidence.judge (call.judging env) call.keys st
  pure (st.commitOffense env.gates (call.offence env.crypto offense) call.totalActiveSat)

def process (env : Env) (call : Call) : Attempt SlashingState EvidenceError SlashingOutcome :=
  transact (plan env call) (fun _ p => p.2) Prod.fst

abbrev Result := Except EvidenceError SlashingOutcome

/-- A call, with what came of it. -/
def Processes (env : Env) (st : SlashingState) (label : Call × Result) (post : SlashingState) : Prop :=
  exec (process env label.1) st = (label.2, post)

section

variable {env : Env} {st post : SlashingState} {labels : List (Call × Result)}

theorem process_error : exec (process env call) st = (.error e, post) ↔
    plan env call st = .error e ∧ st = post := exec_transact_eq_error_iff

theorem process_ok {outcome : SlashingOutcome} (processed : exec (process env call) st = (.ok outcome, post)) :
    ∃ offense, call.evidence.judge (call.judging env) call.keys st = .ok offense ∧
      post.applied = insert (call.evidence.id env.crypto) st.applied ∧
      post.ejected = insert call.evidence.offender st.ejected := by
  simp only [process, plan, ok_iff] at processed
  obtain ⟨_, ⟨offense, judged, rfl⟩, -, rfl⟩ := processed
  exact ⟨offense, judged, rfl, rfl⟩

theorem Processes.grows (processed : Processes env st label post) :
    st.applied ⊆ post.applied ∧ st.ejected ⊆ post.ejected := by
  obtain ⟨call, result⟩ := label
  cases result with
  | error e =>
    rw [← (process_error.mp processed).2]
    exact ⟨subset_rfl, subset_rfl⟩
  | ok outcome =>
    obtain ⟨-, -, applied, ejected⟩ := process_ok processed
    rw [applied, ejected]
    exact ⟨Finset.subset_insert _ _, Finset.subset_insert _ _⟩

section

variable (run : Run (Processes env) st labels post)
include run

theorem not_ok_of_ejected (ejected : v ∈ st.ejected) :
    ∀ label ∈ labels, ∀ outcome, label.2 = .ok outcome → label.1.evidence.offender ≠ v := by
  induction run with
  | nil => simp
  | @cons s t u label rest first _ ih =>
    intro later among outcome accepted
    rcases List.mem_cons.mp among with rfl | among
    · obtain ⟨call, result⟩ := later
      cases accepted
      obtain ⟨offense, judged, -⟩ := process_ok first
      rintro rfl
      exact (SlashingEvidence.judge_eq_ok judged).2.2.1 ejected
    · exact ih (first.grows.2 ejected) later among outcome accepted

theorem refused_of_applied {e : SlashingEvidence}
    (conflict : e.Conflict env.crypto) (applied : e.id env.crypto ∈ st.applied) :
    ∀ label ∈ labels, e.SamePair label.1.evidence → label.2 = .error .alreadyApplied := by
  induction run with
  | nil => simp
  | @cons s t u label rest first _ ih =>
    intro later among same
    rcases List.mem_cons.mp among with rfl | among
    · obtain ⟨conflict', id⟩ := conflict.samePair same
      have refused : plan env later.1 s = .error .alreadyApplied := by
        rw [plan, SlashingEvidence.judge_applied (later.1.judging env) later.1.keys conflict' (id ▸ applied)]
        rfl
      have processed : exec (process env later.1) s = (later.2, t) := first
      rw [process_error.mpr ⟨refused, rfl⟩] at processed
      exact (congrArg Prod.fst processed).symm
    · exact ih (first.grows.1 applied) later among same

theorem proven_of_run : ∀ label ∈ labels, ∀ outcome,
    label.2 = .ok outcome → label.1.evidence.Conflict env.crypto ∧
      SlashingEvidence.Signed (label.1.judging env) label.1.keys
        label.1.evidence.offender (label.1.evidence.messages env.crypto).1 ∧
      SlashingEvidence.Signed (label.1.judging env) label.1.keys
        label.1.evidence.offender (label.1.evidence.messages env.crypto).2 := by
  induction run with
  | nil => simp
  | @cons s t u label rest first _ ih =>
    intro later among outcome accepted
    rcases List.mem_cons.mp among with rfl | among
    · obtain ⟨call, result⟩ := later
      cases accepted
      obtain ⟨offense, judged, -⟩ := process_ok first
      obtain ⟨conflict, -, -, signed, signed'⟩ := SlashingEvidence.judge_eq_ok judged
      exact ⟨conflict, signed, signed'⟩
    · exact ih later among outcome accepted

theorem offenders_apart :
    labels.Pairwise (fun label label' => ∀ outcome outcome', label.2 = .ok outcome →
      label'.2 = .ok outcome' → label.1.evidence.offender ≠ label'.1.evidence.offender) := by
  induction run with
  | nil => exact .nil
  | @cons s t u label rest first later ih =>
    refine .cons ?_ ih
    intro label' among outcome outcome' accepted accepted'
    obtain ⟨call, result⟩ := label
    cases accepted
    obtain ⟨-, -, -, ejected⟩ := process_ok first
    have out : call.evidence.offender ∈ t.ejected := by
      rw [ejected]
      exact Finset.mem_insert_self _ _
    exact (not_ok_of_ejected later out label' among outcome' accepted').symm

theorem pairs_refused :
    labels.Pairwise (fun label label' => ∀ outcome, label.2 = .ok outcome →
      label.1.evidence.SamePair label'.1.evidence → label'.2 = .error .alreadyApplied) := by
  induction run with
  | nil => exact .nil
  | @cons s t u label rest first later ih =>
    refine .cons ?_ ih
    intro label' among outcome accepted same
    obtain ⟨call, result⟩ := label
    cases accepted
    obtain ⟨offense, judged, applied, -⟩ := process_ok first
    have conflict := (SlashingEvidence.judge_eq_ok judged).1
    have spent : call.evidence.id env.crypto ∈ t.applied := by
      rw [applied]
      exact Finset.mem_insert_self _ _
    exact refused_of_applied later conflict spent label' among same

end

end

end SlashingState

namespace CommittedState

section

variable {env : Env} {st post : CommittedState}

theorem Step.processes (step : Step env st (.evidence e) post) :
    ∃ call outcome, call.evidence = e ∧
      SlashingState.Processes env st.slashing (call, .ok outcome) post.slashing := by
  cases step with
  | @evidence _ _ _ includingProposer roster applied =>
    obtain ⟨p, planned, rfl⟩ := applySlashingEvidence_eq_ok_iff.mp applied
    simp only [planSlashingEvidence, ok_iff] at planned
    obtain ⟨record, found, -, offense, judged, rfl⟩ := planned
    let o := st.offenceOf env e offense record includingProposer roster
    let call : SlashingState.Call := ⟨e, o.epoch, o.ownBondSat, o.delegations, totalStake roster,
      o.offenderEffectiveSat, o.includingProposer, st.keys, env.verifier⟩
    have planned : SlashingState.plan env call st.slashing =
        .ok (st.slashing.commitOffense env.gates o (totalStake roster)) := by
      rw [SlashingState.plan, bind_eq_ok_iff]
      exact ⟨offense, judged, rfl⟩
    refine ⟨call, (st.slashing.commitOffense env.gates o (totalStake roster)).1, rfl, ?_⟩
    exact exec_transact_eq_ok_iff.mpr ⟨_, planned, rfl, rfl⟩

theorem Step.slashing_eq (step : Step env st event post) (inside : event ≠ .closeEpoch)
    (noEvidence : ∀ e, event ≠ .evidence e) : post.slashing = st.slashing := by
  cases step.effect with
  | transaction accepted =>
    cases accepted with
    | bridge _ bridged => exact bridged.state ▸ rfl
    | _ => rfl
  | evidence => exact absurd rfl (noEvidence _)
  | vote | fees | proposer | forkchoice | prepareL2 | finish => rfl
  | closeEpoch => exact absurd rfl inside

def slashedMark (validators : SortedMap ℕ ValidatorRecord) (v : ℕ) : Option Bool :=
  (validators.get? v).map ValidatorRecord.slashed

theorem slashedMark_amend (found : m.get? i = some r) (same : r'.slashed = r.slashed) :
    slashedMark (m.insert i r') = slashedMark m := by
  funext v
  unfold slashedMark
  by_cases here : v = i
  · subst here
    rw [get?_insert_self, found, map_some, map_some, same]
  · rw [get?_insert_of_ne _ _ here]

/-- The ejected are the slashed. -/
def EjectedMarked (st : CommittedState) : Prop :=
  ∀ v, v ∈ st.slashing.ejected ↔ slashedMark st.validators v = some true

theorem EjectedMarked.congr (marked : st.EjectedMarked) (ledger : post.slashing = st.slashing)
    (marks : ∀ v, slashedMark post.validators v = some true ↔ slashedMark st.validators v = some true) :
    post.EjectedMarked := by
  intro v
  rw [ledger, marks]
  exact marked v

theorem RecordChange.marks (change : RecordChange env st event m) (noEvidence : ∀ e, event ≠ .evidence e) (v : ℕ) :
    slashedMark m v = some true ↔ slashedMark st.validators v = some true := by
  cases change with
  | same => exact Iff.rfl
  | @added r index waiting =>
    unfold slashedMark
    by_cases here : v = r.index
    · subst here
      simp [get?_insert_self, index, st.get?_nextIndex, waiting.unslashed]
    · rw [get?_insert_of_ne _ _ here]
  | amended found | repriced found | rotated found | exited found =>
    rw [slashedMark_amend found]
    rfl
  | punished _ slash => exact absurd slash (noEvidence _)

theorem aside_marks : Aside (fun st => (st.slashing, slashedMark st.validators)) where
  record _ _ found := Prod.ext rfl (slashedMark_amend found rfl)
  ledgers _ _ _ _ := rfl
  issues _ _ _ _ := rfl
  tally _ _ _ := rfl

theorem ejectedMarked_closeEpoch (env : Env) (marked : st.EjectedMarked) :
    (CommittedState.closeEpoch env st).EjectedMarked := by
  obtain ⟨settled, close, same⟩ := aside_marks.closeEpoch env st
  obtain ⟨_, _, _, _, _, entered, -⟩ := settled.enterEpoch_eq env (st.epoch + 1)
  obtain ⟨ledger, marks⟩ := Prod.ext_iff.mp same
  rw [close, entered]
  refine marked.congr ledger (fun v => ?_)
  exact iff_of_eq (congrArg (· = some true) (congrFun marks v))

theorem Step.ejectedMarked_evidence (step : Step env st (.evidence e) post)
    (marked : st.EjectedMarked) : post.EjectedMarked := by
  obtain ⟨call, outcome, rfl, processed⟩ := step.processes
  obtain ⟨offense, -, -, ejected⟩ := SlashingState.process_ok processed
  obtain ⟨record, lossSat, -, punished⟩ := step.punishes
  intro v
  rw [ejected, punished, Finset.mem_insert, marked v]
  unfold slashedMark
  by_cases here : v = call.evidence.offender
  · subst here
    simp [get?_insert_self, ValidatorRecord.punished]
  · simp [get?_insert_of_ne _ _ here, here]

theorem Step.ejectedMarked (step : Step env st event post) (marked : st.EjectedMarked) :
    post.EjectedMarked := by
  by_cases close : event = .closeEpoch
  · subst close
    cases step with
    | closeEpoch => exact ejectedMarked_closeEpoch env marked
  · by_cases noEvidence : ∀ e, event ≠ .evidence e
    · exact marked.congr (step.slashing_eq close noEvidence) ((step.recordChange close).marks noEvidence)
    · push Not at noEvidence
      obtain ⟨e, rfl⟩ := noEvidence
      exact step.ejectedMarked_evidence marked

theorem Initial.ejectedMarked (initial : Initial env st) : st.EjectedMarked := by
  obtain ⟨gen, -, l2, rfl, -⟩ := initial.eq_genesisState
  intro v
  simp only [genesisState, SlashingState.new, slashedMark, Finset.notMem_empty, false_iff]
  intro marked
  obtain ⟨r, found, slashed⟩ := map_eq_some_iff.mp marked
  obtain ⟨v, -, same⟩ := List.mem_map.mp (mem_of_get?_ofList found)
  cases same
  cases slashed

end

/-- Over any calls a validator is punished at most once, and only for two messages it signed and must not
both have signed; the same pair is refused in either order. In a committed state the ejected are the
slashed. -/
theorem one_slash_per_validator {env : Env} {slashing slashing' : SlashingState}
    {labels : List (SlashingState.Call × SlashingState.Result)} {st : CommittedState}
    (run : Run (SlashingState.Processes env) slashing labels slashing') (reached : Reachable env st) :
    labels.Pairwise (fun label later => ∀ outcome outcome', label.2 = .ok outcome →
      later.2 = .ok outcome' → label.1.evidence.offender ≠ later.1.evidence.offender) ∧
    labels.Pairwise (fun label later => ∀ outcome, label.2 = .ok outcome →
      label.1.evidence.SamePair later.1.evidence → later.2 = .error .alreadyApplied) ∧
    (∀ label ∈ labels, ∀ outcome, label.2 = .ok outcome → label.1.evidence.Conflict env.crypto ∧
      SlashingEvidence.Signed (label.1.judging env) label.1.keys label.1.evidence.offender
        (label.1.evidence.messages env.crypto).1 ∧
      SlashingEvidence.Signed (label.1.judging env) label.1.keys label.1.evidence.offender
        (label.1.evidence.messages env.crypto).2) ∧
    (∀ (s s' : SlashingState) (call : SlashingState.Call) (e : EvidenceError),
      exec (SlashingState.process env call) s = (.error e, s') → s' = s) ∧
    ∀ v, v ∈ st.slashing.ejected ↔ ∃ r, st.validators.get? v = some r ∧ r.slashed = true := by
  refine ⟨SlashingState.offenders_apart run, SlashingState.pairs_refused run,
    SlashingState.proven_of_run run, ?_, ?_⟩
  · intro s s' call e refused
    exact (SlashingState.process_error.mp refused).2.symm
  · intro v
    have marked := reached.invariant Initial.ejectedMarked Step.ejectedMarked v
    rwa [slashedMark, map_eq_some_iff] at marked

def report (first second : Attestation) : SlashingState.Call where
  evidence := .attestationOffence first second
  epoch := 0
  ownBondSat := MIN_DEPOSIT_SAT
  delegations := []
  totalActiveSat := MIN_DEPOSIT_SAT
  offenderEffectiveSat := MIN_DEPOSIT_SAT
  includingProposer := 0
  keys := ⟨fun _ => some [], fun _ _ => none, none, none⟩
  verifier := (Env.accepting Gates.shipped).verifier

/-- The votes of a report are taken once, and on a chain their signer is marked. -/
theorem one_slash_of_a_double_vote : let a : Attestation := ⟨0, ⟨0, 0, 0, 0, 0, 1⟩, [1]⟩
    let b : Attestation := ⟨0, ⟨0, 0, 0, 0, 0, 2⟩, [2]⟩
    let env := Env.accepting { Gates.shipped with slashingEvidence := 0 }
    (∃ outcome taken result post, exec (SlashingState.process env (report a b)) .new = (.ok outcome, taken) ∧
      exec (SlashingState.process env (report b { a with signature := [] })) taken = (result, post) ∧
      result = .error .alreadyApplied) ∧
    ∃ post, Run (Step env) (genesisState env (.small 3)) [.evidence (doubleVoteOf 0)] post ∧
      ∃ r, post.validators.get? 0 = some r ∧ r.slashed = true := by
  intro a b env
  obtain ⟨outcome, taken, first⟩ : ∃ outcome taken,
      exec (SlashingState.process env (report a b)) .new = (.ok outcome, taken) := ⟨_, _, rfl⟩
  obtain ⟨⟨result, refused⟩, second⟩ : ∃ again,
      exec (SlashingState.process env (report b { a with signature := [] })) taken = again := ⟨_, rfl⟩
  have run : Run (SlashingState.Processes env) .new
      [(report a b, .ok outcome), (report b { a with signature := [] }, result)] refused :=
    .cons first (.cons second (.nil _))
  have played : ((playAll env (genesisState env (.small 3)) [.evidence (doubleVoteOf 0)]).map
      (fun post => decide (0 ∈ post.slashing.ejected))) = some true := by decide +kernel
  obtain ⟨post, played, ejected⟩ := map_eq_some_iff.mp played
  have reached : Reachable env post := ⟨_, _, initial_genesisState (by decide +kernel), run_of_playAll played⟩
  obtain ⟨-, pairs, -, -, marked⟩ := one_slash_per_validator run reached
  have same : (report a b).evidence.SamePair (report b { a with signature := [] }).evidence :=
    .inr ⟨⟨rfl, rfl⟩, rfl, rfl⟩
  refine ⟨⟨outcome, taken, result, refused, first, second, ?_⟩, post, run_of_playAll played, ?_⟩
  · exact (List.pairwise_cons.mp pairs).1 _ List.mem_cons_self outcome rfl same
  · exact (marked 0).mp (of_decide_eq_true ejected)

end CommittedState

end BlochPos
