import BlochPos.Delegation.History
import BlochPos.Transition.InEpoch

/-! What the events of a network do to its delegations: a position is opened or dated, both from the
next epoch on. -/
namespace BlochPos

open Attempt SortedMap List

def Event.isUnfunded : Event → Bool
  | .transaction (.delegate ..) _ => true
  | _ => false

namespace CommittedState

/-- What holds of a position that opens with coins. -/
structure Opens (st : CommittedState) (d : Delegation) : Prop where
  delegator : d.delegator = st.nextDelegatorId
  limited : st.reservedSat d.validator + d.amountSat ≤ MAX_FUNDED_DELEGATION_PER_VALIDATOR_SAT

/-- All an event may do to the positions. -/
inductive PositionChange (st post : CommittedState) : Event → Prop where
  | same {event} (delegations : post.delegations = st.delegations)
      (paid : ∀ p, post.isWithdrawn p = st.isWithdrawn p) : PositionChange st post event
  | opened {event d} (requested : d.requestedEpoch = st.epoch + 1)
      (funded : event.isUnfunded = false → st.Opens d)
      (delegations : post.delegations = st.delegations ++ [d])
      (paid : ∀ p, post.isWithdrawn p = st.isWithdrawn p) : PositionChange st post event
  | dated {event position d} (found : st.delegations[position]? = some d)
      (stays : d.deactivateEpoch = none) (unpaid : st.isWithdrawn position = false)
      (delegations : post.delegations =
        st.delegations.set position { d with deactivateEpoch := some (st.epoch + 1) })
      (paid : ∀ p, post.isWithdrawn p = st.isWithdrawn p) : PositionChange st post event
  | paidOut {tx charge} (unpaid : st.isWithdrawn tx.position = false)
      (delegations : post.delegations = st.delegations)
      (paid : ∀ p, post.isWithdrawn p = (positionKey p = positionKey tx.position || st.isWithdrawn p)) :
      PositionChange st post (.transaction (.fundedDelegationWithdraw tx) charge)

section

variable {env : Env} {st post : CommittedState} {event : Event} {position v bound : ℕ} {d : Delegation}
  {r : ValidatorRecord}

theorem isWithdrawn_insert (lifecycle : post.fundedDelegationLifecycle =
      st.fundedDelegationLifecycle.insert (positionKey position) (since, withdrawn)) (p : ℕ) :
    post.isWithdrawn p = if positionKey p = positionKey position then withdrawn else st.isWithdrawn p := by
  simp only [isWithdrawn, lifecycle, get?_insert]
  split_ifs <;> rfl

theorem Accepted.positionChange {charge : TxCharge} (accepted : Accepted env st totalActiveSat baseFee tx charge post) :
    PositionChange st post (.transaction tx charge) := by
  cases accepted with
  | bridge _ bridged =>
    rw [bridged.state]
    exact .same rfl (fun _ => rfl)
  | fundedDelegate planned =>
    obtain ⟨validator, -, -, opened, -, limited, -⟩ := planFundedDelegate_opens planned
    exact .opened (opened ▸ rfl) (fun _ => ⟨opened ▸ rfl, opened ▸ limited⟩) rfl (fun _ => rfl)
  | fundedUndelegate planned =>
    obtain ⟨d, found, stays, dated, unpaid, -⟩ := planFundedUndelegate_eq_ok planned
    refine .dated found stays unpaid (by rw [withDeactivation, dated]) (fun p => ?_)
    rw [isWithdrawn_insert rfl]
    split_ifs with same
    · rw [← unpaid, isWithdrawn, isWithdrawn, same]
    · rfl
  | delegationWithdraw planned =>
    obtain ⟨d, -, unpaid, -⟩ := planFundedDelegationWithdrawal_eq_ok planned
    refine .paidOut unpaid rfl (fun p => ?_)
    rw [isWithdrawn_insert rfl]
    split_ifs with same <;> simp [same]
  | delegate planned =>
    simp only [planDelegate, ok_iff] at planned
    obtain ⟨-, -, -, -, -, -, rfl⟩ := planned
    exact .opened rfl (by rintro ⟨⟩) rfl (fun _ => rfl)
  | _ => exact .same rfl (fun _ => rfl)

theorem isWithdrawn_closeEpoch (env : Env) (st : CommittedState) (position : ℕ) :
    (closeEpoch env st).isWithdrawn position = st.isWithdrawn position := by
  obtain ⟨settled, close, same⟩ := aside_lifecycle.closeEpoch env st
  obtain ⟨commits, bound, l2, engine, lifecycle, entered, -, -, -, -, drains⟩ :=
    settled.enterEpoch_eq env (st.epoch + 1)
  rw [(Prod.mk.inj same).1] at drains
  rw [close, entered]
  exact drains.isWithdrawn_eq position

theorem Step.positionChange (step : Step env st event post) : PositionChange st post event := by
  cases step.effect with
  | transaction accepted => exact accepted.positionChange
  | evidence | vote | fees | proposer | forkchoice | prepareL2 | finish => exact .same rfl (fun _ => rfl)
  | closeEpoch =>
    exact .same (congrArg Standing.delegations (standing_closeEpoch env st))
      (isWithdrawn_closeEpoch env st)

theorem PositionChange.resolve_eq (change : PositionChange st post event) (past : e ≤ st.epoch) :
    Registry.resolve post.delegations e = Registry.resolve st.delegations e := by
  cases change with
  | same delegations | paidOut _ delegations => rw [delegations]
  | opened requested _ delegations =>
    rw [delegations]
    refine Registry.resolve_append (fun d among => ?_) past
    rw [mem_singleton.mp among, requested]
    exact Nat.lt_succ_self _
  | @dated _ position d found stays _ delegations =>
    obtain ⟨inside, rfl⟩ := List.getElem?_eq_some_iff.mp found
    have whole : st.delegations = st.delegations.take position ++ st.delegations[position] ::
        st.delegations.drop (position + 1) := by
      rw [getElem_cons_drop, take_append_drop]
    rw [delegations, set_eq_take_append_cons_drop, if_pos inside,
      Registry.resolve_deactivate stays (Nat.lt_succ_self st.epoch) past, ← whole]

theorem PositionChange.keeps (change : PositionChange st post event)
    (found : st.delegations[position]? = some d) :
    ∃ date, post.delegations[position]? = some { d with deactivateEpoch := date } ∧
      (d.deactivateEpoch ≠ none → date = d.deactivateEpoch) := by
  have inside := (List.getElem?_eq_some_iff.mp found).choose
  cases change with
  | same delegations | paidOut _ delegations =>
    exact ⟨d.deactivateEpoch, by rw [delegations, found], fun _ => rfl⟩
  | opened _ _ delegations =>
    exact ⟨d.deactivateEpoch, by rw [delegations, getElem?_append_left inside, found], fun _ => rfl⟩
  | @dated _ other d' found' stays _ delegations =>
    rw [delegations, getElem?_set]
    by_cases here : other = position
    · subst here
      rw [found, Option.some.injEq] at found'
      subst found'
      rw [if_pos rfl, if_pos inside]
      exact ⟨_, rfl, fun dated => absurd stays dated⟩
    · rw [if_neg here]
      exact ⟨d.deactivateEpoch, found, fun _ => rfl⟩

def commissions (st : CommittedState) : SortedMap ℕ ℕ := st.validators.mapVal (fun _ r => r.commissionBps)

theorem get?_commissions :
    st.commissions.get? v = (st.validators.get? v).map ValidatorRecord.commissionBps := by
  rw [commissions, get?_mapVal]

theorem aside_commissions : Aside commissions where
  record _ _ found := mapVal_insert_of_same found rfl
  ledgers _ _ _ _ := rfl
  issues _ _ _ _ := rfl
  tally _ _ _ := rfl

theorem commissions_closeEpoch (env : Env) (st : CommittedState) :
    (closeEpoch env st).commissions = st.commissions :=
  aside_commissions.closeEpoch_eq (enterEpoch_leaves (fun _ _ _ _ _ _ _ => rfl)) st

/-- Everything delegated to the validator is out. -/
def Unencumbered (search : Registry.KeySearch) (st : CommittedState) (v : ℕ) : Prop :=
  ∀ d ∈ st.delegations, d.validator = v → (Registry.resolve st.delegations st.epoch).stateOf d = .inactive ∧
    (Registry.resolve st.delegations st.epoch).activatedSat search d = 0

/-- What an event may do to the commissions. -/
inductive CommissionMove (search : Registry.KeySearch) (st post : CommittedState) : Prop where
  | same (commissions : post.commissions = st.commissions)
  | added {v commission} (absent : st.commissions.get? v = none)
      (commissions : post.commissions = st.commissions.insert v commission)
  | updated {v old commission} (found : st.commissions.get? v = some old)
      (raised : old < commission → st.Unencumbered search v)
      (commissions : post.commissions = st.commissions.insert v commission)

theorem Step.commissionMove (step : Step env st event post) : CommissionMove env.search st post := by
  by_cases closes : event = .closeEpoch
  · subst closes
    cases step
    exact .same (commissions_closeEpoch env st)
  have change := step.recordChange closes
  generalize after : post.validators = m at change
  cases change with
  | same => exact .same (by rw [commissions, after, commissions])
  | @added r index =>
    have absent : st.commissions.get? r.index = none := by
      rw [get?_commissions, index, st.get?_nextIndex]
      rfl
    have listed : post.commissions = st.commissions.insert r.index r.commissionBps := by
      rw [commissions, after, mapVal_insert, commissions]
    exact .added absent listed
  | amended found | rotated found | exited found | punished found =>
    refine .same ?_
    rw [commissions, after]
    exact mapVal_insert_of_same found rfl
  | @repriced tx r p found planned =>
    have old : st.commissions.get? tx.validator = some r.commissionBps := by
      rw [get?_commissions, found]
      rfl
    have raised := planValidatorCommissionUpdate_raises planned found
    refine .updated old raised ?_
    rw [commissions, after, mapVal_insert]
    rfl

theorem CommissionMove.le (move : CommissionMove search st post)
    (found : st.commissions.get? v = some commission) (encumbered : ¬ st.Unencumbered search v) :
    ∃ commission' ≤ commission, post.commissions.get? v = some commission' := by
  cases move with
  | same commissions => exact ⟨commission, le_rfl, by rw [commissions, found]⟩
  | @added w new absent commissions =>
    have other : v ≠ w := ne_of_absent found absent
    exact ⟨commission, le_rfl, by rw [commissions, get?_insert_of_ne _ _ other, found]⟩
  | @updated w old new found' raised commissions =>
    by_cases here : v = w
    · subst here
      rw [found, Option.some.injEq] at found'
      subst found'
      refine ⟨new, ?_, by rw [commissions, get?_insert_self]⟩
      by_contra higher
      exact encumbered (raised (not_le.mp higher))
    · exact ⟨commission, le_rfl, by rw [commissions, get?_insert_of_ne _ _ here, found]⟩

/-- A position counts, or is about to. -/
def StandsBehind (search : Registry.KeySearch) (st : CommittedState) (position : ℕ) : Prop :=
  ∃ d ∈ st.delegations[position]?, ¬ ((Registry.resolve st.delegations st.epoch).stateOf d = .inactive ∧
    (Registry.resolve st.delegations st.epoch).activatedSat search d = 0)
deriving Decidable

/-- An event while the position counts. -/
def StepBehind (env : Env) (position : ℕ) (st : CommittedState) (event : Event) (post : CommittedState) :
    Prop :=
  st.StandsBehind env.search position ∧ Step env st event post

/-- The position is behind the validator, whose commission is not above a bound. -/
def ChargedAtMost (position v bound : ℕ) (st : CommittedState) : Prop :=
  (∃ d, st.delegations[position]? = some d ∧ d.validator = v) ∧
    ∃ commission ≤ bound, st.commissions.get? v = some commission

theorem ChargedAtMost.step (charged : ChargedAtMost position v bound st)
    (step : StepBehind env position st event post) : ChargedAtMost position v bound post := by
  obtain ⟨⟨d, found, behind⟩, commission, within, listed⟩ := charged
  obtain ⟨⟨d', found', counts⟩, step⟩ := step
  obtain rfl : d = d' := Option.some.inj (found.symm.trans found')
  have encumbered : ¬ st.Unencumbered env.search v :=
    fun free => counts (free d (mem_of_getElem? found) behind)
  obtain ⟨commission', lower, listed'⟩ := step.commissionMove.le listed encumbered
  obtain ⟨date, kept, -⟩ := step.positionChange.keeps found
  exact ⟨⟨_, kept, behind⟩, commission', lower.trans within, listed'⟩

theorem ChargedAtMost.run (charged : ChargedAtMost position v bound st)
    (run : Run (StepBehind env position) st events post) : ChargedAtMost position v bound post :=
  run.invariant (fun step held => ChargedAtMost.step held step) charged

theorem stateOf_fresh {r : Registry} (eligible : d.eligible = true)
    (enough : MIN_DELEGATION_SAT ≤ d.amountSat) (stays : d.deactivateEpoch = none) :
    r.stateOf d ≠ .inactive := by
  rw [Registry.stateOf, if_neg (by simp [eligible, enough]), stays]
  dsimp only
  split_ifs <;> decide

end

/-- From the acceptance of a funded delegation on, and for as long as it counts or is about to, no
event raises the commission of its validator. -/
theorem commission_not_raised {env : Env} {st mid later post : CommittedState} {tx : FundedDelegate}
    {charge : TxCharge} {events events' : List Event}
    (accepted : Step env st (.transaction (.fundedDelegate tx) charge) mid)
    (held : Run (StepBehind env st.delegations.length) mid events later)
    (run : Run (StepBehind env st.delegations.length) later events' post) :
    ∃ v d, st.pubkeyIndex.get? tx.validatorPubkeyHash = some v ∧
      mid.delegations = st.delegations ++ [d] ∧ d.validator = v ∧
      mid.StandsBehind env.search st.delegations.length ∧
      ∃ r r', later.validators.get? v = some r ∧ post.validators.get? v = some r' ∧
        r'.commissionBps ≤ r.commissionBps := by
  cases accepted with
  | transaction applied =>
    cases accepted_of_applyTransaction applied with
    | bridge kind => cases kind
    | @fundedDelegate _ d planned =>
      obtain ⟨v, known, listed, opened, enough, -⟩ := planFundedDelegate_opens planned
      obtain ⟨record, found⟩ := Option.isSome_iff_exists.mp listed
      have placed : (st.withFundedDelegation d).delegations[st.delegations.length]? = some d.delegation := by
        rw [withFundedDelegation, getElem?_concat_length]
      have charged : ChargedAtMost st.delegations.length v record.commissionBps
          (st.withFundedDelegation d) := by
        refine ⟨⟨_, placed, opened ▸ rfl⟩, record.commissionBps, le_rfl, ?_⟩
        rw [get?_commissions, withFundedDelegation, found]
        rfl
      obtain ⟨place, commission, -, charges⟩ := charged.run held
      obtain ⟨-, commission', lower, charges'⟩ := ChargedAtMost.run ⟨place, commission, le_rfl, charges⟩ run
      rw [get?_commissions, Option.map_eq_some_iff] at charges charges'
      obtain ⟨r, before, rfl⟩ := charges
      obtain ⟨r', after, rfl⟩ := charges'
      refine ⟨v, d.delegation, known, rfl, opened ▸ rfl, ⟨_, placed, ?_⟩, r, r', before, after, lower⟩
      exact fun idle => stateOf_fresh (opened ▸ rfl) (opened ▸ enough) (opened ▸ rfl) idle.1

def fundedRehearsal : Env := .accepting { Gates.shipped with fundedDelegation := 0 }

def holderKey : Bytes := HYBRID_HEADER ++ List.replicate 3745 1

def holderSignature : Bytes := HYBRID_HEADER ++ List.replicate 3310 1

def fundedGenesis : Genesis :=
  { Genesis.small 0 with
    validators := [⟨0, [1], MIN_DEPOSIT_SAT, 0, [], 500⟩]
    openingBalances := [⟨1, 0, MIN_DELEGATION_SAT + 3875, toHash holderKey⟩] }

def fundedStart : CommittedState :=
  { genesisState fundedRehearsal fundedGenesis with admissionNetworkDomain := some 1 }

def smallestDelegation : FundedDelegate where
  networkDomain := 1
  validUntilEpoch := 0
  fundingPubkey := holderKey
  inputs := [⟨1, 0⟩]
  validatorPubkeyHash := 1
  amountSat := MIN_DELEGATION_SAT
  change := ⟨1000, 1⟩
  maxBaseFeeMillisatPerGas := MIN_BASE_FEE_MILLISAT_PER_GAS
  tipMillisatPerGas := 0
  txBytes := 8559
  fundingSignature := holderSignature

def delegationEvent : Event :=
  .transaction (.fundedDelegate smallestDelegation) (smallestDelegation.terms.charge 0)

def commissionCut : ValidatorCommissionUpdate where
  networkDomain := 1
  epoch := 0
  validator := 0
  commissionBps := 400
  signature := holderSignature

def commissionEvent : Event :=
  .transaction (.validatorCommissionUpdate commissionCut)
    (stakingTxCharge fundedRehearsal.gates 0 1 commissionCut.canonicalBytes.length)

/-- A cut while the first delegation waits for its epoch. -/
theorem commission_cut_on_waiting_delegation :
    ∃ mid post, Run (Step fundedRehearsal) fundedStart [delegationEvent] mid ∧
      Run (Step fundedRehearsal) mid [commissionEvent] post ∧ mid.StandsBehind Registry.firstMatch 0 ∧
      ∃ r r', mid.validators.get? 0 = some r ∧ post.validators.get? 0 = some r' ∧
        r'.commissionBps ≤ r.commissionBps := by
  have played : (playAll fundedRehearsal fundedStart [delegationEvent]).any (fun mid =>
      mid.StandsBehind Registry.firstMatch 0 && (playAll fundedRehearsal mid [commissionEvent]).isSome) = true := by
    decide +kernel
  simp only [Option.any_eq_true, Bool.and_eq_true, decide_eq_true_eq, Option.isSome_iff_exists] at played
  obtain ⟨mid, opened, behind, post, cut⟩ := played
  have first := run_of_playAll opened
  have second := run_of_playAll cut
  obtain ⟨v, d, known, -, -, -, r, r', before, after, lower⟩ :=
    commission_not_raised first.of_single (.nil mid) (.single ⟨behind, second.of_single⟩)
  have validator : fundedStart.pubkeyIndex.get? smallestDelegation.validatorPubkeyHash = some 0 := by
    decide +kernel
  obtain rfl : v = 0 := Option.some.inj (known.symm.trans validator)
  exact ⟨mid, post, first, second, behind, r, r', before, after, lower⟩

end CommittedState

end BlochPos
