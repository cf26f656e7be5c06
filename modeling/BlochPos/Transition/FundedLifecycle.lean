import BlochPos.Transition.BlockRun
import BlochPos.Transition.Delegations

/-! The life of a position paid for with coins: opened, dated, drained, and paid out once. -/
namespace BlochPos

open Attempt SortedMap

namespace CommittedState

section

variable {env : Env} {st post : CommittedState} {event : Event} {events : List Event} {v : ℕ}
  {position : ℕ} {d : Delegation}

theorem reservedSat_eq (st : CommittedState) (v : ℕ) : st.reservedSat v =
    ((st.delegations.map (fun d => (d.validator, d.amountSat))).zipIdx.map
      (fun d => if d.1.1 = v ∧ ¬ st.isWithdrawn d.2 then d.1.2 else 0)).sum := by
  rw [reservedSat, List.zipIdx_map, List.map_map]
  induction st.delegations.zipIdx with
  | nil => rfl
  | cons d rest ih =>
    simp only [List.filter_cons, decide_eq_true_eq, List.map_cons, List.sum_cons, Function.comp_apply,
      Prod.map_fst, Prod.map_snd, id_eq]
    split_ifs
    · rw [List.map_cons, List.sum_cons, ih]
    · rw [ih, zero_add]

theorem reservedSat_le
    (worth : post.delegations.map (fun d => (d.validator, d.amountSat)) =
      st.delegations.map (fun d => (d.validator, d.amountSat)))
    (paid : ∀ p, st.isWithdrawn p = true → post.isWithdrawn p = true) :
    post.reservedSat v ≤ st.reservedSat v := by
  rw [reservedSat_eq, reservedSat_eq, worth]
  refine List.sum_le_sum (fun d _ => ?_)
  split_ifs with counts counted
  · exact le_rfl
  · exact absurd ⟨counts.1, fun before => counts.2 (paid _ before)⟩ counted
  · exact Nat.zero_le _
  · exact le_rfl

theorem reservedSat_append (delegations : post.delegations = st.delegations ++ [d])
    (paid : ∀ p, post.isWithdrawn p = st.isWithdrawn p) :
    post.reservedSat v ≤ st.reservedSat v + if d.validator = v then d.amountSat else 0 := by
  simp only [reservedSat_eq, delegations, paid, List.map_append, List.zipIdx_append, List.sum_append,
    List.map_cons, List.map_nil, List.zipIdx_singleton, List.sum_cons, List.sum_nil]
  split_ifs <;> simp_all

theorem delegator_lt_nextDelegatorId (member : d ∈ st.delegations) : d.delegator < st.nextDelegatorId := by
  have listed : d.delegator ∈ st.delegations.map Delegation.delegator ++ st.fundedDelegationOwners.keys :=
    List.mem_append_left _ (List.mem_map_of_mem member)
  unfold nextDelegatorId
  cases top : (st.delegations.map Delegation.delegator ++ st.fundedDelegationOwners.keys).max? with
  | none =>
    simp [List.max?_eq_none_iff.mp top] at listed
  | some last =>
    have below := (List.max?_eq_some_iff.mp top).2 _ listed
    exact Nat.lt_succ_of_le below

/-- No delegator has two positions, no validator more than its limit. -/
structure FundedBook (st : CommittedState) : Prop where
  apart : (st.delegations.map Delegation.delegator).Nodup
  limited : ∀ v, st.reservedSat v ≤ MAX_FUNDED_DELEGATION_PER_VALIDATOR_SAT

theorem FundedBook.change (book : FundedBook st) (change : PositionChange st post event)
    (funded : event.isUnfunded = false) : FundedBook post := by
  cases change with
  | same delegations paid =>
    refine ⟨by rw [delegations]; exact book.apart, fun v => ?_⟩
    exact (reservedSat_le (by rw [delegations]) (fun p before => (paid p).trans before)).trans (book.limited v)
  | @opened _ d _ opens delegations paid =>
    have fresh := opens funded
    refine ⟨?_, fun v => ?_⟩
    · rw [delegations, List.map_append, List.map_cons, List.map_nil]
      refine List.Nodup.append book.apart (List.nodup_singleton _) ?_
      intro id used new
      obtain ⟨old, member, rfl⟩ := List.mem_map.mp used
      have below := delegator_lt_nextDelegatorId member
      rw [List.mem_singleton.mp new, fresh.delegator] at below
      exact lt_irrefl _ below
    · have grown := reservedSat_append (v := v) delegations paid
      split_ifs at grown with own
      · subst own
        exact grown.trans fresh.limited
      · exact grown.trans (book.limited v)
  | @dated _ position d found _ _ delegations paid =>
    have kept : ∀ {B : Type} (f : Delegation → B), f { d with deactivateEpoch := some (st.epoch + 1) } = f d →
        post.delegations.map f = st.delegations.map f := by
      intro B f same
      rw [delegations, List.map_set_of_same found same]
    refine ⟨by rw [kept _ rfl]; exact book.apart, fun v => ?_⟩
    exact (reservedSat_le (kept _ rfl) (fun p before => (paid p).trans before)).trans (book.limited v)
  | paidOut _ delegations paid =>
    refine ⟨by rw [delegations]; exact book.apart, fun v => ?_⟩
    refine (reservedSat_le (by rw [delegations]) (fun p before => ?_)).trans (book.limited v)
    rw [paid, before, Bool.or_true]

theorem FundedBook.run (book : FundedBook st) (run : Run (Step env) st events post)
    (funded : ∀ event ∈ events, event.isUnfunded = false) : FundedBook post := by
  induction run with
  | nil => exact book
  | cons step _ ih =>
    exact ih (book.change step.positionChange (funded _ List.mem_cons_self))
      (fun event later => funded event (List.mem_cons_of_mem _ later))

theorem Initial.fundedBook (initial : Initial env st) : FundedBook st := by
  obtain ⟨gen, -, l2, rfl, -⟩ := initial.eq_genesisState
  exact ⟨List.nodup_nil, fun v => Nat.zero_le _⟩

theorem FundedBook.position_eq (book : FundedBook st)
    (found : st.delegations[position]? = some d) (found' : st.delegations[p]? = some d')
    (same : d'.delegator = d.delegator) : p = position := by
  have inside : p < (st.delegations.map Delegation.delegator).length := by
    rw [List.length_map]
    exact (List.getElem?_eq_some_iff.mp found').choose
  refine (List.getElem?_inj inside book.apart).mp ?_
  rw [List.getElem?_map, List.getElem?_map, found, found', Option.map_some, Option.map_some, same]

/-- A position as it was paid out. -/
def PaidOut (position : ℕ) (d : Delegation) (st : CommittedState) : Prop :=
  st.isWithdrawn position = true ∧ st.delegations[position]? = some d

theorem PaidOut.change (paidOut : PaidOut position d st) (change : PositionChange st post event) :
    PaidOut position d post := by
  obtain ⟨withdrawn, found⟩ := paidOut
  cases change with
  | same delegations paid => exact ⟨(paid position).trans withdrawn, by rw [delegations, found]⟩
  | opened _ _ delegations paid =>
    have inside := (List.getElem?_eq_some_iff.mp found).choose
    exact ⟨(paid position).trans withdrawn,
      by rw [delegations, List.getElem?_append_left inside, found]⟩
  | @dated _ other _ _ _ unpaid delegations paid =>
    have apart : other ≠ position := by
      rintro rfl
      simp [withdrawn] at unpaid
    exact ⟨(paid position).trans withdrawn, by rw [delegations, List.getElem?_set_ne apart, found]⟩
  | paidOut _ delegations paid =>
    exact ⟨by rw [paid, withdrawn, Bool.or_true], by rw [delegations, found]⟩

theorem PaidOut.run (paidOut : PaidOut position d st) (run : Run (Step env) st events post) :
    PaidOut position d post :=
  run.invariant (fun step held => PaidOut.change held step.positionChange) paidOut

theorem PaidOut.not_again {charge : TxCharge} (paidOut : PaidOut position d st) (run : Run (Step env) st events post)
    (among : .transaction (.fundedDelegationWithdraw tx) charge ∈ events) : tx.position ≠ position := by
  induction run with
  | nil => cases among
  | @cons s _ _ event _ step _ ih =>
    rcases List.mem_cons.mp among with rfl | later
    · rintro rfl
      cases step with
      | transaction applied =>
        cases accepted_of_applyTransaction applied with
        | bridge kind => cases kind
        | delegationWithdraw planned =>
          obtain ⟨_, -, unpaid, -⟩ := planFundedDelegationWithdrawal_eq_ok planned
          simp [paidOut.1] at unpaid
    · exact ih (paidOut.change step.positionChange) later

theorem resolve_eq_of_run (run : Run (Step env) st events post) {e : ℕ} (past : e ≤ st.epoch) :
    Registry.resolve post.delegations e = Registry.resolve st.delegations e := by
  induction run with
  | nil => rfl
  | cons step _ ih => rw [ih (past.trans step.epoch_le), step.positionChange.resolve_eq past]

theorem left_of_inactive {r : Registry} (inactive : r.stateOf d = .inactive) (eligible : d.eligible = true)
    (enough : MIN_DELEGATION_SAT ≤ d.amountSat) : d.Left r.epoch := by
  rw [Registry.stateOf, if_neg (by simp [eligible, enough])] at inactive
  cases date : d.deactivateEpoch with
  | none =>
    rw [date] at inactive
    dsimp only at inactive
    split_ifs at inactive
  | some de =>
    rw [date] at inactive
    dsimp only at inactive
    split_ifs at inactive with past
    exact ⟨de, date, le_trans (Nat.le_add_right _ _) past⟩

/-- A position that is inactive and holds no stake holds none at any later epoch. -/
theorem FundedBook.stays_empty (book : FundedBook st) (member : d ∈ st.delegations)
    (inactive : (Registry.resolve st.delegations e).stateOf d = .inactive)
    (searches : Registry.Searches search)
    (empty : (Registry.resolve st.delegations e).activatedSat search d = 0) (later : e ≤ e') :
    (Registry.resolve st.delegations e').activatedSat search d = 0 := by
  refine Registry.answer_zero_of_left searches ?_ empty later
  intro a listed eligible enough key
  -- Delegators are apart, so the only record of the key is the position itself.
  obtain rfl : a = d := List.inj_on_of_nodup_map book.apart listed member
    (Delegation.queueKey_eq_iff.mp key).2.2.1
  exact left_of_inactive inactive eligible enough

end

/-- Nobody has voted in the epoch, and no fees are due. -/
def Quiet (st : CommittedState) : Prop :=
  (∀ e ∈ st.currentParticipation.entries, e.2 = false) ∧ st.pendingFeeRewards = .empty
deriving Decidable

/-- What the payout of a position reads. -/
structure Payable where
  epoch : ℕ
  networkDomain : Option Bytes32
  owners : SortedMap ℕ Bytes32
  delegations : List Delegation
  mark : Option (ℕ × Bool)
  (slashLosses feeRewards issuanceRewards : SortedMap ℕ ℕ)
  eutxos : Eutxos

def payable (st : CommittedState) (position : ℕ) : Payable where
  epoch := st.epoch
  networkDomain := st.admissionNetworkDomain
  owners := st.fundedDelegationOwners
  delegations := st.delegations
  mark := st.fundedDelegationLifecycle.get? (positionKey position)
  slashLosses := st.delegatorSlashLosses
  feeRewards := st.delegatorFeeRewards
  issuanceRewards := st.delegatorIssuanceRewards
  eutxos := st.eutxos

section

variable {env : Env} {st post : CommittedState} {position : ℕ}
  {tx : FundedDelegationWithdraw} {entry : ℕ × Bool}

theorem planFundedDelegationWithdrawal_congr (same : post.payable tx.position = st.payable tx.position) :
    planFundedDelegationWithdrawal env post tx baseFee = planFundedDelegationWithdrawal env st tx baseFee := by
  simp only [payable, Payable.mk.injEq] at same
  obtain ⟨epoch, domain, owners, delegations, mark, losses, fees, issuance, eutxos⟩ := same
  simp only [planFundedDelegationWithdrawal, ownedPosition, delegationPayoutSat, epoch, domain, owners,
    delegations, mark, losses, fees, issuance, eutxos]

theorem distribute_of_no_credits (idle : acct.credits = 0) (issuance total : ℕ) :
    (distribute acct issuance total).operator = 0 ∧ (distribute acct issuance total).delegators = 0 := by
  unfold distribute
  dsimp only
  split_ifs <;> simp [idle]

theorem payIssuance_of_absent (inert : t.rewardsV2 = false)
    (absent : ∀ e ∈ st.currentParticipation.entries, e.2 = false) : payIssuance t st = st := by
  have unseen : ∀ v, st.currentParticipation.getD v false = false := by
    intro v
    cases found : st.currentParticipation.get? v with
    | none => rw [getD, found]; rfl
    | some voted =>
      rw [getD, found]
      exact absent _ (get?_eq_some_iff.mp found)
  have idle : ∀ v, issueOne t st v = st := by
    intro v
    have credits : (issuanceAccount t st v).credits = 0 := by simp [issuanceAccount, inert, unseen]
    obtain ⟨operator, delegators⟩ := distribute_of_no_credits credits t.epochIssuance (totalStake t.roster)
    simp only [issueOne, operator, delegators, lt_irrefl, if_false]
    cases t.registry <;> rfl
  unfold payIssuance
  split_ifs
  · exact List.foldl_fixed' idle _
  · rfl

theorem absent_unparticipated (roster : List Validator) : ∀ e ∈ (unparticipated roster).entries, e.2 = false := by
  rintro ⟨v, voted⟩ member
  obtain ⟨w, -, same⟩ := List.mem_map.mp (mem_of_get?_ofList (get?_eq_some_iff.mpr member))
  cases same
  rfl

def rewards (st : CommittedState) : SortedMap ℕ ℕ × SortedMap ℕ ℕ × SortedMap ℕ ℕ :=
  (st.delegatorFeeRewards, st.delegatorIssuanceRewards, st.pendingFeeRewards)

theorem Quiet.rewards_closeEpoch (quiet : st.Quiet) (inert : env.gates.rewardsV2Active st.epoch = false) :
    (closeEpoch env st).rewards = st.rewards := by
  have tallied : ((st.tallyVotes env).epoch, (st.tallyVotes env).currentParticipation,
      (st.tallyVotes env).rewards) = (st.epoch, st.currentParticipation, st.rewards) := by
    unfold tallyVotes
    split_ifs <;> rfl
  simp only [Prod.mk.injEq] at tallied
  obtain ⟨epoch, participation, same⟩ := tallied
  have activated : ∀ (s : CommittedState) (epoch : ℕ), (s.activateDeposits env epoch).rewards = s.rewards := by
    intro s epoch
    have each : ∀ (s : CommittedState) index, (activate epoch s index).rewards = s.rewards := by
      intro s index
      unfold activate
      split <;> rfl
    simp only [activateDeposits, List.foldl_leaves rewards each]
  have entered : ∀ (s : CommittedState) (epoch : ℕ), (s.enterEpoch env epoch).rewards = s.rewards :=
    enterEpoch_leaves (fun _ _ _ _ _ _ _ => rfl)
  have unissued : payIssuance ((st.tallyVotes env).issuanceTerms env) (st.tallyVotes env) =
      st.tallyVotes env := by
    refine payIssuance_of_absent ?_ (participation ▸ quiet.1)
    rw [issuanceTerms, epoch]
    exact inert
  have unowed : (st.tallyVotes env).pendingFeeRewards = .empty :=
    (congrArg (fun r => r.2.2) same).trans quiet.2
  rw [closeEpoch, entered, activated, unissued, payFees, unowed, ← same, rewards, rewards, unowed]
  rfl

theorem Quiet.closeEpoch (quiet : st.Quiet) (inert : env.gates.rewardsV2Active st.epoch = false) :
    (closeEpoch env st).Quiet := by
  refine ⟨absent_unparticipated _, ?_⟩
  have same := congrArg (fun r => r.2.2) (quiet.rewards_closeEpoch inert)
  exact same.trans quiet.2

theorem Quiet.payable_closeEpoch (quiet : st.Quiet) (inert : env.gates.rewardsV2Active st.epoch = false)
    (found : (st.payable position).mark = some entry) (marked : entry ≠ (u64Max, false)) :
    (CommittedState.closeEpoch env st).payable position = { st.payable position with epoch := st.epoch + 1 } := by
  have standing := standing_closeEpoch env st
  have rewards := quiet.rewards_closeEpoch inert
  obtain ⟨settled, close, same⟩ := aside_lifecycle.closeEpoch env st
  obtain ⟨commits, bound, l2, engine, lifecycle, entered, -, -, -, -, drains⟩ :=
    settled.enterEpoch_eq env (st.epoch + 1)
  have owners : (CommittedState.closeEpoch env st).fundedDelegationOwners = st.fundedDelegationOwners := by
    rw [close, entered]
    exact congrArg Prod.snd same
  have mark : (CommittedState.closeEpoch env st).fundedDelegationLifecycle.get? (positionKey position) =
      st.fundedDelegationLifecycle.get? (positionKey position) := by
    rw [close, entered]
    rw [(Prod.mk.inj same).1] at drains
    refine (drains (positionKey position)).resolve_right (fun marks => marked ?_)
    exact Option.some.inj (found.symm.trans marks.1)
  simp only [CommittedState.standing, Standing.mk.injEq] at standing
  simp only [CommittedState.rewards, Prod.mk.injEq] at rewards
  simp only [payable, epoch_closeEpoch, owners, mark, standing, rewards]

theorem Quiet.payable_iterate (quiet : st.Quiet) (inert : ∀ e, env.gates.rewardsV2Active e = false)
    (found : (st.payable position).mark = some entry) (marked : entry ≠ (u64Max, false))
    (n : ℕ) : ((CommittedState.closeEpoch env)^[n] st).payable position =
      { st.payable position with epoch := st.epoch + n } := by
  have both : ((CommittedState.closeEpoch env)^[n] st).Quiet ∧
      ((CommittedState.closeEpoch env)^[n] st).payable position =
        { st.payable position with epoch := st.epoch + n } := by
    induction n with
    | zero => exact ⟨quiet, rfl⟩
    | succ n ih =>
      rw [Function.iterate_succ_apply']
      refine ⟨ih.1.closeEpoch (inert _), ?_⟩
      rw [ih.1.payable_closeEpoch (inert _) (ih.2 ▸ found) marked, ih.2, epoch_iterate_closeEpoch, add_assoc]
  exact both.2

theorem step_of_planned_payout (planned : planFundedDelegationWithdrawal (env.gated st.epoch) st tx 0 = .ok p) :
    Step env st (.transaction (.fundedDelegationWithdraw tx) p.charge)
      (st.withDelegationPayout tx.position tx.delegatorId p) := by
  have applied : exec (applyTransaction env (.fundedDelegationWithdraw tx) 0 0) st =
      (.ok p.charge, st.withDelegationPayout tx.position tx.delegatorId p) := by
    simp only [applyTransaction, ok_iff, dispatch]
    exact ⟨st, st, ⟨rfl, rfl⟩, p, planned, rfl, rfl⟩
  exact .transaction applied

end

def smallestUndelegation : FundedUndelegate where
  networkDomain := 1
  epoch := 2
  delegatorId := 0
  position := 0
  fundingPubkey := holderKey
  signature := holderSignature

def smallestWithdrawal : FundedDelegationWithdraw where
  networkDomain := 1
  epoch := 2083
  delegatorId := 0
  position := 0
  fundingPubkey := holderKey
  destinationScriptHash := 1
  maxBaseFeeMillisatPerGas := MIN_BASE_FEE_MILLISAT_PER_GAS
  signature := holderSignature

/-- The position is dated in the second epoch; its cool-down is over in epoch 35. -/
def drainingEvents : List Event :=
  [delegationEvent, .closeEpoch, .closeEpoch,
    .transaction (.fundedUndelegate smallestUndelegation)
      (stakingTxCharge fundedRehearsal.gates 2 1 smallestUndelegation.canonicalBytes.length)] ++
    List.replicate 33 .closeEpoch

def drainedDelegation : Delegation := ⟨0, 0, MIN_DELEGATION_SAT, 1, some 3, true⟩

set_option maxRecDepth 10000 in
theorem drained_evaluated : (playAll fundedRehearsal fundedStart drainingEvents).any (fun st =>
    decide st.Quiet && decide (st.epoch = 35) && decide (st.delegations = [drainedDelegation]) &&
      decide ((st.payable 0).mark = some (35, false)) &&
      (planFundedDelegationWithdrawal (fundedRehearsal.gated 2083) { st with epoch := 2083 }
        smallestWithdrawal 0).isOk) = true := by
  decide +kernel

theorem smallest_payout : ∃ before st charge mid, Run (Step fundedRehearsal) fundedStart before st ∧
    (∀ event ∈ before, event.isUnfunded = false) ∧ st.epoch = 2083 ∧
    st.delegations = [drainedDelegation] ∧ mid.delegations = [drainedDelegation] ∧
    Step fundedRehearsal st (.transaction (.fundedDelegationWithdraw smallestWithdrawal) charge) mid := by
  have evaluated := drained_evaluated
  simp only [Option.any_eq_true, Bool.and_eq_true, decide_eq_true_eq] at evaluated
  obtain ⟨drained, played, ⟨⟨⟨quiet, epoch⟩, delegations⟩, mark⟩, paid⟩ := evaluated
  have run := run_of_playAll played
  have funded : ∀ event ∈ drainingEvents, event.isUnfunded = false := by decide +kernel
  let header : BlockHeaderV4 := ⟨0, 0, 0, 0, 2083 * 32, 0, 0, 0, 0, 0, 0, 0, by omega⟩
  obtain ⟨n, delay⟩ : ∃ n, n = WITHDRAWAL_DELAY_EPOCHS := ⟨_, rfl⟩
  have due : drained.epoch + n = 2083 := by rw [epoch, delay, WITHDRAWAL_DELAY_EPOCHS]
  have waits : Run (Step fundedRehearsal) drained (List.replicate n .closeEpoch)
      ((closeEpoch fundedRehearsal)^[n] drained) :=
    iterate_closeEpoch_run header n (by rw [due]; simp [epochOf, SLOTS_PER_EPOCH, header])
  have inert : ∀ e, fundedRehearsal.gates.rewardsV2Active e = false := by
    intro e
    simp [Gates.rewardsV2Active, epochGateActive, fundedRehearsal, Env.accepting, Gates.shipped]
  have payable := quiet.payable_iterate inert mark (by decide) n
  have epochThen := epoch_iterate_closeEpoch fundedRehearsal drained n
  generalize (closeEpoch fundedRehearsal)^[n] drained = st at waits payable epochThen
  rw [due] at payable epochThen
  have same : st.payable 0 = { drained with epoch := 2083 }.payable 0 := payable
  have delegationsThen : st.delegations = [drainedDelegation] :=
    (congrArg Payable.delegations same).trans delegations
  obtain ⟨p, planned⟩ := exists_of_isOk paid
  rw [← planFundedDelegationWithdrawal_congr same, ← epochThen] at planned
  refine ⟨_, st, _, st.withDelegationPayout 0 0 p, run.append waits, ?_, epochThen, delegationsThen,
    delegationsThen, step_of_planned_payout planned⟩
  intro event among
  rcases List.mem_append.mp among with early | late
  · exact funded event early
  · rw [(List.mem_replicate.mp late).2]
    rfl

theorem fundedStart_initial : Initial fundedRehearsal fundedStart := initial_network (by decide +kernel) 1

/-- Over every run without unfunded delegations no validator has more than its limit. A payout is the
principal less the recorded loss, with the rewards of its delegator, who has no other position, less the
fee; it is not repeated, and from its epoch on none of the stake is active. -/
theorem funded_positions_paid_once {env : Env} {start st : CommittedState} {before : List Event}
    (initial : Initial env start) (reached : Run (Step env) start before st)
    (funded : ∀ event ∈ before, event.isUnfunded = false) :
    (∀ v, st.reservedSat v ≤ MAX_FUNDED_DELEGATION_PER_VALIDATOR_SAT) ∧
    ∀ tx charge mid after post, Step env st (.transaction (.fundedDelegationWithdraw tx) charge) mid →
      Run (Step env) mid after post → (∀ event ∈ after, event.isUnfunded = false) →
      ∃ d, st.delegations[tx.position]? = some d ∧ d.delegator = tx.delegatorId ∧
        (∀ p d', st.delegations[p]? = some d' → d'.delegator = d.delegator → p = tx.position) ∧
        (∃ output, mid.eutxos = st.eutxos.insert output ∧ output.scriptHash = tx.destinationScriptHash ∧
          output.value + charge.feeSat + st.delegatorSlashLosses.getD d.delegator 0 =
            d.amountSat + st.delegatorFeeRewards.getD d.delegator 0 +
              st.delegatorIssuanceRewards.getD d.delegator 0) ∧
        (∀ tx' charge', .transaction (.fundedDelegationWithdraw tx') charge' ∈ after →
          tx'.position ≠ tx.position) ∧
        post.delegations[tx.position]? = some d ∧
        ∀ e, st.epoch ≤ e → (Registry.resolve post.delegations e).activatedSat env.search d = 0 := by
  have book := initial.fundedBook.run reached funded
  refine ⟨book.limited, ?_⟩
  intro tx charge mid after post step run funded
  have bookAfter := (book.change step.positionChange rfl).run run funded
  cases step with
  | transaction applied =>
    cases accepted_of_applyTransaction applied with
    | bridge kind => cases kind
    | @delegationWithdraw _ p planned =>
      obtain ⟨d, found, -, payout⟩ := planFundedDelegationWithdrawal_eq_ok planned
      obtain ⟨_, found', owned, inactive, empty, destination⟩ := planFundedDelegationWithdrawal_drained planned
      cases found.symm.trans found'
      have paidOut : PaidOut tx.position d (st.withDelegationPayout tx.position tx.delegatorId p) := by
        refine ⟨?_, found⟩
        rw [isWithdrawn_insert rfl, if_pos rfl]
      have kept := (paidOut.run run).2
      have past : Registry.resolve post.delegations st.epoch = Registry.resolve st.delegations st.epoch :=
        resolve_eq_of_run run le_rfl
      refine ⟨d, found, owned, fun q d' other same => book.position_eq found other same,
        ⟨p.output, rfl, destination, owned ▸ payout⟩, fun _ _ among => paidOut.not_again run among, kept, ?_⟩
      intro e later
      rw [← past] at inactive empty
      exact bookAfter.stays_empty (List.mem_of_getElem? kept) inactive env.searches empty later

/-- The rehearsed payout is the last of its position. -/
theorem smallest_payout_final : ∃ st charge mid, Reachable fundedRehearsal st ∧
    Step fundedRehearsal st (.transaction (.fundedDelegationWithdraw smallestWithdrawal) charge) mid ∧
    ∀ e, st.epoch ≤ e →
      (Registry.resolve mid.delegations e).activatedSat Registry.firstMatch drainedDelegation = 0 := by
  obtain ⟨before, st, charge, mid, run, funded, -, delegations, -, paid⟩ := smallest_payout
  obtain ⟨-, payouts⟩ := funded_positions_paid_once fundedStart_initial run funded
  obtain ⟨d, found, -, -, -, -, -, empty⟩ := payouts _ _ _ [] _ paid (.nil mid) (by simp)
  obtain rfl : drainedDelegation = d := by
    rw [delegations] at found
    exact Option.some.inj found
  exact ⟨st, charge, mid, ⟨_, before, fundedStart_initial, run⟩, paid, empty⟩

/-- The second epoch, long before the payout, still resolves to one with the position's stake. -/
theorem paid_out_stake_in_past : ∃ before st charge mid, Initial fundedRehearsal fundedStart ∧
    Run (Step fundedRehearsal) fundedStart before st ∧
    (∀ event ∈ before, event.isUnfunded = false) ∧
    Step fundedRehearsal st (.transaction (.fundedDelegationWithdraw smallestWithdrawal) charge) mid ∧
    mid.delegations[smallestWithdrawal.position]? = some drainedDelegation ∧ 2 < st.epoch ∧
    (Registry.resolve mid.delegations 2).activatedSat Registry.firstMatch drainedDelegation = MIN_DELEGATION_SAT := by
  obtain ⟨before, st, charge, mid, run, funded, epoch, -, after, paid⟩ := smallest_payout
  refine ⟨before, st, charge, mid, fundedStart_initial, run, funded, paid, ?_, ?_, ?_⟩
  · rw [after]
    rfl
  · rw [epoch]
    decide
  · rw [after]
    decide +kernel

end CommittedState

end BlochPos
