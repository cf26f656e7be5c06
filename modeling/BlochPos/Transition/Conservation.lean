import BlochPos.Transition.Supply

/-! Conservation of supply: coins are what they were, with what was issued and what was bonded
without payment. -/
namespace BlochPos

open Attempt SortedMap List

theorem distributeProducerFees_le (acct : StakeAccount) (fee : ℕ) :
    (distributeProducerFees acct fee).operator + (distributeProducerFees acct fee).delegators ≤ fee := by
  unfold distributeProducerFees
  by_cases idle : acct.selfStake + acct.delegatedStake = 0
  · simp [idle]
  · have gross : fee * acct.delegatedStake / (acct.selfStake + acct.delegatedStake) ≤ fee := by
      refine Nat.div_le_of_le_mul ?_
      rw [mul_comm _ fee]
      exact Nat.mul_le_mul_left _ (Nat.le_add_left _ _)
    simp only [idle, if_false]
    generalize fee * acct.delegatedStake / (acct.selfStake + acct.delegatedStake) = share at gross ⊢
    have commission : share * min acct.commissionBps MAX_COMMISSION_BPS / BPS ≤ share := by
      refine Nat.div_le_of_le_mul ?_
      rw [mul_comm BPS]
      exact Nat.mul_le_mul_left _ (min_le_right _ _)
    omega

theorem sum_div_le (stakes : List (ℕ × ℕ)) (amount total : ℕ) :
    ((stakes.map (fun e => (e.1, amount * e.2 / total))).map Prod.snd).sum ≤
      amount * (stakes.map Prod.snd).sum / total := by
  induction stakes with
  | nil => simp
  | cons e rest ih =>
    simp only [map_cons, sum_cons, Nat.mul_add]
    exact (Nat.add_le_add_left ih _).trans Nat.div_add_div_le_add_div

theorem splitDelegatorFees_le (stakes : List (ℕ × ℕ)) (amount : ℕ) :
    ((splitDelegatorFees stakes amount).1.map Prod.snd).sum + (splitDelegatorFees stakes amount).2 ≤
      amount := by
  simp only [splitDelegatorFees]
  split_ifs with idle
  · simp [Function.comp_def]
  · rw [not_or] at idle
    have shared := sum_div_le stakes amount (stakes.map Prod.snd).sum
    rw [Nat.mul_div_cancel _ (Nat.pos_of_ne_zero idle.1)] at shared
    dsimp only
    omega

theorem sum_paid (shares : List (ℕ × ℕ)) :
    ((CommittedState.paid shares).map Prod.snd).sum = (shares.map Prod.snd).sum := by
  unfold CommittedState.paid
  induction shares with
  | nil => rfl
  | cons share rest ih =>
    by_cases due : 0 < share.2
    · simp [due, ih]
    · have nothing : share.2 = 0 := by omega
      simp [nothing, ih]

namespace CommittedState

theorem BlockMeter.producerCredit_le (g : Gates) (epoch slot : ℕ) (m : BlockMeter) :
    m.producerCredit g epoch slot ≤ m.feeSat := by
  have whole : (splitFeesAt m.baseFees m.priorityFees slot).toProducer ≤ m.baseFees + m.priorityFees := by
    simp only [splitFeesAt]
    split_ifs
    · exact le_rfl
    · have tip : m.priorityFees * PRIORITY_FEE_PRODUCER_BPS / BPS = m.priorityFees :=
        Nat.mul_div_cancel _ (by decide)
      rw [tip]
      exact Nat.add_le_add_right (Nat.sub_le _ _) _
  simp only [BlockMeter.producerCredit, BlockMeter.feeSat]
  split_ifs
  · exact (min_le_left _ _).trans whole
  · exact whole

section

variable {st post : CommittedState} {measure : Bonds → ℕ}

/-- The value not accounted for by issuance. -/
def excessSat (measure : Bonds → ℕ) (st : CommittedState) : ℤ := st.valueSat measure - st.issuedSat

theorem excessSat_of_purse {p : Purse} (st : CommittedState) (purse : post.purse = p)
    (bonds : post.bonds = st.bonds) :
    post.excessSat measure = st.excessSat measure + (p.sat - st.purse.sat) - (post.issuedSat - st.issuedSat) := by
  simp only [excessSat, valueSat, liquidSat, bonds, purse]
  omega

theorem excessSat_issueToValidator_le (measured : Bonds.Measure c strict measure) (st : CommittedState)
    (index amountSat : ℕ) : (st.issueToValidator index amountSat).excessSat measure ≤ st.excessSat measure := by
  unfold issueToValidator
  split
  · exact le_rfl
  · next r found =>
    have grown := measured.issue amountSat (bonds_get? found)
    have bonds := st.bonds_setRecord index { r with stakedSat := r.stakedSat + amountSat }
    have value : (st.setRecord index { r with stakedSat := r.stakedSat + amountSat }).valueSat measure ≤
        st.valueSat measure + amountSat := by
      simp only [valueSat, bonds, liquidSat_setRecord]
      omega
    have issued : ({ st.setRecord index { r with stakedSat := r.stakedSat + amountSat } with
        issuedSat := st.issuedSat + amountSat } : CommittedState).excessSat measure =
        (st.setRecord index { r with stakedSat := r.stakedSat + amountSat }).valueSat measure -
          ((st.issuedSat + amountSat : ℕ) : ℤ) := rfl
    rw [issued, excessSat]
    omega

theorem excessSat_issueToDelegator (measure : Bonds → ℕ) (st : CommittedState) (share : ℕ × ℕ) :
    (st.issueToDelegator share).excessSat measure = st.excessSat measure := by
  have added := ledgerSat_addAt st.delegatorIssuanceRewards share.1 share.2
  have after : (st.issueToDelegator share).purse = { st.purse with
      delegatorIssuance := ledgerSat (st.delegatorIssuanceRewards.addAt share.1 share.2) } := rfl
  rw [excessSat_of_purse st after rfl]
  simp only [Purse.sat, purse, issueToDelegator]
  omega

theorem excessSat_issueOne_le (measured : Bonds.Measure c strict measure) (t : IssuanceTerms)
    (st : CommittedState) (v : Validator) : (issueOne t st v).excessSat measure ≤ st.excessSat measure := by
  have operator : ∀ (due : Prop) [Decidable due] (amount : ℕ) (s : CommittedState),
      (if due then s.issueToValidator v.index amount else s).excessSat measure ≤ s.excessSat measure := by
    intro due _ amount s
    split_ifs
    · exact excessSat_issueToValidator_le measured ..
    · exact le_rfl
  simp only [issueOne]
  split
  · exact operator ..
  · refine (operator ..).trans ?_
    rw [foldl_leaves (excessSat measure) (excessSat_issueToDelegator measure)]
    exact operator ..

theorem foldl_excessSat_le {A : Type} {f : CommittedState → A → CommittedState} {cost : A → ℕ}
    (each : ∀ s a, (f s a).excessSat measure ≤ s.excessSat measure + cost a) (items : List A)
    (s : CommittedState) : (items.foldl f s).excessSat measure ≤ s.excessSat measure + (items.map cost).sum := by
  induction items generalizing s with
  | nil => simp
  | cons a rest ih =>
    have first := each s a
    have later := ih (f s a)
    rw [foldl_cons, map_cons, sum_cons]
    omega

theorem excessSat_payIssuance_le (measured : Bonds.Measure c strict measure) (t : IssuanceTerms)
    (st : CommittedState) : (payIssuance t st).excessSat measure ≤ st.excessSat measure := by
  unfold payIssuance
  split_ifs
  · have free (s : CommittedState) (v : Validator) :
        (issueOne t s v).excessSat measure ≤ s.excessSat measure + (0 : ℕ) := by
      simpa using excessSat_issueOne_le measured t s v
    simpa using foldl_excessSat_le free t.roster st
  · exact le_rfl

def creditDelegators (st : CommittedState) (shares : List (ℕ × ℕ)) : CommittedState :=
  { st with
    delegatorFeeRewards :=
      (paid shares).foldl (fun m share => m.addAt share.1 share.2) st.delegatorFeeRewards }

/-- Fees of a producer: to its ledger, or to its bond before the gate. -/
def creditOperator (g : Gates) (st : CommittedState) (index : ℕ) (r : ValidatorRecord) (amountSat : ℕ) :
    CommittedState :=
  if g.feeStakeDecoupleActive st.epoch then
    if 0 < amountSat then { st with validatorFeeRewards := st.validatorFeeRewards.addAt index amountSat }
    else st
  else st.setRecord index { r with stakedSat := r.stakedSat + amountSat }

theorem excessSat_creditDelegators (measure : Bonds → ℕ) (st : CommittedState) (shares : List (ℕ × ℕ)) :
    (st.creditDelegators shares).excessSat measure = st.excessSat measure + (shares.map Prod.snd).sum := by
  have added := ledgerSat_foldl_addAt (paid shares) st.delegatorFeeRewards
  rw [sum_paid] at added
  have after : (st.creditDelegators shares).purse = { st.purse with
      delegatorFees := ledgerSat (st.creditDelegators shares).delegatorFeeRewards } := rfl
  rw [excessSat_of_purse st after rfl]
  simp only [Purse.sat, purse, creditDelegators]
  omega

theorem excessSat_creditOperator_le (st : CommittedState) (measured : Bonds.Measure c strict measure)
    (g : Gates)
    (found : st.validators.get? index = some r) (amountSat : ℕ) :
    (st.creditOperator g index r amountSat).excessSat measure ≤ st.excessSat measure + amountSat := by
  unfold creditOperator
  split_ifs with decoupled due
  · have added := ledgerSat_addAt st.validatorFeeRewards index amountSat
    have after : purse { st with validatorFeeRewards := st.validatorFeeRewards.addAt index amountSat } =
        { st.purse with validatorFees := ledgerSat (st.validatorFeeRewards.addAt index amountSat) } := rfl
    rw [excessSat_of_purse st after rfl]
    simp only [Purse.sat, purse]
    omega
  · omega
  · have grown := measured.issue amountSat (bonds_get? found)
    have bonds := st.bonds_setRecord index { r with stakedSat := r.stakedSat + amountSat }
    have issued : (st.setRecord index { r with stakedSat := r.stakedSat + amountSat }).issuedSat =
        st.issuedSat := rfl
    simp only [excessSat, valueSat, bonds, liquidSat_setRecord, issued]
    omega

theorem excessSat_payFee_le (measured : Bonds.Measure c strict measure) (env : Env)
    (staked : SortedMap ℕ ValidatorRecord) (registry : Registry) (st : CommittedState) (fee : ℕ × ℕ) :
    (payFee env staked registry st fee).excessSat measure ≤ st.excessSat measure + fee.2 := by
  cases found : st.validators.get? fee.1 with
  | none =>
    simp only [payFee, found]
    omega
  | some r =>
    let payout := distributeProducerFees
      { selfStake := ((staked.get? fee.1).map ValidatorRecord.stakedSat).getD r.stakedSat
        delegatedStake := registry.stakeOf fee.1
        commissionBps := r.commissionBps
        credits := 1
        maxCredits := 1 } fee.2
    let parts := splitDelegatorFees (st.delegatorStakes env.search registry fee.1) payout.delegators
    have phases : payFee env staked registry st fee =
        (st.creditDelegators parts.1).creditOperator env.gates fee.1 r (payout.operator + parts.2) := by
      simp only [payFee, found]
      rfl
    have whole : payout.operator + payout.delegators ≤ fee.2 := distributeProducerFees_le ..
    have parted : (parts.1.map Prod.snd).sum + parts.2 ≤ payout.delegators := splitDelegatorFees_le ..
    have shared := st.excessSat_creditDelegators measure parts.1
    have credited := (st.creditDelegators parts.1).excessSat_creditOperator_le measured env.gates found
      (payout.operator + parts.2)
    rw [phases]
    omega

theorem excessSat_payFees_le (measured : Bonds.Measure c strict measure) (env : Env)
    (staked : SortedMap ℕ ValidatorRecord) (st : CommittedState) :
    (st.payFees env staked).excessSat measure ≤ st.excessSat measure := by
  have emptied : excessSat measure { st with pendingFeeRewards := .empty } +
      ledgerSat st.pendingFeeRewards = st.excessSat measure := by
    have after : purse { st with pendingFeeRewards := .empty } = { st.purse with pendingFees := 0 } := rfl
    rw [excessSat_of_purse st after rfl]
    simp only [Purse.sat, purse]
    omega
  have paid := foldl_excessSat_le
    (excessSat_payFee_le measured env staked (Registry.resolve st.delegations st.epoch))
    st.pendingFeeRewards.entries { st with pendingFeeRewards := .empty }
  have total : (st.pendingFeeRewards.entries.map Prod.snd).sum = ledgerSat st.pendingFeeRewards := rfl
  unfold payFees
  omega

theorem excessSat_activate (measure : Bonds → ℕ) (epoch : ℕ) (st : CommittedState) (index : ℕ) :
    (activate epoch st index).excessSat measure = st.excessSat measure := by
  unfold activate
  split
  · rfl
  · next r found =>
    have bonds : (st.setRecord index { r with activationEpoch := epoch }).bonds = st.bonds :=
      bonds_setRecord_same found rfl rfl
    simp only [excessSat, valueSat, bonds, liquidSat_setRecord]
    rfl

theorem delegatedSat_congr (delegations : post.delegations = st.delegations)
    (withdrawn : ∀ position, post.isWithdrawn position = st.isWithdrawn position) :
    post.delegatedSat = st.delegatedSat := by
  simp only [delegatedSat, delegations, withdrawn]

theorem excessSat_enterEpoch (measure : Bonds → ℕ) (env : Env) (st : CommittedState) (epoch : ℕ) :
    (st.enterEpoch env epoch).excessSat measure = st.excessSat measure := by
  obtain ⟨commits, bound, l2, engine, lifecycle, entered, -, -, -, escrow, drains⟩ := st.enterEpoch_eq env epoch
  have delegated : (st.enterEpoch env epoch).delegatedSat = st.delegatedSat :=
    delegatedSat_congr (by rw [entered]; rfl) (by rw [entered]; exact drains.isWithdrawn_eq)
  have after : (st.enterEpoch env epoch).purse =
      { st.purse with
        delegated := (st.enterEpoch env epoch).delegatedSat
        escrow := (l2.map L2.State.escrowSat).getD 0 } := by
    rw [entered]
    rfl
  have same : (st.enterEpoch env epoch).purse = st.purse := by
    rw [after, delegated, escrow]
    rfl
  have bonds : (st.enterEpoch env epoch).bonds = st.bonds := by
    rw [entered]
    rfl
  have issued : (st.enterEpoch env epoch).issuedSat = st.issuedSat := by
    rw [entered]
    rfl
  simp only [excessSat, valueSat, liquidSat, same, bonds, issued]

theorem excessSat_closeEpoch_le (measured : Bonds.Measure c strict measure) (env : Env)
    (st : CommittedState) : (closeEpoch env st).excessSat measure ≤ st.excessSat measure := by
  have tallied : (st.tallyVotes env).excessSat measure = st.excessSat measure := by
    unfold tallyVotes
    split_ifs <;> rfl
  have activated : ∀ (s : CommittedState) (epoch : ℕ),
      (s.activateDeposits env epoch).excessSat measure = s.excessSat measure := by
    intro s epoch
    simp only [activateDeposits, foldl_leaves (excessSat measure) (excessSat_activate measure epoch)]
  have mixed : ∀ s : CommittedState, s.retireMix.excessSat measure = s.excessSat measure := fun _ => rfl
  simp only [closeEpoch, excessSat_enterEpoch, activated, mixed]
  calc _ ≤ _ := excessSat_payFees_le measured env st.validators _
    _ ≤ _ := excessSat_payIssuance_le measured _ _
    _ = _ := tallied

theorem Indexed.of_keys (indexed : st.Indexed c) (known : post.pubkeyIndex = st.pubkeyIndex)
    (keys : ∀ i bond, post.bonds.records.get? i = some bond →
      ∃ old, st.bonds.records.get? i = some old ∧ old.2 = bond.2) : post.Indexed c := by
  intro i bond found
  obtain ⟨old, before, same⟩ := keys i bond found
  rw [known, ← same]
  exact indexed i old before

theorem Indexed.of_bonds (indexed : st.Indexed c) (known : post.pubkeyIndex = st.pubkeyIndex)
    (bonds : post.bonds = st.bonds) : post.Indexed c :=
  indexed.of_keys known (fun _ bond found => ⟨bond, bonds ▸ found, rfl⟩)

theorem Indexed.closeEpoch (indexed : st.Indexed c) (env : Env) : (closeEpoch env st).Indexed c := by
  refine indexed.of_keys (congrArg Standing.pubkeyIndex (standing_closeEpoch env st)) ?_
  intro i bond found
  simp only [bonds, get?_mapVal, Option.map_eq_some_iff] at found
  obtain ⟨r, found, rfl⟩ := found
  have here := identity_closeEpoch env st i
  rw [found] at here
  obtain ⟨old, before, same⟩ := Option.map_eq_some_iff.mp here.symm
  exact ⟨_, bonds_get? before, congrArg Prod.fst same⟩

theorem Step.indexed (step : Step env st event post) (indexed : st.Indexed env.crypto) :
    post.Indexed env.crypto := by
  cases step.effect with
  | transaction accepted => exact accepted.movement.indexed indexed
  | @evidence _ _ _ _ p planned =>
    have fair := planSlashingEvidence_measured planned
    refine indexed.of_keys rfl ?_
    intro i bond found
    rw [bonds_withPunishment env.gates fair, Bonds.slash, Bonds.put] at found
    obtain ⟨here, rfl⟩ | ⟨here, found⟩ := get?_insert_cases found
    · exact ⟨(p.record.stakedSat, p.record.pubkey), here ▸ bonds_get? fair.found, rfl⟩
    · exact ⟨bond, found, rfl⟩
  | vote | fees | forkchoice | prepareL2 | finish => exact indexed.of_bonds rfl rfl
  | proposer found => exact indexed.of_bonds rfl (bonds_setRecord_same found rfl rfl)
  | closeEpoch => exact indexed.closeEpoch env

theorem Initial.indexed (initial : Initial env st) : st.Indexed env.crypto := by
  obtain ⟨gen, -, l2, rfl, -⟩ := initial.eq_genesisState
  intro i bond found
  simp only [bonds, get?_mapVal, Option.map_eq_some_iff] at found
  obtain ⟨r, found, rfl⟩ := found
  obtain ⟨v, listed, same⟩ := mem_map.mp (mem_of_get?_ofList found)
  cases same
  exact get?_ofList_ne_none (mem_map_of_mem listed)

theorem Reachable.indexed (reached : Reachable env st) : st.Indexed env.crypto :=
  reached.invariant Initial.indexed Step.indexed

end

end CommittedState

def Event.paidSat : Event → ℕ
  | .transaction _ charge => charge.feeSat
  | _ => 0

def Event.creditedSat : Event → ℕ
  | .fees creditSat => creditSat
  | _ => 0

def Event.unfundedSat : Event → ℕ
  | .transaction tx _ => CommittedState.unfundedBondSat tx
  | _ => 0

namespace CommittedState

section

variable {env : Env} {st post : CommittedState} {event : Event} {measure : Bonds → ℕ}
  {items : List (PosTransaction × ℕ)}

theorem excessSat_of_same (bonds : post.bonds = st.bonds) (purse : post.purse = st.purse)
    (issued : post.issuedSat = st.issuedSat) : post.excessSat measure = st.excessSat measure := by
  simp only [excessSat, valueSat, liquidSat, bonds, purse, issued]

theorem excessSat_settleFees (measure : Bonds → ℕ) (g : Gates) (terms : BlockTerms) (slot : ℕ)
    (m : BlockMeter) : (m.settleFees g terms slot).state.excessSat measure =
      m.state.excessSat measure + m.producerCredit g terms.epoch slot := by
  have credited : ledgerSat (m.settleFees g terms slot).state.pendingFeeRewards =
      ledgerSat m.state.pendingFeeRewards + m.producerCredit g terms.epoch slot := by
    simp only [BlockMeter.settleFees]
    split_ifs with due
    · exact ledgerSat_addAt ..
    · omega
  have after : (m.settleFees g terms slot).state.purse = { m.state.purse with
      pendingFees := ledgerSat (m.settleFees g terms slot).state.pendingFeeRewards } := rfl
  have issued : (m.settleFees g terms slot).state.issuedSat = m.state.issuedSat := rfl
  rw [excessSat_of_purse m.state after rfl, issued, credited]
  simp only [Purse.sat, purse]
  omega

theorem excess_le_of_same (same : post.excessSat measure = st.excessSat measure)
    (free : event.paidSat = 0) : post.excessSat measure + event.paidSat ≤
      st.excessSat measure + event.creditedSat + event.unfundedSat := by
  rw [same, free]
  omega

/-- An event creates no value: fees paid leave the state, fees credited enter it. -/
theorem Step.excess_le (step : Step env st event post) (measured : Bonds.Measure env.crypto strict measure)
    (indexed : st.Indexed env.crypto) (lifecycle : strict → env.gates.withdrawalActive st.epoch = true) :
    post.excessSat measure + event.paidSat ≤
      st.excessSat measure + event.creditedSat + event.unfundedSat := by
  cases step.effect with
  | transaction accepted =>
    have moved := accepted.movement.value_le measured indexed
    have issued : post.issuedSat = st.issuedSat := congrArg Frozen.issuedSat accepted.frozen_eq
    simp only [excessSat, issued, Event.paidSat, Event.creditedSat, Event.unfundedSat]
    omega
  | @evidence _ _ _ _ p planned =>
    have slashed := evidence_value_le planned measured lifecycle
    have issued : (st.withPunishment env.gates p).issuedSat = st.issuedSat := rfl
    simp only [excessSat, issued, Event.paidSat, Event.creditedSat, Event.unfundedSat]
    omega
  | vote | forkchoice => exact excess_le_of_same (excessSat_of_same rfl rfl rfl) rfl
  | @fees m terms slot =>
    have settled := excessSat_settleFees measure env.gates terms slot m
    simp only [Event.paidSat, Event.creditedSat, Event.unfundedSat]
    omega
  | proposer found => exact excess_le_of_same (excessSat_of_same (bonds_setRecord_same found rfl rfl) rfl rfl) rfl
  | @prepareL2 _ pre =>
    have after : (st.prepareL2 pre).purse = { st.purse with escrow := (st.prepareL2 pre).escrowSat } := rfl
    rw [escrowSat_prepareL2] at after
    exact excess_le_of_same (excessSat_of_same rfl after rfl) rfl
  | @finish _ l2 slot head escrow =>
    have after : purse { st with l2Settlement := l2, slot := slot, head := head } =
        { st.purse with escrow := (l2.map L2.State.escrowSat).getD 0 } := rfl
    rw [escrow] at after
    exact excess_le_of_same (excessSat_of_same rfl after rfl) rfl
  | closeEpoch =>
    have closed := excessSat_closeEpoch_le measured env st
    simp only [Event.paidSat, Event.creditedSat, Event.unfundedSat]
    omega

theorem excess_le_of_run (run : Run (Step env) st events post)
    (measured : Bonds.Measure env.crypto strict measure) (indexed : st.Indexed env.crypto)
    (lifecycle : strict → ∀ epoch, st.epoch ≤ epoch → env.gates.withdrawalActive epoch = true) :
    post.excessSat measure + (events.map Event.paidSat).sum ≤ st.excessSat measure +
      (events.map Event.creditedSat).sum + (events.map Event.unfundedSat).sum := by
  induction run with
  | nil => simp
  | cons taken _ ih =>
    have first := taken.excess_le measured indexed (fun strict => lifecycle strict _ le_rfl)
    have rest := ih (taken.indexed indexed)
      (fun strict epoch later => lifecycle strict epoch (taken.epoch_le.trans later))
    simp only [map_cons, sum_cons, Nat.cast_add]
    omega

theorem paidSat_inBlock {charge : TxCharge} (applied : exec (applyInBlock env terms tx) st = (.ok charge, post)) :
    (Event.inBlock tx charge).paidSat = charge.feeSat := by
  cases tx with
  | slashingEvidence e => exact (applyInBlock_evidence applied).2.symm
  | _ => rfl

theorem unfundedSat_inBlock (tx : PosTransaction) (charge : TxCharge) :
    (Event.inBlock tx charge).unfundedSat = unfundedBondSat tx := by
  cases tx <;> rfl

theorem foldlM_apply_excess_le
    (folded : items.foldlM (BlockMeter.apply env terms) m = .ok m')
    (measured : Bonds.Measure env.crypto strict measure) (indexed : m.state.Indexed env.crypto)
    (lifecycle : strict → ∀ epoch, m.state.epoch ≤ epoch → env.gates.withdrawalActive epoch = true) :
    m'.state.excessSat measure + m'.feeSat ≤ m.state.excessSat measure + m.feeSat +
      (items.map (fun entry => unfundedBondSat entry.1)).sum := by
  have run := Run.of_foldlM folded
  clear folded
  induction run with
  | nil => simp
  | @cons m mid m' entry rest applied _ ih =>
    obtain ⟨charge, accepted, metered⟩ := apply_eq_ok applied
    have taken := step_of_applyInBlock accepted
    have first := taken.excess_le measured indexed (fun strict => lifecycle strict _ le_rfl)
    have credited : (Event.inBlock entry.1 charge).creditedSat = 0 := by cases entry.1 <;> rfl
    have fees : mid.feeSat = m.feeSat + charge.feeSat := by
      rw [metered]
      simp only [BlockMeter.feeSat, BlockMeter.add, TxCharge.feeSat]
      omega
    have rest := ih (taken.indexed indexed)
      (fun strict epoch later => lifecycle strict epoch (taken.epoch_le.trans later))
    rw [paidSat_inBlock accepted, credited, unfundedSat_inBlock] at first
    simp only [map_cons, sum_cons, Nat.cast_add]
    omega

theorem foldlM_apply_unfundedBonded
    (folded : items.foldlM (BlockMeter.apply env terms) m = .ok m') :
    min (m.unfundedBonded + (items.map (fun entry => unfundedBondSat entry.1)).sum) u128Max ≤
      m'.unfundedBonded := by
  have run := Run.of_foldlM folded
  clear folded
  induction run with
  | nil => simp
  | @cons m mid m' entry rest applied _ ih =>
    obtain ⟨charge, -, metered⟩ := apply_eq_ok applied
    have bonded : mid.unfundedBonded = satAdd u128Max m.unfundedBonded (unfundedBondSat entry.1) := by
      rw [metered, BlockMeter.add]
    simp only [bonded, satAdd] at ih
    simp only [map_cons, sum_cons]
    omega

theorem runBlock_excess_le (ran : runBlock env st envelope attestations transactions = .ok m)
    (measured : Bonds.Measure env.crypto strict measure) (indexed : st.Indexed env.crypto)
    (lifecycle : strict → ∀ epoch, st.epoch ≤ epoch → env.gates.withdrawalActive epoch = true) :
    m.state.excessSat measure ≤ st.excessSat measure + (transactions.map unfundedBondSat).sum ∧
      min (transactions.map unfundedBondSat).sum u128Max ≤ m.unfundedBonded := by
  simp only [runBlock, applyTransactions, ok_iff] at ran
  obtain ⟨opened, opening, _, ⟨-, m, folded, -, -, rfl⟩, rfl⟩ := ran
  obtain ⟨votes, -, run⟩ := openBlock_run opening
  have before : opened.2.excessSat measure ≤ st.excessSat measure := by
    simpa [Event.paidSat, Event.creditedSat, Event.unfundedSat, Function.comp_def] using
      excess_le_of_run run measured indexed lifecycle
  have inside := foldlM_apply_excess_le folded measured (run.invariant Step.indexed indexed)
    (fun strict epoch later => lifecycle strict epoch ((epoch_le_of_run run).trans later))
  have settled := excessSat_settleFees measure env.gates opened.1 envelope.header.slot m
  have credit := m.producerCredit_le env.gates opened.1.epoch envelope.header.slot
  have bonded := foldlM_apply_unfundedBonded folded
  have items : transactions.zipIdx.map (fun entry => unfundedBondSat entry.1) =
      transactions.map unfundedBondSat := by
    rw [← zipIdx_map_fst 0 transactions, map_map, zipIdx_map_fst]
    rfl
  rw [items] at inside bonded
  have none : (BlockMeter.start opened.2).feeSat = 0 := rfl
  have start : (BlockMeter.start opened.2).state = opened.2 := rfl
  rw [none, start] at inside
  have unbonded : (BlockMeter.start opened.2).unfundedBonded = 0 := rfl
  have same : (m.settleFees env.gates opened.1 envelope.header.slot).unfundedBonded = m.unfundedBonded := rfl
  constructor
  · omega
  · omega

theorem supply_of_runBlock (reached : Reachable env st)
    (ran : runBlock env st envelope attestations transactions = .ok m) :
    m.state.accountedSupplySat ≤ st.accountedSupplySat + (m.state.issuedSat - st.issuedSat) +
      (transactions.map unfundedBondSat).sum ∧
    (supplyConserved st m.state m.unfundedBonded = true ↔ m.state.accountedSupplySat ≤ u128Max) := by
  obtain ⟨bound, bonded⟩ := runBlock_excess_le ran (Bonds.measure_stakedSat env.crypto) reached.indexed False.elim
  simp only [excessSat] at bound
  rw [min_le_iff] at bonded
  simp only [supplyConserved, accountedSupplySat_eq, satAdd, decide_eq_true_eq, le_min_iff]
  omega

/-- Supply is conserved by every block, so the check of it that follows can only
detect a defect: it never fires, unless the count of coins itself leaves its range. -/
theorem supply_conserved_by_block {envelope : ProposalEnvelope} {attestations : List Attestation}
    {transactions : List PosTransaction} {m : BlockMeter} (reached : Reachable env st)
    (ran : runBlock env st envelope attestations transactions = .ok m) :
    m.state.accountedSupplySat ≤ st.accountedSupplySat + (m.state.issuedSat - st.issuedSat) +
        (transactions.map unfundedBondSat).sum ∧
      (m.state.heldSat ≤ u128Max → supplyConserved st m.state m.unfundedBonded = true) := by
  obtain ⟨bound, conserved⟩ := supply_of_runBlock reached ran
  exact ⟨bound, fun fits => conserved.mpr ((Nat.sub_le _ _).trans fits)⟩

/-- The block that closes epoch 1 pays for its vote, and brings one of its own. -/
theorem supply_conserved_by_first_payment : let env := Env.accepting .shipped
    let vote : Attestation := ⟨0, ⟨64, 1, 0, 1, 2, 2⟩, []⟩
    ∃ st m, Run (Step env) (genesisState env (.small 1)) [.closeEpoch, .vote soleVote] st ∧
      runBlock env st (votingBlock env st 65 0 [vote]) [vote] [] = .ok m ∧ st.issuedSat < m.state.issuedSat ∧
      m.state.accountedSupplySat ≤ st.accountedSupplySat + (m.state.issuedSat - st.issuedSat) := by
  intro env vote
  have initial : Initial env (genesisState env (.small 1)) := initial_genesisState (by decide +kernel)
  have paid : (playAll env (genesisState env (.small 1)) [.closeEpoch, .vote soleVote]).any (fun st =>
      (runBlock env st (votingBlock env st 65 0 [vote]) [vote] []).toOption.any
        (fun m => st.issuedSat < m.state.issuedSat)) = true := by decide +kernel
  simp only [Option.any_eq_true, toOption_eq_some_iff, decide_eq_true_eq] at paid
  obtain ⟨st, played, m, ran, paid⟩ := paid
  have run := run_of_playAll played
  have conserved := (supply_conserved_by_block ⟨_, _, initial, run⟩ ran).1
  exact ⟨st, m, run, ran, paid, by simpa using conserved⟩

end

end CommittedState

end BlochPos
