import BlochPos.Transition.BondsLeft
import BlochPos.Transition.Solvency

/-! What a slash leaves of a bond for its owner, and what a withdrawal pays, to whom, and when. -/
namespace BlochPos

open Attempt SortedMap

namespace CommittedState

variable {env : Env} {st post : CommittedState} {i duty : ℕ} {r : ValidatorRecord}

theorem withdrawableSat_withPunishment (measured : p.Measured env st e)
    (unfunded : e.offender ∉ st.fundedValidators) :
    (st.withPunishment env.gates p).withdrawableSat env.crypto e.offender =
      st.withdrawableSat env.crypto e.offender - p.outcome.operatorLossSat := by
  have bounded := measured.loss_le
  simp only [withdrawableSat, unbackedPrincipalSat, withPunishment, measured.offender, measured.found,
    get?_insert_self, if_neg unfunded, getD, Option.getD_some,
    ValidatorRecord.punished]
  generalize ((st.genesisPrincipalSat.get? e.offender).or _).getD u128Max = principal
  cases st.stakeLowWater.get? e.offender <;> simp only [Option.getD_none, Option.getD_some] <;> omega

/-- A slash reaches issued coins only past the principal that was never issued exactly if there is nothing
of one of the two, or if it takes nothing or everything. -/
theorem slash_unissued_first_iff {e : SlashingEvidence} {includingProposer : ℕ} {roster : List Validator}
    (active : env.gates.withdrawalActive st.epoch = true) (unfunded : e.offender ∉ st.fundedValidators)
    (accepted : exec (applySlashingEvidence env e includingProposer roster) st = (.ok (), post)) :
    ∃ p, planSlashingEvidence env st e includingProposer roster = .ok p ∧ st.withPunishment env.gates p = post ∧
      p.rewardSat ≤ p.outcome.operatorLossSat - st.unbackedPrincipalSat env.crypto e.offender ∧
      (post.withdrawableSat env.crypto e.offender = st.withdrawableSat env.crypto e.offender -
          (p.outcome.operatorLossSat - st.unbackedPrincipalSat env.crypto e.offender) ↔
        st.withdrawableSat env.crypto e.offender = 0 ∨ st.unbackedPrincipalSat env.crypto e.offender = 0 ∨
          p.outcome.operatorLossSat = 0 ∨ p.outcome.operatorLossSat = p.record.stakedSat) := by
  obtain ⟨p, planned, rfl⟩ := applySlashingEvidence_eq_ok_iff.mp accepted
  have measured := planSlashingEvidence_measured planned
  have bounded := measured.loss_le
  have reward := measured.reward_backed active
  refine ⟨p, planned, rfl, ?_, ?_⟩
  · omega
  · rw [withdrawableSat_withPunishment measured unfunded]
    have backed : st.withdrawableSat env.crypto e.offender =
        p.record.stakedSat - st.unbackedPrincipalSat env.crypto e.offender := by
      simp only [withdrawableSat, measured.found]
    omega

def seasoned : CommittedState :=
  let start := genesisState openLifecycle (.small 1)
  { start with validators := start.validators.mapVal (fun _ r => { r with stakedSat := 2 * r.stakedSat }) }

/-- The loss is below the principal that was never issued, and is taken from what was earned. -/
theorem slash_takes_earnings : let slash := exec (applySlashingEvidence openLifecycle (doubleVoteOf 0) 0
      (seasoned.consensusRosterAt openLifecycle.gates 0)) seasoned
    slash.1 = .ok () ∧ seasoned.bondedSat = 5000000000000 ∧ slash.2.bondedSat = 4750000000000 ∧
      seasoned.unbackedPrincipalSat openLifecycle.crypto 0 = 2500000000000 ∧
      seasoned.withdrawableSat openLifecycle.crypto 0 = 2500000000000 ∧
      slash.2.withdrawableSat openLifecycle.crypto 0 = 2250000000000 := by
  decide +kernel

/-- What validator 0 loses in a slash at a state is its unissued principal first. -/
def UnissuedFirst (st : CommittedState) : Prop :=
  ∃ p, planSlashingEvidence openLifecycle st (doubleVoteOf 0) 0 (st.consensusRosterAt openLifecycle.gates 0) = .ok p ∧
    p.rewardSat ≤ p.outcome.operatorLossSat - st.unbackedPrincipalSat openLifecycle.crypto 0 ∧
    (st.withPunishment openLifecycle.gates p).withdrawableSat openLifecycle.crypto 0 =
      st.withdrawableSat openLifecycle.crypto 0 -
        (p.outcome.operatorLossSat - st.unbackedPrincipalSat openLifecycle.crypto 0)

/-- With nothing earned the law holds, and so it does once all of the principal has been lost. -/
theorem slash_of_seeded_bond : UnissuedFirst (genesisState openLifecycle (.small 1)) ∧
    UnissuedFirst { seasoned with stakeLowWater := .ofList [(0, 0)] } := by
  have law (st : CommittedState) (active : openLifecycle.gates.withdrawalActive st.epoch = true)
      (unfunded : (doubleVoteOf 0).offender ∉ st.fundedValidators)
      (done : (exec (applySlashingEvidence openLifecycle (doubleVoteOf 0) 0
        (st.consensusRosterAt openLifecycle.gates 0)) st).1 = .ok ())
      (apart : st.withdrawableSat openLifecycle.crypto 0 = 0 ∨ st.unbackedPrincipalSat openLifecycle.crypto 0 = 0) :
      UnissuedFirst st := by
    obtain ⟨p, planned, same, reward, law⟩ := slash_unissued_first_iff active unfunded (Prod.ext done rfl)
    exact ⟨p, planned, reward, same ▸ law.mpr (apart.imp_right .inl)⟩
  constructor
  · exact law _ (by decide +kernel) (by decide +kernel) (by decide +kernel) (.inl (by decide +kernel))
  · exact law _ (by decide +kernel) (by decide +kernel) (by decide +kernel) (.inr (by decide +kernel))

/-- Who was on duty in an epoch leaves after it, and any bond is released no sooner than the
withdrawal delay after the last epoch of duty. -/
def Timed (i duty : ℕ) (st : CommittedState) : Prop :=
  ∀ k r, st.validators.get? k = some r → (k = i → duty < r.exitEpoch) ∧
    (r.withdrawableEpoch = u64Max ∨ r.exitEpoch + WITHDRAWAL_DELAY_EPOCHS ≤ r.withdrawableEpoch + 1)

theorem Timed.set (timed : st.Timed i duty)
    (validators : post.validators = st.validators.insert k r) (exit : duty < r.exitEpoch ∨
      ∃ old, st.validators.get? k = some old ∧ r.exitEpoch = old.exitEpoch)
    (lock : r.withdrawableEpoch = u64Max ∨ r.exitEpoch + WITHDRAWAL_DELAY_EPOCHS ≤ r.withdrawableEpoch + 1) :
    post.Timed i duty := by
  intro j r' found
  rw [validators, get?_insert] at found
  split_ifs at found with here
  · cases found
    refine ⟨fun same => ?_, lock⟩
    obtain late | ⟨old, before, kept⟩ := exit
    · exact late
    · exact kept ▸ (timed _ _ before).1 (here.symm.trans same)
  · exact timed _ _ found

theorem Step.timed (step : Step env st event post) (small : st.epoch < 2 ^ 59)
    (past : duty ≤ st.epoch) (timed : st.Timed i duty) : post.Timed i duty := by
  by_cases closes : event = .closeEpoch
  · subst closes
    cases step
    intro k r found
    have locks := locks_closeEpoch env st k
    rw [found, Option.map_some] at locks
    obtain ⟨r', found', same⟩ := Option.map_eq_some_iff.mp locks.symm
    rw [Prod.mk.injEq] at same
    rw [← same.1, ← same.2]
    exact timed _ _ found'
  have change := step.recordChange closes
  generalize after : post.validators = m at change
  cases change with
  | same => exact fun k r found => timed k r (after ▸ found)
  | added _ waiting =>
    refine timed.set after (.inl ?_) (.inl waiting.withdrawable)
    rw [waiting.exit, u64Max]
    omega
  | amended found | repriced found | rotated found =>
    exact timed.set after (.inr ⟨_, found, rfl⟩) (timed _ _ found).2
  | exited found =>
    refine timed.set after ?_ ?_ <;>
      simp only [ValidatorRecord.exited, satAdd, EXIT_DELAY_EPOCHS, WITHDRAWAL_DELAY_EPOCHS, u64Max]
    · omega
    · omega
  | @punished e r found _ lossSat =>
    have lock : ∀ delay, WITHDRAWAL_DELAY_EPOCHS ≤ delay → delay < 2 ^ 32 →
        min r.exitEpoch (satAdd u64Max st.epoch 1) + WITHDRAWAL_DELAY_EPOCHS ≤
          (if r.withdrawableEpoch = u64Max then satAdd u64Max st.epoch delay
            else max r.withdrawableEpoch (satAdd u64Max st.epoch delay)) + 1 := by
      intro delay long short
      have early : min r.exitEpoch (satAdd u64Max st.epoch 1) ≤ st.epoch + 1 :=
        (min_le_right _ _).trans (min_le_left _ _)
      have due : st.epoch + WITHDRAWAL_DELAY_EPOCHS ≤ satAdd u64Max st.epoch delay := by
        simp only [satAdd, u64Max] at *
        omega
      have released : satAdd u64Max st.epoch delay ≤ if r.withdrawableEpoch = u64Max then
          satAdd u64Max st.epoch delay else max r.withdrawableEpoch (satAdd u64Max st.epoch delay) := by
        split_ifs
        · exact le_rfl
        · exact le_max_right _ _
      omega
    have late : r.exitEpoch = min r.exitEpoch (satAdd u64Max st.epoch 1) ∨
        duty < min r.exitEpoch (satAdd u64Max st.epoch 1) := by
      simp only [satAdd, u64Max]
      omega
    refine timed.set after (late.symm.imp_right (fun kept => ⟨r, found, kept.symm⟩)) (.inr (lock _ ?_ ?_))
    · split_ifs <;> decide
    · split_ifs <;> decide

theorem timed_of_run (run : Run (Step env) st events post)
    (small : st.epoch < 2 ^ 59) (past : duty ≤ st.epoch) (timed : st.Timed i duty) : post.Timed i duty := by
  have all : post.Timed i duty ∧ post.epoch < 2 ^ 59 ∧ duty ≤ post.epoch := by
    refine run.invariant (P := fun s => s.Timed i duty ∧ s.epoch < 2 ^ 59 ∧ duty ≤ s.epoch) ?_ ⟨timed, small, past⟩
    rintro s event t step ⟨timed, small, past⟩
    exact ⟨step.timed small past timed, step.epoch_lt small, past.trans step.epoch_le⟩
  exact all.1

theorem Initial.timed (initial : Initial env st) (i : ℕ) : st.Timed i 0 := by
  obtain ⟨gen, -, l2, rfl, -⟩ := initial.eq_genesisState
  intro k r found
  obtain ⟨v, -, same⟩ := List.mem_map.mp (mem_of_get?_ofList found)
  cases same
  exact ⟨fun _ => Nat.zero_lt_of_lt (by decide : 0 < u64Max), .inl rfl⟩

def paidOut (c : Crypto) (st : CommittedState) (i : ℕ) (r : ValidatorRecord) (paidSat unbackedSat : ℕ) :
    CommittedState :=
  { st with
    validators := st.validators.insert i { r with stakedSat := 0 }
    writtenOffSat := st.writtenOffSat + unbackedSat
    eutxos := if 0 < paidSat then st.eutxos.insert ⟨(PosTransaction.withdraw i).txid c, 0, paidSat,
      toHash r.withdrawalCredentials⟩ else st.eutxos }

theorem planWithdrawal_paidOut (planned : planWithdrawal env st i = .ok w) :
    ∃ r paidSat unbackedSat, st.validators.get? i = some r ∧ paidSat + unbackedSat = r.stakedSat ∧
      r.stakedSat ≠ 0 ∧ r.withdrawableEpoch ≠ u64Max ∧ r.withdrawableEpoch ≤ st.epoch ∧
      st.withWithdrawal i w = st.paidOut env.crypto i r paidSat unbackedSat ∧
      (st.paidOut env.crypto i r paidSat unbackedSat).heldSat + unbackedSat = st.heldSat := by
  simp only [planWithdrawal, ok_iff, not_or] at planned
  obtain ⟨-, r, found, ⟨-, lock, due, staked⟩, -, -, off, sum, free, rfl⟩ := planned
  obtain ⟨rfl, -⟩ := checkedAdd_eq_some sum
  have unheld : st.eutxos.get? (outpoint ((PosTransaction.withdraw i).txid env.crypto) 0) = none := by
    simpa [Eutxos.contains, Eutxos.get?, contains] using free
  have unbacked := min_le_right (st.unbackedPrincipalSat env.crypto i) r.stakedSat
  generalize min (st.unbackedPrincipalSat env.crypto i) r.stakedSat = unbackedSat at *
  refine ⟨r, r.stakedSat - unbackedSat, unbackedSat, found, by omega, staked, lock, not_lt.mp due, ?_, ?_⟩
  · simp only [withWithdrawal, paidOut]
    split_ifs <;> rfl
  · have bonds : (st.validators.insert i { r with stakedSat := 0 }).sum (fun _ r => r.stakedSat) + r.stakedSat =
        st.bondedSat := sum_insert_of_get? found _ _
    have coins : (st.paidOut env.crypto i r (r.stakedSat - unbackedSat) unbackedSat).eutxos.totalSat =
        st.eutxos.totalSat + (r.stakedSat - unbackedSat) := by
      simp only [paidOut]
      split_ifs with paid
      · exact Eutxos.totalSat_insert_of_free unheld
      · omega
    rw [heldSat, heldSat, coins]
    change _ + (st.validators.insert i _).sum _ + st.delegatedSat + ledgerSat st.pendingFeeRewards +
      ledgerSat st.delegatorFeeRewards + ledgerSat st.validatorFeeRewards +
      ledgerSat st.delegatorIssuanceRewards + st.escrowSat + _ = _
    omega

/-- A bond is paid out once, and never before the validator has been off duty for the withdrawal delay. What
is not paid to the credentials is written off, and nothing else changes. -/
theorem bond_paid_out_once {i : ℕ} {start final : CommittedState} {before after : List Event} {charge : TxCharge}
    (initial : Initial env start) (run : Run (ChainStep env) start before st)
    (withdrawn : ChainStep env st (.transaction (.withdraw i) charge) post)
    (later : Run (ChainStep env) post after final) :
    (∀ charge', .transaction (.withdraw i) charge' ∉ after) ∧
    (∃ r paidSat unbackedSat, st.validators.get? i = some r ∧ paidSat + unbackedSat = r.stakedSat ∧
      post = st.paidOut env.crypto i r paidSat unbackedSat ∧ post.heldSat + unbackedSat = st.heldSat ∧
      post.burnedSat = st.burnedSat ∧ post.accountedSupplySat = st.accountedSupplySat - unbackedSat) ∧
    ∀ past recent mid, before = past ++ recent → Run (ChainStep env) start past mid →
      Run (ChainStep env) mid recent st → i ∈ (mid.dutyRosterAt env.gates mid.epoch).map Validator.index →
      mid.epoch + WITHDRAWAL_DELAY_EPOCHS ≤ st.epoch := by
  have planned : ∀ {st post charge}, Step env st (.transaction (.withdraw i) charge) post →
      ∃ w, planWithdrawal (env.gated st.epoch) st i = .ok w ∧ post = st.withWithdrawal i w := by
    intro st post charge step
    cases step with
    | transaction applied =>
      cases accepted_of_applyTransaction applied with
      | bridge kind => cases kind
      | withdraw planned => exact ⟨_, planned, rfl⟩
  obtain ⟨w, plan, rfl⟩ := planned withdrawn.1
  obtain ⟨r, paidSat, unbackedSat, found, parts, -, lock, due, paid, held⟩ := planWithdrawal_paidOut plan
  have kept : st.BondsKept := run.invariant ChainStep.bondsKept initial.bondsKept
  refine ⟨?_, ⟨r, paidSat, unbackedSat, found, parts, paid, paid ▸ held, rfl, ?_⟩, ?_⟩
  · intro charge' again
    obtain ⟨l, l', rfl⟩ := List.append_of_mem again
    obtain ⟨mid, first, second⟩ := later.of_append
    have settled : mid.BondsKept ∧ mid.Settled i := by
      refine first.invariant (P := fun s => s.BondsKept ∧ s.Settled i) ?_ ⟨withdrawn.bondsKept kept, ?_⟩
      · rintro s event t chain ⟨kept, settled⟩
        exact ⟨chain.bondsKept kept, chain.settled kept settled⟩
      · rw [paid]
        exact ⟨_, get?_insert_self .., rfl, (kept.exits found).trans due⟩
    cases second with
    | cons taken =>
      obtain ⟨w', plan', -⟩ := planned taken.1
      obtain ⟨r', -, -, found', -, staked', -⟩ := planWithdrawal_paidOut plan'
      obtain ⟨r'', found'', empty, -⟩ := settled.2
      rw [found'] at found''
      cases found''
      exact staked' empty
  · have losses : (st.withWithdrawal i w).burnedSat = st.burnedSat := rfl
    rw [← paid] at held
    simp only [accountedSupplySat, losses]
    omega
  · intro past recent mid _ first second duty
    have keptMid : mid.BondsKept := first.invariant ChainStep.bondsKept initial.bondsKept
    have stepOf : ∀ {s event t}, ChainStep env s event t → Step env s event t := fun chain => chain.1
    have timed : mid.Timed i mid.epoch := by
      have early := timed_of_run (first.mono (fun _ => stepOf)) initial.bondsKept.small (Nat.zero_le _)
        (initial.timed i)
      intro k record registered
      refine ⟨?_, (early k record registered).2⟩
      rintro rfl
      rw [map_index_dutyRosterAt, mem_keys_iff] at duty
      obtain ⟨r', listed⟩ := duty
      rw [get?_filter, Option.filter_eq_some_iff, registered] at listed
      obtain ⟨rfl, active⟩ := And.imp_left Option.some.inj listed
      simp only [ValidatorRecord.isActiveAt, decide_eq_true_eq] at active
      exact active.2
    obtain ⟨exit, release⟩ := timed_of_run (second.mono (fun _ => stepOf)) keptMid.small le_rfl timed i r found
    have released := release.resolve_left lock
    have left := exit rfl
    omega

def bondView (i : ℕ) (st : CommittedState) :=
  ((st.validators.get? i).map (fun r => { r with stakedSat := 0, activationEpoch := 0 }), st.fundedValidators,
    st.genesisPrincipalSat, st.depositHistory, st.stakeLowWater, st.writtenOffSat, st.eutxos)

theorem aside_bondView (i : ℕ) : Aside (bondView i) where
  record {st j r} stakedSat activationEpoch found := by
    simp only [bondView, setRecord, get?_insert]
    split_ifs with here
    · rw [here, found]
      rfl
    · rfl
  ledgers _ _ _ _ := rfl
  issues _ _ _ _ := rfl
  tally _ _ _ := rfl

theorem bondView_closeEpoch (env : Env) (st : CommittedState) (i : ℕ) :
    bondView i (closeEpoch env st) = bondView i st :=
  (aside_bondView i).closeEpoch_eq (enterEpoch_leaves (fun _ _ _ _ _ _ _ => rfl)) st

theorem planWithdrawal_transfers (planned : planWithdrawal env st i = .ok w)
    (view : bondView i post = bondView i st) (stake : stakeAt i post = stakeAt i st)
    (epoch : post.epoch = st.epoch) : ∃ w', planWithdrawal env post i = .ok w' := by
  simp only [bondView, Prod.mk.injEq] at view
  obtain ⟨records, funded, principal, history, floors, off, coins⟩ := view
  simp only [planWithdrawal, ok_iff] at planned
  obtain ⟨opened, r, found, timely, credentials, fits, total, sum, free, -⟩ := planned
  rw [found, Option.map_some] at records
  obtain ⟨r', found', same⟩ := Option.map_eq_some_iff.mp records
  obtain ⟨amount, rfl⟩ : ∃ activation, r' = { r with activationEpoch := activation } := by
    rw [stakeAt, stakeAt, found, found', Option.map_some, Option.map_some, Option.some.injEq] at stake
    refine ⟨r'.activationEpoch, ?_⟩
    cases r
    cases r'
    simp_all
  have backing : post.unbackedPrincipalSat env.crypto i = st.unbackedPrincipalSat env.crypto i := by
    simp only [unbackedPrincipalSat, found, found', funded, principal, history, floors]
  have determinate : post.isWriteOffIndeterminate i = st.isWriteOffIndeterminate i := by
    simp only [isWriteOffIndeterminate, found, found', funded, floors]
  simp only [planWithdrawal, ok_iff, determinate, epoch, off, coins, found', backing]
  exact ⟨_, opened, _, rfl, timely, credentials, fits, _, sum, free, rfl⟩

/-- While nobody is on duty, closes leave the bond of one who has left as it is. -/
theorem bond_of_closes
    (run : Run (fun s event t => event = .closeEpoch ∧ ChainStep env s event t) st events post)
    (kept : st.BondsKept) (found : st.validators.get? i = some r)
    (left : r.exitEpoch ≤ st.epoch) :
    bondView i post = bondView i st ∧ stakeAt i post = stakeAt i st := by
  have all : post.BondsKept ∧ bondView i post = bondView i st ∧ stakeAt i post = stakeAt i st ∧
      st.epoch ≤ post.epoch := by
    refine run.invariant (P := fun s => s.BondsKept ∧ bondView i s = bondView i st ∧
      stakeAt i s = stakeAt i st ∧ st.epoch ≤ s.epoch) ?_ ⟨kept, rfl, rfl, le_rfl⟩
    rintro s event t ⟨rfl, chain⟩ ⟨kept, view, stake, later⟩
    have next := chain.bondsKept kept
    have gone : ∀ r', s.validators.get? i = some r' → r'.exitEpoch ≤ s.epoch := by
      intro r' found'
      have records := congrArg Prod.fst view
      simp only [bondView, found, found', Option.map_some, Option.some.injEq, ValidatorRecord.mk.injEq] at records
      omega
    cases chain.1 with
    | closeEpoch ahead =>
      have idle : ∀ r', s.validators.get? i = some r' → r'.isActiveAt s.epoch = false := by
        intro r' found'
        simp only [ValidatorRecord.isActiveAt, decide_eq_false_iff_not, not_and, not_lt]
        exact fun _ => gone r' found'
      refine ⟨next, (bondView_closeEpoch env s i).trans view, Eq.trans (stakeAt_closeEpoch idle ?_) stake, ?_⟩
      · by_contra waiting
        obtain ⟨r', found', active⟩ := kept.fees waiting
        simp [idle r' found'] at active
      · rw [epoch_closeEpoch]
        omega
  exact ⟨all.2.1, all.2.2.1⟩

def payeeGenesis : Genesis :=
  { Genesis.small 1 with validators := [⟨0, [0], MIN_DEPOSIT_SAT, 0, List.replicate 32 0, 0⟩] }

/-- The one validator is slashed in the first epoch. -/
def struck : CommittedState :=
  (exec (applySlashingEvidence openLifecycle (doubleVoteOf 0) 0
    ((genesisState openLifecycle payeeGenesis).consensusRosterAt openLifecycle.gates 0))
      (genesisState openLifecycle payeeGenesis)).2

theorem struck_evaluated :
    (closeEpoch openLifecycle struck).epoch = 1 ∧
      ((closeEpoch openLifecycle struck).validators.get? 0).map ValidatorRecord.exitEpoch = some 1 ∧
      (planWithdrawal (openLifecycle.gated 2048)
        { closeEpoch openLifecycle struck with epoch := 2048 } 0).isOk = true := by
  decide +kernel

/-- Its bond is paid out in epoch 2048, for the last time. -/
theorem struck_bond_paid_out : ∃ before st charge post r paidSat unbackedSat,
    Run (ChainStep openLifecycle) (genesisState openLifecycle payeeGenesis) before st ∧ st.epoch = 2048 ∧
    ChainStep openLifecycle st (.transaction (.withdraw 0) charge) post ∧
    st.validators.get? 0 = some r ∧ paidSat + unbackedSat = r.stakedSat ∧
    post = st.paidOut openLifecycle.crypto 0 r paidSat unbackedSat := by
  have initial : Initial openLifecycle (genesisState openLifecycle payeeGenesis) :=
    initial_genesisState (by decide +kernel)
  have slash : ChainStep openLifecycle (genesisState openLifecycle payeeGenesis) (.evidence (doubleVoteOf 0)) struck :=
    ⟨.evidence (Prod.ext (by decide +kernel) rfl), fun _ => creditsOnDuty_of_eq (by decide +kernel)⟩
  let header : BlockHeaderV4 := ⟨0, 0, 0, 0, 2048 * 32, 0, 0, 0, 0, 0, 0, 0, by omega⟩
  have chained : ∀ {s t}, Step openLifecycle s .closeEpoch t → ChainStep openLifecycle s .closeEpoch t :=
    fun step => step.chain (fun _ same => by cases same) (fun _ same => by cases same)
  obtain ⟨epoch, left, paid⟩ := struck_evaluated
  have soon : struck.epoch < epochOf header.slot := by decide +kernel
  have close : ChainStep openLifecycle struck .closeEpoch (closeEpoch openLifecycle struck) :=
    chained (.closeEpoch soon)
  have kept := close.bondsKept (slash.bondsKept initial.bondsKept)
  generalize closeEpoch openLifecycle struck = first at close epoch left paid kept
  obtain ⟨r, found, gone⟩ := Option.map_eq_some_iff.mp left
  obtain ⟨n, delay⟩ : ∃ n, n = 2047 := ⟨_, rfl⟩
  have waits : Run (Step openLifecycle) first (List.replicate n .closeEpoch) ((closeEpoch openLifecycle)^[n] first) :=
    iterate_closeEpoch_run header n (by rw [epoch, delay]; decide)
  have epochThen := epoch_iterate_closeEpoch openLifecycle first n
  generalize (closeEpoch openLifecycle)^[n] first = st at waits epochThen
  have closes : Run (fun s event t => event = .closeEpoch ∧ ChainStep openLifecycle s event t) first
      (List.replicate n .closeEpoch) st := by
    refine waits.mono (fun among step => ?_)
    obtain rfl := List.eq_of_mem_replicate among
    exact ⟨rfl, chained step⟩
  obtain ⟨view, stake⟩ := bond_of_closes closes kept found (by omega)
  have due : st.epoch = 2048 := by omega
  obtain ⟨w, planned⟩ := exists_of_isOk paid
  obtain ⟨w', plan⟩ := planWithdrawal_transfers planned view stake due
  rw [← due] at plan
  obtain ⟨charge, applied⟩ : ∃ charge, exec (applyTransaction openLifecycle (.withdraw 0) 0 0) st =
      (.ok charge, st.withWithdrawal 0 w') := by
    simp only [applyTransaction, ok_iff, dispatch]
    exact ⟨_, st, st, ⟨rfl, rfl⟩, w', plan, rfl, rfl⟩
  have withdrawn : ChainStep openLifecycle st (.transaction (.withdraw 0) charge) (st.withWithdrawal 0 w') :=
    (Step.transaction applied).chain (fun _ same => by cases same) (fun _ same => by cases same)
  have run := (Run.cons slash (.cons close (closes.mono (fun _ step => step.2))))
  obtain ⟨-, ⟨r', paidSat, unbackedSat, found', parts, post, -⟩, -⟩ :=
    bond_paid_out_once initial run withdrawn (.nil _)
  exact ⟨_, st, charge, _, r', paidSat, unbackedSat, run, due, withdrawn, found', parts, post⟩

end CommittedState

end BlochPos
