import BlochPos.Transition.Bonds

/-! Where the coins of a state are. Every transaction is one of three movements, each worth what it
costs. -/
namespace BlochPos

open Attempt SortedMap

namespace CommittedState

variable {st post : CommittedState} {d : Delegation}

section

variable (st : CommittedState)

def bonds : Bonds where
  records := st.validators.mapVal (fun _ r => (r.stakedSat, r.pubkey))
  funded := st.fundedValidators
  deposits := st.depositHistory
  genesisPrincipal := st.genesisPrincipalSat
  lowWater := st.stakeLowWater

/-- Where coins are, with the losses against them. -/
structure Purse where
  (coins delegated pendingFees delegatorFees validatorFees delegatorIssuance escrow losses : ℕ)

/-- All that is not bonded. -/
def Purse.sat (p : Purse) : ℤ :=
  p.coins + p.delegated + p.pendingFees + p.delegatorFees + p.validatorFees + p.delegatorIssuance +
    p.escrow - p.losses

def purse : Purse where
  coins := st.eutxos.totalSat
  delegated := st.delegatedSat
  pendingFees := ledgerSat st.pendingFeeRewards
  delegatorFees := ledgerSat st.delegatorFeeRewards
  validatorFees := ledgerSat st.validatorFeeRewards
  delegatorIssuance := ledgerSat st.delegatorIssuanceRewards
  escrow := st.escrowSat
  losses := ledgerSat st.delegatorSlashLosses

def liquidSat : ℤ := st.purse.sat

/-- The coins of a state, with its bonds at some measure. -/
def valueSat (measure : Bonds → ℕ) (st : CommittedState) : ℤ := st.liquidSat + measure st.bonds

theorem bondedSat_eq : st.bondedSat = st.bonds.stakedSat := by
  simp only [bondedSat, Bonds.stakedSat, bonds, sum_mapVal]

theorem accountedSupplySat_eq : st.accountedSupplySat = (st.valueSat Bonds.stakedSat).toNat := by
  have bonded := st.bondedSat_eq
  simp only [accountedSupplySat, heldSat, burnedSat, valueSat, liquidSat, Purse.sat, purse]
  omega

end

theorem bonds_get? (found : st.validators.get? i = some r) :
    st.bonds.records.get? i = some (r.stakedSat, r.pubkey) := by
  simp [bonds, found]

theorem bonds_setRecord (st : CommittedState) (i : ℕ) (r : ValidatorRecord) :
    (st.setRecord i r).bonds = st.bonds.put i (r.stakedSat, r.pubkey) := by
  simp only [bonds, setRecord, Bonds.put, mapVal_insert]

theorem bonds_setRecord_same (found : st.validators.get? i = some r) (staked : r'.stakedSat = r.stakedSat)
    (pubkey : r'.pubkey = r.pubkey) : (st.setRecord i r').bonds = st.bonds := by
  simp only [bonds, setRecord]
  rw [mapVal_insert_of_same found (by rw [staked, pubkey])]

theorem unbackedPrincipalSat_eq (c : Crypto) (found : st.validators.get? i = some r) :
    st.unbackedPrincipalSat c i = st.bonds.unbackedSat c i (r.stakedSat, r.pubkey) := by
  simp only [unbackedPrincipalSat, found, Bonds.unbackedSat, Bonds.principalSat, bonds]

theorem withdrawableSat_eq (c : Crypto) (found : st.validators.get? i = some r) :
    st.withdrawableSat c i = st.bonds.withdrawableSat c i (r.stakedSat, r.pubkey) := by
  simp only [withdrawableSat, found, unbackedPrincipalSat_eq c found, Bonds.withdrawableSat]

theorem ledgerSat_addAt (ledger : SortedMap ℕ ℕ) (k amount : ℕ) :
    ledgerSat (ledger.addAt k amount) = ledgerSat ledger + amount := by
  have added := sum_addAt ledger k amount (fun _ sat => sat) rfl (fun _ _ => rfl)
  exact added

theorem ledgerSat_erase (ledger : SortedMap ℕ ℕ) (k : ℕ) :
    ledgerSat (ledger.erase k) + ledger.getD k 0 = ledgerSat ledger := by
  have split := sum_erase ledger k (fun _ sat => sat)
  simp only [ledgerSat, split, getD]
  cases ledger.get? k with
  | none => simp
  | some sat => simp [add_comm]

theorem ledgerSat_foldl_addAt (shares : List (ℕ × ℕ)) (ledger : SortedMap ℕ ℕ) :
    ledgerSat (shares.foldl (fun m share => m.addAt share.1 share.2) ledger) =
      ledgerSat ledger + (shares.map Prod.snd).sum := by
  induction shares generalizing ledger with
  | nil => rfl
  | cons share rest ih =>
    rw [List.foldl_cons, ih, ledgerSat_addAt, List.map_cons, List.sum_cons]
    omega

theorem delegatedSat_eq (st : CommittedState) : st.delegatedSat =
    ((st.delegations.map Delegation.amountSat).zipIdx.map
      (fun d => if st.isWithdrawn d.2 then 0 else d.1)).sum := by
  rw [delegatedSat, List.zipIdx_map, List.map_map]
  induction st.delegations.zipIdx with
  | nil => rfl
  | cons d rest ih =>
    by_cases paid : st.isWithdrawn d.2 = true
    · simp [paid, ih]
    · simp [paid, ih]

theorem sum_add_le {A : Type} {f g : A → ℕ} {l : List A} {a : A}
    (each : ∀ x ∈ l, f x ≤ g x) (member : a ∈ l) (less : f a + amount ≤ g a) :
    (l.map f).sum + amount ≤ (l.map g).sum := by
  induction l with
  | nil => simp at member
  | cons x rest ih =>
    simp only [List.map_cons, List.sum_cons]
    have first := each x List.mem_cons_self
    have later : ∀ y ∈ rest, f y ≤ g y := fun y among => each y (List.mem_cons_of_mem _ among)
    rcases List.mem_cons.mp member with rfl | among
    · have others := List.sum_le_sum later
      omega
    · have others := ih later among
      omega

theorem delegatedSat_append (st : CommittedState) (d : Delegation) :
    delegatedSat { st with delegations := st.delegations ++ [d] } ≤ st.delegatedSat + d.amountSat := by
  have same : ∀ position, isWithdrawn { st with delegations := st.delegations ++ [d] } position =
      st.isWithdrawn position := fun _ => rfl
  simp only [delegatedSat_eq, same, List.map_append, List.zipIdx_append, List.sum_append, List.map_cons,
    List.map_nil, List.zipIdx_singleton, List.sum_cons, List.sum_nil]
  split_ifs <;> omega

theorem delegatedSat_payout
    (found : st.delegations[position]? = some d) (unpaid : st.isWithdrawn position = false)
    (delegations : post.delegations = st.delegations)
    (lifecycle : post.fundedDelegationLifecycle =
      st.fundedDelegationLifecycle.insert (positionKey position) (since, true)) :
    post.delegatedSat + d.amountSat ≤ st.delegatedSat := by
  have marked (q : ℕ) : post.isWithdrawn q =
      if positionKey q = positionKey position then true else st.isWithdrawn q := by
    simp only [isWithdrawn, lifecycle, get?_insert]
    split_ifs <;> rfl
  have member : (d.amountSat, position) ∈ (st.delegations.map Delegation.amountSat).zipIdx := by
    rw [List.mk_mem_zipIdx_iff_getElem?]
    simp [found]
  rw [delegatedSat_eq, delegatedSat_eq, delegations]
  refine sum_add_le (fun entry _ => ?_) member ?_
  · rw [marked]
    split_ifs <;> simp_all
  · simp [marked, unpaid]

theorem delegatedSat_deactivation
    (found : st.delegations[position]? = some d) (unpaid : st.isWithdrawn position = false)
    (amount : d'.amountSat = d.amountSat) (delegations : post.delegations = st.delegations.set position d')
    (lifecycle : post.fundedDelegationLifecycle =
      st.fundedDelegationLifecycle.insert (positionKey position) (since, false)) :
    post.delegatedSat = st.delegatedSat := by
  have marked (q : ℕ) : post.isWithdrawn q = st.isWithdrawn q := by
    simp only [isWithdrawn, lifecycle, get?_insert] at unpaid ⊢
    split_ifs with same
    · rw [same]
      exact unpaid.symm
    · rfl
  have amounts : post.delegations.map Delegation.amountSat = st.delegations.map Delegation.amountSat := by
    rw [delegations, List.map_set_of_same found amount]
  simp only [delegatedSat_eq, amounts, marked]

/-- The coins move between accounts, a bond is paid out, or a validator is
registered. The indices are the fee and what is bonded without payment. -/
inductive Movement (c : Crypto) (st post : CommittedState) : ℕ → ℕ → Prop where
  | coins {feeSat unfundedSat : ℕ} (bonds : post.bonds = st.bonds)
      (known : post.pubkeyIndex = st.pubkeyIndex)
      (liquid : post.liquidSat + feeSat ≤ st.liquidSat + unfundedSat) : Movement c st post feeSat unfundedSat
  | withdraw {i s : ℕ} {pubkey : Bytes} (found : st.bonds.records.get? i = some (s, pubkey))
      (bonds : post.bonds = st.bonds.put i (0, pubkey)) (known : post.pubkeyIndex = st.pubkeyIndex)
      (liquid : post.liquidSat ≤ st.liquidSat + st.bonds.withdrawableSat c i (s, pubkey)) :
      Movement c st post 0 0
  | register {i : ℕ} {bond : ℕ × Bytes} {d : QueuedDeposit} {funded : Bool} {feeSat unfundedSat : ℕ}
      (absent : st.bonds.records.get? i = none) (unknown : st.pubkeyIndex.get? d.pubkeyHash = none)
      (hash : d.pubkeyHash = c.sha3 bond.2) (bonds : post.bonds = st.bonds.register i bond d funded)
      (known : post.pubkeyIndex = st.pubkeyIndex.insert d.pubkeyHash i)
      (liquid : post.liquidSat + feeSat + bond.1 ≤ st.liquidSat + unfundedSat) :
      Movement c st post feeSat unfundedSat

section

variable {env : Env} {st : CommittedState} {gained moved : ℕ}

theorem liquidSat_withCoins_le (balances : plan.Balances st.eutxos gained moved) :
    (st.withCoins plan).liquidSat + plan.charge.feeSat + moved ≤ st.liquidSat + gained := by
  have paid := balances.totalSat_run_le
  have after : (st.withCoins plan).purse = { st.purse with coins := (plan.run st.eutxos).totalSat } := rfl
  rw [liquidSat, after]
  simp only [liquidSat, Purse.sat, purse]
  omega

theorem liquidSat_setRecord (st : CommittedState) (i : ℕ) (r : ValidatorRecord) :
    (st.setRecord i r).liquidSat = st.liquidSat := rfl

theorem unfundedBondSat_of_isBridge (kind : tx.isBridge = true) : unfundedBondSat tx = 0 := by
  cases tx <;> simp_all [PosTransaction.isBridge, unfundedBondSat]

theorem movement_amend (found : st.validators.get? i = some r) (staked : r'.stakedSat = r.stakedSat)
    (pubkey : r'.pubkey = r.pubkey) (bonds : post.bonds = (st.setRecord i r').bonds)
    (known : post.pubkeyIndex = st.pubkeyIndex) (liquid : post.liquidSat = st.liquidSat)
    (free : feeSat = 0) (unpaid : unfundedSat = 0) : Movement env.crypto st post feeSat unfundedSat := by
  subst free unpaid
  exact .coins (bonds.trans (bonds_setRecord_same found staked pubkey)) known (by omega)

theorem movement_coins (balances : plan.Balances st.eutxos 0 0) (bonds : post.bonds = st.bonds)
    (known : post.pubkeyIndex = st.pubkeyIndex) (liquid : post.liquidSat = (st.withCoins plan).liquidSat) :
    Movement env.crypto st post plan.charge.feeSat 0 := by
  have coins := liquidSat_withCoins_le balances
  exact .coins bonds known (by omega)

theorem movement_payout {tx : FundedDelegationWithdraw} {p : DelegationPayout}
    (planned : planFundedDelegationWithdrawal env st tx baseFee = .ok p) :
    Movement env.crypto st (st.withDelegationPayout tx.position tx.delegatorId p) p.charge.feeSat 0 := by
  obtain ⟨d, found, unpaid, payout⟩ := planFundedDelegationWithdrawal_eq_ok planned
  have delegated : (st.withDelegationPayout tx.position tx.delegatorId p).delegatedSat + d.amountSat ≤
      st.delegatedSat := delegatedSat_payout found unpaid rfl rfl
  have coins := st.eutxos.totalSat_insert_le p.output
  have losses := ledgerSat_erase st.delegatorSlashLosses tx.delegatorId
  have fees := ledgerSat_erase st.delegatorFeeRewards tx.delegatorId
  have issuance := ledgerSat_erase st.delegatorIssuanceRewards tx.delegatorId
  have after : (st.withDelegationPayout tx.position tx.delegatorId p).purse =
      { st.purse with
        coins := (st.eutxos.insert p.output).totalSat
        delegated := (st.withDelegationPayout tx.position tx.delegatorId p).delegatedSat
        losses := ledgerSat (st.delegatorSlashLosses.erase tx.delegatorId)
        delegatorFees := ledgerSat (st.delegatorFeeRewards.erase tx.delegatorId)
        delegatorIssuance := ledgerSat (st.delegatorIssuanceRewards.erase tx.delegatorId) } := rfl
  refine .coins rfl rfl ?_
  rw [liquidSat, after]
  simp only [liquidSat, Purse.sat, purse]
  omega

theorem movement_register {r : Registration} (funded : Bool) {feeSat unfundedSat : ℕ}
    (fresh : r.Fresh env.crypto st)
    (bonds : post.bonds = st.bonds.register r.record.index (r.record.stakedSat, r.record.pubkey)
      ⟨r.pubkeyHash, st.epoch, r.record.stakedSat⟩ funded)
    (known : post.pubkeyIndex = st.pubkeyIndex.insert r.pubkeyHash r.record.index)
    (liquid : post.liquidSat + feeSat + r.record.stakedSat ≤ st.liquidSat + unfundedSat) :
    Movement env.crypto st post feeSat unfundedSat := by
  have absent : st.bonds.records.get? r.record.index = none := by
    simp [CommittedState.bonds, fresh.index, st.get?_nextIndex]
  exact .register absent fresh.unknown fresh.hash bonds known liquid

theorem Accepted.movement {charge : TxCharge} (accepted : Accepted env st totalActiveSat baseFee tx charge post) :
    Movement env.crypto st post charge.feeSat (unfundedBondSat tx) := by
  cases accepted with
  | @bridge _ _ _ _ plan l2 l2' gained moved kind bridged =>
    have coins : ((st.putL2 l2').withCoins plan).liquidSat + plan.charge.feeSat + moved ≤
        (st.putL2 l2').liquidSat + gained := liquidSat_withCoins_le bridged.balances
    have escrow := bridged.escrow
    have before : st.escrowSat = l2.escrowSat := by simp [escrowSat, bridged.installed]
    have after : (st.putL2 l2').purse = { st.purse with escrow := l2'.escrowSat } := rfl
    have put : (st.putL2 l2').liquidSat + l2.escrowSat = st.liquidSat + l2'.escrowSat := by
      rw [liquidSat, after]
      simp only [liquidSat, Purse.sat, purse]
      omega
    rw [bridged.state, bridged.charged, unfundedBondSat_of_isBridge kind]
    exact .coins rfl rfl (by omega)
  | @withdraw validator w _ planned free =>
    obtain ⟨r, found, cleared, paid⟩ := planWithdrawal_eq_ok planned
    have unpaid : unfundedBondSat (.withdraw validator) = 0 := rfl
    rw [free, unpaid]
    refine .withdraw (bonds_get? found) ?_ rfl ?_
    · have put : (st.withWithdrawal validator w).bonds =
          st.bonds.put validator (w.record.stakedSat, w.record.pubkey) := st.bonds_setRecord validator w.record
      rw [put, cleared]
    · have coins : (st.withWithdrawal validator w).eutxos.totalSat ≤
          st.eutxos.totalSat + st.withdrawableSat env.crypto validator := by
        rw [← paid]
        simp only [withWithdrawal]
        cases w.output with
        | none => simp
        | some output => exact st.eutxos.totalSat_insert_le output
      have after : (st.withWithdrawal validator w).purse =
          { st.purse with coins := (st.withWithdrawal validator w).eutxos.totalSat } := rfl
      rw [← withdrawableSat_eq env.crypto found, liquidSat, after]
      simp only [liquidSat, Purse.sat, purse]
      omega
  | @fundedDeposit tx r planned =>
    obtain ⟨fresh, balances⟩ := planFundedDeposit_eq_ok planned
    have coins := liquidSat_withCoins_le balances
    refine movement_register true fresh ?_ rfl ?_
    · simp [CommittedState.bonds, withFundedRegistration, register, Bonds.register, Bonds.put, mapVal_insert]
    · have liquid : (st.withFundedRegistration r).liquidSat = (st.withCoins r.coins).liquidSat := rfl
      have unpaid : unfundedBondSat (.fundedDeposit tx) = 0 := rfl
      rw [liquid, unpaid]
      omega
  | @deposit tx r _ planned free =>
    obtain ⟨fresh, staked, -⟩ := planDeposit_eq_ok planned
    refine movement_register false fresh ?_ rfl ?_
    · simp [CommittedState.bonds, register, Bonds.register, Bonds.put, mapVal_insert]
    · have liquid : (st.register r).liquidSat = st.liquidSat := rfl
      rw [liquid, unfundedBondSat, free, staked]
      omega
  | @fundedDelegate tx d planned =>
    have coins := liquidSat_withCoins_le (planFundedDelegate_eq_ok planned)
    have appended := st.delegatedSat_append d.delegation
    have after : (st.withFundedDelegation d).purse = { (st.withCoins d.coins).purse with
        delegated := delegatedSat { st with delegations := st.delegations ++ [d.delegation] } } := rfl
    have before : (st.withCoins d.coins).purse.delegated = st.delegatedSat := rfl
    refine .coins rfl rfl ?_
    rw [liquidSat, after]
    simp only [liquidSat, Purse.sat] at coins ⊢
    simp only [unfundedBondSat]
    omega
  | @delegate delegator validator amountSat eligible d _ planned free =>
    have appended := st.delegatedSat_append d
    have after : (st.withDelegation d).purse = { st.purse with
        delegated := delegatedSat { st with delegations := st.delegations ++ [d] } } := rfl
    rw [(planDelegate_eq_ok planned).1] at appended
    refine .coins rfl rfl ?_
    rw [liquidSat, after, free]
    simp only [liquidSat, Purse.sat, purse, unfundedBondSat]
    omega
  | @fundedUndelegate tx d planned =>
    obtain ⟨old, found, -, changed, unpaid, free⟩ := planFundedUndelegate_eq_ok planned
    have same : d.delegation.amountSat = old.amountSat := by rw [changed]
    have kept : (st.withDeactivation tx.position d).delegatedSat = st.delegatedSat :=
      delegatedSat_deactivation found unpaid same rfl rfl
    have after : (st.withDeactivation tx.position d).purse =
        { st.purse with delegated := (st.withDeactivation tx.position d).delegatedSat } := rfl
    refine .coins rfl rfl ?_
    rw [liquidSat, after, kept, free]
    exact le_rfl
  | delegationWithdraw planned => exact movement_payout planned
  | commission planned =>
    obtain ⟨r, found, changed, free⟩ := planValidatorCommissionUpdate_eq_ok planned
    exact movement_amend found (changed ▸ rfl) (changed ▸ rfl) rfl rfl rfl free rfl
  | credentialRotation planned =>
    obtain ⟨r, found, changed, free⟩ := planWithdrawalCredentialRotation_eq_ok planned
    exact movement_amend found (changed ▸ rfl) (changed ▸ rfl) rfl rfl rfl free rfl
  | rescueCommit planned =>
    rw [planRescueCommit_eq_ok planned]
    exact .coins rfl rfl le_rfl
  | rescueReveal planned => exact movement_coins (planRescueReveal_balances planned) rfl rfl rfl
  | transfer planned => exact movement_coins (planTransfer_balances planned) rfl rfl rfl
  | transferV2 planned => exact movement_coins (planTransferV2_balances planned) rfl rfl rfl
  | exit planned free =>
    obtain ⟨r, found, -, rfl⟩ := planExit_eq_ok planned
    have staked : (r.exited st.epoch).stakedSat = r.stakedSat := rfl
    exact movement_amend found staked rfl rfl rfl rfl free rfl
  | exitV2 planned free =>
    obtain ⟨r, found, -, exited, -⟩ := planExitV2_eq_ok planned
    exact movement_amend found (exited ▸ rfl) (exited ▸ rfl) rfl rfl rfl free rfl
  | randaoRecommit planned free =>
    obtain ⟨r, found, changed⟩ := planRandaoRecommit_eq_ok planned
    exact movement_amend found (changed ▸ rfl) (changed ▸ rfl) rfl rfl rfl free rfl
  | kesRegister _ free | kesRotate _ free =>
    rw [free]
    exact .coins rfl rfl le_rfl

/-- Every key of the registry is listed in its index. -/
def Indexed (c : Crypto) (st : CommittedState) : Prop :=
  ∀ i bond, st.bonds.records.get? i = some bond → st.pubkeyIndex.get? (c.sha3 bond.2) ≠ none

variable {measure : Bonds → ℕ}

/-- Whatever moved, value and fee together have grown by unfunded bonds only. -/
theorem Movement.value_le (movement : Movement c st post feeSat unfundedSat)
    (measured : Bonds.Measure c strict measure) (indexed : st.Indexed c) :
    post.valueSat measure + feeSat ≤ st.valueSat measure + unfundedSat := by
  cases movement with
  | coins bonds _ liquid =>
    simp only [valueSat, bonds]
    omega
  | withdraw found bonds _ liquid =>
    have paid := measured.withdraw found
    simp only [valueSat, bonds]
    omega
  | @register i bond d funded _ _ absent unknown hash bonds _ liquid =>
    have apart : ∀ j other, st.bonds.records.get? j = some other → c.sha3 other.2 ≠ d.pubkeyHash := by
      intro j other found same
      exact indexed j other found (same ▸ unknown)
    have added := measured.register bond funded absent apart
    simp only [valueSat, bonds]
    omega

theorem Movement.indexed (movement : Movement c st post feeSat unfundedSat) (indexed : st.Indexed c) :
    post.Indexed c := by
  intro i bond found
  cases movement with
  | coins bonds known _ =>
    rw [bonds] at found
    rw [known]
    exact indexed i bond found
  | @withdraw j s pubkey before bonds known _ =>
    rw [bonds, Bonds.put, get?_insert] at found
    rw [known]
    split_ifs at found with here
    · cases found
      exact indexed j (s, pubkey) before
    · exact indexed i bond found
  | @register j new d funded _ _ absent unknown hash bonds known _ =>
    rw [bonds, Bonds.register, Bonds.put, get?_insert] at found
    rw [known, get?_insert]
    by_cases listed : c.sha3 bond.2 = d.pubkeyHash
    · simp [listed]
    · rw [if_neg listed]
      split_ifs at found with here
      · cases found
        exact absurd hash.symm listed
      · exact indexed i bond found

theorem ledgerSat_le_chargeLosses (ledger : SortedMap ℕ ℕ) (delegations : List Delegation)
    (losses : List ℕ) : ledgerSat ledger ≤ ledgerSat (chargeLosses ledger delegations losses) := by
  unfold chargeLosses
  induction (delegations.zip losses).filter (fun d => 0 < d.2) generalizing ledger with
  | nil => exact le_rfl
  | cons d rest ih =>
    have added := ledgerSat_addAt ledger d.1.delegator d.2
    exact (by omega : ledgerSat ledger ≤ ledgerSat (ledger.addAt d.1.delegator d.2)).trans (ih _)

theorem bonds_withPunishment (g : Gates)
    (fair : p.Measured env st e) : (st.withPunishment g p).bonds = st.bonds.slash e.offender
      (p.record.stakedSat - p.outcome.operatorLossSat) p.record.pubkey := by
  simp only [CommittedState.bonds, withPunishment, Bonds.slash, Bonds.put, mapVal_insert,
    ValidatorRecord.punished, fair.offender]

theorem evidence_value_le (planned : planSlashingEvidence env st e includingProposer roster = .ok p)
    (measured : Bonds.Measure env.crypto strict measure)
    (lifecycle : strict → env.gates.withdrawalActive st.epoch = true) :
    (st.withPunishment env.gates p).valueSat measure ≤ st.valueSat measure := by
  have fair := planSlashingEvidence_measured planned
  have bonds := bonds_withPunishment env.gates fair
  have slashed := measured.slash (bonds_get? fair.found) fair.loss_le fair.reward_le
    (fun active => unbackedPrincipalSat_eq env.crypto fair.found ▸ fair.reward_backed (lifecycle active))
  have losses := ledgerSat_le_chargeLosses st.delegatorSlashLosses st.delegations
    p.outcome.delegationLossesSat
  have rewarded : ledgerSat (st.withPunishment env.gates p).pendingFeeRewards =
      ledgerSat st.pendingFeeRewards + p.rewardSat := by
    simp only [withPunishment]
    split_ifs with due
    · exact ledgerSat_addAt ..
    · omega
  have after : (st.withPunishment env.gates p).purse = { st.purse with
      pendingFees := ledgerSat (st.withPunishment env.gates p).pendingFeeRewards
      losses := ledgerSat (chargeLosses st.delegatorSlashLosses st.delegations
        p.outcome.delegationLossesSat) } := rfl
  rw [valueSat, liquidSat, after, bonds, rewarded]
  simp only [valueSat, liquidSat, Purse.sat, purse]
  omega

end

end CommittedState

end BlochPos
