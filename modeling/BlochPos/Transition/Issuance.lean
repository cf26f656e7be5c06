import BlochPos.Transition.Conservation

/-! The cap on issuance: the counter moves by what was credited. -/
namespace BlochPos

theorem distribute_le (acct : StakeAccount) (budget total : ℕ) :
    (distribute acct budget total).operator + (distribute acct budget total).delegators ≤
      budget * (acct.selfStake + acct.delegatedStake) / total := by
  simp only [distribute]
  split_ifs with idle
  · exact Nat.zero_le _
  · generalize budget * (acct.selfStake + acct.delegatedStake) / total = gross
    have earned : gross * min acct.credits acct.maxCredits / acct.maxCredits ≤ gross := by
      refine Nat.div_le_of_le_mul ?_
      rw [mul_comm acct.maxCredits]
      exact Nat.mul_le_mul_left _ (min_le_right _ _)
    dsimp only
    generalize gross * min acct.credits acct.maxCredits / acct.maxCredits = earnt at earned ⊢
    have share : earnt * acct.delegatedStake / (acct.selfStake + acct.delegatedStake) ≤ earnt := by
      refine Nat.div_le_of_le_mul ?_
      rw [mul_comm _ earnt]
      exact Nat.mul_le_mul_left _ (Nat.le_add_left _ _)
    generalize earnt * acct.delegatedStake / (acct.selfStake + acct.delegatedStake) = delegated at share ⊢
    have commission : delegated * min acct.commissionBps MAX_COMMISSION_BPS / BPS ≤ delegated := by
      refine Nat.div_le_of_le_mul ?_
      rw [mul_comm BPS]
      exact Nat.mul_le_mul_left _ (min_le_right _ _)
    omega

namespace CommittedState

theorem fundedShares_sum (effective own delegated : ℕ) :
    (fundedShares effective own delegated).1 + (fundedShares effective own delegated).2 = effective := by
  simp only [fundedShares]
  split_ifs with idle
  · rfl
  · refine Nat.sub_add_cancel (Nat.div_le_of_le_mul ?_)
    rw [mul_comm]
    exact Nat.mul_le_mul_right _ (Nat.le_add_left _ _)

def IssuanceTerms.Fair (t : IssuanceTerms) : Prop := t.funded = true ∨ t.registry = none

theorem issuanceAccount_stake (fair : t.Fair) (st : CommittedState) (v : Validator) :
    (issuanceAccount t st v).selfStake + (issuanceAccount t st v).delegatedStake = v.effectiveStake := by
  simp only [issuanceAccount]
  split_ifs with funded
  · exact fundedShares_sum ..
  · have unresolved := fair.resolve_left funded
    simp [unresolved]

/-- Coins issued onto bonds and into the delegators' ledger. -/
structure Mints (st post : CommittedState) (bonds ledger : ℕ) : Prop where
  issued : post.issuedSat = st.issuedSat + (bonds + ledger)
  bonded : post.bondedSat = st.bondedSat + bonds
  ledger : ledgerSat post.delegatorIssuanceRewards = ledgerSat st.delegatorIssuanceRewards + ledger

/-- Mints no more than a budget. -/
def MintsWithin (budget : ℕ) (st post : CommittedState) : Prop :=
  ∃ bonds ledger, Mints st post bonds ledger ∧ bonds + ledger ≤ budget

section

variable {st : CommittedState}

theorem mintsWithin_refl (st : CommittedState) : MintsWithin budget st st :=
  ⟨0, 0, ⟨rfl, rfl, rfl⟩, Nat.zero_le _⟩

theorem MintsWithin.trans (first : MintsWithin budget st mid) (second : MintsWithin budget' mid post) :
    MintsWithin (budget + budget') st post := by
  obtain ⟨bonds, ledger, minted, within⟩ := first
  obtain ⟨bonds', ledger', minted', within'⟩ := second
  have issued := minted'.issued
  have bonded := minted'.bonded
  have credited := minted'.ledger
  rw [minted.issued] at issued
  rw [minted.bonded] at bonded
  rw [minted.ledger] at credited
  exact ⟨bonds + bonds', ledger + ledger', ⟨by omega, by omega, by omega⟩, by omega⟩

theorem MintsWithin.mono (minted : MintsWithin budget st post) (le : budget ≤ budget') :
    MintsWithin budget' st post := by
  obtain ⟨bonds, ledger, credits, within⟩ := minted
  exact ⟨bonds, ledger, credits, within.trans le⟩

/-- Without a record nothing is issued. -/
theorem mintsWithin_issueToValidator (st : CommittedState) (index amountSat : ℕ) :
    MintsWithin amountSat st (st.issueToValidator index amountSat) := by
  unfold issueToValidator
  split
  · exact mintsWithin_refl st
  · next r found =>
    have before := SortedMap.sum_of_get? found (fun _ r => r.stakedSat)
    have after := SortedMap.sum_insert st.validators index
      { r with stakedSat := r.stakedSat + amountSat } (fun _ r => r.stakedSat)
    refine ⟨amountSat, 0, ⟨rfl, ?_, rfl⟩, le_rfl⟩
    show (st.validators.insert index _).sum (fun _ r => r.stakedSat) = st.bondedSat + amountSat
    rw [after, bondedSat, before]
    dsimp only
    omega

theorem mintsWithin_due (due : Prop) [Decidable due] (st : CommittedState) (index amountSat : ℕ) :
    MintsWithin amountSat st (if due then st.issueToValidator index amountSat else st) := by
  split_ifs
  · exact mintsWithin_issueToValidator ..
  · exact mintsWithin_refl st

theorem mintsWithin_issueToDelegators (shares : List (ℕ × ℕ)) (st : CommittedState) :
    MintsWithin (shares.map Prod.snd).sum st (shares.foldl issueToDelegator st) := by
  induction shares generalizing st with
  | nil => exact mintsWithin_refl st
  | cons share rest ih =>
    have one : MintsWithin share.2 st (st.issueToDelegator share) :=
      ⟨0, share.2, ⟨by rw [Nat.zero_add]; rfl, rfl, ledgerSat_addAt ..⟩, by omega⟩
    rw [List.map_cons, List.sum_cons]
    exact one.trans (ih _)

theorem mintsWithin_issueOne (fair : t.Fair) (st : CommittedState) (v : Validator) :
    MintsWithin (t.epochIssuance * v.effectiveStake / totalStake t.roster) st (issueOne t st v) := by
  have slice := distribute_le (issuanceAccount t st v) t.epochIssuance (totalStake t.roster)
  rw [issuanceAccount_stake fair] at slice
  simp only [issueOne]
  split
  · exact (mintsWithin_due ..).mono (by omega)
  · have parted := splitDelegatorFees_le
    refine ((mintsWithin_due ..).trans ((mintsWithin_issueToDelegators ..).trans
      (mintsWithin_due ..))).mono ?_
    rw [sum_paid]
    exact (Nat.add_le_add_left (parted ..) _).trans slice

theorem mintsWithin_payIssuance (fair : t.Fair) (st : CommittedState) :
    MintsWithin t.epochIssuance st (payIssuance t st) := by
  unfold payIssuance
  split_ifs with staked
  · have each : ∀ (roster : List Validator) (s : CommittedState), MintsWithin
        ((roster.map (fun v => t.epochIssuance * v.effectiveStake / totalStake t.roster)).sum) s
        (roster.foldl (issueOne t) s) := by
      intro roster
      induction roster with
      | nil => exact mintsWithin_refl
      | cons v rest ih =>
        intro s
        rw [List.map_cons, List.sum_cons]
        exact (mintsWithin_issueOne fair s v).trans (ih _)
    refine (each t.roster st).mono ?_
    have slices := sum_div_le (t.roster.map (fun v => (v.index, v.effectiveStake))) t.epochIssuance
      (totalStake t.roster)
    simp only [List.map_map, Function.comp_def] at slices
    refine slices.trans (le_of_eq ?_)
    exact Nat.mul_div_cancel _ staked
  · exact mintsWithin_refl st

def issued (env : Env) (st : CommittedState) : CommittedState :=
  (st.tallyVotes env).payIssuance ((st.tallyVotes env).issuanceTerms env)

def minted (st : CommittedState) : ℕ × SortedMap ℕ ℕ := (st.issuedSat, st.delegatorIssuanceRewards)

theorem minted_closeEpoch (env : Env) (st : CommittedState) :
    (closeEpoch env st).minted = (st.issued env).minted :=
  @Unfed.closeEpoch_eq _ minted ⟨fun _ _ _ => rfl, fun _ _ _ _ => rfl⟩ _ _
    (enterEpoch_leaves (fun _ _ _ _ _ _ _ => rfl))

def curveSat (epoch : ℕ) : ℕ := ((epochSlots epoch).map validatorRewardDecaySat).sum

theorem mintsWithin_issued (inert : env.gates.rewardsV2Active st.epoch = false) :
    MintsWithin (min (curveSat st.epoch) (TOTAL_SUPPLY_SAT - st.issuedSat)) st (st.issued env) := by
  have tallied : (st.tallyVotes env).epoch = st.epoch ∧ (st.tallyVotes env).issuedSat = st.issuedSat ∧
      (st.tallyVotes env).bondedSat = st.bondedSat ∧
      (st.tallyVotes env).delegatorIssuanceRewards = st.delegatorIssuanceRewards := by
    unfold tallyVotes
    split_ifs <;> exact ⟨rfl, rfl, rfl, rfl⟩
  obtain ⟨epoch, issued, bonded, ledger⟩ := tallied
  have fair : ((st.tallyVotes env).issuanceTerms env).Fair := by
    simp only [IssuanceTerms.Fair, issuanceTerms, epoch, inert, Bool.false_or]
    cases env.gates.fundedDelegationActive st.epoch <;> simp
  obtain ⟨bonds, credits, minted, within⟩ := mintsWithin_payIssuance fair (st.tallyVotes env)
  refine ⟨bonds, credits, ⟨?_, ?_, ?_⟩, ?_⟩
  · rw [← issued]
    exact minted.issued
  · rw [← bonded]
    exact minted.bonded
  · rw [← ledger]
    exact minted.ledger
  · rw [← issued, curveSat, ← epoch]
    exact within

end

/-- With the shipped gates the counter never passes the cap. A close raises it by exactly what its issuance
credits to bonds and delegators, and by no more than the curve and the headroom leave. -/
theorem issuance_capped {env : Env} {st : CommittedState} (shipped : env.gates = .shipped)
    (reached : Reachable env st) :
    st.issuedSat ≤ TOTAL_SUPPLY_SAT ∧ ∃ toBonds toLedger,
      (closeEpoch env st).issuedSat = st.issuedSat + (toBonds + toLedger) ∧
      (st.issued env).bondedSat = st.bondedSat + toBonds ∧
      ledgerSat (closeEpoch env st).delegatorIssuanceRewards =
        ledgerSat st.delegatorIssuanceRewards + toLedger ∧
      toBonds + toLedger ≤ min (curveSat st.epoch) (TOTAL_SUPPLY_SAT - st.issuedSat) := by
  have closes : ∀ s : CommittedState, ∃ toBonds toLedger, Mints s (s.issued env) toBonds toLedger ∧
      toBonds + toLedger ≤ min (curveSat s.epoch) (TOTAL_SUPPLY_SAT - s.issuedSat) := by
    intro s
    refine mintsWithin_issued ?_
    rw [shipped]
    rfl
  have same : ∀ s : CommittedState, (closeEpoch env s).issuedSat = (s.issued env).issuedSat :=
    fun s => congrArg Prod.fst (s.minted_closeEpoch env)
  have capped : st.issuedSat ≤ TOTAL_SUPPLY_SAT := by
    refine Reachable.invariant (P := fun s => s.issuedSat ≤ TOTAL_SUPPLY_SAT) ?_ ?_ reached
    · intro start initial
      obtain ⟨gen, -, l2, rfl, -⟩ := initial.eq_genesisState
      show GENESIS_ISSUED_SAT ≤ TOTAL_SUPPLY_SAT
      decide
    · intro s event post step below
      by_cases closing : event = .closeEpoch
      · subst closing
        cases step
        obtain ⟨_, _, minted, within⟩ := closes s
        rw [same, minted.issued]
        omega
      · have frozen := congrArg Frozen.issuedSat (step.frozen_eq closing)
        exact frozen.trans_le below
  obtain ⟨toBonds, toLedger, minted, within⟩ := closes st
  refine ⟨capped, toBonds, toLedger, ?_, minted.bonded, ?_, within⟩
  · rw [same, minted.issued]
  · exact (congrArg (fun m => ledgerSat m.2) (st.minted_closeEpoch env)).trans minted.ledger

/-- The sole validator is paid for its vote. -/
theorem first_issuance_capped : let env := Env.accepting .shipped
    ∃ st, Run (Step env) (genesisState env (.small 1)) [.closeEpoch, .vote soleVote] st ∧
      st.issuedSat ≤ TOTAL_SUPPLY_SAT ∧ st.issuedSat < (closeEpoch env st).issuedSat ∧
      (closeEpoch env st).issuedSat ≤ st.issuedSat + curveSat st.epoch := by
  intro env
  have initial : Initial env (genesisState env (.small 1)) := initial_genesisState (by decide +kernel)
  have paid : (playAll env (genesisState env (.small 1)) [.closeEpoch, .vote soleVote]).any
      (fun st => st.issuedSat < (closeEpoch env st).issuedSat) = true := by decide +kernel
  simp only [Option.any_eq_true, decide_eq_true_eq] at paid
  obtain ⟨st, played, paid⟩ := paid
  have run := run_of_playAll played
  obtain ⟨capped, _, _, issued, _, _, within⟩ := issuance_capped rfl ⟨_, _, initial, run⟩
  refine ⟨st, run, capped, paid, ?_⟩
  rw [issued]
  exact Nat.add_le_add_left (within.trans (min_le_left _ _)) _

end CommittedState

end BlochPos
