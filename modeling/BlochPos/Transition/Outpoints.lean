import BlochPos.Transition.BondsLeft
import BlochPos.Transition.Delegations
import BlochPos.Transition.TxIds

/-! Outpoints are never reused: what pays coins out uses up something that its id names and that
does not come back. -/
namespace BlochPos

open Attempt List Option

/-- Spends the coin it uses up and creates only under its own id. -/
structure CoinPlan.Pays (c : Crypto) (tx : PosTransaction) (eutxos : Eutxos) (plan : CoinPlan) : Prop where
  spends : ∃ op, tx.resource = some (.coin op) ∧ op ∈ plan.spent ∧ eutxos.get? op ≠ none
  ids : ∀ e ∈ plan.created, e.txid = tx.txid c

section

variable {plan : CoinPlan} {inputs : List A} {op : A → Outpoint}

theorem CoinPlan.Pays.get?_run (pays : plan.Pays c tx eutxos) {op : Outpoint}
    (found : (plan.run eutxos).get? op = some e) :
    (eutxos.get? op = some e ∧ op ∉ plan.spent) ∨ (ofLex op).1 = tx.txid c := by
  obtain ⟨member, rfl⟩ | held := Eutxos.get?_foldl_insert found
  · exact .inr (pays.ids e member)
  · rw [Eutxos.get?_foldl_remove] at held
    split_ifs at held with spent
    exact .inl ⟨held, spent⟩

theorem CoinPlan.Pays.of_first {created : List EutxoEntry}
    {charge : TxCharge} (uses : tx.resource = inputs.head?.map (fun i => .coin (op i))) (some : inputs ≠ [])
    (held : ∀ i ∈ inputs, eutxos.get? (op i) ≠ none) (ids : ∀ e ∈ created, e.txid = tx.txid c) :
    CoinPlan.Pays c tx eutxos ⟨inputs.map op, created, charge⟩ := by
  obtain ⟨i, rest, rfl⟩ := exists_cons_of_ne_nil some
  exact ⟨⟨op i, uses, mem_cons_self, held i mem_cons_self⟩, ids⟩

theorem held_of_walkInputs (walked : walkInputs eutxos op keyHash seen spent inputs = .ok total) :
    ∀ i ∈ inputs, eutxos.get? (op i) ≠ none := by
  intro i member
  obtain ⟨entry, -, found, -⟩ := (walkInputs_eq_ok walked).2.2.2 i member
  exact found ▸ some_ne_none entry

theorem txid_of_mem_outputEntries : ∀ e ∈ outputEntries txid outputs, e.txid = txid := by
  intro e member
  obtain ⟨o, -, rfl⟩ := mem_map.mp member
  rfl

theorem txid_of_mem_changeEntries {t : BridgeTerms} : ∀ e ∈ t.changeEntries txid vout, e.txid = txid := by
  intro e member
  unfold BridgeTerms.changeEntries at member
  split_ifs at member
  · rw [mem_singleton.mp member]
  · cases member

end

namespace CommittedState

section

variable {env : Env} {st post : CommittedState} {charge : TxCharge} {plan : CoinPlan} {tx : PosTransaction}
  {known : Bytes32 → Prop} {r : Resource}

theorem planTransfer_pays {tx : Transfer} (planned : planTransfer env st tx baseFee = .ok plan) :
    plan.Pays env.crypto (.transfer tx) st.eutxos := by
  simp only [planTransfer, ok_iff] at planned
  obtain ⟨some, -, spent, walked, root, -, -, rfl⟩ := planned
  refine .of_first ?_ some (held_of_walkInputs walked) txid_of_mem_outputEntries
  simp only [PosTransaction.resource, Transfer.spends, head?_map, Option.map_map, Function.comp_def]

theorem planTransferV2_pays {tx : TransferV2} (planned : planTransferV2 env st tx baseFee = .ok plan) :
    plan.Pays env.crypto (.transferV2 tx) st.eutxos := by
  simp only [planTransferV2, ok_iff] at planned
  obtain ⟨some, -, -, spent, walked, -, root, -, -, rfl⟩ := planned
  refine .of_first ?_ some (held_of_walkInputs walked) txid_of_mem_outputEntries
  simp only [PosTransaction.resource, TransferV2.spends, head?_map, Option.map_map, Function.comp_def]

theorem fundedPlan_pays {r : FundingRejects E} {t : FundedTerms}
    (some : t.inputs ≠ []) (uses : tx.resource = t.inputs.head?.map (fun i => .coin i.outpoint))
    (planned : t.plan env st r tx baseFee = .ok p) : p.Pays env.crypto tx st.eutxos := by
  simp only [FundedTerms.plan, ok_iff] at planned
  obtain ⟨-, spent, funded, -, -, -, -, -, -, -, rfl⟩ := planned
  refine .of_first uses some (fundingSat_eq_ok funded).2 ?_
  intro e member
  rw [mem_singleton.mp member]

theorem planFundedDeposit_pays {tx : FundedDeposit} {r : FundedRegistration}
    (planned : planFundedDeposit env st tx totalActiveSat baseFee = .ok r) :
    r.coins.Pays env.crypto (.fundedDeposit tx) st.eutxos := by
  simp only [planFundedDeposit, FundedDeposit.validateShape, FundedTerms.wellShaped, ok_iff, not_not,
    decide_eq_true_eq] at planned
  obtain ⟨-, -, ⟨⟨-, some, -⟩, -⟩, -, -, -, -, -, -, coins, paid, -, rfl⟩ := planned
  exact fundedPlan_pays some rfl paid

theorem planFundedDelegate_pays {tx : FundedDelegate} (planned : planFundedDelegate env st tx baseFee = .ok d) :
    d.coins.Pays env.crypto (.fundedDelegate tx) st.eutxos := by
  simp only [planFundedDelegate, FundedDelegate.validateShape, FundedTerms.wellShaped, ok_iff, not_not,
    decide_eq_true_eq] at planned
  obtain ⟨-, ⟨⟨-, some, -⟩, -⟩, -, -, -, -, -, -, -, -, -, coins, paid, -, -, -, -, -, rfl⟩ := planned
  exact fundedPlan_pays some rfl paid

theorem planRescueReveal_pays {tx : RescueReveal} (planned : planRescueReveal env st tx baseFee = .ok plan) :
    plan.Pays env.crypto (.rescueReveal tx) st.eutxos := by
  simp only [planRescueReveal, ok_iff, not_or] at planned
  obtain ⟨-, -, ⟨-, -, some⟩, -, -, -, -, spent, swept, -, -, value, -, -, -, -, -, rfl⟩ := planned
  refine .of_first rfl some (sweepSat_eq_ok swept).2.2.2 ?_
  intro e member
  rw [mem_singleton.mp member]

theorem bridge_pays {t : BridgeTerms} (uses : tx.resource = t.inputs.head?.map (fun i => .coin i.outpoint))
    (paid : t.Paid st.eutxos movedSat baseFee) (ids : ∀ e ∈ created, e.txid = tx.txid env.crypto) :
    CoinPlan.Pays env.crypto tx st.eutxos ⟨t.inputs.map FundingInput.outpoint, created, charge⟩ :=
  .of_first uses paid.some paid.held ids

/-- A thing that can be used. -/
def Available (st : CommittedState) : Resource → Prop
  | .coin op => st.eutxos.get? op ≠ none
  | .bond i => ∃ r, st.validators.get? i = some r ∧ r.stakedSat ≠ 0
  | .position p => st.isWithdrawn p = false

def UsedUp (known : Bytes32 → Prop) (st : CommittedState) : Resource → Prop
  | .coin op => st.eutxos.get? op = none ∧ known (ofLex op).1
  | .bond i => st.Settled i
  | .position p => st.isWithdrawn p = true

theorem Available.not_usedUp (available : st.Available r) : ¬ st.UsedUp known r := by
  cases r with
  | coin op => exact fun used => available used.1
  | bond i =>
    rintro ⟨r', found', empty, -⟩
    obtain ⟨r, found, staked⟩ := available
    rw [found] at found'
    cases found'
    exact staked empty
  | position p =>
    intro used
    exact absurd (available.symm.trans used) Bool.false_ne_true

/-- Every coin is under an id of a kind. -/
def CoinsUnder (known : Bytes32 → Prop) (st : CommittedState) : Prop :=
  ∀ {op e}, st.eutxos.get? op = some e → known (ofLex op).1

/-- An event leaves the coins alone, or it is a transaction that uses something up and creates coins
under its id only. -/
inductive CoinChange (c : Crypto) (st post : CommittedState) : Event → Prop where
  | kept {event : Event} (idle : ∀ tx charge, event = .transaction tx charge → tx.resource = none)
      (eutxos : post.eutxos = st.eutxos) : CoinChange c st post event
  | paid {tx : PosTransaction} {charge : TxCharge} {r : Resource} (uses : tx.resource = some r)
      (available : st.Available r)
      (used : ∀ {known : Bytes32 → Prop}, st.CoinsUnder (fun id => known id ∧ id ≠ tx.txid c) →
        post.UsedUp known r)
      (created : ∀ {op e}, post.eutxos.get? op = some e →
        st.eutxos.get? op = some e ∨ (ofLex op).1 = tx.txid c) :
      CoinChange c st post (.transaction tx charge)

theorem coinChange_of_pays (pays : plan.Pays c tx st.eutxos)
    (eutxos : post.eutxos = plan.run st.eutxos) : CoinChange c st post (.transaction tx charge) := by
  obtain ⟨op, uses, spent, held⟩ := pays.spends
  refine .paid uses held ?_ ?_
  · intro known under
    obtain ⟨e, found⟩ := ne_none_iff_exists'.mp held
    obtain ⟨handed, apart⟩ := under found
    refine ⟨?_, handed⟩
    by_contra there
    obtain ⟨e', found'⟩ := ne_none_iff_exists'.mp there
    rw [eutxos] at found'
    obtain ⟨-, unspent⟩ | same := pays.get?_run found'
    · exact unspent spent
    · exact apart same
  · intro op e found
    rw [eutxos] at found
    exact (pays.get?_run found).imp_left And.left

theorem planWithdrawal_coinChange (exits : st.ExitsFirst) (planned : planWithdrawal env st index = .ok w) :
    CoinChange env.crypto st (st.withWithdrawal index w) (.transaction (.withdraw index) charge) := by
  simp only [planWithdrawal, ok_iff, not_or] at planned
  obtain ⟨-, record, found, ⟨-, -, due, staked⟩, -, -, off, -, -, rfl⟩ := planned
  refine .paid rfl ⟨record, found, staked⟩ ?_ ?_
  · intro known _
    exact ⟨_, SortedMap.get?_insert_self .., rfl, (exits found).trans (not_lt.mp due)⟩
  · intro op e held
    simp only [withWithdrawal] at held
    split_ifs at held
    · rw [elim_some, Eutxos.get?_insert] at held
      split_ifs at held with here
      · exact .inr (here ▸ rfl)
      · exact .inl held
    · exact .inl held

theorem planFundedDelegationWithdrawal_coinChange {tx : FundedDelegationWithdraw}
    (planned : planFundedDelegationWithdrawal env st tx baseFee = .ok p) :
    CoinChange env.crypto st (st.withDelegationPayout tx.position tx.delegatorId p)
      (.transaction (.fundedDelegationWithdraw tx) charge) := by
  obtain ⟨d, -, unpaid, -⟩ := planFundedDelegationWithdrawal_eq_ok planned
  have output : p.output.txid = (PosTransaction.fundedDelegationWithdraw tx).txid env.crypto := by
    simp only [planFundedDelegationWithdrawal, ok_iff] at planned
    obtain ⟨-, -, -, -, -, _, -, _, -, -, -, _, -, -, _, -, -, -, -, -, rfl⟩ := planned
    rfl
  refine .paid rfl unpaid ?_ ?_
  · intro known _
    show isWithdrawn _ _ = true
    rw [isWithdrawn_insert rfl, if_pos rfl]
  · intro op e held
    simp only [withDelegationPayout, Eutxos.get?_insert] at held
    split_ifs at held with here
    · exact .inr (here ▸ output)
    · exact .inl held

theorem bridge_coinChange (bridge : tx.isBridge = true)
    (applied : exec (applyTransaction env tx totalActiveSat baseFee) st = (.ok charge, post)) :
    CoinChange env.crypto st post (.transaction tx charge) := by
  simp only [applyTransaction, ok_iff] at applied
  obtain ⟨_, _, ⟨rfl, rfl⟩, applied⟩ := applied
  cases tx with
  | l2Settlement settlement | l2SettlementAsync settlement =>
    obtain ⟨plan, _, _, spent, created, bridged⟩ :=
      applyL2Settlement_bridged (exec_relabel_eq_ok_iff.mp applied)
    refine .kept (fun tx charge same => ?_) ?_
    · cases same
      rfl
    · simp only [bridged.state, withCoins, CoinPlan.run, spent, created]
      rfl
  | l2Deposit deposit =>
    obtain ⟨plan, _, _, planned, bridged⟩ := applyL2Deposit_bridged (exec_relabel_eq_ok_iff.mp applied)
    obtain ⟨paid, -, -, coins⟩ := planL2Deposit_eq_ok planned
    refine coinChange_of_pays ?_ (congrArg eutxos bridged.state)
    exact coins ▸ bridge_pays rfl paid txid_of_mem_changeEntries
  | l2DataAvailability batch =>
    obtain ⟨_, _, _, planned, bridged⟩ := applyL2DataAvailability_bridged (exec_relabel_eq_ok_iff.mp applied)
    obtain ⟨paid, -, rfl⟩ := planL2DataAvailability_eq_ok planned
    exact coinChange_of_pays (bridge_pays rfl paid txid_of_mem_changeEntries) (congrArg eutxos bridged.state)
  | l2WithdrawClaim claim =>
    obtain ⟨_, _, _, planned, bridged⟩ := applyL2WithdrawClaim_bridged (exec_relabel_eq_ok_iff.mp applied)
    obtain ⟨paid, -, -, rfl⟩ := planL2WithdrawClaim_eq_ok planned
    refine coinChange_of_pays (bridge_pays rfl paid ?_) (congrArg eutxos bridged.state)
    exact forall_mem_cons.mpr ⟨rfl, txid_of_mem_changeEntries⟩
  | _ => cases bridge

theorem Accepted.coinChange (plain : tx.isBridge = false) (exits : st.ExitsFirst)
    (accepted : Accepted env st totalActiveSat baseFee tx charge post) :
    CoinChange env.crypto st post (.transaction tx charge) := by
  cases accepted with
  | bridge kind =>
    simp [kind] at plain
  | withdraw planned => exact planWithdrawal_coinChange exits planned
  | fundedDeposit planned => exact coinChange_of_pays (planFundedDeposit_pays planned) rfl
  | fundedDelegate planned => exact coinChange_of_pays (planFundedDelegate_pays planned) rfl
  | delegationWithdraw planned => exact planFundedDelegationWithdrawal_coinChange planned
  | rescueReveal planned => exact coinChange_of_pays (planRescueReveal_pays planned) rfl
  | transfer planned => exact coinChange_of_pays (planTransfer_pays planned) rfl
  | transferV2 planned => exact coinChange_of_pays (planTransferV2_pays planned) rfl
  | fundedUndelegate | commission | credentialRotation | rescueCommit | deposit | exit | exitV2 | kesRegister
  | kesRotate | randaoRecommit | delegate =>
    refine .kept (fun tx charge same => ?_) rfl
    cases same
    rfl

theorem Step.coinChange (step : Step env st event post) (exits : st.ExitsFirst) :
    CoinChange env.crypto st post event := by
  cases step with
  | @transaction _ _ tx _ _ _ applied =>
    cases kind : tx.isBridge with
    | true => exact bridge_coinChange kind applied
    | false =>
      have change := (accepted_of_applyTransaction applied).coinChange kind exits
      exact change
  | evidence applied =>
    obtain ⟨p, -, rfl⟩ := applySlashingEvidence_eq_ok_iff.mp applied
    exact .kept nofun rfl
  | vote | fees | forkchoice | prepareL2 => exact .kept nofun rfl
  | proposer seated =>
    obtain ⟨_, _, _, _, _, -, rfl⟩ := seatProposer_eq_ok seated
    exact .kept nofun rfl
  | finish finished =>
    obtain ⟨_, rfl, -⟩ := finishBlock_eq_ok finished
    exact .kept nofun rfl
  | closeEpoch => exact .kept nofun (congrArg Standing.eutxos (standing_closeEpoch env st))

/-- A transaction of the run that uses something up. -/
def Pays (events : List Event) (tx : PosTransaction) : Prop :=
  tx.resource ≠ none ∧ ∃ charge, .transaction tx charge ∈ events

def Known (c : Crypto) (start : CommittedState) (events : List Event) (id : Bytes32) : Prop :=
  (∃ op e, start.eutxos.get? op = some e ∧ (ofLex op).1 = id) ∨ ∃ tx, Pays events tx ∧ tx.txid c = id

/-- No two transactions of a run have one id unless of the same content, and none has the id of an
opening coin. -/
structure CollisionFree (c : Crypto) (start : CommittedState) (events : List Event) : Prop where
  ids : ∀ {tx tx'}, Pays events tx → Pays events tx' → tx.txid c = tx'.txid c → tx.preimage = tx'.preimage
  opening : ∀ {tx op e}, Pays events tx → start.eutxos.get? op = some e → (ofLex op).1 ≠ tx.txid c

/-- What was used stays used. -/
structure Consumed (c : Crypto) (start : CommittedState) (events : List Event) (st : CommittedState) : Prop where
  kept : st.BondsKept
  coins : st.CoinsUnder (Known c start events)
  used : ∀ {tx r}, Pays events tx → tx.resource = some r → st.UsedUp (Known c start events) r

variable {c : Crypto} {start : CommittedState} {events : List Event} {event : Event}

theorem Pays.mono (pays : Pays events tx) : Pays (events ++ later) tx := by
  obtain ⟨uses, charge, among⟩ := pays
  exact ⟨uses, charge, mem_append_left _ among⟩

theorem Known.mono {id : Bytes32} (known : Known c start events id) : Known c start (events ++ later) id := by
  obtain opening | ⟨tx, pays, same⟩ := known
  · exact .inl opening
  · exact .inr ⟨tx, pays.mono, same⟩

theorem CollisionFree.of_append (free : CollisionFree c start (events ++ later)) : CollisionFree c start events :=
  ⟨fun pays pays' => free.ids pays.mono pays'.mono, fun pays => free.opening pays.mono⟩

theorem UsedUp.step (chain : ChainStep env st event post)
    (kept : st.BondsKept) (wider : ∀ {id}, known id → known' id)
    (fresh : ∀ {op e}, post.eutxos.get? op = some e → st.eutxos.get? op = some e ∨ ¬ known (ofLex op).1)
    (used : st.UsedUp known r) : post.UsedUp known' r := by
  cases r with
  | coin op =>
    obtain ⟨gone, handed⟩ := used
    refine ⟨?_, wider handed⟩
    by_contra there
    obtain ⟨e, found⟩ := ne_none_iff_exists'.mp there
    obtain held | unknown := fresh found
    · simp [gone] at held
    · exact unknown handed
  | bond i => exact chain.settled kept used
  | position p =>
    show post.isWithdrawn p = true
    have before : st.isWithdrawn p = true := used
    cases chain.1.positionChange with
    | same _ paid | opened _ _ _ paid | dated _ _ _ _ paid => rw [paid, before]
    | paidOut _ _ paid => rw [paid, before, Bool.or_true]

theorem Consumed.unknown (consumed : Consumed c start events st)
    (fits : ∀ {tx}, Pays later tx → tx.Fits) (free : CollisionFree c start later)
    (among : ∀ {tx}, Pays events tx → Pays later tx) (pays : Pays later tx) (uses : tx.resource = some r)
    (available : st.Available r) : ¬ Known c start events (tx.txid c) := by
  rintro (⟨op, e, opening, same⟩ | ⟨tx', earlier, same⟩)
  · exact free.opening pays opening same
  · obtain ⟨r', uses'⟩ := ne_none_iff_exists'.mp earlier.1
    have content := free.ids (among earlier) pays same
    have one := PosTransaction.resource_eq (fits (among earlier)) (fits pays) uses' uses content
    subst one
    exact available.not_usedUp (consumed.used earlier uses')

theorem Consumed.step (consumed : Consumed env.crypto start events st) (chain : ChainStep env st event post)
    (fits : ∀ {tx}, Pays (events ++ [event]) tx → tx.Fits)
    (free : CollisionFree env.crypto start (events ++ [event])) :
    Consumed env.crypto start (events ++ [event]) post := by
  have kept := chain.bondsKept consumed.kept
  cases chain.1.coinChange consumed.kept.exits with
  | kept idle eutxos =>
    have coins : post.CoinsUnder (Known env.crypto start (events ++ [event])) := by
      intro op e found
      rw [eutxos] at found
      exact (consumed.coins found).mono
    refine ⟨kept, coins, ?_⟩
    rintro tx r ⟨some, charge, among⟩ uses
    obtain earlier | last := mem_append.mp among
    · refine UsedUp.step chain consumed.kept Known.mono (fun found => .inl ?_)
        (consumed.used ⟨some, charge, earlier⟩ uses)
      rwa [eutxos] at found
    · exact absurd (idle tx charge (mem_singleton.mp last).symm) some
  | @paid tx charge r uses available used created =>
    have pays : Pays (events ++ [.transaction tx charge]) tx :=
      ⟨uses ▸ some_ne_none r, charge, mem_append_right _ mem_cons_self⟩
    have unknown := consumed.unknown fits free Pays.mono pays uses available
    have coins : post.CoinsUnder (Known env.crypto start (events ++ [.transaction tx charge])) := by
      intro op e found
      obtain held | same := created found
      · exact (consumed.coins held).mono
      · exact .inr ⟨tx, pays, same.symm⟩
    refine ⟨kept, coins, ?_⟩
    rintro tx' r' ⟨some, charge', among⟩ uses'
    obtain earlier | last := mem_append.mp among
    · refine UsedUp.step chain consumed.kept Known.mono (fun found => ?_)
        (consumed.used ⟨some, charge', earlier⟩ uses')
      refine (created found).imp_right (fun same handed => unknown ?_)
      rwa [same] at handed
    · cases mem_singleton.mp last
      rw [uses] at uses'
      cases uses'
      refine used (fun found => ⟨(consumed.coins found).mono, fun same => unknown ?_⟩)
      rw [← same]
      exact consumed.coins found

theorem consumed_of_run (initial : Initial env start) (run : Run (ChainStep env) start events st)
    (fits : ∀ {tx}, Pays events tx → tx.Fits) (free : CollisionFree env.crypto start events) :
    Consumed env.crypto start events st := by
  -- the conditions on the whole run are conditions on what has been run so far
  refine Run.history (P := fun events st => (∀ {tx}, Pays events tx → tx.Fits) →
    CollisionFree env.crypto start events → Consumed env.crypto start events st) ?_ ?_ run fits free
  · intro _ _
    refine ⟨initial.bondsKept, fun found => .inl ⟨_, _, found, rfl⟩, ?_⟩
    rintro tx r ⟨-, _, among⟩
    cases among
  · intro before mid event after _ held chain fits free
    exact (held (fun pays => fits pays.mono) free.of_append).step chain fits free

def Inserts (c : Crypto) : Event → Outpoint → Prop
  | .transaction tx _, op => tx.resource ≠ none ∧ (ofLex op).1 = tx.txid c
  | _, _ => False

/-- Only an accepted transaction puts coins anywhere, under its own id, and there was never a coin at such
an outpoint, nor did anything before create one there. -/
theorem outpoints_never_reused (initial : Initial env start) (run : Run (ChainStep env) start events st)
    (chain : ChainStep env st event post) (fits : ∀ {tx}, Pays (events ++ [event]) tx → tx.Fits)
    (free : CollisionFree env.crypto start (events ++ [event])) :
    (∀ op e, post.eutxos.get? op = some e → st.eutxos.get? op = some e ∨ Inserts env.crypto event op) ∧
    ∀ op, Inserts env.crypto event op →
      (∀ before after earlier, events = before ++ after → Run (ChainStep env) start before earlier →
        Run (ChainStep env) earlier after st → earlier.eutxos.get? op = none) ∧
      ∀ event' ∈ events, ¬ Inserts env.crypto event' op := by
  have consumed := consumed_of_run initial run (fun pays => fits pays.mono) free.of_append
  cases chain.1.coinChange consumed.kept.exits with
  | kept idle eutxos =>
    refine ⟨fun op e found => .inl (by rwa [eutxos] at found), fun op inserts => ?_⟩
    cases event with
    | transaction tx charge => exact absurd (idle tx charge rfl) inserts.1
    | _ => cases inserts
  | @paid tx charge r uses available used created =>
    have pays : Pays (events ++ [.transaction tx charge]) tx :=
      ⟨uses ▸ some_ne_none r, charge, mem_append_right _ mem_cons_self⟩
    have unknown := consumed.unknown fits free Pays.mono pays uses available
    refine ⟨fun op e found => (created found).imp_right (fun same => ⟨pays.1, same⟩), ?_⟩
    rintro op ⟨-, same⟩
    constructor
    · rintro before after earlier rfl first -
      have held := consumed_of_run initial first (fun pays => fits pays.mono.mono) free.of_append.of_append
      by_contra there
      obtain ⟨e, found⟩ := ne_none_iff_exists'.mp there
      refine unknown ?_
      rw [← same]
      exact (held.coins found).mono
    · intro event' among inserts
      cases event' with
      | transaction tx' charge' =>
        exact unknown (.inr ⟨tx', ⟨inserts.1, charge', among⟩, inserts.2.symm.trans same⟩)
      | _ => cases inserts

def coinGenesis : Genesis :=
  { Genesis.small 1 with openingBalances := [⟨1, 0, MIN_TRANSFER_OUTPUT_SAT, toHash [7]⟩] }

def sentOn : Transfer := ⟨[⟨1, 0, [7], []⟩], [⟨MIN_TRANSFER_OUTPUT_SAT, 9⟩], 200, 0⟩

/-- Its new coin is at an outpoint that never held one. -/
theorem sent_coin_is_new : let env := Env.accepting .shipped
    let start := genesisState env coinGenesis
    let sent := (exec (applyTransaction env (.transfer sentOn) 0 0) start).2
    let op := outpoint ((PosTransaction.transfer sentOn).txid env.crypto) 0
    (sent.eutxos.get? op).isSome = true ∧ start.eutxos.get? op = none := by
  intro env start sent op
  have accepted : (exec (applyTransaction env (.transfer sentOn) 0 0) start).1.isOk = true := by decide +kernel
  obtain ⟨charge, applied⟩ := exists_exec_of_isOk accepted
  have initial : Initial env start := initial_genesisState (by decide +kernel)
  have only : ∀ {tx}, Pays ([] ++ [.transaction (.transfer sentOn) charge]) tx → tx = .transfer sentOn := by
    rintro tx ⟨-, _, among⟩
    have same := mem_singleton.mp among
    injection same
  have fits : ∀ {tx}, Pays ([] ++ [.transaction (.transfer sentOn) charge]) tx → tx.Fits := by
    intro tx pays
    rw [only pays]
    simp [PosTransaction.Fits, Transfer.Fits, ListFits, TransferInput.Fits, TransferOutput.Fits, BytesFit, sentOn,
      MIN_TRANSFER_OUTPUT_SAT]
  have apart : ∀ entry ∈ start.eutxos.byOutpoint.entries,
      (ofLex entry.1).1 ≠ (PosTransaction.transfer sentOn).txid env.crypto := by decide +kernel
  have free : CollisionFree env.crypto start ([] ++ [.transaction (.transfer sentOn) charge]) := by
    refine ⟨fun pays pays' _ => by rw [only pays, only pays'], fun {tx op e} pays opening => ?_⟩
    rw [only pays]
    exact apart (op, e) (SortedMap.get?_eq_some_iff.mp opening)
  have fresh := outpoints_never_reused initial (.nil start)
    ((Step.transaction applied).chain (fun _ same => by cases same) (fun _ same => by cases same)) fits free
  refine ⟨by decide +kernel, ?_⟩
  exact (fresh.2 op ⟨(fun same => by cases same), rfl⟩).1 [] [] start rfl (.nil start) (.nil start)

end

end CommittedState

end BlochPos
