import BlochPos.Transition.Refusal
import BlochPos.Transition.Run

/-! What the execution layer holds in escrow, and that no withdrawal is paid twice. -/
namespace BlochPos

open Attempt SortedMap

namespace L2

namespace ClaimBitmap

theorem contains_iff {b : ClaimBitmap} : b.contains index = true ↔
    index / 256 < b.floor ∨ (b.words.getD (index / 256) 0).testBit (index % 256) = true := by
  rw [contains, decide_eq_true_eq]

theorem contains_raise (b : ClaimBitmap) (fuel index : ℕ) :
    (b.raise fuel).contains index = true ↔ b.contains index = true := by
  induction fuel generalizing b with
  | zero => rfl
  | succ fuel ih =>
    rw [raise]
    split_ifs with full
    · rw [ih, contains_iff, contains_iff]
      rcases lt_trichotomy (index / 256) b.floor with below | here | above
      · simp [below, Nat.lt_succ_of_lt below]
      · have held : b.words.getD b.floor 0 = 2 ^ 256 - 1 := getD_eq_of_get? full
        have set : (2 ^ 256 - 1).testBit (index % 256) = true := by
          rw [Nat.testBit_two_pow_sub_one, decide_eq_true_eq]
          exact Nat.mod_lt _ (by decide)
        rw [here, held, set]
        simp
      · have kept : (b.words.erase b.floor).getD (index / 256) 0 = b.words.getD (index / 256) 0 := by
          simp only [getD, get?_erase, if_neg above.ne']
        rw [kept]
        simp [not_lt.mpr above.le, not_lt.mpr (Nat.succ_le_of_lt above)]
    · rfl

theorem contains_insert (b : ClaimBitmap) (index other : ℕ) :
    (b.insert index).2.contains other = true ↔ b.contains other = true ∨ other = index := by
  rw [insert]
  split_ifs with there
  · constructor
    · exact .inl
    · rintro (held | rfl)
      · exact held
      · exact there
  · rw [contains_raise, contains_iff, contains_iff]
    by_cases word : other / 256 = index / 256
    · have bit : index % 256 = other % 256 ↔ other = index := by omega
      simp only [word, getD, get?_insert_self, Option.getD_some, Nat.testBit_or,
        Nat.testBit_two_pow, Bool.or_eq_true, decide_eq_true_eq, bit, or_assoc]
    · have apart : other ≠ index := by
        rintro rfl
        exact word rfl
      simp [getD, get?_insert_of_ne _ _ word, apart]

end ClaimBitmap

def State.depositedSat (st : State) : ℕ := (st.inbox.map InboxRecord.sats).sum

def State.escrowConserved (st : State) : Bool :=
  checkedSub st.depositedSat st.releasedSat = some st.escrowSat

theorem State.escrowConserved_iff {st : State} :
    st.escrowConserved = true ↔ st.escrowSat + st.releasedSat = st.depositedSat := by
  rw [escrowConserved, decide_eq_true_eq, checkedSub]
  by_cases enough : st.releasedSat ≤ st.depositedSat
  · rw [if_pos enough, Option.some.injEq]
    omega
  · rw [if_neg enough]
    simp only [reduceCtorEq, false_iff]
    omega

def claimedIndices (calls : List Call) : List ℕ :=
  calls.filterMap (fun
    | .claim claim => some claim.index
    | _ => none)

theorem Accepts.escrow (accepts : Accepts c v st call post)
    (balanced : st.escrowSat + st.releasedSat = st.depositedSat) :
    post.escrowSat + post.releasedSat = post.depositedSat := by
  cases call with
  | deposit record =>
    cases accepts.change
    simp only [State.depositedSat, List.map_append, List.map_singleton, List.sum_append,
      List.sum_singleton] at balanced ⊢
    omega
  | claim claim =>
    cases accepts.change with
    | claim claimable =>
      have covered := claimable.covered
      simp only [State.depositedSat] at balanced ⊢
      omega
  | data | settle | prepare | advance | checkpoint =>
    have same := accepts.books_eq rfl
    simp only [State.books, Books.mk.injEq] at same
    obtain ⟨inbox, escrow, -, released, -⟩ := same
    rw [escrow, released, State.depositedSat, inbox]
    exact balanced

theorem State.Started.escrow (started : State.Started c st) :
    st.escrowSat + st.releasedSat = st.depositedSat := by
  obtain ⟨-, -, -, rfl⟩ := started.eq_blank
  rfl

theorem Accepts.claimed (accepts : Accepts c v st call post) (index : ℕ) :
    post.claimed.contains index = true ↔
      st.claimed.contains index = true ∨ index ∈ claimedIndices [call] := by
  cases call with
  | deposit record =>
    cases accepts.change
    simp [claimedIndices]
  | claim claim =>
    cases accepts.change
    simp [claimedIndices, ClaimBitmap.contains_insert]
  | data | settle | prepare | advance | checkpoint =>
    have same : post.claimed = st.claimed := congrArg Books.claimed (accepts.books_eq rfl)
    rw [same]
    simp [claimedIndices]

theorem Accepts.unclaimed (accepts : Accepts c v st call post)
    (claims : index ∈ claimedIndices [call]) : st.claimed.contains index = false := by
  cases accepts.change with
  | claim claimable =>
    obtain rfl : index = _ := by simpa [claimedIndices] using claims
    exact claimable.unclaimed
  | deposit | data | settle | prepare | advance | checkpoint => simp [claimedIndices] at claims

theorem claimedIndices_append (calls calls' : List Call) :
    claimedIndices (calls ++ calls') = claimedIndices calls ++ claimedIndices calls' := List.filterMap_append

theorem claimedIndices_single_nodup (call : Call) : (claimedIndices [call]).Nodup := by
  cases call <;> simp [claimedIndices]

/-- No withdrawal is claimed twice, nor one that was claimed before the run. -/
theorem claimedIndices_nodup (run : Run (Accepts c v) st calls post) :
    (claimedIndices calls).Nodup ∧ ∀ index ∈ claimedIndices calls, st.claimed.contains index = false := by
  induction run with
  | nil => simp [claimedIndices]
  | @cons s t u call calls first rest ih =>
    obtain ⟨distinct, fresh⟩ := ih
    have unclaimed : ∀ index ∈ claimedIndices calls,
        s.claimed.contains index = false ∧ index ∉ claimedIndices [call] := by
      intro index later
      have absent := fresh index later
      rw [← Bool.not_eq_true, first.claimed, not_or, Bool.not_eq_true] at absent
      exact absent
    rw [← List.singleton_append, claimedIndices_append]
    constructor
    · refine (claimedIndices_single_nodup call).append distinct ?_
      intro index here later
      exact (unclaimed index later).2 here
    · intro index member
      rcases List.mem_append.mp member with here | later
      · exact first.unclaimed here
      · exact (unclaimed index later).1

end L2

theorem CoinPlan.Balances.totalSat_run {plan : CoinPlan}
    (balances : plan.Balances eutxos gained moved) (free : plan.Free eutxos) :
    (plan.run eutxos).totalSat + plan.charge.feeSat + moved = eutxos.totalSat + gained := by
  have exchanged := Eutxos.totalSat_exchange_of_free balances.distinct free.1 free.2
  have paid := balances.paid
  simp only [CoinPlan.spentSat, CoinPlan.createdSat, CoinPlan.run] at paid ⊢
  omega

namespace CommittedState

section

variable {env : Env} {charge : TxCharge} {tx : L2WithdrawClaim} {epoch : ℕ}

def releaseEntry (c : Crypto) (tx : L2WithdrawClaim) : EutxoEntry :=
  ⟨(PosTransaction.l2WithdrawClaim tx).txid c, 0, tx.sats, tx.l1Recipient⟩

/-- The rules of an epoch for signatures do not bear on the proofs of settlements. -/
theorem accepts_of_gated
    (accepts : L2.Accepts (env.gated epoch).crypto (env.gated epoch).verifier l2 call l2') :
    L2.Accepts env.crypto env.verifier l2 call l2' := by
  cases accepts <;> constructor <;> assumption

theorem Bridged.of_gated
    (bridged : Bridged (env.gated epoch) st charge post call plan l2 l2' gained moved) :
    Bridged env st charge post call plan l2 l2' gained moved :=
  { bridged with accepts := accepts_of_gated bridged.accepts }

theorem Bridged.escrowSat (bridged : Bridged env st charge post call plan l2 l2' gained moved) :
    post.escrowSat + gained = st.escrowSat + moved := by
  have before : st.escrowSat = l2.escrowSat := by simp [CommittedState.escrowSat, bridged.installed]
  have after : post.escrowSat = l2'.escrowSat := by
    rw [bridged.state]
    rfl
  rw [before, after]
  exact bridged.escrow

theorem Bridged.totalSat (bridged : Bridged env st charge post call plan l2 l2' gained moved) :
    post.eutxos.totalSat + charge.feeSat + moved = st.eutxos.totalSat + gained := by
  have exact_ := bridged.balances.totalSat_run bridged.free
  rw [bridged.charged, bridged.state]
  exact exact_

end

end CommittedState

def Event.claimedIndices : Event → List ℕ
  | .transaction (.l2WithdrawClaim tx) _ => [tx.index]
  | _ => []

namespace CommittedState

section

variable {st post : CommittedState} {charge : TxCharge} {tx : PosTransaction} {l2 : L2.State} {c : Crypto}
  {v : SignatureVerifier} {event : Event}

theorem bridged_of_applyTransaction (bridge : tx.isBridge = true)
    (applied : exec (applyTransaction env tx totalActiveSat baseFee) st = (.ok charge, post)) :
    ∃ call plan l2 l2' gained moved, L2.claimedIndices [call] = (Event.transaction tx charge).claimedIndices ∧
      Bridged env st charge post call plan l2 l2' gained moved := by
  simp only [applyTransaction, ok_iff] at applied
  obtain ⟨_, _, ⟨rfl, rfl⟩, applied⟩ := applied
  cases tx with
  | l2Settlement settlement | l2SettlementAsync settlement =>
    obtain ⟨_, _, _, -, -, bridged⟩ := applyL2Settlement_bridged (exec_relabel_eq_ok_iff.mp applied)
    exact ⟨_, _, _, _, _, _, rfl, bridged.of_gated⟩
  | l2Deposit deposit =>
    obtain ⟨_, _, _, -, bridged⟩ := applyL2Deposit_bridged (exec_relabel_eq_ok_iff.mp applied)
    exact ⟨_, _, _, _, _, _, rfl, bridged.of_gated⟩
  | l2DataAvailability batch =>
    obtain ⟨_, _, _, -, bridged⟩ := applyL2DataAvailability_bridged (exec_relabel_eq_ok_iff.mp applied)
    exact ⟨_, _, _, _, _, _, rfl, bridged.of_gated⟩
  | l2WithdrawClaim claim =>
    obtain ⟨_, _, _, -, bridged⟩ := applyL2WithdrawClaim_bridged (exec_relabel_eq_ok_iff.mp applied)
    exact ⟨_, _, _, _, _, _, rfl, bridged.of_gated⟩
  | _ => cases bridge

/-- Only bridge transactions reach the execution layer. -/
theorem Accepted.l2Settlement_eq (accepted : Accepted env st totalActiveSat baseFee tx charge post)
    (other : tx.isBridge = false) : post.l2Settlement = st.l2Settlement := by
  cases accepted with
  | bridge kind _ => simp [kind] at other
  | _ => rfl

theorem aside_l2Settlement : Aside l2Settlement where
  record _ _ _ := rfl
  ledgers _ _ _ _ := rfl
  issues _ _ _ _ := rfl
  tally _ _ _ := rfl

/-- What leads from one execution layer to another, with the withdrawals claimed: a run of calls, from a
start if there was none. -/
inductive L2Moved (c : Crypto) (v : SignatureVerifier) (claimed : List ℕ) :
    Option L2.State → Option L2.State → Prop where
  | absent (quiet : claimed = []) : L2Moved c v claimed none none
  | installed {first l2 calls} (started : L2.State.Started c first)
      (run : Run (L2.Accepts c v) first calls l2) (claims : L2.claimedIndices calls = claimed) :
      L2Moved c v claimed none (some l2)
  | called {first l2 calls} (run : Run (L2.Accepts c v) first calls l2)
      (claims : L2.claimedIndices calls = claimed) : L2Moved c v claimed (some first) (some l2)

theorem L2Moved.refl (l2 : Option L2.State) : L2Moved c v [] l2 l2 := by
  cases l2 with
  | none => exact .absent rfl
  | some l2 => exact .called (.nil l2) rfl

theorem L2Moved.trans (first : L2Moved c v claimed before mid) (second : L2Moved c v claimed' mid after) :
    L2Moved c v (claimed ++ claimed') before after := by
  cases first with
  | absent quiet => rwa [quiet]
  | installed started run claims =>
    cases second with
    | called run' claims' =>
      exact .installed started (run.append run') (by rw [L2.claimedIndices_append, claims, claims'])
  | called run claims =>
    cases second with
    | called run' claims' => exact .called (run.append run') (by rw [L2.claimedIndices_append, claims, claims'])

theorem l2Moved_installL2 (env : Env) (st : CommittedState) :
    L2Moved env.crypto v [] st.l2Settlement (st.installL2 env).l2Settlement := by
  unfold installL2
  split_ifs with absent
  · split
    · next l2 policy =>
      obtain ⟨a, -, activated⟩ := Option.map_eq_some_iff.mp policy
      rw [absent.1]
      exact .installed (.activated activated) (.nil l2) rfl
    · exact .refl _
  · exact .refl _

theorem l2Moved_recordCheckpoints (c : Crypto) (g : Gates) (st : CommittedState) :
    L2Moved c v [] st.l2Settlement (st.recordCheckpoints g).l2Settlement := by
  have noted (epoch : ℕ) (root : Bytes32) (finalizedEpoch : ℕ) : L2Moved c v [] st.l2Settlement
      (st.l2Settlement.map (fun l2 => l2.recordCheckpointRoot epoch root finalizedEpoch)) := by
    cases st.l2Settlement with
    | none => exact .absent rfl
    | some l2 => exact .called (.single .checkpoint) rfl
  simp only [recordCheckpoints]
  split_ifs
  · exact noted ..
  · exact noted ..
  · exact .refl _
  · exact .refl _

theorem l2Moved_closeEpoch (env : Env) (st : CommittedState) :
    L2Moved env.crypto v [] st.l2Settlement (closeEpoch env st).l2Settlement := by
  obtain ⟨settled, close, same⟩ := aside_l2Settlement.closeEpoch env st
  rw [close, enterEpoch, ← same]
  generalize pruned : prunePqRescueCommits { settled with epoch := st.epoch + 1 } (st.epoch + 1) = entered
  obtain ⟨bound, bindEq, -⟩ := entered.bindKes_eq env
  obtain ⟨lifecycle, retireEq, -⟩ :=
    (((entered.bindKes env.gates).installL2 env).recordCheckpoints env.gates).retireDelegations_eq env
  have moved := (l2Moved_installL2 (v := v) env (entered.bindKes env.gates)).trans
    (l2Moved_recordCheckpoints env.crypto env.gates _)
  rw [retireEq]
  rw [bindEq, ← pruned] at moved ⊢
  exact moved

theorem Step.l2Moved (step : Step env st event post) :
    L2Moved env.crypto env.verifier event.claimedIndices st.l2Settlement post.l2Settlement := by
  cases step with
  | @transaction _ _ tx _ _ charge applied =>
    by_cases bridge : tx.isBridge = true
    · obtain ⟨call, plan, before, after, gained, moved, claims, bridged⟩ :=
        bridged_of_applyTransaction bridge applied
      rw [bridged.installed, bridged.state]
      exact .called (.single bridged.accepts) claims
    · have other : tx.isBridge = false := Bool.not_eq_true _ ▸ bridge
      have none : (Event.transaction tx charge).claimedIndices = [] := by
        cases tx <;> first | rfl | cases other
      rw [none, (accepted_of_applyTransaction applied).l2Settlement_eq other]
      exact .refl _
  | evidence applied =>
    obtain ⟨p, -, rfl⟩ := applySlashingEvidence_eq_ok_iff.mp applied
    exact .refl _
  | vote | fees | forkchoice => exact .refl _
  | proposer seated =>
    obtain ⟨_, _, _, _, _, -, rfl⟩ := seatProposer_eq_ok seated
    exact .refl _
  | @prepareL2 _ pre =>
    rw [CommittedState.prepareL2]
    cases st.l2Settlement with
    | none => exact .refl none
    | some l2 => exact .called (.single (@L2.Accepts.prepare _ _ l2 pre.head pre.slot)) rfl
  | finish finished =>
    simp only [finishBlock, ok_iff] at finished
    obtain ⟨after, advanced, rfl⟩ := finished
    generalize st.l2Settlement = before at advanced ⊢
    cases before with
    | none =>
      cases advanced
      exact .refl none
    | some l2 =>
      simp only [advanceL2, ok_iff] at advanced
      obtain ⟨l2', advanced, rfl⟩ := advanced
      exact .called (.single (.advance advanced)) rfl
  | closeEpoch => exact l2Moved_closeEpoch env st

theorem Initial.l2_started (initial : Initial env st) (installed : st.l2Settlement = some l2) :
    L2.State.Started env.crypto l2 := by
  cases initial with
  | genesis started =>
    simp only [CommittedState.genesis] at started
    split_ifs at started
    cases started
    cases installed
  | network started =>
    simp only [genesisWithNetworkDomain, CommittedState.genesis, Option.map_eq_some_iff] at started
    obtain ⟨_, started, rfl⟩ := started
    split_ifs at started
    cases started
    cases installed
  | configured _ configured =>
    simp only [configureL2Genesis, ok_iff] at configured
    obtain ⟨-, fresh, started, rfl⟩ := configured
    cases installed
    split_ifs at started
    · exact .genesisAsync started
    · exact .genesis started

/-- The claims of the events so far are those of the calls that led to the execution layer. -/
theorem Initial.l2Moved (initial : Initial env start) (run : Run (Step env) start events st) :
    L2Moved env.crypto env.verifier (events.flatMap Event.claimedIndices) none st.l2Settlement := by
  refine run.history (P := fun events st => L2Moved env.crypto env.verifier
    (events.flatMap Event.claimedIndices) none st.l2Settlement) ?_ (fun {_ _ _ _} _ moved step => ?_)
  · cases installed : start.l2Settlement with
    | none => exact .absent rfl
    | some l2 => exact .installed (initial.l2_started installed) (.nil l2) rfl
  · rw [List.flatMap_append, List.flatMap_singleton]
    exact moved.trans step.l2Moved

/-- No withdrawal is paid twice in the life of a chain. Its execution layer is one that calls have led to
from a start, with the claims of the chain's events, so that its escrow is conserved. -/
theorem chain_pays_withdrawals_once (env : Env) :
    (∀ start events st, Initial env start → Run (Step env) start events st →
      (events.flatMap Event.claimedIndices).Nodup) ∧
    ∀ start events st l2, Initial env start → Run (Step env) start events st → st.l2Settlement = some l2 →
      l2.escrowConserved = true ∧ ∃ first calls, L2.State.Started env.crypto first ∧
        Run (L2.Accepts env.crypto env.verifier) first calls l2 ∧
        L2.claimedIndices calls = events.flatMap Event.claimedIndices := by
  constructor
  · intro start events st initial run
    have moved := initial.l2Moved run
    generalize st.l2Settlement = l2 at moved
    cases moved with
    | absent quiet => simp [quiet]
    | installed _ calls claims => exact claims ▸ (L2.claimedIndices_nodup calls).1
  · intro start events st l2 initial run installed
    have moved := initial.l2Moved run
    rw [installed] at moved
    cases moved with
    | installed started called claims =>
      have balanced := called.invariant (fun accepts => accepts.escrow) started.escrow
      exact ⟨L2.State.escrowConserved_iff.mpr balanced, _, _, started, called, claims⟩

def bridgeDeposit : L2Deposit :=
  ⟨1, HYBRID_HEADER ++ List.replicate 3745 1, [⟨1, 0⟩], MIN_L2_DEPOSIT_SAT, [9], ⟨0, 0⟩, 4000, 0, [9]⟩

def bridgeGenesis : Genesis :=
  { Genesis.small 1 with openingBalances := [⟨1, 0, MIN_L2_DEPOSIT_SAT, toHash bridgeDeposit.fundingPubkey⟩] }

/-- A network with an execution layer, of one coin. -/
def bridgeStart (l2 : Option L2.State) : CommittedState :=
  { genesisState (.accepting .shipped) bridgeGenesis with admissionNetworkDomain := some 1, l2Settlement := l2 }

/-- The coin is deposited, and the epoch closes. -/
theorem first_deposit_conserved : let env := Env.accepting .shipped
    ∃ st l2, Run (Step env) (bridgeStart (some .plain)) [.transaction (.l2Deposit bridgeDeposit)
        (bridgeDeposit.terms.charge 0), .closeEpoch] st ∧ st.l2Settlement = some l2 ∧
      l2.escrowSat = MIN_L2_DEPOSIT_SAT ∧ l2.escrowConserved = true := by
  intro env
  have network : Initial env (bridgeStart none) := initial_network (by decide +kernel) 1
  have configured : configureL2Genesis env (bridgeStart none) .plain true = .ok (bridgeStart (some .plain)) := rfl
  have initial : Initial env (bridgeStart (some .plain)) := .configured network configured
  have deposited : (playAll env (bridgeStart (some .plain)) [.transaction (.l2Deposit bridgeDeposit)
      (bridgeDeposit.terms.charge 0), .closeEpoch]).any (fun st =>
        st.l2Settlement.any (fun l2 => l2.escrowSat = MIN_L2_DEPOSIT_SAT)) = true := by
    decide +kernel
  simp only [Option.any_eq_true, decide_eq_true_eq] at deposited
  obtain ⟨st, played, l2, installed, escrow⟩ := deposited
  have run := run_of_playAll played
  exact ⟨st, l2, run, installed, escrow, ((chain_pays_withdrawals_once env).2 _ _ st l2 initial run installed).1⟩

/-- An accepted deposit takes its amount and fee out of the coins and puts the amount, as one record
of the inbox, into escrow. -/
structure Deposits (st post : CommittedState) (l2 : L2.State) (tx : L2Deposit) (charge : TxCharge) :
    Prop where
  coins : post.eutxos.totalSat + tx.amountSat + charge.feeSat = st.eutxos.totalSat
  escrow : ∃ record l2', record.sats = tx.amountSat ∧ post.l2Settlement = some l2' ∧
    l2'.inbox = l2.inbox ++ [record] ∧ l2'.escrowSat = l2.escrowSat + record.sats

/-- An accepted claim takes its amount out of escrow into one new output; all else it creates is its
own change. -/
structure Releases (c : Crypto) (st post : CommittedState) (l2 : L2.State) (tx : L2WithdrawClaim)
    (charge : TxCharge) : Prop where
  coins : post.eutxos.totalSat + charge.feeSat = st.eutxos.totalSat + tx.sats
  escrow : ∃ l2', post.l2Settlement = some l2' ∧ l2'.escrowSat + tx.sats = l2.escrowSat
  unpaid : st.eutxos.get? (releaseEntry c tx).outpoint = none
  paid : post.eutxos.get? (releaseEntry c tx).outpoint = some (releaseEntry c tx)
  only : ∀ op e, post.eutxos.get? op = some e → st.eutxos.get? op = some e ∨ e = releaseEntry c tx ∨
    e ∈ tx.terms.changeEntries ((PosTransaction.l2WithdrawClaim tx).txid c) 1

theorem deposits_of_applyTransaction {tx : L2Deposit} (installed : st.l2Settlement = some l2)
    (applied : exec (applyTransaction env (.l2Deposit tx) totalActiveSat baseFee) st = (.ok charge, post)) :
    Deposits st post l2 tx charge := by
  simp only [applyTransaction, ok_iff] at applied
  obtain ⟨_, _, ⟨rfl, rfl⟩, applied⟩ := applied
  obtain ⟨plan, before, l2', planned, bridged⟩ := applyL2Deposit_bridged (exec_relabel_eq_ok_iff.mp applied)
  obtain rfl : l2 = before := Option.some.inj (installed.symm.trans bridged.installed)
  constructor
  · have total := bridged.totalSat
    omega
  · have there : post.l2Settlement = some l2' := by
      rw [bridged.state]
      rfl
    refine ⟨plan.record, l2', (planL2Deposit_eq_ok planned).2.2.1, there, ?_⟩
    cases bridged.accepts.change
    exact ⟨rfl, rfl⟩

theorem releases_of_applyTransaction {tx : L2WithdrawClaim} (installed : st.l2Settlement = some l2)
    (applied : exec (applyTransaction env (.l2WithdrawClaim tx) totalActiveSat baseFee) st = (.ok charge, post)) :
    Releases env.crypto st post l2 tx charge := by
  simp only [applyTransaction, ok_iff] at applied
  obtain ⟨_, _, ⟨rfl, rfl⟩, applied⟩ := applied
  obtain ⟨plan, before, l2', planned, bridged⟩ := applyL2WithdrawClaim_bridged (exec_relabel_eq_ok_iff.mp applied)
  obtain rfl : l2 = before := Option.some.inj (installed.symm.trans bridged.installed)
  have created : plan.created = releaseEntry env.crypto tx ::
      tx.terms.changeEntries ((PosTransaction.l2WithdrawClaim tx).txid env.crypto) 1 := by
    rw [(planL2WithdrawClaim_eq_ok planned).2.2.2]
    rfl
  have member : releaseEntry env.crypto tx ∈ plan.created := created ▸ List.mem_cons_self
  have coins : post.eutxos = plan.run st.eutxos := by
    rw [bridged.state]
    rfl
  constructor
  · have total := bridged.totalSat
    omega
  · refine ⟨l2', ?_, bridged.escrow⟩
    rw [bridged.state]
    rfl
  · exact bridged.free.2 _ member
  · rw [coins]
    exact Eutxos.get?_foldl_insert_of_nodup bridged.free.1 member
  · intro op e found
    rw [coins] at found
    rcases Eutxos.get?_foldl_insert found with ⟨among, -⟩ | there
    · rw [created] at among
      exact .inr (List.mem_cons.mp among)
    · rw [Eutxos.get?_foldl_remove] at there
      split_ifs at there
      exact .inl there

theorem bridge_pays_only_fee (bridge : tx.isBridge = true)
    (applied : exec (applyTransaction env tx totalActiveSat baseFee) st = (.ok charge, post)) :
    post.eutxos.totalSat + post.escrowSat + charge.feeSat = st.eutxos.totalSat + st.escrowSat := by
  obtain ⟨_, _, _, _, _, _, -, bridged⟩ := bridged_of_applyTransaction bridge applied
  have coins := bridged.totalSat
  have escrow := bridged.escrowSat
  omega

end

/-- After any accepted calls on a new execution layer its escrow is its deposits less its releases, and no
withdrawal was released twice. On a chain that has it in place a deposit and a claim move exactly their
amount between coins and escrow, and every bridge transaction costs the two together its fee. -/
theorem bridge_conserves_coins {env : Env} {start l2 : L2.State} {calls : List L2.Call}
    (started : L2.State.Started env.crypto start)
    (run : Run (L2.Accepts env.crypto env.verifier) start calls l2) :
    l2.escrowConserved = true ∧ (L2.claimedIndices calls).Nodup ∧
    (∀ record reason l2', exec (L2.State.appendDeposit env.crypto record) l2 = (.error reason, l2') →
      l2' = l2) ∧
    (∀ chainId number commitment reason l2',
      exec (L2.State.recordDataAvailability chainId number commitment) l2 = (.error reason, l2') →
      l2' = l2) ∧
    (∀ claim reason l2', exec (L2.State.releaseWithdrawal env.crypto claim) l2 = (.error reason, l2') →
      l2' = l2) ∧
    (∀ tx parent slot asynchronous reason l2',
      exec (L2.State.apply env.crypto env.verifier tx parent slot asynchronous) l2 = (.error reason, l2') →
      l2' = l2) ∧
    ∀ (st post : CommittedState) (totalActiveSat baseFee : ℕ), st.l2Settlement = some l2 →
      (∀ tx charge, exec (applyTransaction env (.l2Deposit tx) totalActiveSat baseFee) st =
        (.ok charge, post) → Deposits st post l2 tx charge) ∧
      (∀ tx charge, exec (applyTransaction env (.l2WithdrawClaim tx) totalActiveSat baseFee) st =
        (.ok charge, post) → Releases env.crypto st post l2 tx charge) ∧
      ∀ tx : PosTransaction, tx.isBridge = true →
        (∀ charge, exec (applyTransaction env tx totalActiveSat baseFee) st = (.ok charge, post) →
          (∃ call l2', post.l2Settlement = some l2' ∧ L2.Accepts env.crypto env.verifier l2 call l2') ∧
          post.eutxos.totalSat + post.escrowSat + charge.feeSat = st.eutxos.totalSat + st.escrowSat) ∧
        ∀ reason, exec (applyTransaction env tx totalActiveSat baseFee) st = (.error reason, post) →
          post = st := by
  have balanced := run.invariant (fun accepts => accepts.escrow) started.escrow
  refine ⟨L2.State.escrowConserved_iff.mpr balanced, (L2.claimedIndices_nodup run).1,
    fun record => L2.State.atomic_appendDeposit _ record l2,
    fun _ _ _ => L2.State.atomic_recordDataAvailability _ _ _ l2,
    fun claim => L2.State.atomic_releaseWithdrawal _ claim l2,
    fun _ _ _ _ => L2.State.atomic_apply _ _ _ _ _ _ l2, ?_⟩
  intro st post totalActiveSat baseFee installed
  refine ⟨fun tx charge => deposits_of_applyTransaction installed,
    fun tx charge => releases_of_applyTransaction installed, fun tx bridge => ⟨?_, ?_⟩⟩
  · intro charge applied
    refine ⟨?_, bridge_pays_only_fee bridge applied⟩
    obtain ⟨call, plan, before, l2', _, _, -, bridged⟩ := bridged_of_applyTransaction bridge applied
    obtain rfl : l2 = before := Option.some.inj (installed.symm.trans bridged.installed)
    refine ⟨call, l2', ?_, bridged.accepts⟩
    rw [bridged.state]
    rfl
  · intro reason refused
    exact (readOnly_get.bind_atomic fun _ => atomic_dispatch _ _ _ _ _) st reason post refused

/-- A deposit of which a first withdrawal is released. -/
theorem first_withdrawal_conserved :
    ∃ l2, L2.playAll L2.plainCrypto L2.plainVerifier .plain
        (L2.depositCalls ++ L2.settlementCalls ++ [.claim L2.firstClaim]) = some l2 ∧
      l2.escrowSat = 1999000000 ∧ l2.releasedSat = 1000000 ∧ l2.escrowConserved = true := by
  let env := Env.accepting .shipped
  have books : (L2.playAll L2.plainCrypto L2.plainVerifier .plain
      (L2.depositCalls ++ L2.settlementCalls ++ [.claim L2.firstClaim])).map
        (fun l2 => (l2.escrowSat, l2.releasedSat)) = some (1999000000, 1000000) := by decide +kernel
  obtain ⟨l2, played, sums⟩ := Option.map_eq_some_iff.mp books
  obtain ⟨escrow, released⟩ := Prod.mk.inj sums
  have started : L2.State.Started env.crypto L2.State.plain := L2.State.started_plain
  have run : Run (L2.Accepts env.crypto env.verifier) L2.State.plain _ l2 := L2.run_of_playAll played
  exact ⟨l2, played, escrow, released, (bridge_conserves_coins started run).1⟩

end CommittedState

end BlochPos
