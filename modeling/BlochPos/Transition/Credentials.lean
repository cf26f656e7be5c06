import BlochPos.Transition.InEpoch

/-! Withdrawal credentials and the commitments of a rescue. -/
namespace BlochPos.CommittedState

open Attempt SortedMap Option

def credentials (st : CommittedState) : SortedMap ℕ Bytes :=
  st.validators.mapVal (fun _ r => r.withdrawalCredentials)

/-- A rotation that the owner of a credential and the holder of the new key have signed, under a
commitment where one is asked for. -/
structure Authorised (env : Env) (st : CommittedState) (tx : WithdrawalCredentialRotation)
    (old : Bytes) : Prop where
  length : old.length = 32
  opens : owns (nativeScript env.crypto tx.authorizingPubkey) (toHash old) = true
  signed : env.verifier.verifySpendAtEpoch tx.authorizingPubkey (tx.signingRoot env.crypto)
    tx.authorizingSignature st.epoch = true
  hashBased : isHashBasedKey tx.newPubkey = true
  newSigned : env.verifier.verifySpendAtEpoch tx.newPubkey (tx.signingRoot env.crypto)
    tx.newKeySignature st.epoch = true

def uses (env : Env) (st : CommittedState) : Event → Option Bytes32
  | .transaction (.withdrawalCredentialRotation tx) _ =>
    if env.gates.latticeEmergencyActive st.epoch = true ∧ isHashBasedKey tx.authorizingPubkey = false then
      some (tx.commitment env.crypto)
    else none
  | .transaction (.rescueReveal tx) _ => some (tx.commitment env.crypto)
  | _ => none

section

variable {env : Env} {st post : CommittedState} {event : Event} {events : List Event} {v : ℕ}
  {tx : PosTransaction} {charge : TxCharge} {h : Bytes32}

theorem planWithdrawalCredentialRotation_authorised {tx : WithdrawalCredentialRotation}
    (planned : planWithdrawalCredentialRotation env st tx = .ok p) :
    ∃ record, st.validators.get? tx.validator = some record ∧
      Authorised env st tx record.withdrawalCredentials ∧
      p.record = { record with withdrawalCredentials := hashBytes (tx.newCredential env.crypto) } ∧
      p.used = st.uses env (.transaction (.withdrawalCredentialRotation tx) p.charge) ∧
      (∀ h, p.used = some h → st.maturedCommitment h = .ok ()) := by
  simp only [planWithdrawalCredentialRotation, ok_iff, not_not, Bool.not_eq_false] at planned
  obtain ⟨-, -, -, -, record, found, -, length, opens, hashBased, -, matured, signed, newSigned, rfl⟩ :=
    planned
  refine ⟨record, found, ⟨length, opens, signed, hashBased, newSigned⟩, rfl, ?_, ?_⟩
  · simp only [uses, decide_eq_true_eq]
  · intro h used
    simp only [decide_eq_true_eq] at matured used
    split_ifs at used with rescue
    cases used
    rwa [if_pos rescue] at matured

theorem get?_credentials (st : CommittedState) (v : ℕ) :
    st.credentials.get? v = (st.validators.get? v).map ValidatorRecord.withdrawalCredentials := by
  rw [credentials, get?_mapVal]

/-- All an event may do to the credentials. -/
inductive CredentialChange (env : Env) (st : CommittedState) (event : Event) (post : CommittedState) :
    Prop where
  | same (kept : post.credentials = st.credentials)
  | added {v first} (absent : st.credentials.get? v = none)
      (added : post.credentials = st.credentials.insert v first)
  | rotated {tx charge old}
      (rotation : event = .transaction (.withdrawalCredentialRotation tx) charge)
      (found : st.credentials.get? tx.validator = some old)
      (authorised : Authorised (env.gated st.epoch) st tx old)
      (moved : post.credentials = st.credentials.insert tx.validator (hashBytes (tx.newCredential env.crypto)))

theorem credentials_amend (found : st.validators.get? v = some r)
    (amended : post.validators = st.validators.insert v r')
    (same : r'.withdrawalCredentials = r.withdrawalCredentials) : post.credentials = st.credentials := by
  rw [credentials, amended]
  exact mapVal_insert_of_same found same

theorem credentials_add (absent : st.validators.get? v = none)
    (added : post.validators = st.validators.insert v r) : CredentialChange env st event post := by
  have unlisted : st.credentials.get? v = none := by
    rw [get?_credentials, absent]
    rfl
  have listed : post.credentials = st.credentials.insert v r.withdrawalCredentials := by
    rw [credentials, added, mapVal_insert]
    rfl
  exact .added unlisted listed

theorem aside_credentials : Aside credentials where
  record _ _ found := mapVal_insert_of_same found rfl
  ledgers _ _ _ _ := rfl
  issues _ _ _ _ := rfl
  tally _ _ _ := rfl

theorem credentials_closeEpoch (env : Env) (st : CommittedState) :
    (closeEpoch env st).credentials = st.credentials :=
  aside_credentials.closeEpoch_eq (enterEpoch_leaves (fun _ _ _ _ _ _ _ => rfl)) st

theorem Step.credentialChange (step : Step env st event post) : CredentialChange env st event post := by
  by_cases closes : event = .closeEpoch
  · subst closes
    cases step
    exact .same (credentials_closeEpoch env st)
  have change := step.recordChange closes
  generalize after : post.validators = m at change
  cases change with
  | same => exact .same (by rw [credentials, after, credentials])
  | added index => exact credentials_add (index ▸ st.get?_nextIndex) after
  | amended found | repriced found | exited found | punished found =>
    exact .same (credentials_amend found after rfl)
  | @rotated tx charge r p found rotation planned =>
    obtain ⟨record, found', authorised, -⟩ := planWithdrawalCredentialRotation_authorised planned
    cases found.symm.trans found'
    have listed : st.credentials.get? tx.validator = some r.withdrawalCredentials := by
      rw [get?_credentials, found]
      rfl
    refine .rotated rotation listed authorised ?_
    rw [credentials, after, mapVal_insert]
    rfl

/-- No validator votes with a hash-based key. -/
def LatticeKeys (st : CommittedState) : Prop :=
  ∀ i r, st.validators.get? i = some r → isHashBasedKey r.pubkey = false

theorem Step.latticeKeys (step : Step env st event post) (held : st.LatticeKeys) : post.LatticeKeys := by
  intro i r found
  by_cases closes : event = .closeEpoch
  · subst closes
    cases step
    have kept := identity_closeEpoch env st i
    rw [found] at kept
    obtain ⟨old, there, same⟩ := map_eq_some_iff.mp kept.symm
    exact (Prod.mk.inj same).1 ▸ held i old there
  have change := step.recordChange closes
  generalize post.validators = m at change found
  cases change with
  | same => exact held i r found
  | added _ waiting =>
    rw [get?_insert] at found
    split_ifs at found
    · exact some.inj found ▸ waiting.lattice
    · exact held i r found
  | amended old | repriced old | rotated old | exited old | punished old =>
    have lattice := held _ _ old
    rw [get?_insert] at found
    split_ifs at found
    · exact some.inj found ▸ lattice
    · exact held i r found

/-- All an event may do to the commitments. -/
structure CommitChange (env : Env) (st : CommittedState) (event : Event) (post : CommittedState) : Prop where
  recorded : ∀ {h at_}, post.pqRescueCommits.get? h = some at_ →
    (st.pqRescueCommits.get? h = some at_ ∧ st.uses env event ≠ some h) ∨
    ∃ commit charge, event = .transaction (.rescueCommit commit) charge ∧ commit.commitment = h ∧
      at_ = st.epoch
  used : ∀ {h}, st.uses env event = some h → st.maturedCommitment h = .ok ()

theorem CommitChange.drops (unused : st.uses env event = none)
    (kept : ∀ {h at_}, post.pqRescueCommits.get? h = some at_ → st.pqRescueCommits.get? h = some at_) :
    CommitChange env st event post where
  recorded found := by
    refine .inl ⟨kept found, ?_⟩
    rw [unused]
    exact some_ne_none _ |>.symm
  used uses := by
    simp [unused] at uses

theorem CommitChange.erases {used : Option Bytes32} (uses : st.uses env event = used)
    (erased : post.pqRescueCommits = used.elim st.pqRescueCommits st.pqRescueCommits.erase)
    (matured : ∀ h, used = some h → st.maturedCommitment h = .ok ()) : CommitChange env st event post := by
  subst uses
  refine ⟨fun {h at_} found => .inl ?_, fun {h} => matured h⟩
  rw [erased] at found
  cases uses : st.uses env event with
  | none =>
    rw [uses] at found
    exact ⟨found, some_ne_none _ |>.symm⟩
  | some gone =>
    rw [uses, elim_some, get?_erase] at found
    split_ifs at found with same
    refine ⟨found, fun other => same ?_⟩
    exact (Option.some.inj other).symm

theorem Accepted.commitChange
    (accepted : Accepted (env.gated st.epoch) st totalActiveSat baseFee tx charge post) :
    CommitChange env st (.transaction tx charge) post := by
  cases accepted with
  | bridge kind bridged =>
    rw [bridged.state]
    refine .drops ?_ id
    cases tx with
    | withdrawalCredentialRotation | rescueReveal => cases kind
    | _ => rfl
  | credentialRotation planned =>
    obtain ⟨-, -, -, -, uses, matured⟩ := planWithdrawalCredentialRotation_authorised planned
    exact .erases uses.symm rfl matured
  | @rescueReveal tx plan planned =>
    simp only [planRescueReveal, ok_iff] at planned
    obtain ⟨-, -, -, -, -, -, -, _, -, -, matured, -⟩ := planned
    have ready : ∀ h, some (tx.commitment env.crypto) = some h → st.maturedCommitment h = .ok () := by
      rintro _ ⟨⟩
      exact matured
    exact .erases rfl rfl ready
  | @rescueCommit tx charge planned =>
    refine ⟨fun {h at_} found => ?_, fun uses => by cases uses⟩
    have written : (st.withRescueCommit tx.commitment).pqRescueCommits =
      st.pqRescueCommits.insert tx.commitment st.epoch := rfl
    rw [written, get?_insert] at found
    split_ifs at found with same
    · exact .inr ⟨tx, charge, rfl, same.symm, (Option.some.inj found).symm⟩
    · exact .inl ⟨found, some_ne_none _ |>.symm⟩
  | withdraw | fundedDeposit | fundedDelegate | fundedUndelegate | delegationWithdraw | commission | transfer
    | transferV2 | deposit | exit | exitV2 | kesRegister | kesRotate | randaoRecommit | delegate =>
    exact .drops rfl id

theorem aside_pqRescueCommits : Aside pqRescueCommits where
  record _ _ _ := rfl
  ledgers _ _ _ _ := rfl
  issues _ _ _ _ := rfl
  tally _ _ _ := rfl

theorem Step.commitChange (step : Step env st event post) : CommitChange env st event post := by
  cases step.effect with
  | transaction accepted => exact accepted.commitChange
  | evidence | vote | fees | proposer | forkchoice | prepareL2 | finish => exact .drops rfl id
  | closeEpoch =>
    refine .drops rfl fun {h at_} found => ?_
    obtain ⟨settled, close, same⟩ := aside_pqRescueCommits.closeEpoch env st
    obtain ⟨_, _, _, _, _, entered, pruned, -⟩ := settled.enterEpoch_eq env (st.epoch + 1)
    have kept : (CommittedState.closeEpoch env st).pqRescueCommits = st.pqRescueCommits.filter
        (fun _ at_ => st.epoch + 1 ≤ satAdd u64Max at_ RESCUE_COMMIT_TTL_EPOCHS) := by
      rw [close, entered, pruned, same]
      rfl
    rw [kept, get?_filter] at found
    exact (filter_eq_some_iff.mp found).1

variable {start : CommittedState}

/-- A commitment on record was made by a transaction of the run, in the epoch recorded. -/
def CommitsMade (env : Env) (start : CommittedState) (events : List Event) (st : CommittedState) : Prop :=
  ∀ h at_, st.pqRescueCommits.get? h = some at_ → ∃ before commit charge after mid,
    events = before ++ .transaction (.rescueCommit commit) charge :: after ∧ commit.commitment = h ∧
    Run (Step env) start before mid ∧ mid.epoch = at_

theorem commitsMade_of_run (initial : Initial env start) (run : Run (Step env) start events st) :
    CommitsMade env start events st := by
  refine Run.history (P := CommitsMade env start) ?_ ?_ run
  · obtain ⟨gen, -, l2, rfl, -⟩ := initial.eq_genesisState
    intro h at_ found
    exact absurd found (by simp [genesisState])
  · intro events st event post run made step h at_ found
    obtain ⟨old, -⟩ | ⟨commit, charge, rfl, same, rfl⟩ := step.commitChange.recorded found
    · obtain ⟨before, commit, charge, after, mid, rfl, rest⟩ := made h at_ old
      refine ⟨before, commit, charge, after ++ [event], mid, ?_, rest⟩
      rw [List.append_assoc, List.cons_append]
    · exact ⟨events, commit, charge, [], st, rfl, same, run, rfl⟩

/-- A commitment that is off the record is back on it only by a new transaction. -/
theorem recommitted_of_run (run : Run (Step env) st events post)
    (absent : st.pqRescueCommits.get? h = none) (found : post.pqRescueCommits.get? h = some at_) :
    ∃ commit charge, Event.transaction (.rescueCommit commit) charge ∈ events ∧ commit.commitment = h := by
  induction run with
  | nil =>
    simp [absent] at found
  | @cons st mid _ event rest step _ ih =>
    cases here : mid.pqRescueCommits.get? h with
    | none =>
      obtain ⟨commit, charge, member, same⟩ := ih here found
      exact ⟨commit, charge, List.mem_cons_of_mem _ member, same⟩
    | some at' =>
      obtain ⟨old, -⟩ | ⟨commit, charge, rfl, same, -⟩ := step.commitChange.recorded here
      · simp [absent] at old
      · exact ⟨commit, charge, List.mem_cons_self, same⟩

theorem Step.used_absent (step : Step env st event post) (uses : st.uses env event = some h) :
    post.pqRescueCommits.get? h = none := by
  cases found : post.pqRescueCommits.get? h with
  | none => rfl
  | some at_ =>
    obtain ⟨-, unused⟩ | ⟨commit, charge, rfl, -⟩ := step.commitChange.recorded found
    · exact absurd uses unused
    · cases uses

theorem maturedCommitment_eq_ok (matured : st.maturedCommitment h = .ok ())
    (small : st.epoch < 2 ^ 59) : ∃ at_, st.pqRescueCommits.get? h = some at_ ∧
      at_ + RESCUE_COMMIT_MIN_DELAY_EPOCHS ≤ st.epoch ∧ st.epoch ≤ at_ + RESCUE_COMMIT_TTL_EPOCHS ∧
      at_ < st.finalityEngine.finalized.epoch := by
  simp only [maturedCommitment, ok_iff, not_lt, not_le] at matured
  obtain ⟨at_, found, unexpired, aged, final⟩ := matured
  unfold satAdd at unexpired aged
  have bound : 2 ^ 59 < u64Max := by decide
  exact ⟨at_, found, by omega, by omega, final⟩

/-- A withdrawal credential moves only in a rotation that a key opening it and the new, hash-based, key have
signed; in an emergency another kind of key needs a commitment of the run that is old enough, final and not
expired, which is used once. -/
theorem credentials_move_with_owner (initial : Initial env start) (run : Run (Step env) start events st)
    (step : Step env st event post) :
    (∀ v old, st.credentials.get? v = some old → post.credentials.get? v = some old ∨
      ∃ tx charge, event = .transaction (.withdrawalCredentialRotation tx) charge ∧ tx.validator = v ∧
        Authorised (env.gated st.epoch) st tx old ∧
        post.credentials.get? v = some (hashBytes (tx.newCredential env.crypto)) ∧
        ∀ record, st.validators.get? v = some record →
          (owns (nativeScript env.crypto record.pubkey) (toHash old) = false →
            tx.authorizingPubkey ≠ record.pubkey) ∧
          (start.LatticeKeys ∨ isHashBasedKey record.pubkey = false → tx.newPubkey ≠ record.pubkey)) ∧
    (∀ tx charge, event = .transaction (.withdrawalCredentialRotation tx) charge →
      env.gates.latticeEmergencyActive st.epoch = true → isHashBasedKey tx.authorizingPubkey = false →
      ∃ before commit paid after mid, events = before ++ .transaction (.rescueCommit commit) paid :: after ∧
        commit.commitment = tx.commitment env.crypto ∧ Run (Step env) start before mid ∧
        mid.epoch + RESCUE_COMMIT_MIN_DELAY_EPOCHS ≤ st.epoch ∧
        st.epoch ≤ mid.epoch + RESCUE_COMMIT_TTL_EPOCHS ∧ mid.epoch < st.finalityEngine.finalized.epoch) ∧
    ∀ h, st.uses env event = some h → ∀ later st' event' post', Run (Step env) post later st' →
      Step env st' event' post' → st'.uses env event' = some h →
      ∃ commit paid, Event.transaction (.rescueCommit commit) paid ∈ later ∧ commit.commitment = h := by
  have small : st.epoch < 2 ^ 59 := Reachable.epoch_lt ⟨start, events, initial, run⟩
  refine ⟨fun v old found => ?_, ?_, ?_⟩
  · cases step.credentialChange with
    | same kept => exact .inl (kept ▸ found)
    | @added v' first absent added =>
      refine .inl ?_
      rw [added, get?_insert_of_ne, found]
      rintro rfl
      simp [absent] at found
    | @rotated tx charge old' rotation found' authorised moved =>
      by_cases here : v = tx.validator
      · subst here
        cases found.symm.trans found'
        refine .inr ⟨tx, charge, rotation, rfl, authorised, ?_, fun record there => ⟨?_, ?_⟩⟩
        · rw [moved, get?_insert_self]
        · rintro closed same
          have opens := authorised.opens
          rw [same] at opens
          exact Bool.false_ne_true (closed.symm.trans opens)
        · rintro other same
          have lattice : isHashBasedKey record.pubkey = false :=
            other.elim (fun held => run.invariant (fun step => step.latticeKeys) held _ _ there) id
          have hashBased := authorised.hashBased
          rw [same, lattice] at hashBased
          cases hashBased
      · refine .inl ?_
        rw [moved, get?_insert_of_ne _ _ here, found]
  · rintro tx charge rfl emergency lattice
    have uses : st.uses env (.transaction (.withdrawalCredentialRotation tx) charge) =
        some (tx.commitment env.crypto) := if_pos ⟨emergency, lattice⟩
    obtain ⟨at_, found, aged, unexpired, final⟩ := maturedCommitment_eq_ok (step.commitChange.used uses) small
    obtain ⟨before, commit, paid, after, mid, split, same, earlier, rfl⟩ :=
      commitsMade_of_run initial run _ _ found
    exact ⟨before, commit, paid, after, mid, split, same, earlier, aged, unexpired, final⟩
  · intro h uses later st' event' post' rest step' uses'
    have small' : st'.epoch < 2 ^ 59 := Reachable.epoch_lt ⟨start, _, initial, run.append (.cons step rest)⟩
    obtain ⟨at_, found, -⟩ := maturedCommitment_eq_ok (step'.commitChange.used uses') small'
    exact recommitted_of_run rest (step.used_absent uses) found

/-- A network on which credentials may be rotated, of one validator whose credential another key opens. -/
def rotationRehearsal : Env := .accepting { Gates.shipped with pqMigration := 0 }

def ownedGenesis : Genesis :=
  { Genesis.small 1 with validators := [⟨0, [0], MIN_DEPOSIT_SAT, 0, hashBytes (toHash [1]), 0⟩] }

def rotationStart : CommittedState :=
  { genesisState rotationRehearsal ownedGenesis with admissionNetworkDomain := some 1 }

def firstRotation : WithdrawalCredentialRotation :=
  ⟨1, 0, 0, [1], SUITE_MAGIC ++ leBytes 2 SUITE_SLHDSA128S_FALCON1024 ++ List.replicate 1825 0, [], []⟩

/-- The owner of a credential moves it to a hash-based key. -/
theorem owner_moves_credential :
    ∃ charge post, Step rotationRehearsal rotationStart
        (.transaction (.withdrawalCredentialRotation firstRotation) charge) post ∧
      rotationStart.credentials.get? 0 = some (hashBytes 1) ∧ post.credentials.get? 0 = some (hashBytes 0) ∧
      Authorised (rotationRehearsal.gated 0) rotationStart firstRotation (hashBytes 1) := by
  have initial : Initial rotationRehearsal rotationStart := initial_network (by decide +kernel) 1
  let charge := firstRotation.charge rotationRehearsal.gates 0
  have played : (play rotationRehearsal rotationStart
      (.transaction (.withdrawalCredentialRotation firstRotation) charge)).map
        (fun st => st.credentials.get? 0) = some (some (hashBytes 0)) := by decide +kernel
  obtain ⟨post, played, after⟩ := map_eq_some_iff.mp played
  have before : rotationStart.credentials.get? 0 = some (hashBytes 1) := by decide +kernel
  have step := step_of_play played
  refine ⟨charge, post, step, before, after, ?_⟩
  obtain same | ⟨tx, _, rotation, -, authorised, -⟩ :=
    (credentials_move_with_owner initial (.nil _) step).1 0 _ before
  · rw [after] at same
    exact absurd same (by decide +kernel)
  · cases rotation
    exact authorised

end

end BlochPos.CommittedState
