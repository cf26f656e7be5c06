import BlochPos.Transition.OneSlash

/-! Pre-admission of evidence: what a node checks before it relays a pair, and that the transition
decides no other way. -/
namespace BlochPos

open Attempt

/-- A refusal the bytes alone prove, or one that depends on the chain the node is on. -/
inductive EvidencePrecheckError where
  | contextFree (error : EvidenceError)
  | context (error : EvidenceError)
deriving DecidableEq

namespace SlashingEvidence

/-- The offender, the identity of the pair and the two messages signed. -/
def evidenceStructure (c : Crypto) :
    SlashingEvidence → Except EvidenceError (ℕ × Bytes32 × SignedMessage × SignedMessage)
  | .attestationOffence first second => do
    let pair := attestationOffence first second
    let _ ← pair.offense c
    pure (first.validator, pair.id c, pair.messages c)
  | .proposerEquivocation first second => do
    let pair := proposerEquivocation first second
    refuse (first.header.proposerIndex ≠ second.header.proposerIndex) .differentValidators
    refuse (first.header.slot ≠ second.header.slot ∨ first.header.id c = second.header.id c)
      .notConflicting
    pure (first.header.proposerIndex, pair.id c, pair.messages c)

def verifyOffenderSignature (env : Env) (keys : KeyLookup) (validator : ℕ) (m : SignedMessage) :
    Option Bool :=
  Kes.verifyValidator env.crypto env.gates keys (env.verifier.under (.consensus env.gates m.epoch))
    validator m.epoch m.root m.signature

theorem evidenceStructure_eq (c : Crypto) (e : SlashingEvidence) :
    e.evidenceStructure c = (do let _ ← e.offense c; pure (e.offender, e.id c, e.messages c)) := by
  cases e with
  | attestationOffence => rfl
  | proposerEquivocation first second =>
    simp only [evidenceStructure, offense, offender, refuse]
    split_ifs <;> rfl

end SlashingEvidence

structure EvidencePrecheck where
  offender : ℕ
  id : Bytes32
  signed : SlashingEvidence.SignedMessage × SlashingEvidence.SignedMessage
  keyBindingFinal : Bool

namespace CommittedState

open SlashingEvidence hiding id

def precheckSlashingEvidence (c : Crypto) (st : CommittedState) (e : SlashingEvidence) :
    Except EvidencePrecheckError EvidencePrecheck := do
  let (offender, pairId, signed) ← (e.evidenceStructure c).mapError .contextFree
  let record ← orRefuse (st.validators.get? offender) (.context .unknownValidator)
  refuse (pairId ∈ st.slashing.applied) (.context .alreadyApplied)
  refuse (record.slashed = true ∨ offender ∈ st.slashing.ejected) (.context .alreadySlashed)
  refuse (st.isWriteOffIndeterminate offender = true) (.context .alreadySlashed)
  pure ⟨offender, pairId, signed, record.activationEpoch = 0 ∧ st.kes.contains offender = false⟩

def verifyPrecheckSignatures (env : Env) (st : CommittedState) (pre : EvidencePrecheck) : Option Bool := do
  if ← verifyOffenderSignature env st.keys pre.offender pre.signed.1 then
    verifyOffenderSignature env st.keys pre.offender pre.signed.2
  else some false

section

variable {st : CommittedState}

theorem precheckSlashingEvidence_eq_ok_iff : st.precheckSlashingEvidence c e = .ok pre ↔
    (∃ offense, e.offense c = .ok offense) ∧ ∃ record, st.validators.get? e.offender = some record ∧
      e.id c ∉ st.slashing.applied ∧ (record.slashed = false ∧ e.offender ∉ st.slashing.ejected) ∧
      st.isWriteOffIndeterminate e.offender = false ∧
      ⟨e.offender, e.id c, e.messages c, record.activationEpoch = 0 ∧ st.kes.contains e.offender = false⟩ =
        pre := by
  simp only [precheckSlashingEvidence, evidenceStructure_eq, ok_iff, not_or, Bool.not_eq_true]
  constructor
  · rintro ⟨_, ⟨offense, found, rfl⟩, checks⟩
    exact ⟨⟨offense, found⟩, checks⟩
  · rintro ⟨⟨offense, found⟩, checks⟩
    exact ⟨_, ⟨offense, found, rfl⟩, checks⟩

theorem verifyPrecheckSignatures_eq_true_iff : st.verifyPrecheckSignatures env pre = some true ↔
    Signed env st.keys pre.offender pre.signed.1 ∧ Signed env st.keys pre.offender pre.signed.2 := by
  simp only [verifyPrecheckSignatures, Signed, verifyOffenderSignature]
  rcases Kes.verifyValidator env.crypto env.gates st.keys _ pre.offender pre.signed.1.epoch
    pre.signed.1.root pre.signed.1.signature with _ | _ | _ <;> simp

theorem planSlashingEvidence_ok_iff : (∃ p, planSlashingEvidence env st e includingProposer roster = .ok p) ↔
      (∃ offense, e.offense env.crypto = .ok offense) ∧ (∃ record, st.validators.get? e.offender = some record) ∧
        st.isWriteOffIndeterminate e.offender = false ∧ e.id env.crypto ∉ st.slashing.applied ∧
        e.offender ∉ st.slashing.ejected ∧ Signed env st.keys e.offender (e.messages env.crypto).1 ∧
        Signed env st.keys e.offender (e.messages env.crypto).2 := by
  simp only [planSlashingEvidence, judge, ok_iff, verifySigned_eq_ok_iff, Bool.not_eq_true]
  constructor
  · rintro ⟨_, record, found, determinate, _, ⟨offense, conflict, fresh, free, first, second, -⟩, -⟩
    exact ⟨⟨offense, conflict⟩, ⟨record, found⟩, determinate, fresh, free, first, second⟩
  · rintro ⟨⟨offense, conflict⟩, ⟨record, found⟩, determinate, fresh, free, first, second⟩
    exact ⟨_, record, found, determinate, offense, ⟨offense, conflict, fresh, free, first, second, rfl⟩, rfl⟩

theorem offense_of_contextFree
    (refused : st.precheckSlashingEvidence c e = .error (.contextFree error)) : e.offense c = .error error := by
  cases found : e.offense c with
  | error other =>
    simp only [precheckSlashingEvidence, evidenceStructure_eq, found] at refused
    cases refused
    rfl
  | ok offense =>
    simp only [precheckSlashingEvidence, evidenceStructure_eq, found] at refused
    refine absurd refused (bind_ne_error pure_ne_error fun _ =>
      bind_ne_error (orRefuse_ne_error (by simp)) fun record => ?_)
    refine bind_ne_error (refuse_ne_error (by simp)) fun _ => bind_ne_error (refuse_ne_error (by simp)) fun _ => ?_
    exact bind_ne_error (refuse_ne_error (by simp)) fun _ => pure_ne_error

end

/-- A pair is applied just when it passes and both signatures verify, under the identity reported, and one
refused by its bytes alone is refused in every state. -/
theorem precheck_agrees {env : Env} {st : CommittedState} (reached : Reachable env st) (v : SignatureVerifier)
    (e : SlashingEvidence) (includingProposer : ℕ) (roster : List Validator) :
    let judging := { env with verifier := v }
    ((∃ post, exec (applySlashingEvidence judging e includingProposer roster) st = (.ok (), post)) ↔
      ∃ pre, st.precheckSlashingEvidence env.crypto e = .ok pre ∧
        st.verifyPrecheckSignatures judging pre = some true) ∧
    (∀ pre post, st.precheckSlashingEvidence env.crypto e = .ok pre →
      exec (applySlashingEvidence judging e includingProposer roster) st = (.ok (), post) →
      post.slashing.applied = insert pre.id st.slashing.applied) ∧
    ∀ error, st.precheckSlashingEvidence env.crypto e = .error (.contextFree error) →
      ∀ other : CommittedState,
        exec (applySlashingEvidence judging e includingProposer roster) other = (.error (), other) := by
  intro judging
  refine ⟨?_, ?_, ?_⟩
  · simp only [applySlashingEvidence_eq_ok_iff, exists_comm (α := CommittedState), exists_and_left, exists_eq',
      and_true, planSlashingEvidence_ok_iff, precheckSlashingEvidence_eq_ok_iff,
      verifyPrecheckSignatures_eq_true_iff]
    constructor
    · rintro ⟨offense, ⟨record, found⟩, determinate, fresh, free, first, second⟩
      have unslashed : record.slashed = false := by
        by_contra slashed
        refine free ((reached.invariant Initial.ejectedMarked Step.ejectedMarked _).mpr ?_)
        rw [slashedMark, found, Option.map_some, Bool.eq_true_of_not_eq_false slashed]
      exact ⟨_, ⟨offense, record, found, fresh, ⟨unslashed, free⟩, determinate, rfl⟩, first, second⟩
    · rintro ⟨_, ⟨offense, record, found, fresh, ⟨-, free⟩, determinate, rfl⟩, first, second⟩
      exact ⟨offense, ⟨record, found⟩, determinate, fresh, free, first, second⟩
  · intro pre post passed applied
    obtain ⟨-, _, -, -, -, -, rfl⟩ := precheckSlashingEvidence_eq_ok_iff.mp passed
    obtain ⟨p, planned, rfl⟩ := applySlashingEvidence_eq_ok_iff.mp applied
    simp only [planSlashingEvidence, ok_iff] at planned
    obtain ⟨-, -, -, -, -, rfl⟩ := planned
    rfl
  · intro error refused other
    refine exec_transact_eq_error_iff.mpr ⟨?_, rfl⟩
    cases planned : planSlashingEvidence judging other e includingProposer roster with
    | error => rfl
    | ok p =>
      obtain ⟨⟨offense, found⟩, -⟩ := planSlashingEvidence_ok_iff.mp ⟨p, planned⟩
      cases (offense_of_contextFree refused).symm.trans found

/-- A double vote at the start passes, and is applied under the identity reported. -/
theorem double_vote_prechecked : let env := Env.accepting { Gates.shipped with slashingEvidence := 0 }
    let st := genesisState env (.small 3)
    ∃ pre post, st.precheckSlashingEvidence env.crypto (doubleVoteOf 0) = .ok pre ∧
      exec (applySlashingEvidence env (doubleVoteOf 0) 1 []) st = (.ok (), post) ∧
      pre.id ∈ post.slashing.applied := by
  intro env st
  have reached : Reachable env st := ⟨_, _, initial_genesisState (by decide +kernel), .nil _⟩
  obtain ⟨pre, passed, verified⟩ : ∃ pre, st.precheckSlashingEvidence env.crypto (doubleVoteOf 0) = .ok pre ∧
      st.verifyPrecheckSignatures env pre = some true := ⟨_, rfl, by decide +kernel⟩
  obtain ⟨agree, recorded, -⟩ := precheck_agrees reached env.verifier (doubleVoteOf 0) 1 []
  obtain ⟨post, applied⟩ := agree.mpr ⟨pre, passed, verified⟩
  exact ⟨pre, post, passed, applied, recorded pre post passed applied ▸ Finset.mem_insert_self _ _⟩

end CommittedState

end BlochPos
