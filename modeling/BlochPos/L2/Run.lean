import BlochPos.L2Settlement
import BlochPos.Lib.Run

/-! Runs of the execution layer's state, and what each accepted call leaves behind. -/
namespace BlochPos.L2

open Attempt

/-- What the chain asks of its execution layer. -/
inductive Call where
  | deposit (record : InboxRecord)
  | data (chainId l2Number : ℕ) (commitment : Bytes32)
  | claim (claim : State.Claim)
  | settle (tx : Transaction) (parent : Bytes32) (slot : ℕ) (asynchronous : Bool)
  | prepare (parent : Bytes32) (slot : ℕ)
  | advance
  | checkpoint (epoch : ℕ) (root : Bytes32) (finalizedEpoch : ℕ)

/-- A call that is not refused, with the state it leaves. -/
inductive Accepts (c : Crypto) (v : SignatureVerifier) : State → Call → State → Prop where
  | deposit {st post record} (applied : exec (State.appendDeposit c record) st = (.ok (), post)) :
      Accepts c v st (.deposit record) post
  | data {st post chainId l2Number commitment}
      (applied : exec (State.recordDataAvailability chainId l2Number commitment) st = (.ok (), post)) :
      Accepts c v st (.data chainId l2Number commitment) post
  | claim {st post claim} (applied : exec (State.releaseWithdrawal c claim) st = (.ok (), post)) :
      Accepts c v st (.claim claim) post
  | settle {st post tx parent slot asynchronous}
      (applied : exec (State.apply c v tx parent slot asynchronous) st = (.ok (), post)) :
      Accepts c v st (.settle tx parent slot asynchronous) post
  | prepare {st parent slot} : Accepts c v st (.prepare parent slot) (st.prepareSource parent slot)
  | advance {st post} (advanced : st.advanceHeight = .ok post) : Accepts c v st .advance post
  | checkpoint {st epoch root finalizedEpoch} :
      Accepts c v st (.checkpoint epoch root finalizedEpoch)
        (st.recordCheckpointRoot epoch root finalizedEpoch)

namespace State

variable {c : Crypto} {st : State}

/-- The ways an execution layer begins. -/
inductive Started (c : Crypto) : State → Prop where
  | genesis {development policy st} (started : genesis c development policy = .ok st) : Started c st
  | genesisAsync {development policy st}
      (started : genesisAsync c development policy = .ok st) : Started c st
  | activated {development a st} (started : ofActivation c development a = .ok st) : Started c st

def blank (c : Crypto) (policy : Policy) (profile : Profile) (asynchronous : Bool) : State where
  policy := policy
  nativeHeight := 0
  head := none
  asynchronous := asynchronous
  sourceAnchor := none
  inbox := []
  inboxRoot := emptyInboxRoot c
  consumed := 0
  escrowSat := 0
  da := []
  withdrawals := []
  claimed := .empty
  releasedSat := 0
  releaseWindow := ⟨0, 0, 0⟩
  profile := profile
  checkpointRoots := .empty

theorem genesis_eq_blank {policy : Policy}
    (started : genesis c development policy = .ok st) : st = blank c policy development false := by
  unfold genesis at started
  split_ifs at started
  cases started
  rfl

theorem Started.eq_blank (started : Started c st) :
    ∃ policy profile asynchronous, st = blank c policy profile asynchronous := by
  cases started with
  | @genesis development policy _ started => exact ⟨policy, development, false, genesis_eq_blank started⟩
  | @genesisAsync development policy _ started =>
    simp only [State.genesisAsync, ok_iff] at started
    obtain ⟨fresh, started, rfl⟩ := started
    rw [genesis_eq_blank started]
    exact ⟨policy, development, true, rfl⟩
  | @activated development a _ started =>
    simp only [ofActivation, ok_iff] at started
    obtain ⟨-, fresh, started, rfl⟩ := started
    rw [genesis_eq_blank started]
    exact ⟨a.policy, .ofLimits a.limits, a.asynchronous, rfl⟩

/-- What the checks of a claim have established. -/
structure Claimable (st : State) (claim : Claim) : Prop where
  height : st.nativeHeight + 1 ≤ u64Max
  unclaimed : st.claimed.contains claim.index = false
  covered : claim.sats ≤ st.escrowSat
  admitted : st.currentWindow.admits claim.sats (st.windowExempt claim.attested) = true

theorem checkClaim_eq_ok (checked : st.checkClaim c claim = .ok record) : st.Claimable claim := by
  simp only [checkClaim, ok_iff, not_lt, Bool.not_eq_true, Bool.not_eq_false] at checked
  obtain ⟨-, -, height, next, _, -, unclaimed, covered, admitted, -⟩ := checked
  obtain ⟨rfl, fits⟩ := checkedAdd_eq_some next
  exact ⟨fits, unclaimed, covered, admitted⟩

theorem prepareSource_eq (st : State) (parent : Bytes32) (slot : ℕ) :
    ∃ anchor, st.prepareSource parent slot = { st with sourceAnchor := anchor } ∧
      (anchor = st.sourceAnchor ∨ (st.sourceAnchor = none ∧
        anchor = some ⟨parent, slot, st.nativeHeight, st.inbox.length, st.inboxRoot⟩)) := by
  unfold prepareSource
  split_ifs with first
  · exact ⟨_, rfl, .inr ⟨first.2.1, rfl⟩⟩
  · exact ⟨st.sourceAnchor, rfl, .inl rfl⟩

end State

/-- What a call leaves behind, its checks taken apart. -/
inductive Change (c : Crypto) (v : SignatureVerifier) (st : State) : Call → State → Prop where
  | deposit {record} (room : st.inbox.length < u32Max) : Change c v st (.deposit record) { st with
        escrowSat := st.escrowSat + record.sats
        inboxRoot := c.sha3 (ascii "BLOCH:NATIVE:L2:INBOX:1" ++ hashBytes st.inboxRoot ++ record.encode)
        inbox := st.inbox ++ [record] }
  | data {chainId l2Number commitment} : Change c v st (.data chainId l2Number commitment)
        { st with da := st.da ++ [⟨l2Number, commitment, st.nativeHeight + 1⟩] }
  | claim {claim} (claimable : st.Claimable claim) (fits : st.releasedSat + claim.sats ≤ u128Max) :
      Change c v st (.claim claim) { st with
        claimed := (st.claimed.insert claim.index).2
        escrowSat := st.escrowSat - claim.sats
        releasedSat := st.releasedSat + claim.sats
        releaseWindow :=
          { st.currentWindow with released := satAdd u128Max st.currentWindow.released claim.sats } }
  | settle {tx parent slot asynchronous number stop record}
      (checked : st.checkSettlement c v tx parent slot asynchronous = .ok (number, stop, record)) :
      Change c v st (.settle tx parent slot asynchronous) { st with
        withdrawals := st.withdrawals ++ record.toList
        head := some (tx.commitment c, tx.statement)
        sourceAnchor := none
        consumed := stop
        da := st.da.filter (fun r => number < r.l2Number) }
  | prepare {parent slot anchor} (anchored : anchor = st.sourceAnchor ∨ (st.sourceAnchor = none ∧
        anchor = some ⟨parent, slot, st.nativeHeight, st.inbox.length, st.inboxRoot⟩)) :
      Change c v st (.prepare parent slot) { st with sourceAnchor := anchor }
  | advance :
      Change c v st .advance { st with
        nativeHeight := st.nativeHeight + 1
        da := st.da.filter (fun r => st.nativeHeight + 1 < satAdd u64Max r.height DA_RETENTION_BLOCKS)
        withdrawals := st.withdrawals.drop ((st.withdrawals.takeWhile (fun r =>
          satAdd u64Max r.height st.profile.limits.retentionBlocks ≤ st.nativeHeight + 1)).length - 1) }
  | checkpoint {epoch root finalizedEpoch} : Change c v st (.checkpoint epoch root finalizedEpoch)
        (st.recordCheckpointRoot epoch root finalizedEpoch)

section

variable (accepts : Accepts c v st call post)
include accepts

theorem Accepts.change : Change c v st call post := by
  cases accepts with
  | deposit applied =>
    simp only [State.appendDeposit, ok_iff, existsAndEq, not_or, not_le, and_true, true_and] at applied
    obtain ⟨⟨-, room⟩, escrow, added, rfl⟩ := applied
    obtain ⟨rfl, -⟩ := checkedAdd_eq_some added
    exact .deposit room
  | data applied =>
    simp only [State.recordDataAvailability, ok_iff, existsAndEq, and_true, true_and] at applied
    obtain ⟨-, -, -, -, -, height, next, rfl⟩ := applied
    obtain ⟨rfl, -⟩ := checkedAdd_eq_some next
    exact .data
  | claim applied =>
    simp only [State.releaseWithdrawal, ok_iff, existsAndEq, and_true, true_and] at applied
    obtain ⟨record, checked, released, added, rfl⟩ := applied
    obtain ⟨rfl, fits⟩ := checkedAdd_eq_some added
    exact .claim (State.checkClaim_eq_ok checked) fits
  | settle applied =>
    simp only [State.apply, ok_iff, existsAndEq, and_true, true_and] at applied
    obtain ⟨⟨number, stop, record⟩, checked, rfl⟩ := applied
    exact .settle checked
  | prepare =>
    obtain ⟨anchor, prepared, anchored⟩ := st.prepareSource_eq _ _
    rw [prepared]
    exact .prepare anchored
  | advance advanced =>
    simp only [State.advanceHeight, ok_iff] at advanced
    obtain ⟨height, next, rfl⟩ := advanced
    obtain ⟨rfl, -⟩ := checkedAdd_eq_some next
    exact .advance
  | checkpoint => exact .checkpoint

theorem Accepts.fixed :
    post.policy = st.policy ∧ post.profile = st.profile ∧ post.asynchronous = st.asynchronous := by
  cases accepts.change <;> exact ⟨rfl, rfl, rfl⟩

end

/-- What deposits and claims write to. -/
structure Books where
  inbox : List InboxRecord
  escrowSat : ℕ
  claimed : ClaimBitmap
  releasedSat : ℕ
  releaseWindow : ReleaseWindow

def State.books (st : State) : Books where
  inbox := st.inbox
  escrowSat := st.escrowSat
  claimed := st.claimed
  releasedSat := st.releasedSat
  releaseWindow := st.releaseWindow

def Call.moves : Call → Bool
  | .deposit _ | .claim _ => true
  | _ => false

theorem Accepts.books_eq
    (accepts : Accepts c v st call post) (still : call.moves = false) : post.books = st.books := by
  cases accepts.change with
  | deposit | claim => cases still
  | data | settle | prepare | advance | checkpoint => rfl

def Call.play (c : Crypto) (v : SignatureVerifier) (st : State) : Call → Option State
  | .deposit record =>
    let result := exec (State.appendDeposit c record) st
    if result.1 = .ok () then some result.2 else none
  | .data chainId l2Number commitment =>
    let result := exec (State.recordDataAvailability chainId l2Number commitment) st
    if result.1 = .ok () then some result.2 else none
  | .claim released =>
    let result := exec (State.releaseWithdrawal c released) st
    if result.1 = .ok () then some result.2 else none
  | .settle tx parent slot asynchronous =>
    let result := exec (State.apply c v tx parent slot asynchronous) st
    if result.1 = .ok () then some result.2 else none
  | .prepare parent slot => some (st.prepareSource parent slot)
  | .advance => st.advanceHeight.toOption
  | .checkpoint epoch root finalizedEpoch => some (st.recordCheckpointRoot epoch root finalizedEpoch)

def playAll (c : Crypto) (v : SignatureVerifier) (st : State) (calls : List Call) : Option State :=
  calls.foldlM (Call.play c v) st

theorem accepts_of_play (played : call.play c v st = some post) : Accepts c v st call post := by
  cases call with
  | deposit | data | claim | settle =>
    simp only [Call.play, Option.ite_none_right_eq_some, Option.some.injEq] at played
    obtain ⟨accepted, rfl⟩ := played
    first
    | exact .deposit (Prod.ext accepted rfl)
    | exact .data (Prod.ext accepted rfl)
    | exact .claim (Prod.ext accepted rfl)
    | exact .settle (Prod.ext accepted rfl)
  | prepare | checkpoint =>
    cases played
    constructor
  | advance => exact .advance (toOption_eq_some_iff.mp played)

theorem run_of_playAll (played : playAll c v st calls = some post) :
    Run (Accepts c v) st calls post := .of_foldlM_some accepts_of_play played

/-- The settlement a state expects next: it consumes what it must, brings no batch, and leaves the
withdrawal tree it is given. -/
def Transaction.expected (c : Crypto) (st : State) (withdrawalRoot : Bytes32) (withdrawalCount : ℕ) :
    Transaction :=
  let source := st.source c 0 0
  let stop := min source.inboxCount (st.consumed + MAX_INBOX_PER_SETTLEMENT)
  let previous := st.head.map (fun h => (h.1, fieldHash h.2 (S + 336), fieldHash h.2 (S + 368)))
  let (digest, parent, state) := previous.getD (0, st.policy.initialL2Parent, st.policy.initialL2State)
  { proofPolicy := st.policy.proofPolicy
    statement := STATEMENT_V3_TAG ++ (List.finRange 7).flatMap (fun i => hashBytes (st.policy.identities i)) ++
      hashBytes digest ++ beBytes 8 st.policy.chainId ++ beBytes 8 (st.settledNumber + 1) ++
      hashBytes parent ++ hashBytes state ++ hashBytes 1 ++ hashBytes 1 ++
      hashBytes source.block ++ beBytes 8 source.slot ++ beBytes 8 source.height ++
      hashBytes source.commitment ++ hashBytes source.inboxRoot ++ beBytes 8 source.inboxCount ++
      beBytes 8 st.consumed ++ beBytes 8 stop ++ hashBytes 1 ++
      hashBytes (depositsHash c ((st.inbox.drop st.consumed).take (stop - st.consumed))) ++
      hashBytes 1 ++ hashBytes 1 ++ beBytes 8 0 ++ hashBytes withdrawalRoot ++ beBytes 8 withdrawalCount ++
      hashBytes 0
    proof := [] }

def Policy.plain : Policy := ⟨fun _ => 1, 1, 1, 1, 1, 0⟩

def plainCrypto : Crypto := ⟨toHash, toHash, fun _ _ => 0⟩

def plainVerifier : SignatureVerifier :=
  ⟨fun _ _ _ => true, fun _ _ _ _ => true, fun _ _ _ _ => true, fun _ _ _ _ => true, fun _ _ _ _ => true⟩

def State.plain : State := .blank plainCrypto .plain (.ofLimits .development) true

theorem State.started_plain : State.Started plainCrypto State.plain := by
  have started : State.genesisAsync plainCrypto (.ofLimits .development) .plain = .ok .plain := rfl
  exact .genesisAsync started

def depositCalls : List Call := [.advance, .deposit ⟨2, 0, 0, 1, 2000000000, []⟩, .prepare 5 9]

def settlementCalls : List Call :=
  let anchored := (playAll plainCrypto plainVerifier .plain depositCalls).getD .plain
  .settle (.expected plainCrypto anchored 7 1) 0 0 true :: List.replicate 32 .advance

def firstClaim : State.Claim := ⟨1, 0, 3, 1000000, List.replicate 31 0 ++ [7], false⟩

end BlochPos.L2
