import BlochPos.FeeMarket
import BlochPos.Lib.Attempt

/-! The settlement of the execution layer: an inbox of deposits, settlements that consume it, and
withdrawals against their roots. -/
namespace BlochPos.L2

open Attempt

def STATEMENT_TAG : Bytes := ascii "BLOCH:EVM:SETTLEMENT:2"
def STATEMENT_V3_TAG : Bytes := ascii "BLOCH:EVM:SETTLEMENT:3"
def STATEMENT_BYTES : ℕ := 590
def STATEMENT_V3_BYTES : ℕ := 766
def PROOF_BYTES : ℕ := 356
def MAX_INBOX_PER_SETTLEMENT : ℕ := 64
def MAINNET_CHAIN_ID : ℕ := 700770

/-- The length of the statement tags; offsets count from behind it. -/
def S : ℕ := 22

inductive StatementVersion where
  | v2 | v3
deriving DecidableEq

def StatementVersion.of (statement : Bytes) : Option StatementVersion :=
  if statement.length = STATEMENT_BYTES ∧ statement.take S = STATEMENT_TAG then some .v2
  else if statement.length = STATEMENT_V3_BYTES ∧ statement.take S = STATEMENT_V3_TAG then some .v3
  else none

def fieldHash (b : Bytes) (offset : ℕ) : Bytes32 := toHash ((b.drop offset).take 32)

def fieldNumber (b : Bytes) (offset : ℕ) : ℕ := ofBeBytes ((b.drop offset).take 8)

structure Transaction where
  proofPolicy : Bytes32
  (statement proof : Bytes)
deriving DecidableEq

namespace Transaction

def encodeTag (tx : Transaction) (tag : UInt8) : Bytes :=
  tag :: hashBytes tx.proofPolicy ++ tx.statement ++ tx.proof

def commitment (c : Crypto) (tx : Transaction) : Bytes32 :=
  c.sha3 (ascii "BLOCH:EXPERIMENTAL:NATIVE-SETTLEMENT-COMMITMENT:1" ++
    ascii "BLOCH:EXPERIMENTAL:NATIVE-SETTLEMENT-TX:1" ++ hashBytes tx.proofPolicy ++ tx.statement ++
    tx.proof)

end Transaction

def DA_MAX_PAYLOAD_BYTES : ℕ := 114688
def DA_MAX_INPUTS : ℕ := 16
def DA_MAX_PER_BLOCK : ℕ := 4
def DA_RETENTION_BLOCKS : ℕ := 1024
def DA_WINDOW : ℕ := 64
def DA_MAX_RECORDS : ℕ := DA_MAX_PER_BLOCK * (DA_RETENTION_BLOCKS + 1)

def skipBatches : ℕ → Bytes → Option Bytes
  | 0, b => some b
  | count + 1, b =>
    let len := ofBeBytes (b.take 4)
    if b.length < 4 ∨ len = 0 ∨ (b.drop 4).length < len then none
    else skipBatches count ((b.drop 4).drop len)

def batchCount (payload : Bytes) : Option ℕ :=
  if DA_MAX_PAYLOAD_BYTES < payload.length ∨ payload.length < 4 then none
  else
    let count := ofBeBytes (payload.take 4)
    match skipBatches count (payload.drop 4) with
    | some [] => if 0 < count then some count else none
    | _ => none

def daCommitment (c : Crypto) (chainId l2BlockNumber : ℕ) (payload : Bytes) : Bytes32 :=
  c.keccak (ascii "BLOCH:L2:DA:1" ++ beBytes 8 chainId ++ beBytes 8 l2BlockNumber ++ payload)

structure DaRecord where
  l2Number : ℕ
  commitment : Bytes32
  height : ℕ
deriving DecidableEq

inductive DaRefusal where
  | notActive | chain | number | duplicate | full
deriving DecidableEq

def TREE_DEPTH : ℕ := 32
def MAX_RETENTION_BLOCKS : ℕ := 20160
def MAX_ATTESTORS : ℕ := 7

structure Limits where
  (delayBlocks largeClaimSat largeDelayBlocks retentionBlocks releaseWindowBlocks : ℕ)
  (releaseWindowBps releaseFloorSat : ℕ)
deriving DecidableEq

namespace Limits

def development : Limits := ⟨32, 10000000000, 128, 1024, 32, 1000, 1000000000⟩

def mainnet : Limits := ⟨64, 100 * 100000000, 2880, 2880, 2880, 1000, 10 * 100000000⟩

def valid (l : Limits) : Bool :=
  1 ≤ l.delayBlocks ∧ l.delayBlocks ≤ l.largeDelayBlocks ∧ l.largeDelayBlocks ≤ l.retentionBlocks ∧
  l.retentionBlocks ≤ MAX_RETENTION_BLOCKS ∧ 0 < l.largeClaimSat ∧ 1 ≤ l.releaseWindowBlocks ∧
  1 ≤ l.releaseWindowBps ∧ l.releaseWindowBps ≤ 10000 ∧ 0 < l.releaseFloorSat

def delayFor (l : Limits) (sats : ℕ) : ℕ :=
  if l.largeClaimSat ≤ sats then l.largeDelayBlocks else l.delayBlocks

def maxRecords (l : Limits) : ℕ := l.retentionBlocks + 2

end Limits

def withdrawalLeaf (c : Crypto) (chainId nonce : ℕ) (l1Recipient : Bytes32) (sats : ℕ) : Bytes32 :=
  c.keccak (ascii "BLOCH:L2:WITHDRAW:1" ++ beBytes 8 chainId ++ beBytes 8 nonce ++
    hashBytes l1Recipient ++ beBytes 8 sats)

def withdrawalNode (c : Crypto) (left right : Bytes32) : Bytes32 :=
  c.keccak (hashBytes left ++ hashBytes right)

def zeroHash (c : Crypto) : ℕ → Bytes32
  | 0 => 0
  | h + 1 => withdrawalNode c (zeroHash c h) (zeroHash c h)

def emptyRoot (c : Crypto) : Bytes32 := zeroHash c TREE_DEPTH

def climbProof (c : Crypto) : ℕ → Bytes32 → List Bytes32 → Bytes32
  | _, acc, [] => acc
  | index, acc, sibling :: rest =>
    climbProof c (index / 2)
      (if index % 2 = 1 then withdrawalNode c sibling acc else withdrawalNode c acc sibling) rest

def rootFromProof (c : Crypto) (leaf : Bytes32) (index : ℕ) (siblings : List Bytes32) : Option Bytes32 :=
  if 2 ^ TREE_DEPTH ≤ index then none else some (climbProof c index leaf siblings)

/-- The withdrawal tree a statement leaves: only the third version has one. -/
def treeAfter (c : Crypto) (statement : Option Bytes) : Bytes32 × ℕ :=
  match statement with
  | some s =>
    if StatementVersion.of s = some .v3 then (fieldHash s (S + 672), fieldNumber s (S + 704))
    else (emptyRoot c, 0)
  | none => (emptyRoot c, 0)

structure WithdrawalRecord where
  l2Number : ℕ
  root : Bytes32
  (count height : ℕ)
deriving DecidableEq

def recordFinalized (recordHeight tipHeight tipSlot finalizedEpoch : ℕ) : Bool :=
  recordHeight ≤ tipHeight ∧
    tipSlot - (tipHeight - recordHeight) < satMul u64Max finalizedEpoch SLOTS_PER_EPOCH

def attestorSetHash (c : Crypto) (threshold : ℕ) (keys : List Bytes) : Bytes32 :=
  c.sha3 (ascii "BLOCH:L2:ATTESTOR-SET:1" ++ leBytes 1 threshold ++ leBytes 1 keys.length ++ keys.flatten)

def attestationDigest (c : Crypto) (networkDomain : Bytes32) (chainId : ℕ) (root : Bytes32) : Bytes32 :=
  c.sha3 (ascii "BLOCH:L2:WITHDRAW-ATTEST:1" ++ hashBytes networkDomain ++ beBytes 8 chainId ++
    hashBytes root)

/-- What a window of heights has released, and its cap. -/
structure ReleaseWindow where
  (window released cap : ℕ)
deriving DecidableEq

namespace ReleaseWindow

def atHeight (w : ReleaseWindow) (limits : Limits) (height escrowSat : ℕ) : ReleaseWindow :=
  let window := height / limits.releaseWindowBlocks
  if window = w.window ∧ w.released ≠ 0 then w
  else ⟨window, 0, max (satMul u128Max escrowSat limits.releaseWindowBps / 10000) limits.releaseFloorSat⟩

def admits (w : ReleaseWindow) (sats : ℕ) (exempt : Bool) : Bool :=
  satAdd u128Max w.released sats ≤ w.cap ∨ (exempt = true ∧ w.released = 0)

end ReleaseWindow

inductive ClaimRefusal where
  | notActive | chain | proof | notMatured | index | claimed | escrow | rateLimited
deriving DecidableEq

def maturedProof (c : Crypto) (limits : Limits) (records : List WithdrawalRecord)
    (atHeight chainId index : ℕ) (l1Recipient : Bytes32) (sats : ℕ) (siblings : List Bytes32) :
    Except ClaimRefusal WithdrawalRecord := do
  let root ← orRefuse (rootFromProof c (withdrawalLeaf c chainId index l1Recipient sats) index siblings)
    .proof
  let record ← orRefuse (records.reverse.find? (fun r => r.root = root)) .proof
  refuse (atHeight < satAdd u64Max record.height (limits.delayFor sats)) .notMatured
  refuse (record.count ≤ index) .index
  pure record

/-- Claimed indices: every word below the floor is full, later ones are kept as
256-bit words. -/
structure ClaimBitmap where
  floor : ℕ
  words : SortedMap ℕ ℕ
  claims : ℕ
deriving DecidableEq

namespace ClaimBitmap

def empty : ClaimBitmap := ⟨0, .empty, 0⟩

def contains (b : ClaimBitmap) (index : ℕ) : Bool :=
  index / 256 < b.floor ∨ (b.words.getD (index / 256) 0).testBit (index % 256) = true

/-- Move the floor past the full words. -/
def raise (b : ClaimBitmap) : ℕ → ClaimBitmap
  | 0 => b
  | fuel + 1 =>
    if b.words.get? b.floor = some (2 ^ 256 - 1) then
      raise { b with
        floor := b.floor + 1
        words := b.words.erase b.floor } fuel
    else b

def insert (b : ClaimBitmap) (index : ℕ) : Bool × ClaimBitmap :=
  if b.contains index then (false, b)
  else
    let word := index / 256
    let words := b.words.insert word (b.words.getD word 0 ||| 2 ^ (index % 256))
    (true, raise { b with words, claims := b.claims + 1 } (words.entries.length + 1))

end ClaimBitmap

structure InboxRecord where
  (height txIndex : ℕ)
  txid : Bytes32
  (vout sats : ℕ)
  recipient : Bytes
deriving DecidableEq

namespace InboxRecord

def encode (r : InboxRecord) : Bytes :=
  leBytes 8 r.height ++ leBytes 4 r.txIndex ++ hashBytes r.txid ++ leBytes 4 r.vout ++
    leBytes 8 r.sats ++ r.recipient

end InboxRecord

def emptyInboxRoot (c : Crypto) : Bytes32 := c.sha3 (ascii "BLOCH:NATIVE:L2:EMPTY-INBOX:1")

def shortBytes (n : ℕ) : Bytes := (beBytes 8 n).dropWhile (fun b => b = 0)

def rlpLength (offset : UInt8) (len : ℕ) : Bytes :=
  if len < 56 then [offset + UInt8.ofNat len]
  else (offset + 55 + UInt8.ofNat (shortBytes len).length) :: shortBytes len

def rlpBytes (b : Bytes) : Bytes :=
  match b with
  | [x] => if x < 0x80 then [x] else rlpLength 0x80 1 ++ [x]
  | b => rlpLength 0x80 b.length ++ b

def rlpUint (n : ℕ) : Bytes := rlpBytes (shortBytes n)

def rlpList (payload : Bytes) : Bytes := rlpLength 0xc0 payload.length ++ payload

def expectedBodyCommitment (c : Crypto) (records : List InboxRecord) : Bytes32 :=
  let deposits := records.flatMap (fun r =>
    rlpList (rlpBytes r.recipient ++ rlpUint r.height ++ rlpUint r.txIndex ++
      rlpBytes (hashBytes r.txid) ++ rlpUint r.vout ++ rlpUint r.sats))
  c.keccak (rlpList (rlpBytes (ascii "BLOCH:EVM:BODY:2") ++ rlpList deposits ++ rlpList []))

def depositsHash (c : Crypto) (records : List InboxRecord) : Bytes32 :=
  c.keccak (records.flatMap (fun r => r.recipient ++ beBytes 8 r.height ++ beBytes 4 r.txIndex ++
    hashBytes r.txid ++ beBytes 4 r.vout ++ beBytes 8 r.sats))

structure Profile where
  (deposits userTransactions : Bool)
  finalizedClaimsFromHeight : ℕ
  limits : Limits
  activated : Bool
deriving DecidableEq

def Profile.ofLimits (limits : Limits) : Profile := ⟨true, true, 0, limits, true⟩

structure Policy where
  identities : Fin 7 → Bytes32
  proofPolicy : Bytes32
  chainId : ℕ
  (initialL2Parent initialL2State attestorSet : Bytes32)
deriving DecidableEq

def Policy.valid (p : Policy) : Bool :=
  p.chainId ≠ 0 ∧ (∀ i, p.identities i ≠ 0) ∧ p.proofPolicy ≠ 0 ∧ p.initialL2Parent ≠ 0 ∧ p.initialL2State ≠ 0

structure Activation where
  policy : Policy
  asynchronous : Bool
  limits : Limits
deriving DecidableEq

def Activation.valid (a : Activation) : Bool :=
  a.policy.valid = true ∧ a.limits.valid = true ∧
    (a.policy.chainId = MAINNET_CHAIN_ID →
      a.asynchronous = true ∧ a.policy.attestorSet ≠ 0 ∧ a.limits = Limits.mainnet)

/-- What a settlement has seen of the chain. -/
structure Source where
  block : Bytes32
  (slot height : ℕ)
  (commitment inboxRoot : Bytes32)
  inboxCount : ℕ
deriving DecidableEq

/-- The parent block a settlement is proved against, frozen until it lands. -/
structure SourceAnchor where
  block : Bytes32
  (slot height inboxCount : ℕ)
  inboxRoot : Bytes32
deriving DecidableEq

/-- The execution layer as the chain keeps it. -/
structure State where
  policy : Policy
  nativeHeight : ℕ
  head : Option (Bytes32 × Bytes)
  asynchronous : Bool
  sourceAnchor : Option SourceAnchor
  inbox : List InboxRecord
  inboxRoot : Bytes32
  (consumed escrowSat : ℕ)
  da : List DaRecord
  withdrawals : List WithdrawalRecord
  claimed : ClaimBitmap
  releasedSat : ℕ
  releaseWindow : ReleaseWindow
  profile : Profile
  checkpointRoots : SortedMap ℕ Bytes32
deriving DecidableEq

inductive Reject where
  | policy | source | successor | proof | height | notActive | limit | deposits | reserved
  | withdrawals | userTransactions | dataUnavailable
deriving DecidableEq

def checkSuccessor (c : Crypto) (head : Option Bytes) (statement : Bytes) :
    Except Reject (Option (Bytes32 × ℕ)) := do
  refuse (StatementVersion.of statement ≠ some .v3) .policy
  let after := treeAfter c (some statement)
  let before := treeAfter c head
  refuse (after.2 < before.2 ∨ ¬ (after.2 = before.2 ↔ after.1 = before.1)) .withdrawals
  pure (if before.2 < after.2 then some after else none)

namespace State

variable (c : Crypto) (development : Profile)

def genesis (policy : Policy) : Except Reject State :=
  if policy.valid = false then .error .policy
  else .ok
    { policy
      nativeHeight := 0
      head := none
      asynchronous := false
      sourceAnchor := none
      inbox := []
      inboxRoot := emptyInboxRoot c
      consumed := 0
      escrowSat := 0
      da := []
      withdrawals := []
      claimed := .empty
      releasedSat := 0
      releaseWindow := ⟨0, 0, 0⟩
      profile := development
      checkpointRoots := .empty }

def genesisAsync (policy : Policy) : Except Reject State := do
  let st ← genesis c development policy
  pure { st with asynchronous := true }

def ofActivation (a : Activation) : Except Reject State := do
  refuse (a.valid = false) .policy
  let st ← genesis c development a.policy
  pure { st with
    asynchronous := a.asynchronous
    profile := .ofLimits a.limits }

def depositsEnabled (st : State) : Bool := st.profile.deposits && st.asynchronous

def prepareSource (st : State) (parent : Bytes32) (parentSlot : ℕ) : State :=
  if st.asynchronous = true ∧ st.sourceAnchor = none ∧ 0 < st.nativeHeight then
    { st with
      sourceAnchor := some ⟨parent, parentSlot, st.nativeHeight, st.inbox.length, st.inboxRoot⟩ }
  else st

def depositsAtHeight (st : State) (height : ℕ) : ℕ :=
  (st.inbox.reverse.takeWhile (fun r => r.height = height)).length

def appendDeposit (record : InboxRecord) : Attempt State Reject Unit := do
  let st ← get
  check (refuse (st.asynchronous = false ∨ u32Max ≤ st.inbox.length) .notActive)
  let escrowSat ← check (orRefuse (checkedAdd u128Max st.escrowSat record.sats) .limit)
  modify (fun st => { st with
    escrowSat
    inboxRoot := c.sha3 (ascii "BLOCH:NATIVE:L2:INBOX:1" ++ hashBytes st.inboxRoot ++ record.encode)
    inbox := st.inbox ++ [record] })
  pure ()

def attestationRequired (st : State) (sats : ℕ) : Bool :=
  st.policy.attestorSet ≠ 0 ∧ st.profile.limits.largeClaimSat ≤ sats

def currentWindow (st : State) : ReleaseWindow :=
  st.releaseWindow.atHeight st.profile.limits (satAdd u64Max st.nativeHeight 1) st.escrowSat

def recordCheckpointRoot (st : State) (epoch : ℕ) (root : Bytes32) (finalizedEpoch : ℕ) : State :=
  { st with
    checkpointRoots := (st.checkpointRoots.insert epoch root).filter
      (fun e _ => e = finalizedEpoch ∨ epoch ≤ satAdd u64Max e 2) }

def windowExempt (st : State) (attested : Bool) : Bool := attested = true ∨ st.policy.attestorSet = 0

/-- A claim on the withdrawal tree, as a claim transaction carries it. -/
structure Claim where
  (chainId index : ℕ)
  l1Recipient : Bytes32
  sats : ℕ
  siblings : List Bytes32
  attested : Bool

def checkClaim (st : State) (claim : Claim) : Except ClaimRefusal WithdrawalRecord := do
  refuse (st.profile.userTransactions = false ∨ st.asynchronous = false) .notActive
  refuse (claim.chainId ≠ st.policy.chainId) .chain
  let height ← orRefuse (checkedAdd u64Max st.nativeHeight 1) .notActive
  let record ← maturedProof c st.profile.limits st.withdrawals height claim.chainId claim.index
    claim.l1Recipient claim.sats claim.siblings
  refuse (st.claimed.contains claim.index = true) .claimed
  refuse (st.escrowSat < claim.sats) .escrow
  refuse (st.currentWindow.admits claim.sats (st.windowExempt claim.attested) = false) .rateLimited
  pure record

def releaseWithdrawal (claim : Claim) : Attempt State ClaimRefusal Unit := do
  let st ← get
  let _ ← check (st.checkClaim c claim)
  let releasedSat ← check (orRefuse (checkedAdd u128Max st.releasedSat claim.sats) .escrow)
  modify (fun st => { st with
    claimed := (st.claimed.insert claim.index).2
    escrowSat := st.escrowSat - claim.sats
    releasedSat
    releaseWindow :=
      { st.currentWindow with released := satAdd u128Max st.currentWindow.released claim.sats } })
  pure ()

def settledNumber (st : State) : ℕ := (st.head.map (fun h => fieldNumber h.2 (S + 264))).getD 0

def recordDataAvailability (chainId l2Number : ℕ) (commitment : Bytes32) : Attempt State DaRefusal Unit := do
  let st ← get
  check (refuse (st.profile.userTransactions = false) .notActive)
  check (refuse (chainId ≠ st.policy.chainId) .chain)
  check (refuse (l2Number ≤ st.settledNumber ∨ satAdd u64Max st.settledNumber DA_WINDOW < l2Number)
    .number)
  check (refuse (∃ r ∈ st.da, r.l2Number = l2Number ∧ r.commitment = commitment) .duplicate)
  check (refuse (DA_MAX_RECORDS ≤ st.da.length) .full)
  let height ← check (orRefuse (checkedAdd u64Max st.nativeHeight 1) .full)
  modify (fun st => { st with da := st.da ++ [⟨l2Number, commitment, height⟩] })
  pure ()

def sourceAt (st : State) (a : SourceAnchor) : Source :=
  let previous := (st.head.map (fun h => fieldHash h.2 (S + 448))).getD 0
  { block := a.block
    slot := a.slot
    height := a.height
    commitment := c.sha3 (ascii "BLOCH:NATIVE:L2:EMPTY-SOURCE:1" ++
      hashBytes (st.policy.identities 0) ++ hashBytes (st.policy.identities 1) ++
      hashBytes (st.policy.identities 2) ++ hashBytes previous ++ hashBytes a.block ++
      leBytes 8 a.slot ++ leBytes 8 a.height ++ hashBytes a.inboxRoot)
    inboxRoot := a.inboxRoot
    inboxCount := a.inboxCount }

def source (st : State) (block : Bytes32) (slot : ℕ) : Source :=
  st.sourceAt c (st.sourceAnchor.getD
    ⟨block, slot, st.nativeHeight, st.inbox.length, st.inboxRoot⟩)

/-- The next native height drops what is too old; the newest of the old
withdrawal roots stays. -/
def advanceHeight (st : State) : Except Reject State := do
  let height ← orRefuse (checkedAdd u64Max st.nativeHeight 1) .height
  let old := (st.withdrawals.takeWhile
    (fun r => satAdd u64Max r.height st.profile.limits.retentionBlocks ≤ height)).length
  pure { st with
    nativeHeight := height
    da := st.da.filter (fun r => height < satAdd u64Max r.height DA_RETENTION_BLOCKS)
    withdrawals := st.withdrawals.drop (old - 1) }

/-- What the next settlement must extend: digest, number, parent and state. -/
def expectedSuccessor (st : State) : Except Reject (Bytes32 × ℕ × Bytes32 × Bytes32) :=
  match st.head with
  | none => .ok (0, 1, st.policy.initialL2Parent, st.policy.initialL2State)
  | some (digest, old) => do
    let number ← orRefuse (checkedAdd u64Max (fieldNumber old (S + 264)) 1) .successor
    pure (digest, number, fieldHash old (S + 336), fieldHash old (S + 368))

def checkVersion (st : State) (s : Bytes) (version : StatementVersion) (consumed : List InboxRecord)
    (number : ℕ) : Except Reject (Option WithdrawalRecord) :=
  match version with
  | .v2 => do
    refuse (st.profile.deposits = true ∧ fieldHash s (S + 536) ≠ expectedBodyCommitment c consumed)
      .deposits
    pure none
  | .v3 => do
    let users := fieldNumber s (S + 664)
    refuse (users ≠ 0 ∧ st.profile.userTransactions = false) .userTransactions
    refuse (fieldHash s (S + 568) ≠ depositsHash c consumed) .deposits
    let daCommitment := fieldHash s (S + 712)
    refuse (fieldHash s (S + 600) = 0 ∨ fieldHash s (S + 632) = 0 ∨ (users = 0 ∧ daCommitment ≠ 0))
      .reserved
    let after ← checkSuccessor c (st.head.map Prod.snd) s
    let record ← match after with
      | none => pure none
      | some (root, count) => do
        let height ← orRefuse (checkedAdd u64Max st.nativeHeight 1) .height
        pure (some (⟨number, root, count, height⟩ : WithdrawalRecord))
    refuse (users ≠ 0 ∧ ¬ ∃ r ∈ st.da, r.l2Number = number ∧ r.commitment = daCommitment ∧
      r.height ≤ st.nativeHeight) .dataUnavailable
    pure record

/-- The checks of a settlement; they answer with its number, the inbox
position it consumes up to, and a new withdrawal root if it has one. -/
def checkSettlement (v : SignatureVerifier) (st : State) (tx : Transaction)
    (parent : Bytes32) (slot : ℕ) (asynchronous : Bool) :
    Except Reject (ℕ × ℕ × Option WithdrawalRecord) := do
  refuse (asynchronous ≠ st.asynchronous ∨ (asynchronous = true ∧ st.sourceAnchor = none)) .notActive
  let s := tx.statement
  let version ← orRefuse (StatementVersion.of s) .policy
  refuse (tx.proofPolicy ≠ st.policy.proofPolicy ∨
    (∃ i : Fin 7, fieldHash s (S + i * 32) ≠ st.policy.identities i) ∨
    fieldNumber s (S + 256) ≠ st.policy.chainId) .policy
  let source := st.source c parent slot
  refuse (source.height = 0 ∨ source.slot < source.height ∨ fieldHash s (S + 400) ≠ source.block ∨
    fieldNumber s (S + 432) ≠ source.slot ∨ fieldNumber s (S + 440) ≠ source.height ∨
    fieldHash s (S + 448) ≠ source.commitment ∨ fieldHash s (S + 480) ≠ source.inboxRoot) .source
  let stop := min source.inboxCount (satAdd u64Max st.consumed MAX_INBOX_PER_SETTLEMENT)
  refuse (fieldNumber s (S + 512) ≠ source.inboxCount ∨ fieldNumber s (S + 520) ≠ st.consumed ∨
    fieldNumber s (S + 528) ≠ stop) .source
  let (previous, number, parent, root) ← st.expectedSuccessor
  refuse (fieldHash s (S + 224) ≠ previous ∨ fieldNumber s (S + 264) ≠ number ∨
    fieldHash s (S + 272) ≠ parent ∨ fieldHash s (S + 304) ≠ root ∨ fieldHash s (S + 336) = 0 ∨
    fieldHash s (S + 368) = 0 ∨ fieldHash s (S + 536) = 0) .successor
  let consumed := (st.inbox.drop st.consumed).take (stop - st.consumed)
  let record ← st.checkVersion c s version consumed number
  refuse (v.verifyL2Settlement st.policy.proofPolicy (st.policy.identities 6) s tx.proof = false)
    .proof
  refuse (record ≠ none ∧ st.profile.limits.maxRecords ≤ st.withdrawals.length) .limit
  pure (number, stop, record)

def apply (v : SignatureVerifier) (tx : Transaction) (parent : Bytes32) (slot : ℕ)
    (asynchronous : Bool) : Attempt State Reject Unit := do
  let st ← get
  let (number, stop, record) ← check (st.checkSettlement c v tx parent slot asynchronous)
  modify (fun st => { st with
    withdrawals := st.withdrawals ++ record.toList
    head := some (tx.commitment c, tx.statement)
    sourceAnchor := none
    consumed := stop
    da := st.da.filter (fun r => number < r.l2Number) })
  pure ()

end State

end BlochPos.L2
