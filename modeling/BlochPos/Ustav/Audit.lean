import BlochPos.Ustav.Modules

/-! The static audit of a charter. A finding of the gravest kind denies the
charter; the others travel with the compiled token. -/
namespace BlochPos.Ustav

open Attempt

def RULESET_VERSION : ℕ := 2

def MAX_TOKEN_NAME_BYTES : ℕ := 256
def MAX_CHARTER_MODULES : ℕ := 64
def MAX_CHARTER_BYTES : ℕ := 270336
def MAX_KEY_BYTES : ℕ := 8192
def MAX_KEY_BYTES_TOTAL : ℕ := 262144
def MAX_SIGNER_ENTRIES : ℕ := 1024
def MAX_GOVERNANCE_SIGNERS : ℕ := 253
def MAX_VALIDATOR_BYTES : ℕ := 65536
def MAX_VALIDATOR_GAS : ℕ := 2000000
def MAX_EMITTED_BYTES : ℕ := 262144
def MAX_EMITTED_GAS : ℕ := 8000000

inductive Severity where
  | deny | warn | info
deriving DecidableEq

def Severity.rank : Severity → ℕ
  | .deny => 0
  | .warn => 1
  | .info => 2

structure Finding where
  code : String
  severity : Severity
  module : Option Tag
  index : Option ℕ
  message : String
deriving DecidableEq

structure AuditReport where
  findings : List Finding
  denied : Bool
deriving DecidableEq

/-- The bytes of the keys seen so far, and the bound on the encoding so far. -/
structure KeyBytes where
  (totalKeys encoded : ℕ)

def KeyBytes.visit (seen : KeyBytes) (key : Bytes) : Except (String × String) KeyBytes := do
  let totalKeys := satAdd u64Max seen.totalKeys key.length
  let encoded := satAdd u64Max (satAdd u64Max seen.encoded 8) key.length
  refuse (MAX_KEY_BYTES < key.length ∨ MAX_KEY_BYTES_TOTAL < totalKeys)
    ("KRP-046", "charter exceeds the individual or total public-key byte budget")
  refuse (MAX_CHARTER_BYTES < encoded) ("KRP-047", "charter encoding exceeds its byte budget")
  pure ⟨totalKeys, encoded⟩

def ModuleKind.crowded : ModuleKind → Bool
  | .governance c => MAX_SIGNER_ENTRIES < c.signers.length
  | _ => false

def KeyBytes.visitModule (seen : KeyBytes) (m : ModuleKind) : Except (String × String) KeyBytes := do
  refuse (m.crowded = true) ("KRP-047", "governance input exceeds 1024 signer entries")
  (m.keys.map Prod.snd).foldlM KeyBytes.visit { seen with encoded := satAdd u64Max seen.encoded 32 }

section

variable (charter : TokenCharter)

def checkResources : Except (String × String) Unit := do
  refuse (MAX_TOKEN_NAME_BYTES < charter.tokenName.length) ("KRP-047", "token name exceeds 256 bytes")
  refuse (MAX_CHARTER_MODULES < charter.modules.length) ("KRP-047", "charter exceeds 64 modules")
  let _ ← charter.modules.foldlM KeyBytes.visitModule ⟨0, satAdd u64Max 16 charter.tokenName.length⟩
  pure ()

/-- The first limit a charter breaks, with its rule. -/
def resourceError : Option (String × String) :=
  match checkResources charter with
  | .error broken => some broken
  | .ok _ => none

def hexDigit (n : ℕ) : Char := "0123456789abcdef".toList.getD n '0'

def hexByte (b : UInt8) : String := String.ofList [hexDigit (b.toNat / 16), hexDigit (b.toNat % 16)]

def keyLabel (b : Bytes) : String :=
  "len=" ++ toString b.length ++ " 0x" ++ String.join ((b.take 8).map hexByte) ++
    (if 8 < b.length then ".." else "")

def ModuleKind.roleKeys : ModuleKind → List (String × Bytes)
  | .supply c => [("issuer", c.issuerPubkey)]
  | .transferPolicy c => [("authority", c.authorityPubkey)]
  | .complianceKycGate => []
  | .vesting c => [("beneficiary", c.beneficiaryPubkey)]
  | .governance c => c.signers.map (fun key => ("governance-signer", key))
  | .custody c => [("custody-btc", c.btcPubkey), ("custody-pq", c.pqPubkey)]

def krp001MultipleSupply : List Finding :=
  let idxs := (charter.modules.zipIdx.filter (fun p => p.1.tag = .supply)).map Prod.snd
  let count := idxs.length
  (idxs.drop 1).map (fun i => ⟨"KRP-001", .deny, some .supply, some i,
    s!"charter declares {count} Supply modules; a token has exactly one minting policy (its asset id) — Supply at index {i} is ambiguous"⟩)

def repeatedKeys (seen reported : List Bytes) : List Bytes → List Bytes
  | [] => []
  | key :: rest =>
    if key ∈ seen then
      if key ∈ reported then repeatedKeys seen reported rest
      else key :: repeatedKeys seen (key :: reported) rest
    else repeatedKeys (key :: seen) reported rest

def krp002DuplicateGovernanceSigner : List Finding :=
  charter.modules.zipIdx.flatMap (fun p => match p.1 with
    | .governance g => (repeatedKeys [] [] g.signers).map (fun key =>
      let label := keyLabel key
      ⟨"KRP-002", .deny, some .governance, some p.2,
        s!"Governance signer set contains a duplicate key ({label}); one signature reused across both slots counts twice, silently halving quorum"⟩)
    | _ => [])

def krp003CustodyBtcEqPq : List Finding :=
  charter.modules.zipIdx.flatMap (fun p => match p.1 with
    | .custody c =>
      let label := keyLabel c.btcPubkey
      if c.btcPubkey = c.pqPubkey then [⟨"KRP-003", .deny, some .custody, some p.2,
        s!"Custody btc_pubkey == pq_pubkey ({label}); the hybrid 2-of-2 collapses to a single key/algorithm, defeating post-quantum defence in depth"⟩]
      else []
    | _ => [])

def keyUses : SortedMap Bytes (SortedMap ℕ String) :=
  (charter.modules.zipIdx.flatMap (fun p => p.1.roleKeys.map (fun use => (use.2, p.2, use.1)))).foldl
    (fun uses use =>
      let places := uses.getD use.1 .empty
      uses.insert use.1 (if places.contains use.2.1 then places else places.insert use.2.1 use.2.2))
    .empty

def krp004KeyReuseAcrossRoles : List Finding :=
  (keyUses charter).entries.flatMap (fun use => match use.2.keys.getLast? with
    | some last =>
      let label := keyLabel use.1
      let count := use.2.size
      let places := ", ".intercalate (use.2.entries.map (fun place => place.2 ++ "#" ++ toString place.1))
      if 1 < use.2.size then [⟨"KRP-004", .warn, none, some last,
        s!"key {label} is reused across {count} roles [{places}]; distinct roles should use distinct keys (separation of duties)"⟩]
      else []
    | none => [])

def krp005DuplicateModuleKind : List Finding :=
  charter.modules.zipIdx.flatMap (fun p =>
    let tag := p.1.tag
    let kind := tag.name
    let i := p.2
    if tag = .supply then []
    else match charter.modules.findIdx? (fun m => m.tag = tag) with
      | some first => if first < i then [⟨"KRP-005", .warn, some tag, some i,
          s!"duplicate {kind} module (first at index {first}, again at index {i}); redundant/contradictory composition — a token needs at most one {kind} guard"⟩] else []
      | none => [])

def auditConflicts : List Finding :=
  krp001MultipleSupply charter ++ krp002DuplicateGovernanceSigner charter ++
    krp003CustodyBtcEqPq charter ++ krp004KeyReuseAcrossRoles charter ++
    krp005DuplicateModuleKind charter

def emptyKey (code : String) (m : ModuleKind) (i : ℕ) (key : Bytes) (message : String) : List Finding :=
  if key = [] then [⟨code, .deny, some m.tag, some i, message⟩] else []

def auditKeyPresence (m : ModuleKind) (i : ℕ) : List Finding :=
  match m with
  | .supply c => emptyKey "KRP-021" m i c.issuerPubkey
      s!"Supply module #{i} has an empty issuer_pubkey: mints can never be authorized (mint authority is unenforceable)"
  | .transferPolicy c => emptyKey "KRP-022" m i c.authorityPubkey
      s!"TransferPolicy module #{i} has an empty authority_pubkey: a freeze can never be lifted (frozen funds lock permanently)"
  | .vesting c => emptyKey "KRP-023" m i c.beneficiaryPubkey
      s!"Vesting module #{i} has an empty beneficiary_pubkey: matured funds can never be claimed (permanently unspendable)"
  | .custody c =>
    emptyKey "KRP-024" m i c.btcPubkey
      s!"Custody module #{i} has an empty btc_pubkey (ECDSA leg): the hybrid 2-of-2 can never be satisfied" ++
    emptyKey "KRP-024" m i c.pqPubkey
      s!"Custody module #{i} has an empty pq_pubkey (PQ leg): the hybrid 2-of-2 can never be satisfied"
  | .complianceKycGate | .governance _ => []

def auditTransferControl : List Finding :=
  if charter.modules.any (fun m => m.tag = .transferPolicy) then []
  else (charter.modules.zipIdx.filter (fun p => p.1.tag = .kycGate)).map (fun p =>
    let i := p.2
    ⟨"KRP-025", .warn, some .kycGate, some i,
      s!"ComplianceKycGate module #{i} present but the charter has no TransferPolicy: membership is checked yet transfers are unrestricted (incomplete compliance)"⟩)

def auditPresence : List Finding :=
  (if charter.modules = [] then [⟨"KRP-020", .deny, none, none,
    "charter declares no modules: the compiled token would guard nothing"⟩] else []) ++
  (if charter.tokenName = [] then [⟨"KRP-026", .warn, none, none,
    "token_name is empty: charter has no ticker / domain separation"⟩] else []) ++
  charter.modules.zipIdx.flatMap (fun p => auditKeyPresence p.1 p.2) ++ auditTransferControl charter

def ModuleKind.pubkeyFields : ModuleKind → List (String × Bytes)
  | .supply c => [("issuer_pubkey", c.issuerPubkey)]
  | .transferPolicy c => [("authority_pubkey", c.authorityPubkey)]
  | .complianceKycGate => []
  | .vesting c => [("beneficiary_pubkey", c.beneficiaryPubkey)]
  | .governance c => c.signers.map (fun key => ("governance signer pubkey", key))
  | .custody c => [("btc_pubkey", c.btcPubkey), ("pq_pubkey", c.pqPubkey)]

/-- Whether a key or the sum of the keys is over its budget. -/
def pubkeyBudgetDenied : Bool :=
  match ((charter.modules.flatMap ModuleKind.keys).map Prod.snd).foldlM
      (fun (total : ℕ) key =>
        let total := satAdd u64Max total key.length
        if MAX_KEY_BYTES < key.length ∨ MAX_KEY_BYTES_TOTAL < total then none else some total) 0 with
  | none => true
  | some _ => false

def auditPubkeyBytes : List Finding :=
  let fields := charter.modules.zipIdx.flatMap (fun p => p.1.pubkeyFields.map (fun field => (p, field)))
  let total := fields.foldl (fun total f => satAdd u128Max total f.2.2.length) 0
  fields.flatMap (fun f =>
    let label := f.2.1
    let size := f.2.2.length
    if MAX_KEY_BYTES < size then [⟨"KRP-046", .deny, some f.1.1.tag, some f.1.2,
      s!"{label} is {size} bytes (> {MAX_KEY_BYTES}): a charter-supplied pubkey this large is a structural foot-gun (unbounded allocation when Lane D compiles it into Op::PushBytes), not a real key"⟩]
    else []) ++
  if MAX_KEY_BYTES_TOTAL < total then [⟨"KRP-046", .deny, none, none,
    s!"sum of all pubkey-shaped fields in this charter is {total} bytes (> {MAX_KEY_BYTES_TOTAL}): compiling would already exceed Lane D's total emitted-bytes budget (KRP-062), so the charter is denied before any compile is attempted"⟩]
  else []

/-- A finding that denies a module for one of its parameters. -/
def denyIf (bad : Prop) [Decidable bad] (code : String) (m : ModuleKind) (i : ℕ) (message : String) :
    List Finding :=
  if bad then [⟨code, .deny, some m.tag, some i, message⟩] else []

def auditModuleParams (module : ModuleKind) (i : ℕ) : List Finding :=
  match module with
  | .governance c =>
    let m := c.signers.length
    let threshold := c.threshold
    let depth := m + 2
    let empties := (c.signers.zipIdx.filter (fun p => p.1 = [])).map Prod.snd
    let missing := empties.length
    denyIf (threshold = 0) "KRP-040" module i
      s!"Governance threshold is 0: a 0-of-{m} multisig authorises any spend with zero valid signatures — the module guards nothing" ++
    denyIf (m < threshold) "KRP-041" module i
      s!"Governance threshold {threshold} exceeds the signer count {m}: quorum is unsatisfiable, the guarded output is permanently unspendable" ++
    denyIf (MAX_GOVERNANCE_SIGNERS < m) "KRP-042" module i
      s!"Governance has {m} signers (> {MAX_GOVERNANCE_SIGNERS}): compile_governance encodes signer #1's stack depth as {depth} which does not fit in u8 (wraps mod 256 to Pick(0)==Dup), silently producing a corrupt validator" ++
    denyIf (empties ≠ []) "KRP-045" module i
      s!"Governance signer(s) at index(es) {empties} have an empty pubkey ({missing} of {m}): those slots can never verify a signature and cannot contribute to quorum"
  | .vesting c =>
    let unlock := c.unlockHeight
    denyIf (unlock ≤ 0) "KRP-043" module i
      s!"Vesting unlock_height {unlock} <= 0: the height gate is satisfied at every real block height, so the vesting lock never engages"
  | .supply c => denyIf (c.cap = 0) "KRP-044" module i
      "Supply cap is 0: no mint can authorise a positive amount (requested <= 0 only), so the token can never be issued"
  | .transferPolicy _ | .complianceKycGate | .custody _ => []

def auditParams : List Finding :=
  auditPubkeyBytes charter ++ charter.modules.zipIdx.flatMap (fun p => auditModuleParams p.1 p.2)

end

inductive AbsVal where
  | int (n : ℤ)
  | bytes (b : Bytes)
  | unknown
deriving DecidableEq

namespace AbsVal

def asKnownInt : AbsVal → Option ℤ
  | .int n => some n
  | _ => none

def arith (f : ℤ → ℤ → Option ℤ) (a b : AbsVal) : AbsVal :=
  match a.asKnownInt, b.asKnownInt with
  | some a, some b => ((f a b).map AbsVal.int).getD .unknown
  | _, _ => .unknown

def ofProp (p : Prop) [Decidable p] : AbsVal := .int (if p then 1 else 0)

def same : AbsVal → AbsVal → AbsVal
  | .int x, .int y => ofProp (x = y)
  | .bytes x, .bytes y => ofProp (x = y)
  | _, _ => .unknown

end AbsVal

/-- The value on top, unknown below what is tracked. -/
def absPop (st : List AbsVal) : AbsVal × List AbsVal := (st.headD .unknown, st.tail)

/-- One instruction on known and unknown values. An error is a verdict reached early. -/
def absStep (st : List AbsVal) : Op → Except (Option Bool) (List AbsVal)
  | .pushInt n => .ok (.int n :: st)
  | .pushBytes b => .ok (.bytes b :: st)
  | .dup => .ok (st.headD .unknown :: st)
  | .drop => .ok (absPop st).2
  | .swap =>
    let (a, st) := absPop st
    let (b, st) := absPop st
    .ok (b :: a :: st)
  | .expectDepth n => .ok (st ++ List.replicate (n - st.length) .unknown)
  | .pick n => .ok (st.getD n .unknown :: st)
  | .add =>
    let (b, st) := absPop st
    let (a, st) := absPop st
    .ok (.arith (fun a b => checkedI128 (a + b)) a b :: st)
  | .sub =>
    let (b, st) := absPop st
    let (a, st) := absPop st
    .ok (.arith (fun a b => checkedI128 (a - b)) a b :: st)
  | .mul =>
    let (b, st) := absPop st
    let (a, st) := absPop st
    .ok (.arith (fun a b => checkedI128 (a * b)) a b :: st)
  | .eq =>
    let (b, st) := absPop st
    let (a, st) := absPop st
    .ok (a.same b :: st)
  | .lt =>
    let (b, st) := absPop st
    let (a, st) := absPop st
    .ok (.arith (fun a b => some (if a < b then 1 else 0)) a b :: st)
  | .not =>
    let (a, st) := absPop st
    .ok (((a.asKnownInt.map (fun a => AbsVal.ofProp (a = 0))).getD .unknown) :: st)
  | .size =>
    let (a, st) := absPop st
    .ok ((match a with
      | .bytes b => .int b.length
      | _ => .unknown) :: st)
  | .verify =>
    let (a, st) := absPop st
    match a.asKnownInt with
    | some n => if n = 0 then .error (some false) else .ok st
    | none => .error none
  | .sha256d | .shake256 => .ok (.unknown :: (absPop st).2)
  | .ctxField _ | .txOutDatum _ | .txOutValidator _ | .txOutValue _ | .selfValidator =>
    .ok (.unknown :: st)
  | .selfAsset | .txOutAsset _ => .ok (.unknown :: (absPop st).2)
  | .verifySig | .verifyEcdsa => .ok (.unknown :: st.drop 3)

def constantTailVerdict (program : List Op) : Option Bool :=
  match program.foldlM absStep [] with
  | .error verdict => verdict
  | .ok st => (st.head?.bind AbsVal.asKnownInt).map (fun n => n ≠ 0)

def staticGas (program : List Op) : ℕ := program.foldl (fun g op => satAdd u64Max g (gasCost op)) 0

def auditDeterminism (a b : CompiledToken) : List Finding :=
  let first := a.validators.length
  let second := b.validators.length
  if a.charterId ≠ b.charterId then [⟨"KRP-060", .deny, none, none,
    "non-deterministic compile: charter_id is not reproducible across two identical compiles"⟩]
  else if first ≠ second then [⟨"KRP-060", .deny, none, none,
    s!"non-deterministic compile: emitted {first} validators on one compile, {second} on the next"⟩]
  else (a.validators.zip b.validators).zipIdx.flatMap (fun p =>
    let i := p.2
    let kind := p.1.1.kind.name
    if encodeProgram p.1.1.program ≠ encodeProgram p.1.2.program ∨
        p.1.1.validatorHash ≠ p.1.2.validatorHash then
      [⟨"KRP-060", .deny, some p.1.1.kind, some i,
        s!"non-deterministic compile: validator {i} ('{kind}') differs between two identical compiles"⟩]
    else [])

section

variable (h : Hashes) (charter : TokenCharter)

section

variable (compiled : CompiledToken)

def auditEmittedSet : List Finding :=
  let declared := charter.modules.length
  let emitted := compiled.validators.length
  (if emitted ≠ declared then [⟨"KRP-061", .deny, none, none,
    s!"emitted set incomplete: {declared} declared module(s) compiled to {emitted} validator(s)"⟩]
    else []) ++
  charter.modules.zipIdx.flatMap (fun p => match compiled.validators[p.2]? with
    | none => []
    | some v =>
      let kind := p.1.tag.name
      let other := v.kind.name
      denyIf (v.kind ≠ p.1.tag) "KRP-061" p.1 p.2
        s!"emitted set incomplete: declared module '{kind}' compiled as '{other}'" ++
      denyIf (v.program = []) "KRP-061" p.1 p.2
        s!"emitted set incomplete: module '{kind}' emitted an empty validator program (enforces nothing)")

def auditBudget : List Finding :=
  let totalBytes := compiled.validators.foldl
    (fun total v => satAdd u64Max total (encodeProgram v.program).length) 0
  let totalGas := compiled.validators.foldl (fun total v => satAdd u64Max total (staticGas v.program)) 0
  compiled.validators.zipIdx.flatMap (fun p =>
    let i := p.2
    let kind := p.1.kind.name
    let size := (encodeProgram p.1.program).length
    let gas := staticGas p.1.program
    (if MAX_VALIDATOR_BYTES < size then [⟨"KRP-062", .deny, some p.1.kind, some i,
      s!"size budget exceeded: validator {i} ('{kind}') encodes to {size} bytes > {MAX_VALIDATOR_BYTES} limit"⟩]
      else []) ++
    (if MAX_VALIDATOR_GAS < gas then [⟨"KRP-062", .deny, some p.1.kind, some i,
      s!"gas budget exceeded: validator {i} ('{kind}') costs {gas} static gas > {MAX_VALIDATOR_GAS} limit"⟩]
      else [])) ++
  (if MAX_EMITTED_BYTES < totalBytes then [⟨"KRP-062", .deny, none, none,
    s!"size budget exceeded: emitted set encodes to {totalBytes} bytes > {MAX_EMITTED_BYTES} total limit"⟩]
    else []) ++
  (if MAX_EMITTED_GAS < totalGas then [⟨"KRP-062", .deny, none, none,
    s!"gas budget exceeded: emitted set costs {totalGas} static gas > {MAX_EMITTED_GAS} total limit"⟩]
    else [])

def auditSupplyBlch : List Finding :=
  charter.modules.zipIdx.flatMap (fun p =>
    let i := p.2
    if p.1.tag = .supply ∧ (compiled.validators[i]?.map CompiledModule.validatorHash) = some BLCH then
      [⟨"KRP-063", .deny, some .supply, some i,
        s!"supply hash collision: module {i} emits the all-zero validator hash, which IS the base coin BLCH id — this token's asset/policy id would collide with BLCH"⟩]
    else [])

def auditNeuter : List Finding :=
  charter.modules.zipIdx.flatMap (fun p =>
    let i := p.2
    (match p.1 with
      | .governance cfg =>
        let m := cfg.signers.length
        denyIf (cfg.threshold = 0) "KRP-064" p.1 i
          s!"always-true guard: governance module {i} has threshold 0 (a 0-of-{m} multisig authorizes ANY spend, neutering the module)" ++
        denyIf (MAX_GOVERNANCE_SIGNERS < m) "KRP-064" p.1 i
          s!"neutered guard: governance module {i} declares {m} signers (> {MAX_GOVERNANCE_SIGNERS}); the compiler's u8 Pick-depth truncates for signer #1, silently dropping its signature check"
      | _ => []) ++
    match compiled.validators[i]? with
    | none => []
    | some v =>
      let kind := v.kind.name
      match constantTailVerdict v.program with
      | some true => [⟨"KRP-064", .deny, some v.kind, some i,
          s!"always-true guard: validator {i} ('{kind}') has a compile-time constant TRUE verdict — it authorizes every spend"⟩]
      | some false => [⟨"KRP-064", .warn, some v.kind, some i,
          s!"dead guard: validator {i} ('{kind}') has a compile-time constant FALSE verdict — it can never authorize a spend (output unspendable)"⟩]
      | none => [])

end

/-- The findings on the programs, and the programs, unless the keys are over their budget. -/
def auditEmitted : List Finding × Option CompiledToken :=
  if pubkeyBudgetDenied charter then ([], none)
  else
    let compiled := compileCharter h charter
    let recompiled := compileCharter h charter
    (auditDeterminism compiled recompiled ++ auditEmittedSet charter compiled ++ auditBudget compiled ++
      auditSupplyBlch charter compiled ++ auditNeuter charter compiled, some compiled)

/-- The canonical order: the gravest first, then by rule, place and text. -/
def Finding.le (a b : Finding) : Bool :=
  if a.severity ≠ b.severity then a.severity.rank < b.severity.rank
  else if a.code ≠ b.code then a.code < b.code
  else if a.index ≠ b.index then
    match a.index, b.index with
    | none, _ => true
    | some _, none => false
    | some i, some j => i < j
  else ¬ b.message < a.message

def auditAndCompile : AuditReport × Option CompiledToken :=
  match resourceError charter with
  | some (code, message) => (⟨[⟨code, .deny, none, none, message⟩], true⟩, none)
  | none =>
    let (emitted, compiled) := auditEmitted h charter
    let findings := (auditConflicts charter ++ auditPresence charter ++ auditParams charter ++
      emitted).mergeSort Finding.le
    (⟨findings, findings.any (fun f => f.severity = .deny)⟩, compiled)

def compileCharterWithReport : Except AuditReport (CompiledToken × AuditReport) :=
  match auditAndCompile h charter with
  | (report, some compiled) => if report.denied then .error report else .ok (compiled, report)
  | (report, none) => .error report

end

theorem compileCharterWithReport_compiled
    (audited : compileCharterWithReport h charter = .ok (compiled, report)) :
    compiled = compileCharter h charter := by
  have emitted : (auditAndCompile h charter).2 = some compiled := by
    unfold compileCharterWithReport at audited
    split at audited
    next report' compiled' done =>
      rw [done]
      split_ifs at audited
      cases audited
      rfl
    next => cases audited
  unfold auditAndCompile at emitted
  split at emitted
  next => cases emitted
  next =>
    simp only [auditEmitted] at emitted
    split_ifs at emitted
    exact (Option.some.inj emitted).symm

end BlochPos.Ustav
