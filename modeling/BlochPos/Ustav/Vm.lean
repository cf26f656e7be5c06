import BlochPos.Crypto
import BlochPos.Lib.Attempt
import BlochPos.Lib.SortedMap

/-! The validator machine: a metered stack machine over bounded integers and
byte strings. Stacks are lists with their top first. -/
namespace BlochPos.Ustav

open Attempt

/-- The hash functions of the machine. The second is read to 32 bytes. -/
structure Hashes where
  (sha256 shake256 : Bytes → Bytes32)

def Hashes.sha256d (h : Hashes) (b : Bytes) : Bytes32 := h.sha256 (hashBytes (h.sha256 b))

/-- Bytes in their order, which orders byte strings as arrays compare. -/
instance linearOrder_byte : LinearOrder UInt8 where
  le_refl a := Nat.le_refl a.toNat
  le_trans a b c := Nat.le_trans (n := a.toNat) (m := b.toNat) (k := c.toNat)
  lt_iff_le_not_ge a b := Nat.lt_iff_le_and_not_ge (m := a.toNat) (n := b.toNat)
  le_antisymm a b le ge := UInt8.toNat_inj.mp (Nat.le_antisymm le ge)
  le_total a b := Nat.le_total a.toNat b.toNat
  toDecidableLE := inferInstance
  toDecidableLT := inferInstance
  toDecidableEq := inferInstance

def checkedI128 (n : ℤ) : Option ℤ := if -2 ^ 127 ≤ n ∧ n < 2 ^ 127 then some n else none

/-- The two's complement of a signed number, least significant byte first. -/
def leBytesInt (width : ℕ) (n : ℤ) : Bytes := leBytes width (n % 2 ^ (8 * width)).toNat

inductive Val where
  | int (n : ℤ)
  | bytes (b : Bytes)
deriving DecidableEq

inductive VmError where
  | outOfGas | stackUnderflow | stackTooDeep
  | typeError (expected : String)
  | overflow
  | badCtxField (i : ℕ)
  | badTxOut (i : ℕ)
  | validatorHashMismatch | assert | emptyResult | memoryLimitExceeded | operandTooLarge
  | programTooLarge
deriving DecidableEq

abbrev AssetId := Bytes32

def BLCH : AssetId := 0

abbrev Value := SortedMap AssetId ℕ

def valueGet (v : Value) (asset : AssetId) : ℕ := v.getD asset 0

structure ExtOutput where
  value : Value
  validatorHash : Bytes32
  datum : Val

structure Ctx where
  fields : List Val
  txOutputs : List ExtOutput
  selfValidatorHash : Bytes32
  selfValue : Value

/-- The context of a program that spends no output of the older model. -/
def Ctx.ofFields (fields : List Val) : Ctx := ⟨fields, [], 0, .empty⟩

structure SigVerifier where
  (verify verifyEcdsa : Bytes → Bytes → Bytes → Bool)

inductive Op where
  | pushInt (n : ℤ)
  | pushBytes (b : Bytes)
  | dup | drop | swap
  | expectDepth (n : ℕ)
  | pick (n : ℕ)
  | add | sub | mul | eq | lt | not | sha256d | shake256 | size
  | ctxField (i : ℕ)
  | verifySig | verifyEcdsa | verify
  | txOutDatum (i : ℕ)
  | txOutValidator (i : ℕ)
  | txOutValue (i : ℕ)
  | selfValidator | selfAsset
  | txOutAsset (i : ℕ)
deriving DecidableEq

def MAX_STACK : ℕ := 1024
def MAX_OPERAND_BYTES : ℕ := 16 * 1024 * 1024
def MAX_PROGRAM_OPS : ℕ := 100000
def MAX_TOTAL_BYTES : ℕ := 32 * 1024 * 1024

def gasCost : Op → ℕ
  | .verifySig | .verifyEcdsa => 1000
  | .sha256d | .shake256 => 60
  | .mul | .add | .sub => 4
  | _ => 1

/-- The 32-byte words that span a number of bytes. -/
def vmWords (len : ℕ) : ℕ := (len + 31) / 32

def Val.byteLength : Val → ℕ
  | .int _ => 0
  | .bytes b => b.length

def opGas (op : Op) (stack : List Val) : ℕ :=
  let topLen := (stack.head?.map Val.byteLength).getD 0
  match op with
  | .pushBytes b => satAdd u64Max 1 (vmWords b.length)
  | .dup => satAdd u64Max 1 (vmWords topLen)
  | .pick n => satAdd u64Max 1 (vmWords ((stack[n]?.map Val.byteLength).getD 0))
  | .sha256d | .shake256 => satAdd u64Max 60 (vmWords topLen)
  | .size => satAdd u64Max 1 (vmWords topLen)
  | _ => gasCost op

def stackHeapBytes (stack : List Val) : ℕ :=
  stack.foldl (fun total v => satAdd u64Max total v.byteLength) 0

def Val.truthy : Val → Except VmError Bool
  | .int n => .ok (n ≠ 0)
  | .bytes _ => .error (.typeError "expected Int for truthiness")

def Val.asInt : Val → Except VmError ℤ
  | .int n => .ok n
  | .bytes _ => .error (.typeError "expected Int")

def Val.asBytes : Val → Except VmError Bytes
  | .bytes b => .ok b
  | .int _ => .error (.typeError "expected Bytes")

def asAsset (b : Bytes) : Except VmError AssetId := do
  refuse (b.length ≠ 32) (.typeError "asset id must be 32 bytes")
  pure (toHash b)

def ofBool (b : Bool) : Val := .int (if b then 1 else 0)

def pop : List Val → Except VmError (Val × List Val)
  | [] => .error .stackUnderflow
  | v :: st => .ok (v, st)

def popInt (st : List Val) : Except VmError (ℤ × List Val) := do
  let (v, st) ← pop st
  let n ← v.asInt
  pure (n, st)

def popBytes (st : List Val) : Except VmError (Bytes × List Val) := do
  let (v, st) ← pop st
  let b ← v.asBytes
  pure (b, st)

def binary (f : ℤ → ℤ → Option ℤ) (st : List Val) : Except VmError (List Val) := do
  let (b, st) ← popInt st
  let (a, st) ← popInt st
  let n ← orRefuse (f a b) .overflow
  pure (.int n :: st)

def checkSig (accepts : Bytes → Bytes → Bytes → Bool) (st : List Val) : Except VmError (List Val) := do
  let (sig, st) ← popBytes st
  let (pk, st) ← popBytes st
  let (msg, st) ← popBytes st
  pure (ofBool (accepts msg pk sig) :: st)

def txOut (ctx : Ctx) (i : ℕ) : Except VmError ExtOutput := orRefuse ctx.txOutputs[i]? (.badTxOut i)

def step (h : Hashes) (ctx : Ctx) (verifier : SigVerifier) (st : List Val) : Op → Except VmError (List Val)
  | .pushInt n => pure (.int n :: st)
  | .pushBytes b => pure (.bytes b :: st)
  | .dup => do
    let top ← orRefuse st.head? .stackUnderflow
    pure (top :: st)
  | .drop => do
    let (_, st) ← pop st
    pure st
  | .swap => do
    let (a, st) ← pop st
    let (b, st) ← pop st
    pure (b :: a :: st)
  | .expectDepth n => do
    refuse (st.length ≠ n) .assert
    pure st
  | .pick n => do
    let v ← orRefuse st[n]? .stackUnderflow
    pure (v :: st)
  | .add => binary (fun a b => checkedI128 (a + b)) st
  | .sub => binary (fun a b => checkedI128 (a - b)) st
  | .mul => binary (fun a b => checkedI128 (a * b)) st
  | .eq => do
    let (b, st) ← pop st
    let (a, st) ← pop st
    pure (ofBool (a = b) :: st)
  | .lt => do
    let (b, st) ← popInt st
    let (a, st) ← popInt st
    pure (ofBool (a < b) :: st)
  | .not => do
    let (a, st) ← popInt st
    pure (ofBool (a = 0) :: st)
  | .sha256d => do
    let (b, st) ← popBytes st
    pure (.bytes (hashBytes (h.sha256d b)) :: st)
  | .shake256 => do
    let (b, st) ← popBytes st
    pure (.bytes (hashBytes (h.shake256 b)) :: st)
  | .size => do
    let (b, st) ← popBytes st
    pure (.int b.length :: st)
  | .ctxField i => do
    let v ← orRefuse ctx.fields[i]? (.badCtxField i)
    pure (v :: st)
  | .verifySig => checkSig verifier.verify st
  | .verifyEcdsa => checkSig verifier.verifyEcdsa st
  | .verify => do
    let (top, st) ← pop st
    let holds ← top.truthy
    refuse (holds = false) .assert
    pure st
  | .txOutDatum i => do
    let o ← txOut ctx i
    pure (o.datum :: st)
  | .txOutValidator i => do
    let o ← txOut ctx i
    pure (.bytes (hashBytes o.validatorHash) :: st)
  | .txOutValue i => do
    let o ← txOut ctx i
    pure (.int (valueGet o.value BLCH) :: st)
  | .selfValidator => pure (.bytes (hashBytes ctx.selfValidatorHash) :: st)
  | .selfAsset => do
    let (b, st) ← popBytes st
    let asset ← asAsset b
    pure (.int (valueGet ctx.selfValue asset) :: st)
  | .txOutAsset i => do
    let (b, st) ← popBytes st
    let asset ← asAsset b
    let o ← txOut ctx i
    pure (.int (valueGet o.value asset) :: st)

section

variable (h : Hashes) (ctx : Ctx) (verifier : SigVerifier)

/-- The instructions one after the other, each paid for before it runs. -/
def runOps : List Op → List Val → ℕ → Except VmError (List Val × ℕ)
  | [], st, gas => .ok (st, gas)
  | op :: rest, st, gas => do
    let gas ← orRefuse (checkedSub gas (opGas op st)) .outOfGas
    let st ← step h ctx verifier st op
    refuse (MAX_STACK < st.length) .stackTooDeep
    refuse (MAX_TOTAL_BYTES < stackHeapBytes st) .memoryLimitExceeded
    runOps rest st gas

def Op.tooLarge : Op → Bool
  | .pushBytes b => MAX_OPERAND_BYTES < b.length
  | _ => false

/-- Runs a program on a stack given bottom first. Answers with its verdict and the gas left. -/
def run (program : List Op) (initial : List Val) (gas : ℕ) : Except VmError (Bool × ℕ) := do
  refuse (MAX_STACK < initial.length) .stackTooDeep
  refuse (MAX_PROGRAM_OPS < program.length) .programTooLarge
  refuse (∃ op ∈ program, op.tooLarge) .operandTooLarge
  refuse (∃ v ∈ initial, MAX_OPERAND_BYTES < v.byteLength) .operandTooLarge
  refuse (MAX_TOTAL_BYTES < stackHeapBytes initial) .memoryLimitExceeded
  let (st, gas) ← runOps h ctx verifier program initial.reverse gas
  let top ← orRefuse st.head? .emptyResult
  let verdict ← top.truthy
  pure (verdict, gas)

end

def encodeOp : Op → Bytes
  | .pushInt n => 0x01 :: leBytesInt 16 n
  | .pushBytes b => 0x02 :: putBytes b
  | .dup => [0x10]
  | .drop => [0x11]
  | .swap => [0x12]
  | .pick n => [0x13, UInt8.ofNat n]
  | .expectDepth n => [0x14, UInt8.ofNat n]
  | .add => [0x20]
  | .sub => [0x21]
  | .mul => [0x22]
  | .eq => [0x30]
  | .lt => [0x31]
  | .not => [0x32]
  | .sha256d => [0x40]
  | .shake256 => [0x41]
  | .size => [0x42]
  | .ctxField i => [0x50, UInt8.ofNat i]
  | .verifySig => [0x60]
  | .verifyEcdsa => [0x62]
  | .verify => [0x61]
  | .txOutDatum i => [0x70, UInt8.ofNat i]
  | .txOutValidator i => [0x71, UInt8.ofNat i]
  | .txOutValue i => [0x72, UInt8.ofNat i]
  | .selfValidator => [0x73]
  | .selfAsset => [0x74]
  | .txOutAsset i => [0x75, UInt8.ofNat i]

def encodeProgram (program : List Op) : Bytes := program.flatMap encodeOp

def validatorHash (h : Hashes) (program : List Op) : Bytes32 := h.sha256d (encodeProgram program)

section

variable {h : Hashes} {ctx : Ctx} {verifier : SigVerifier} {st st' : List Val} {program : List Op} {gas : ℕ}

/-- The stack a program leaves, gas and ceilings aside. -/
def effect (h : Hashes) (ctx : Ctx) (verifier : SigVerifier) (program : List Op) (st : List Val) :
    Except VmError (List Val) :=
  program.foldlM (step h ctx verifier) st

@[simp] theorem effect_nil : effect h ctx verifier [] st = .ok st' ↔ st = st' := pure_eq_ok_iff

@[simp] theorem effect_cons : effect h ctx verifier (op :: rest) st = .ok st' ↔
      ∃ mid, step h ctx verifier st op = .ok mid ∧ effect h ctx verifier rest mid = .ok st' := by
  rw [effect, List.foldlM_cons, bind_eq_ok_iff]
  rfl

theorem effect_append : effect h ctx verifier (first ++ second) st = .ok st' ↔
      ∃ mid, effect h ctx verifier first st = .ok mid ∧ effect h ctx verifier second mid = .ok st' := by
  rw [effect, List.foldlM_append, bind_eq_ok_iff]
  rfl

theorem effect_of_runOps
    (ran : runOps h ctx verifier program st gas = .ok (st', gas')) :
    effect h ctx verifier program st = .ok st' := by
  induction program generalizing st gas with
  | nil =>
    cases ran
    rfl
  | cons op rest ih =>
    simp only [runOps, ok_iff] at ran
    obtain ⟨left, -, next, stepped, -, -, later⟩ := ran
    rw [effect, List.foldlM_cons, bind_eq_ok_iff]
    exact ⟨next, stepped, ih later⟩

section

variable {x : Val}

@[simp] theorem ofBool_eq_int_iff : ofBool b = .int n ↔ (if b then 1 else 0) = n := by
  simp [ofBool]

@[simp] theorem step_pushInt : step h ctx verifier st (.pushInt n) = .ok st' ↔ .int n :: st = st' := by
  simp [step]

@[simp] theorem step_pushBytes {b : Bytes} :
    step h ctx verifier st (.pushBytes b) = .ok st' ↔ .bytes b :: st = st' := by
  simp [step]

theorem pop_eq_ok_iff : pop st = .ok (x, rest) ↔ st = x :: rest := by
  cases st <;> simp [pop]

theorem popInt_eq_ok_iff : popInt st = .ok (n, rest) ↔ st = .int n :: rest := by
  cases st with
  | nil => simp [popInt, pop, bind, Except.bind]
  | cons x st => cases x <;> simp [popInt, pop, Val.asInt, bind_eq_ok_iff]

theorem popBytes_eq_ok_iff {b : Bytes} : popBytes st = .ok (b, rest) ↔ st = .bytes b :: rest := by
  cases st with
  | nil => simp [popBytes, pop, bind, Except.bind]
  | cons x st => cases x <;> simp [popBytes, pop, Val.asBytes, bind_eq_ok_iff]

@[simp] theorem step_swap : step h ctx verifier st .swap = .ok st' ↔
    ∃ a b rest, st = a :: b :: rest ∧ b :: a :: rest = st' := by
  simp only [step, ok_iff, Prod.exists, pop_eq_ok_iff]
  constructor
  · rintro ⟨a, _, rfl, b, rest, rfl, rfl⟩
    exact ⟨a, b, rest, rfl, rfl⟩
  · rintro ⟨a, b, rest, rfl, rfl⟩
    exact ⟨a, _, rfl, b, rest, rfl, rfl⟩

@[simp] theorem step_expectDepth {n : ℕ} :
    step h ctx verifier st (.expectDepth n) = .ok st' ↔ st.length = n ∧ st = st' := by
  simp only [step, ok_iff, not_not]

@[simp] theorem step_pick {n : ℕ} :
    step h ctx verifier st (.pick n) = .ok st' ↔ ∃ x, st[n]? = some x ∧ x :: st = st' := by
  simp only [step, ok_iff]

@[simp] theorem step_ctxField :
    step h ctx verifier st (.ctxField i) = .ok st' ↔ ∃ x, ctx.fields[i]? = some x ∧ x :: st = st' := by
  simp only [step, ok_iff]

@[simp] theorem step_add : step h ctx verifier st .add = .ok st' ↔
    ∃ a b rest n, st = .int b :: .int a :: rest ∧ checkedI128 (a + b) = some n ∧ .int n :: rest = st' := by
  simp only [step, binary, ok_iff, Prod.exists, popInt_eq_ok_iff]
  constructor
  · rintro ⟨b, _, rfl, a, rest, rfl, n, sum, rfl⟩
    exact ⟨a, b, rest, n, rfl, sum, rfl⟩
  · rintro ⟨a, b, rest, n, rfl, sum, rfl⟩
    exact ⟨b, _, rfl, a, rest, rfl, n, sum, rfl⟩

@[simp] theorem step_lt : step h ctx verifier st .lt = .ok st' ↔
    ∃ a b rest, st = .int b :: .int a :: rest ∧ ofBool (a < b) :: rest = st' := by
  simp only [step, ok_iff, Prod.exists, popInt_eq_ok_iff]
  constructor
  · rintro ⟨b, _, rfl, a, rest, rfl, rfl⟩
    exact ⟨a, b, rest, rfl, rfl⟩
  · rintro ⟨a, b, rest, rfl, rfl⟩
    exact ⟨b, _, rfl, a, rest, rfl, rfl⟩

@[simp] theorem step_not : step h ctx verifier st .not = .ok st' ↔
    ∃ a rest, st = .int a :: rest ∧ ofBool (a = 0) :: rest = st' := by
  simp only [step, ok_iff, Prod.exists, popInt_eq_ok_iff]

@[simp] theorem step_verifySig : step h ctx verifier st .verifySig = .ok st' ↔
    ∃ msg pk sig rest, st = .bytes sig :: .bytes pk :: .bytes msg :: rest ∧
      ofBool (verifier.verify msg pk sig) :: rest = st' := by
  simp only [step, checkSig, ok_iff, Prod.exists, popBytes_eq_ok_iff]
  constructor
  · rintro ⟨sig, _, rfl, pk, _, rfl, msg, rest, rfl, rfl⟩
    exact ⟨msg, pk, sig, rest, rfl, rfl⟩
  · rintro ⟨msg, pk, sig, rest, rfl, rfl⟩
    exact ⟨sig, _, rfl, pk, _, rfl, msg, rest, rfl, rfl⟩

theorem truthy_eq_ok_iff : x.truthy = .ok b ↔ ∃ n, x = .int n ∧ b = decide (n ≠ 0) := by
  cases x <;> simp [Val.truthy, eq_comm]

@[simp] theorem step_verify : step h ctx verifier st .verify = .ok st' ↔ ∃ n, st = .int n :: st' ∧ n ≠ 0 := by
  simp only [step, ok_iff, Prod.exists, pop_eq_ok_iff, truthy_eq_ok_iff]
  constructor
  · rintro ⟨_, _, rfl, _, ⟨n, rfl, rfl⟩, holds, rfl⟩
    exact ⟨n, rfl, by simpa using holds⟩
  · rintro ⟨n, rfl, holds⟩
    exact ⟨_, _, rfl, _, ⟨n, rfl, rfl⟩, by simpa using holds, rfl⟩

end

theorem run_accepts (ran : run h ctx verifier program initial gas = .ok (true, gas')) :
    ∃ n st, effect h ctx verifier program initial.reverse = .ok (.int n :: st) ∧ n ≠ 0 := by
  simp only [run, ok_iff] at ran
  obtain ⟨-, -, -, -, -, ⟨st, left⟩, executed, top, found, verdict, judged, same⟩ := ran
  cases same
  cases st with
  | nil => cases found
  | cons _ st =>
    cases found
    cases top with
    | bytes b => cases judged
    | int n =>
      refine ⟨n, st, effect_of_runOps executed, ?_⟩
      simpa only [Val.truthy, Except.ok.injEq, decide_eq_true_eq] using judged

end

end BlochPos.Ustav
