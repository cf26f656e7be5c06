import BlochPos.Pow.Target

/-! The puzzle of the proof of work: a short vector whose image under a matrix is near a target vector, and
a hash below the target. The extendable output is an arbitrary function; its sampler may wait for ever, so
it is given a number of words to discard per element. -/
namespace BlochPos.Pow

open List

def N : ℕ := 256
def M : ℕ := 512
def Q : ℕ := 8380417
def Q_HALF : ℕ := (Q - 1) / 2
def B : ℕ := 2
def BETA : ℕ := Q / 16
def POW_SEED_LEN : ℕ := 64
def DOMAIN_LABEL_POW_SEED : Bytes := ascii "BLOCH-POW-SEED-V1"
def DOMAIN_LABEL_POW_AUX : Bytes := ascii "BLOCH-POW-AUX-V1"
def DOMAIN_LABEL_TARGET : Bytes := ascii "BLOCH-POW-TARGET-V1"

/-- An extendable output under a label and inputs, read byte by byte. -/
abbrev Shake := Bytes → List Bytes → ℕ → UInt8

abbrev Solution := Fin N → ℤ

inductive PowError where
  | solutionTooLarge (index : ℕ) (value : ℤ) (bound : ℕ)
  | internalInvariant (what : String)

inductive VerifyError where
  | solutionTooLarge
  | residualTooLarge (actual bound : ℕ)
  | auxHashAboveTarget
  | powError (e : PowError)

inductive MineError where
  | attemptsExhausted | cancelled

structure MineResult where
  nonce : UInt64
  solution : Solution
  auxHash : Bytes
  attempts : ℕ

structure MineConfig where
  startNonce : UInt64
  candidatesPerNonce : ℕ
  maxTotalAttempts : ℕ
  residualCoeffs : ℕ

section Model

variable (shake : Shake)

def shake256Dom (label : Bytes) (inputs : List Bytes) (outLen : ℕ) : Bytes := (range outLen).map (shake label inputs)

/-- The next element and where the reader stands after it. -/
def sampleUniformZq (stream : ℕ → UInt8) : ℕ → ℕ → Option (ℕ × ℕ)
  | 0, _ => none
  | fuel + 1, pos =>
    let candidate := ofLeBytes [stream pos, stream (pos + 1), stream (pos + 2)] % 2 ^ 23
    if candidate < Q then some (candidate, pos + 3) else sampleUniformZq stream fuel (pos + 3)

def sampleMany (stream : ℕ → UInt8) (fuel : ℕ) : ℕ → ℕ → Option (List ℕ)
  | 0, _ => some []
  | n + 1, pos => do
    let (entry, pos) ← sampleUniformZq stream fuel pos
    let rest ← sampleMany stream fuel n pos
    some (entry :: rest)

def expandMatrixRows (fuel : ℕ) (seed : Bytes) (rows : ℕ) : Option (List ℕ) :=
  sampleMany (shake DOMAIN_LABEL_POW_SEED [seed, ascii "MATRIX-A"]) fuel (min rows M * N) 0

def expandTargetLen (fuel : ℕ) (seed : Bytes) (len : ℕ) : Option (List ℕ) :=
  sampleMany (shake DOMAIN_LABEL_TARGET [seed, ascii "VECTOR-T"]) fuel (min len M) 0

def expandMatrixAndTargetRows (fuel : ℕ) (seed : Bytes) (rows : ℕ) : Option (List ℕ × List ℕ) := do
  let a ← expandMatrixRows shake fuel seed rows
  let t ← expandTargetLen shake fuel seed rows
  some (a, t)

def centerModQ (x : ℤ) : ℤ :=
  let r := x.tmod Q
  let r := if r < 0 then r + Q else r
  if Q_HALF < r then r - Q else r

def rowProduct (a : List ℕ) (s : Solution) (i : ℕ) : ℤ := ∑ j, (a.getD (i * N + j.val) 0 : ℤ) * s j

def matVecMulCenteredRows (a : List ℕ) (s : Solution) (rows : ℕ) : List ℤ :=
  (range rows).map (fun i => centerModQ (rowProduct a s i))

def residualCenteredRows (a : List ℕ) (s : Solution) (t : List ℕ) (rows : ℕ) : List ℤ :=
  (range rows).map (fun i => centerModQ ((matVecMulCenteredRows a s rows).getD i 0 - centerModQ (t.getD i 0)))

def infinityNorm (coeffs : List ℤ) : ℕ :=
  coeffs.foldl (fun largest c => if largest < c.natAbs then c.natAbs else largest) 0

section

variable (header : Bytes) (nonce : UInt64) (s : Solution)

def encodeS : Except PowError Bytes :=
  match (finRange N).find? (fun i => B < (s i).natAbs) with
  | some i => .error (.solutionTooLarge i (s i) B)
  | none => .ok ((finRange N).map (fun i => UInt8.ofInt (s i)))

def derivePowSeed : Bytes :=
  shake256Dom shake DOMAIN_LABEL_POW_SEED [header, leBytes 8 nonce.toNat] POW_SEED_LEN

def auxHashOf (encoded : Bytes) : Bytes :=
  shake256Dom shake DOMAIN_LABEL_POW_AUX [encoded, leBytes 8 nonce.toNat, header] 32

/-- There is no hash of a vector that cannot be encoded. -/
def computeAuxHash : Option Bytes :=
  (encodeS s).toOption.map (auxHashOf shake header nonce)

def verifyRegime (fuel : ℕ) (header : Bytes) (nonce : UInt64) (s : Solution) (target : Bytes32)
    (residualCoeffs : ℕ) : Option (Except VerifyError Unit) :=
  if residualCoeffs = 0 then
    some (.error (.powError (.internalInvariant
      "residual width k must be at least 1 (k = 0 disables the residual check)")))
  else if ∃ i, B < (s i).natAbs then some (.error .solutionTooLarge)
  else do
    let k := min residualCoeffs M
    let (a, t) ← expandMatrixAndTargetRows shake fuel (derivePowSeed shake header nonce) k
    let actual := infinityNorm (residualCenteredRows a s t k)
    if BETA ≤ actual then some (.error (.residualTooLarge actual BETA))
    else match encodeS s with
      | .error e => some (.error (.powError e))
      | .ok encoded =>
        if hashMeetsTarget (auxHashOf shake header nonce encoded) target then some (.ok ())
        else some (.error .auxHashAboveTarget)

/-- The next word of the generator and its state after it. -/
def nextU64 (state : UInt64) : UInt64 × UInt64 :=
  let state := state + 0x9E3779B97F4A7C15
  let z := (state ^^^ (state >>> 30)) * 0xBF58476D1CE4E5B9
  let z := (z ^^^ (z >>> 27)) * 0x94D049BB133111EB
  (z ^^^ (z >>> 31), state)

def nextCoeff (state : UInt64) : ℤ × UInt64 :=
  let (r, state) := nextU64 state
  ((r.toNat % (2 * B + 1) : ℕ) - B, state)

def drawCoeffs : ℕ → UInt64 → List ℤ × UInt64
  | 0, state => ([], state)
  | n + 1, state =>
    let (c, state) := nextCoeff state
    let (rest, state) := drawCoeffs n state
    (c :: rest, state)

def drawSolution (state : UInt64) : Solution × UInt64 :=
  let (coeffs, state) := drawCoeffs N state
  (fun i => coeffs.getD i 0, state)

/-- The hash of a candidate that is not passed over. -/
def checkCandidate (target : Bytes32) (a t : List ℕ) (k : ℕ) (s : Solution) : Option Bytes :=
  if ∃ i, B < (s i).natAbs then none
  else if BETA ≤ infinityNorm (residualCenteredRows a s t k) then none
  else match encodeS s with
    | .error _ => none
    | .ok encoded =>
      let aux := auxHashOf shake header nonce encoded
      if hashMeetsTarget aux target then some aux else none

end

/-- The candidates under one nonce: what was found, or the attempts made by then. -/
def tryCandidates (check : Solution → Option Bytes) (nonce : UInt64) (budget : ℕ) :
    ℕ → UInt64 → ℕ → MineResult ⊕ ℕ
  | 0, _, attempts => .inr attempts
  | n + 1, rng, attempts =>
    let attempts := attempts + 1
    if budget ≤ attempts then .inr attempts
    else
      let drawn := drawSolution rng
      match check drawn.1 with
      | some aux => .inl ⟨nonce, drawn.1, aux, attempts⟩
      | none => tryCandidates check nonce budget n drawn.2 attempts

/-- `cancel` is the flag as it is read at the start of each round. -/
def mineRounds (fuel : ℕ) (header : Bytes) (target : Bytes32) (cfg : MineConfig) (cancel : ℕ → Bool) :
    ℕ → ℕ → UInt64 → UInt64 → ℕ → Option (Except MineError MineResult)
  | 0, _, _, _, _ => none
  | rounds + 1, polls, nonce, rng, attempts =>
    if cfg.maxTotalAttempts ≤ attempts then some (.error .attemptsExhausted)
    else if cancel polls then some (.error .cancelled)
    else do
      let k := min cfg.residualCoeffs M
      let (a, t) ← expandMatrixAndTargetRows shake fuel (derivePowSeed shake header nonce) k
      match tryCandidates (checkCandidate shake header nonce target a t k) nonce cfg.maxTotalAttempts
        cfg.candidatesPerNonce rng attempts with
      | .inl found => some (.ok found)
      | .inr attempts =>
        mineRounds fuel header target cfg cancel rounds (polls + 1) (nonce + 1)
          (0xCAFEF00DDEADBEEF * (nonce + 1 + 1)) attempts

/-- The search has no bound of its own on its rounds: nothing when they run out first. -/
def mine (fuel rounds : ℕ) (header : Bytes) (target : Bytes32) (cfg : MineConfig) (cancel : ℕ → Bool) :
    Option (Except MineError MineResult) :=
  mineRounds shake fuel header target cfg cancel rounds 0 cfg.startNonce (0xCAFEF00DDEADBEEF ^^^ cfg.startNonce) 0

end Model

theorem sampleMany_take {stream : ℕ → UInt8} (sampled : sampleMany stream fuel n pos = some l) (fewer : m ≤ n) :
    sampleMany stream fuel m pos = some (l.take m) := by
  induction n generalizing m pos l with
  | zero =>
    cases sampled
    rw [Nat.le_zero.mp fewer]
    rfl
  | succ n ih =>
    cases m with
    | zero => rfl
    | succ m =>
      simp only [sampleMany, Option.bind_eq_bind, Option.bind_eq_some_iff] at sampled ⊢
      obtain ⟨first, read, rest, later, same⟩ := sampled
      cases same
      exact ⟨first, read, rest.take m, ih later (Nat.le_of_succ_le_succ fewer), rfl⟩

theorem lt_of_sampleUniformZq {stream : ℕ → UInt8} (sampled : sampleUniformZq stream fuel pos = some (e, stop)) :
    e < Q := by
  induction fuel generalizing pos with
  | zero => cases sampled
  | succ fuel ih =>
    rw [sampleUniformZq] at sampled
    split_ifs at sampled with below
    · cases sampled
      exact below
    · exact ih sampled

theorem lt_of_mem_sampleMany {stream : ℕ → UInt8} (sampled : sampleMany stream fuel n pos = some l)
    (among : e ∈ l) : e < Q := by
  induction n generalizing pos l with
  | zero =>
    cases sampled
    cases among
  | succ n ih =>
    simp only [sampleMany, Option.bind_eq_bind, Option.bind_eq_some_iff] at sampled
    obtain ⟨first, read, rest, later, same⟩ := sampled
    cases same
    rcases mem_cons.mp among with rfl | among
    · exact lt_of_sampleUniformZq read
    · exact ih later among

/-- Every partial sum of a row of a sampled matrix with a short vector is a signed 64-bit word. -/
theorem abs_rowSum_lt {s : Solution} (expanded : expandMatrixRows shake fuel seed rows = some a)
    (short : ∀ j, (s j).natAbs ≤ B) (i : ℕ) (columns : Finset (Fin N)) :
    |∑ j ∈ columns, (a.getD (i * N + j.val) 0 : ℤ) * s j| < 2 ^ 63 := by
  have entry (k : ℕ) : a.getD k 0 ≤ Q := by
    rw [getD_eq_getElem?_getD]
    cases found : a[k]? with
    | none => exact Nat.zero_le Q
    | some e => exact (lt_of_mem_sampleMany expanded (mem_of_getElem? found)).le
  calc |∑ j ∈ columns, (a.getD (i * N + j.val) 0 : ℤ) * s j|
      ≤ ∑ j ∈ columns, |(a.getD (i * N + j.val) 0 : ℤ) * s j| := Finset.abs_sum_le_sum_abs _ _
    _ ≤ columns.card • ((Q * B : ℕ) : ℤ) := by
      refine Finset.sum_le_card_nsmul _ _ _ (fun j _ => ?_)
      rw [abs_mul, Nat.abs_cast, Int.abs_eq_natAbs, ← Nat.cast_mul, Nat.cast_le]
      exact Nat.mul_le_mul (entry _) (short j)
    _ ≤ N • ((Q * B : ℕ) : ℤ) := nsmul_le_nsmul_left (Nat.cast_nonneg _) (card_finset_fin_le columns)
    _ < 2 ^ 63 := by decide

/-- The expansion of fewer rows is the start of the expansion of more. -/
theorem expand_take (expanded : expandMatrixAndTargetRows shake fuel seed k = some (a, t)) (fewer : j ≤ k)
    (within : k ≤ M) : expandMatrixAndTargetRows shake fuel seed j = some (a.take (j * N), t.take j) := by
  simp only [expandMatrixAndTargetRows, expandMatrixRows, expandTargetLen, min_eq_left within,
    min_eq_left (fewer.trans within), Option.bind_eq_bind, Option.bind_eq_some_iff] at expanded ⊢
  obtain ⟨_, matrix, _, vector, same⟩ := expanded
  cases same
  exact ⟨_, sampleMany_take matrix (Nat.mul_le_mul_right N fewer), _, sampleMany_take vector fewer, rfl⟩

theorem centerModQ_spec (x : ℤ) : (centerModQ x).natAbs ≤ Q_HALF ∧ ∃ z : ℤ, centerModQ x = x - z * Q := by
  have split := Int.mul_tdiv_add_tmod x Q
  have above := Int.tmod_lt_of_pos x (b := Q) (by decide)
  have below := Int.lt_tmod_of_pos x (b := Q) (by decide)
  have modulus : (Q : ℤ) = 8380417 := rfl
  have half : Q_HALF = 4190208 := rfl
  rw [centerModQ]
  rw [modulus] at split above below ⊢
  rw [half]
  split_ifs
  · exact ⟨by omega, x.tdiv 8380417, by omega⟩
  · exact ⟨by omega, x.tdiv 8380417 - 1, by omega⟩
  · exact ⟨by omega, x.tdiv 8380417 + 1, by omega⟩
  · exact ⟨by omega, x.tdiv 8380417, by omega⟩

/-- The bound is below half the modulus, so only one multiple of it can be that near. -/
theorem centerModQ_lt_iff (x : ℤ) : (centerModQ x).natAbs < BETA ↔ ∃ z : ℤ, |x - z * Q| < BETA := by
  obtain ⟨half, z, centered⟩ := centerModQ_spec x
  have modulus : (Q : ℤ) = 8380417 := rfl
  have bound : BETA = 523776 := rfl
  have most : Q_HALF = 4190208 := rfl
  rw [modulus] at centered ⊢
  rw [bound]
  constructor
  · intro near
    exact ⟨z, abs_lt.mpr ⟨by omega, by omega⟩⟩
  · rintro ⟨w, near⟩
    obtain ⟨below, above⟩ := abs_lt.mp near
    omega

theorem residual_lt_iff (x y : ℤ) :
    (centerModQ (centerModQ x - centerModQ y)).natAbs < BETA ↔ ∃ z : ℤ, |x - y - z * Q| < BETA := by
  obtain ⟨-, u, left⟩ := centerModQ_spec x
  obtain ⟨-, v, right⟩ := centerModQ_spec y
  have shifted : ∀ z : ℤ, centerModQ x - centerModQ y - z * Q = x - y - (z + u - v) * Q := by
    intro z
    rw [left, right]
    ring
  rw [centerModQ_lt_iff]
  constructor
  · rintro ⟨z, near⟩
    exact ⟨z + u - v, shifted z ▸ near⟩
  · rintro ⟨z, near⟩
    refine ⟨z - u + v, ?_⟩
    rwa [shifted, show z - u + v + u - v = z by ring]

theorem infinityNorm_lt_iff {coeffs : List ℤ} (pos : 0 < b) :
    infinityNorm coeffs < b ↔ ∀ c ∈ coeffs, c.natAbs < b := by
  have run : ∀ start, coeffs.foldl (fun largest c => if largest < c.natAbs then c.natAbs else largest) start < b ↔
      start < b ∧ ∀ c ∈ coeffs, c.natAbs < b := by
    induction coeffs with
    | nil => simp
    | cons c rest ih =>
      intro start
      rw [foldl_cons, ih, forall_mem_cons, ← and_assoc]
      refine and_congr_left (fun _ => ?_)
      split_ifs <;> omega
  rw [infinityNorm, run]
  exact and_iff_right pos

/-- The integer product of each row with the solution is near the target's entry modulo `Q`. -/
def RowsNear (a : List ℕ) (s : Solution) (t : List ℕ) (k : ℕ) : Prop :=
  ∀ i < k, ∃ z : ℤ, |rowProduct a s i - t.getD i 0 - z * Q| < BETA

theorem norm_lt_iff : infinityNorm (residualCenteredRows a s t k) < BETA ↔ RowsNear a s t k := by
  rw [infinityNorm_lt_iff (by decide), residualCenteredRows, forall_mem_map, RowsNear]
  simp only [mem_range]
  refine forall₂_congr (fun i inside => ?_)
  have entry : (matVecMulCenteredRows a s k).getD i 0 = centerModQ (rowProduct a s i) := by
    simp [matVecMulCenteredRows, inside]
  rw [entry, residual_lt_iff]

theorem meetsBytes_iff {a b : Bytes} (size : a.length = b.length) :
    meetsBytes a b = true ↔ ofBeBytes a < ofBeBytes b := by
  induction a generalizing b with
  | nil => simp [length_eq_zero_iff.mp size.symm, meetsBytes]
  | cons h hash ih =>
    cases b with
    | nil => cases size
    | cons t target =>
      have same : hash.length = target.length := Nat.succ.inj size
      have small := ofBeBytes_lt hash
      have small' := ofBeBytes_lt target
      rw [meetsBytes, ofBeBytes_cons, ofBeBytes_cons, same]
      rw [same] at small
      simp only [UInt8.lt_iff_toNat_lt]
      rcases lt_trichotomy h.toNat t.toNat with less | equal | more
      · have step := Nat.mul_le_mul_right (256 ^ target.length) less
        rw [Nat.succ_mul] at step
        rw [if_pos less]
        exact iff_of_true rfl (by omega)
      · rw [equal, if_neg (lt_irrefl _), if_neg (lt_irrefl _), ih same, Nat.add_lt_add_iff_left]
      · have step := Nat.mul_le_mul_right (256 ^ target.length) more
        rw [Nat.succ_mul] at step
        rw [if_neg more.asymm, if_pos more]
        exact iff_of_false Bool.false_ne_true (by omega)

theorem encodeS_eq_ok (short : ∀ i, (s i).natAbs ≤ B) : ∃ encoded, encodeS s = .ok encoded := by
  have none : (finRange N).find? (fun i => B < (s i).natAbs) = none := by
    rw [find?_eq_none]
    intro i _
    simpa using short i
  rw [encodeS, none]
  exact ⟨_, rfl⟩

/-- What a verifier of a width checks. -/
structure Accepts (shake : Shake) (fuel : ℕ) (header : Bytes) (nonce : UInt64) (s : Solution) (target : Bytes32)
    (k : ℕ) : Prop where
  positive : 1 ≤ k
  short : ∀ i, (s i).natAbs ≤ B
  near : ∃ a t, expandMatrixAndTargetRows shake fuel (derivePowSeed shake header nonce) (min k M) = some (a, t) ∧
    RowsNear a s t (min k M)
  below : ∃ aux, computeAuxHash shake header nonce s = some aux ∧ ofBeBytes aux < target.val

theorem hashMeetsTarget_auxHashOf : hashMeetsTarget (auxHashOf shake header nonce encoded) target = true ↔
    ofBeBytes (auxHashOf shake header nonce encoded) < target.val := by
  have size : (auxHashOf shake header nonce encoded).length = (hashBytes target).length := by
    rw [length_hashBytes, auxHashOf, shake256Dom, length_map, length_range]
  rw [hashMeetsTarget, meetsBytes_iff size, ofBeBytes_hashBytes]

theorem verifyRegime_eq_ok_iff : verifyRegime shake fuel header nonce s target k = some (.ok ()) ↔
    Accepts shake fuel header nonce s target k := by
  rw [verifyRegime]
  by_cases zero : k = 0
  · rw [if_pos zero]
    exact iff_of_false (by simp) (fun accepts => absurd accepts.positive (by omega))
  rw [if_neg zero]
  by_cases long : ∃ i, B < (s i).natAbs
  · rw [if_pos long]
    obtain ⟨i, long⟩ := long
    exact iff_of_false (by simp) (fun accepts => absurd (accepts.short i) (not_le.mpr long))
  rw [if_neg long]
  simp only [not_exists, not_lt] at long
  obtain ⟨encoded, encodes⟩ := encodeS_eq_ok long
  simp only [encodes, Option.bind_eq_bind, Option.bind_eq_some_iff, Prod.exists]
  constructor
  · rintro ⟨a, t, expanded, passed⟩
    split_ifs at passed with far meets
    · cases passed
    · exact ⟨by omega, long, ⟨a, t, expanded, norm_lt_iff.mp (not_le.mp far)⟩, _, by rw [computeAuxHash, encodes]; rfl,
        hashMeetsTarget_auxHashOf.mp meets⟩
    · cases passed
  · rintro ⟨-, -, ⟨a, t, expanded, near⟩, aux, hashed, below⟩
    rw [computeAuxHash, encodes] at hashed
    cases hashed
    refine ⟨a, t, expanded, ?_⟩
    rw [if_neg (not_le.mpr (norm_lt_iff.mpr near)), if_pos (hashMeetsTarget_auxHashOf.mpr below)]

theorem RowsNear.take (near : RowsNear a s t k) (fewer : j ≤ k) : RowsNear (a.take (j * N)) s (t.take j) j := by
  intro i inside
  have row : rowProduct (a.take (j * N)) s i = rowProduct a s i := by
    refine Finset.sum_congr rfl (fun c _ => ?_)
    have index : i * N + c.val < j * N := by
      have step := Nat.mul_le_mul_right N (Nat.succ_le_of_lt inside)
      rw [Nat.succ_mul] at step
      omega
    simp [index]
  have entry : (t.take j).getD i 0 = t.getD i 0 := by simp [inside]
  rw [row, entry]
  exact near i (inside.trans_le fewer)

theorem Accepts.narrower (accepts : Accepts shake fuel header nonce s target k) (positive : 1 ≤ j) (fewer : j ≤ k) :
    Accepts shake fuel header nonce s target j := by
  obtain ⟨a, t, expanded, near⟩ := accepts.near
  have rows : min j M ≤ min k M := min_le_min_right M fewer
  exact ⟨positive, accepts.short, ⟨_, _, expand_take expanded rows (min_le_right ..), near.take rows⟩, accepts.below⟩

theorem checkCandidate_eq_some (passed : checkCandidate shake header nonce target a t k s = some aux) :
    (∀ i, (s i).natAbs ≤ B) ∧ RowsNear a s t k ∧ computeAuxHash shake header nonce s = some aux ∧
      ofBeBytes aux < target.val := by
  rw [checkCandidate] at passed
  split_ifs at passed with long far
  split at passed
  · cases passed
  · rename_i encoded encodes
    obtain ⟨meets, hashed⟩ := Option.ite_none_right_eq_some.mp passed
    cases hashed
    simp only [not_exists, not_lt] at long
    exact ⟨long, norm_lt_iff.mp (not_le.mp far), by rw [computeAuxHash, encodes]; rfl,
      hashMeetsTarget_auxHashOf.mp meets⟩

theorem tryCandidates_eq_inl (found : tryCandidates check nonce budget n rng attempts = .inl r) :
    r.nonce = nonce ∧ r.attempts < budget ∧ check r.solution = some r.auxHash := by
  induction n generalizing rng attempts with
  | zero => cases found
  | succ n ih =>
    rw [tryCandidates] at found
    generalize drawSolution rng = drawn at found
    dsimp only at found
    split_ifs at found with spent
    split at found
    · rename_i aux passed
      cases found
      exact ⟨rfl, not_le.mp spent, passed⟩
    · exact ih found

theorem accepts_of_mineRounds (positive : 1 ≤ cfg.residualCoeffs)
    (mined : mineRounds shake fuel header target cfg cancel rounds polls nonce rng attempts = some (.ok r)) :
    Accepts shake fuel header r.nonce r.solution target cfg.residualCoeffs ∧
      computeAuxHash shake header r.nonce r.solution = some r.auxHash ∧ r.attempts < cfg.maxTotalAttempts := by
  induction rounds generalizing polls nonce rng attempts with
  | zero => cases mined
  | succ rounds ih =>
    rw [mineRounds] at mined
    split_ifs at mined
    · cases mined
    · cases mined
    · simp only [Option.bind_eq_bind, Option.bind_eq_some_iff, Prod.exists] at mined
      obtain ⟨a, t, expanded, searched⟩ := mined
      split at searched
      · rename_i found
        cases searched
        obtain ⟨rfl, attempts, passed⟩ := tryCandidates_eq_inl found
        obtain ⟨short, near, hashed, below⟩ := checkCandidate_eq_some passed
        exact ⟨⟨positive, short, ⟨a, t, expanded, near⟩, _, hashed, below⟩, hashed, attempts⟩
      · exact ih searched

/-- What a miner finds its verifier accepts. A verifier accepts a short vector whose products with the rows
it looks at are near the target vector and whose hash is below the target, so one that looks at more rows
accepts no more. -/
theorem mined_solution_verifies (shake : Shake) :
    (∀ fuel rounds header target (cfg : MineConfig) cancel r, 1 ≤ cfg.residualCoeffs →
      mine shake fuel rounds header target cfg cancel = some (.ok r) →
      verifyRegime shake fuel header r.nonce r.solution target cfg.residualCoeffs = some (.ok ()) ∧
        computeAuxHash shake header r.nonce r.solution = some r.auxHash ∧ r.attempts < cfg.maxTotalAttempts) ∧
    (∀ fuel header nonce s target k, verifyRegime shake fuel header nonce s target k = some (.ok ()) ↔
      Accepts shake fuel header nonce s target k) ∧
    ∀ fuel header nonce s target j k, 1 ≤ j → j ≤ k →
      verifyRegime shake fuel header nonce s target k = some (.ok ()) →
      verifyRegime shake fuel header nonce s target j = some (.ok ()) := by
  refine ⟨fun fuel rounds header target cfg cancel r positive mined => ?_,
    fun fuel header nonce s target k => verifyRegime_eq_ok_iff,
    fun fuel header nonce s target j k positive fewer wide => ?_⟩
  · rw [verifyRegime_eq_ok_iff]
    exact accepts_of_mineRounds positive mined
  · rw [verifyRegime_eq_ok_iff] at wide ⊢
    exact wide.narrower positive fewer

/-- Over an output of zeros the first candidate is found. -/
theorem zero_output_mined : let shake : Shake := fun _ _ _ => 0
    ∃ r, mine shake 1 1 [] 1 ⟨0, 1, 2, 1⟩ (fun _ => false) = some (.ok r) ∧
      verifyRegime shake 1 [] r.nonce r.solution 1 1 = some (.ok ()) := by
  intro shake
  have found : (mine shake 1 1 [] 1 ⟨0, 1, 2, 1⟩ (fun _ => false)).any Except.isOk = true := by decide +kernel
  simp only [Option.any_eq_true] at found
  obtain ⟨_ | r, mined, found⟩ := found
  · cases found
  exact ⟨r, mined, ((mined_solution_verifies shake).1 1 1 [] 1 ⟨0, 1, 2, 1⟩ _ r le_rfl mined).1⟩

end BlochPos.Pow
