import BlochPos.Crypto

/-! Difficulty targets in compact form: an exponent that counts bytes and a signed mantissa of three
bytes. A target is its 32 bytes, the most significant first. -/
namespace BlochPos.Pow

open List

inductive BitsError where
  | negativeFlag | zeroMantissa | mantissaOverflow
  | exponentOutOfRange (exponent : ℕ)
deriving DecidableEq

/-- The three bytes of a mantissa with the lowest at a position; none is written above the first. -/
def placeMantissa (pos m : ℕ) : Bytes := (replicate pos 0 ++ beBytes 3 m ++ replicate (31 - pos) 0).drop 2

def tryBitsToTarget (bits : ℕ) : Except BitsError Bytes32 :=
  let exponent := bits / 2 ^ 24
  let mantissa := bits % 2 ^ 23
  if bits / 2 ^ 23 % 2 ≠ 0 then .error .negativeFlag
  else if mantissa = 0 then .error .zeroMantissa
  else if exponent ≤ 3 then .ok (toHash (placeMantissa 31 (mantissa / 256 ^ (3 - exponent))))
  else if 31 < exponent - 3 then .error (.exponentOutOfRange exponent)
  else
    let pos := 31 - (exponent - 3)
    if (pos < 2 ∧ mantissa / 256 ^ 2 ≠ 0) ∨ (pos < 1 ∧ mantissa / 256 % 256 ≠ 0) then .error .mantissaOverflow
    else .ok (toHash (placeMantissa pos mantissa))

def bitsToTarget (bits : ℕ) : Bytes32 :=
  match tryBitsToTarget bits with
  | .ok t => t
  | .error _ => 0

/-- Bytes past the end of a target count as zero. -/
def targetToBits (t : Bytes32) : ℕ :=
  match (hashBytes t).dropWhile (· = 0) with
  | [] => 0
  | m0 :: rest =>
    let exponent := rest.length + 1
    let mantissa := ofBeBytes ((m0 :: rest ++ [0, 0]).take 3)
    if mantissa / 2 ^ 23 % 2 ≠ 0 then (exponent + 1) * 2 ^ 24 + mantissa / 256 % 2 ^ 23
    else exponent * 2 ^ 24 + mantissa % 2 ^ 23

/-- Whether a hash is below a target, byte by byte. -/
def meetsBytes : Bytes → Bytes → Bool
  | h :: hash, t :: target => if h < t then true else if t < h then false else meetsBytes hash target
  | _, _ => false

def hashMeetsTarget (hash : Bytes) (target : Bytes32) : Bool := meetsBytes hash (hashBytes target)

variable {a b : Bytes} {t u : Bytes32} {m pos bits : ℕ}

theorem ofLeBytes_append : ofLeBytes (a ++ b) = ofLeBytes a + 256 ^ a.length * ofLeBytes b := by
  induction a with
  | nil => simp [ofLeBytes]
  | cons x rest ih =>
    rw [cons_append, ofLeBytes, ih, ofLeBytes, length_cons, pow_succ]
    ring

theorem ofBeBytes_append : ofBeBytes (a ++ b) = ofBeBytes a * 256 ^ b.length + ofBeBytes b := by
  rw [ofBeBytes, reverse_append, ofLeBytes_append, length_reverse, ofBeBytes, ofBeBytes]
  ring

theorem ofBeBytes_cons (x : UInt8) : ofBeBytes (x :: b) = x.toNat * 256 ^ b.length + ofBeBytes b := by
  rw [← singleton_append, ofBeBytes_append]
  rfl

theorem ofBeBytes_lt (b : Bytes) : ofBeBytes b < 256 ^ b.length :=
  (ofLeBytes_lt b.reverse).trans_eq (by rw [length_reverse])

theorem ofBeBytes_replicate (k : ℕ) : ofBeBytes (replicate k 0) = 0 := by
  induction k with
  | zero => rfl
  | succ k ih => simp [replicate_succ, ofBeBytes_cons, ih]

theorem val_toHash (size : b.length = 32) : (toHash b).val = ofBeBytes b :=
  Nat.mod_eq_of_lt ((ofBeBytes_lt b).trans_eq (by rw [size]; rfl))

theorem ofBeBytes_hashBytes (t : Bytes32) : ofBeBytes (hashBytes t) = t.val := by
  rw [← val_toHash (length_hashBytes t), toHash_hashBytes]

def compactValue (bits : ℕ) : ℕ := bits % 2 ^ 23 * 256 ^ (bits / 2 ^ 24) / 256 ^ 3

theorem length_placeMantissa (inside : pos ≤ 31) : (placeMantissa pos m).length = 32 := by
  simp only [placeMantissa, length_drop, length_append, length_replicate, beBytes, length_reverse, length_leBytes]
  omega

theorem val_placeMantissa (pos : ℕ) (inside : pos ≤ 31) (small : m < 256 ^ 3) (fits : m * 256 ^ (31 - pos) < 256 ^ 32) :
    (toHash (placeMantissa pos m)).val = m * 256 ^ (31 - pos) := by
  rw [val_toHash (length_placeMantissa inside)]
  have whole : ofBeBytes (replicate pos 0 ++ beBytes 3 m ++ replicate (31 - pos) 0) = m * 256 ^ (31 - pos) := by
    rw [ofBeBytes_append, ofBeBytes_append, ofBeBytes_replicate, ofBeBytes_replicate, length_replicate, beBytes,
      ofBeBytes, reverse_reverse, ofLeBytes_leBytes small, zero_mul, zero_add, add_zero]
  have split := ofBeBytes_append (a := (replicate pos 0 ++ beBytes 3 m ++ replicate (31 - pos) 0).take 2)
    (b := placeMantissa pos m)
  rw [placeMantissa, take_append_drop, whole, ← placeMantissa, length_placeMantissa inside] at split
  rw [split] at fits ⊢
  have none : ofBeBytes ((replicate pos 0 ++ beBytes 3 m ++ replicate (31 - pos) 0).take 2) = 0 := by
    by_contra some
    exact absurd fits (not_lt.mpr (Nat.le_add_right_of_le (Nat.le_mul_of_pos_left _ (Nat.pos_of_ne_zero some))))
  omega

theorem fits_iff (pos : ℕ) (inside : pos ≤ 31) (small : m < 256 ^ 3) :
    m * 256 ^ (31 - pos) < 256 ^ 32 ↔ ¬ ((pos < 2 ∧ m / 256 ^ 2 ≠ 0) ∨ (pos < 1 ∧ m / 256 % 256 ≠ 0)) := by
  have power : 256 ^ 32 = 256 ^ (pos + 1) * 256 ^ (31 - pos) := by
    rw [← pow_add]
    congr 1
    omega
  rw [power, Nat.mul_lt_mul_right (by positivity)]
  rcases pos with _ | _ | k
  · omega
  · omega
  · have high : m < 256 ^ (k + 1 + 1 + 1) := small.trans_le (Nat.pow_le_pow_right (by decide) (by omega))
    exact iff_of_true high (by omega)

/-- The decoder answers exactly when the value fits a target, and with that value. -/
theorem tryBitsToTarget_eq_ok_iff : tryBitsToTarget bits = .ok u ↔
    bits / 2 ^ 23 % 2 = 0 ∧ bits % 2 ^ 23 ≠ 0 ∧ u.val = compactValue bits := by
  unfold tryBitsToTarget compactValue
  generalize bits / 2 ^ 24 = e
  have small : bits % 2 ^ 23 < 256 ^ 3 := (Nat.mod_lt _ (by decide)).trans (by decide)
  generalize bits % 2 ^ 23 = m at small
  dsimp only
  by_cases negative : bits / 2 ^ 23 % 2 ≠ 0
  · rw [if_pos negative]
    exact iff_of_false (by simp) (fun ok => negative ok.1)
  rw [if_neg negative]
  rw [not_not] at negative
  by_cases zero : m = 0
  · simp [zero]
  rw [if_neg zero]
  simp only [negative, zero, ne_eq, not_false_eq_true, true_and]
  by_cases low : e ≤ 3
  · have power : 256 ^ 3 = 256 ^ (3 - e) * 256 ^ e := by rw [← pow_add, Nat.sub_add_cancel low]
    have less : m / 256 ^ (3 - e) < 256 ^ 3 := (Nat.div_le_self ..).trans_lt small
    have value := val_placeMantissa 31 le_rfl less (by omega)
    rw [if_pos low, Except.ok.injEq, power, Nat.mul_div_mul_right _ _ (by positivity), Fin.ext_iff, value,
      Nat.sub_self, pow_zero, mul_one]
    exact eq_comm
  · have power : 256 ^ e = 256 ^ (e - 3) * 256 ^ 3 := by rw [← pow_add, Nat.sub_add_cancel (by omega)]
    have bound := u.isLt
    rw [if_neg low, power, ← mul_assoc, Nat.mul_div_cancel _ (by positivity)]
    by_cases high : 31 < e - 3
    · have large : 256 ^ 32 ≤ m * 256 ^ (e - 3) :=
        (Nat.pow_le_pow_right (by decide) high).trans (Nat.le_mul_of_pos_left _ (Nat.pos_of_ne_zero zero))
      rw [if_pos high]
      exact iff_of_false (by simp) (by omega)
    · have room := fits_iff (31 - (e - 3)) (by omega) small
      have value := val_placeMantissa (31 - (e - 3)) (by omega) small
      rw [Nat.sub_sub_self (by omega)] at room value
      rw [if_neg high]
      split_ifs with spills
      · have large := mt room.mp (not_not.mpr spills)
        exact iff_of_false (by simp) (by omega)
      · rw [Except.ok.injEq, Fin.ext_iff, value (room.mpr spills)]
        exact eq_comm

theorem exists_top (nonzero : ofBeBytes b ≠ 0) : ∃ z top rest, b = replicate z 0 ++ top :: rest ∧ top ≠ 0 := by
  induction b with
  | nil => exact absurd rfl nonzero
  | cons x tail ih =>
    by_cases zero : x = 0
    · have later : ofBeBytes tail ≠ 0 := by simpa [zero, ofBeBytes_cons] using nonzero
      obtain ⟨z, top, rest, rfl, significant⟩ := ih later
      exact ⟨z + 1, top, rest, by rw [zero]; rfl, significant⟩
    · exact ⟨0, x, tail, rfl, zero⟩

theorem ofBeBytes_take (l : Bytes) (k : ℕ) : ofBeBytes (l.take k) = ofBeBytes l / 256 ^ (l.length - k) := by
  have split := ofBeBytes_append (a := l.take k) (b := l.drop k)
  have small := ofBeBytes_lt (l.drop k)
  rw [take_append_drop, length_drop] at split
  rw [length_drop] at small
  rw [split, mul_comm, Nat.mul_add_div (by positivity), Nat.div_eq_of_lt small, add_zero]

/-- The leading three bytes of a number. -/
def lead (l : Bytes) : ℕ := ofBeBytes ((l ++ [0, 0]).take 3)

theorem lead_eq (top : UInt8) (rest : Bytes) :
    lead (top :: rest) = ofBeBytes (top :: rest) * 256 ^ 2 / 256 ^ rest.length := by
  have shifted : ofBeBytes (top :: rest ++ [0, 0]) = ofBeBytes (top :: rest) * 256 ^ 2 := by
    have zeros : ofBeBytes [0, 0] = 0 := ofBeBytes_replicate 2
    rw [ofBeBytes_append, zeros, add_zero, length_cons, length_singleton]
  have dropped : rest.length + 1 + 2 - 3 = rest.length := by omega
  rw [lead, ofBeBytes_take, shifted, length_append, length_cons, length_cons, length_singleton, dropped]

theorem lead_half (top : UInt8) (rest : Bytes) :
    lead (top :: rest) / 256 = ofBeBytes (top :: rest) * 256 ^ 1 / 256 ^ rest.length := by
  rw [lead_eq, Nat.div_div_eq_div_mul, pow_succ 256 1, ← mul_assoc, Nat.mul_div_mul_right _ _ (by decide)]

theorem lead_div (top : UInt8) (rest : Bytes) : lead (top :: rest) / 256 ^ 2 = top.toNat := by
  rw [lead_eq, Nat.div_div_eq_div_mul, Nat.mul_div_mul_right _ _ (by decide), ofBeBytes_cons, mul_comm,
    Nat.mul_add_div (by positivity), Nat.div_eq_of_lt (ofBeBytes_lt rest), add_zero]

section Split

variable {z : ℕ} {top : UInt8} {rest : Bytes}

theorem targetToBits_eq (bytes : hashBytes t = replicate z 0 ++ top :: rest) (significant : top ≠ 0) :
    targetToBits t =
      if top < 0x80 then (rest.length + 1) * 2 ^ 24 + lead (top :: rest)
      else (rest.length + 2) * 2 ^ 24 + lead (top :: rest) / 256 := by
  have dropped : (hashBytes t).dropWhile (· = 0) = top :: rest := by
    rw [bytes, dropWhile_append_of_pos (by simp), dropWhile_cons_of_neg (by simpa using significant)]
  have high := lead_div top rest
  have small := top.toNat_lt
  rw [targetToBits, dropped]
  simp only [UInt8.lt_iff_toNat_lt, UInt8.reduceToNat]
  rw [← lead]
  split_ifs <;> omega

end Split

/-- A number with all but its leading bytes zeroed. -/
def trim (k : ℕ) (l : Bytes) : Bytes := l.take k ++ replicate (l.length - k) 0

def roundDown (d v : ℕ) : ℕ := v / 256 ^ d * 256 ^ d

theorem ofBeBytes_trim (k : ℕ) (l : Bytes) : ofBeBytes (trim k l) = roundDown (l.length - k) (ofBeBytes l) := by
  rw [trim, ofBeBytes_append, ofBeBytes_take, ofBeBytes_replicate, length_replicate, add_zero, roundDown]

theorem length_trim (k : ℕ) (l : Bytes) : (trim k l).length = l.length := by
  rw [trim, length_append, length_take, length_replicate]
  omega

theorem scaled (v n j : ℕ) : v * 256 ^ j / 256 ^ n * 256 ^ n / 256 ^ j = roundDown (n - j) v ∧
    roundDown (n - j) v * 256 ^ j / 256 ^ n = v * 256 ^ j / 256 ^ n := by
  unfold roundDown
  rcases le_total j n with kept | short
  · have power : 256 ^ n = 256 ^ (n - j) * 256 ^ j := by rw [← pow_add, Nat.sub_add_cancel kept]
    rw [power, Nat.mul_div_mul_right _ _ (by positivity), ← mul_assoc, Nat.mul_div_cancel _ (by positivity),
      Nat.mul_div_mul_right _ _ (by positivity), Nat.mul_div_cancel _ (by positivity)]
    exact ⟨rfl, rfl⟩
  · have power : 256 ^ j = 256 ^ (j - n) * 256 ^ n := by rw [← pow_add, Nat.sub_add_cancel short]
    rw [Nat.sub_eq_zero_of_le short, pow_zero, Nat.div_one, mul_one, power, ← mul_assoc,
      Nat.mul_div_cancel _ (by positivity), mul_assoc, ← power, Nat.mul_div_cancel _ (by positivity)]
    exact ⟨rfl, rfl⟩

section Split

variable {z : ℕ} {top : UInt8} {rest : Bytes}

/-- How many bytes a mantissa keeps: a third one would set its sign bit. -/
def kept (top : UInt8) : ℕ := if top < 0x80 then 3 else 2

theorem decode_encode (bytes : hashBytes t = replicate z 0 ++ top :: rest) (significant : top ≠ 0)
    (rounded : hashBytes u = replicate z 0 ++ trim (kept top) (top :: rest)) :
    tryBitsToTarget (targetToBits t) = .ok u := by
  have high := lead_div top rest
  have small := top.toNat_lt
  have nonzero : top.toNat ≠ 0 := fun zero => significant (UInt8.toNat_inj.mp zero)
  rw [tryBitsToTarget_eq_ok_iff, targetToBits_eq bytes significant, compactValue, ← ofBeBytes_hashBytes, rounded,
    ofBeBytes_append, ofBeBytes_replicate, zero_mul, zero_add, ofBeBytes_trim, kept]
  simp only [UInt8.lt_iff_toNat_lt, UInt8.reduceToNat]
  split_ifs with low
  · have mantissa : ((rest.length + 1) * 2 ^ 24 + lead (top :: rest)) % 2 ^ 23 = lead (top :: rest) := by omega
    have exponent : ((rest.length + 1) * 2 ^ 24 + lead (top :: rest)) / 2 ^ 24 = rest.length + 1 := by omega
    refine ⟨by omega, by omega, ?_⟩
    rw [mantissa, exponent, pow_succ, ← mul_assoc, pow_succ 256 2, Nat.mul_div_mul_right _ _ (by decide), lead_eq,
      (scaled _ _ 2).1]
    rfl
  · have mantissa : ((rest.length + 2) * 2 ^ 24 + lead (top :: rest) / 256) % 2 ^ 23 = lead (top :: rest) / 256 := by
      omega
    have exponent : ((rest.length + 2) * 2 ^ 24 + lead (top :: rest) / 256) / 2 ^ 24 = rest.length + 2 := by omega
    refine ⟨by omega, by omega, ?_⟩
    rw [mantissa, exponent, pow_add, ← mul_assoc, pow_succ' 256 2, Nat.mul_div_mul_right _ _ (by decide), lead_half]
    exact (scaled _ _ 1).1.symm

theorem trim_cons : trim (kept top) (top :: rest) = top :: trim (kept top - 1) rest := by
  unfold kept
  split_ifs <;> simp [trim]

/-- Encoding the decoded target again gives the same bits. -/
theorem encode_again (bytes : hashBytes t = replicate z 0 ++ top :: rest) (significant : top ≠ 0)
    (rounded : hashBytes u = replicate z 0 ++ trim (kept top) (top :: rest)) : targetToBits u = targetToBits t := by
  have value := ofBeBytes_trim (kept top) (top :: rest)
  rw [trim_cons] at rounded value
  rw [targetToBits_eq rounded significant, targetToBits_eq bytes significant, length_trim, lead_half, lead_half,
    lead_eq, lead_eq, length_trim, value, length_cons, kept]
  split_ifs
  · exact congrArg _ (scaled _ _ 2).2
  · exact congrArg _ (scaled _ _ 1).2

theorem val_of_bytes (bytes : hashBytes t = replicate z 0 ++ top :: rest) : t.val = ofBeBytes (top :: rest) := by
  rw [← ofBeBytes_hashBytes, bytes, ofBeBytes_append, ofBeBytes_replicate, zero_mul, zero_add]

end Split

theorem exists_top_of_ne_zero (nonzero : t ≠ 0) :
    ∃ z top rest, hashBytes t = replicate z 0 ++ top :: rest ∧ top ≠ 0 := by
  refine exists_top (fun zero => nonzero (Fin.ext ?_))
  rw [← ofBeBytes_hashBytes, zero]
  rfl

theorem targetToBits_mono (le : t ≤ u) : targetToBits t ≤ targetToBits u := by
  by_cases zero : t = 0
  · have least : targetToBits 0 = 0 := by decide
    rw [zero, least]
    exact Nat.zero_le _
  have later : u ≠ 0 := fun none => zero (Fin.le_zero_iff.mp (none ▸ le))
  obtain ⟨z, top, rest, bytes, significant⟩ := exists_top_of_ne_zero zero
  obtain ⟨z', top', rest', bytes', significant'⟩ := exists_top_of_ne_zero later
  rw [Fin.le_def, val_of_bytes bytes, val_of_bytes bytes'] at le
  have high := lead_div top rest
  have high' := lead_div top' rest'
  have nonzero : top.toNat ≠ 0 := fun zero => significant (UInt8.toNat_inj.mp zero)
  have nonzero' : top'.toNat ≠ 0 := fun zero => significant' (UInt8.toNat_inj.mp zero)
  have small := top.toNat_lt
  have small' := top'.toNat_lt
  have size : rest.length < rest'.length + 1 := by
    refine (Nat.pow_lt_pow_iff_right (a := 256) (by decide)).mp ?_
    calc 256 ^ rest.length ≤ top.toNat * 256 ^ rest.length := Nat.le_mul_of_pos_left _ (Nat.pos_of_ne_zero nonzero)
      _ ≤ ofBeBytes (top :: rest) := by rw [ofBeBytes_cons]; exact Nat.le_add_right ..
      _ ≤ ofBeBytes (top' :: rest') := le
      _ < 256 ^ (rest'.length + 1) := ofBeBytes_lt _
  have order : rest.length = rest'.length → lead (top :: rest) ≤ lead (top' :: rest') := by
    intro same
    rw [lead_eq, lead_eq, same]
    exact Nat.div_le_div_right (Nat.mul_le_mul_right _ le)
  rw [targetToBits_eq bytes significant, targetToBits_eq bytes' significant']
  simp only [UInt8.lt_iff_toNat_lt, UInt8.reduceToNat]
  split_ifs <;> omega

theorem bitsToTarget_of_not_ok (refused : ∀ u, tryBitsToTarget bits ≠ .ok u) : bitsToTarget bits = 0 := by
  unfold bitsToTarget
  split
  · exact absurd ‹_› (refused _)
  · rfl

theorem meetsBytes_replicate (hash : Bytes) (k : ℕ) : meetsBytes hash (replicate k 0) = false := by
  induction k generalizing hash with
  | zero => cases hash <;> rfl
  | succ k ih =>
    cases hash with
    | nil => rfl
    | cons h rest =>
      rw [replicate_succ, meetsBytes, if_neg UInt8.not_lt_zero, ih]
      exact ite_self _

theorem round_down (nonzero : t ≠ 0) : ∃ z top rest u, hashBytes t = replicate z 0 ++ top :: rest ∧ top ≠ 0 ∧
    tryBitsToTarget (targetToBits t) = .ok u ∧ hashBytes u = replicate z 0 ++ trim (kept top) (top :: rest) ∧
    u ≤ t ∧ targetToBits u = targetToBits t := by
  obtain ⟨z, top, rest, bytes, significant⟩ := exists_top_of_ne_zero nonzero
  have size : (replicate z 0 ++ trim (kept top) (top :: rest)).length = 32 := by
    rw [length_append, length_trim, ← length_append, ← bytes, length_hashBytes]
  have rounded := hashBytes_toHash size
  refine ⟨z, top, rest, _, bytes, significant, decode_encode bytes significant rounded, rounded, ?_,
    encode_again bytes significant rounded⟩
  rw [Fin.le_def, val_of_bytes bytes, ← ofBeBytes_hashBytes, rounded, ofBeBytes_append, ofBeBytes_replicate, zero_mul,
    zero_add, ofBeBytes_trim]
  exact Nat.div_mul_le_self ..

theorem targetToBits_bitsToTarget (t : Bytes32) :
    targetToBits (bitsToTarget (targetToBits t)) = targetToBits t := by
  by_cases zero : t = 0
  · rw [zero]
    decide
  · obtain ⟨_, _, _, u, _, _, ok, _, _, again⟩ := round_down zero
    rw [bitsToTarget, ok]
    exact again

/-- Two targets out of order after decoding would have the same bits, and so be one target. -/
theorem decoded_mono (le : t ≤ u) : bitsToTarget (targetToBits t) ≤ bitsToTarget (targetToBits u) := by
  by_contra greater
  have back := targetToBits_mono (le_of_not_ge greater)
  rw [targetToBits_bitsToTarget, targetToBits_bitsToTarget] at back
  rw [(targetToBits_mono le).antisymm back] at greater
  exact greater le_rfl

/-- Compact bits round a target down to its leading bytes, decode to the value they name or to a target no
hash is below, and keep the order of targets. -/
theorem compact_bits_round_down :
    (∀ t : Bytes32, t ≠ 0 → ∃ z top rest u, hashBytes t = replicate z 0 ++ top :: rest ∧ top ≠ 0 ∧
      tryBitsToTarget (targetToBits t) = .ok u ∧ hashBytes u = replicate z 0 ++ trim (kept top) (top :: rest) ∧
      u ≤ t ∧ targetToBits u = targetToBits t) ∧
    (∀ bits u, tryBitsToTarget bits = .ok u ↔
      bits / 2 ^ 23 % 2 = 0 ∧ bits % 2 ^ 23 ≠ 0 ∧ u.val = compactValue bits) ∧
    (∀ bits, (∀ u, tryBitsToTarget bits ≠ .ok u) → ∀ hash, hashMeetsTarget hash (bitsToTarget bits) = false) ∧
    (∀ t u, t ≤ u → targetToBits t ≤ targetToBits u ∧
      bitsToTarget (targetToBits t) ≤ bitsToTarget (targetToBits u)) := by
  refine ⟨fun t => round_down, fun bits u => tryBitsToTarget_eq_ok_iff, ?_,
    fun t u le => ⟨targetToBits_mono le, decoded_mono le⟩⟩
  intro bits refused hash
  rw [bitsToTarget_of_not_ok refused]
  exact meetsBytes_replicate hash 32

end BlochPos.Pow
