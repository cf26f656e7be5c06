import BlochPos.Ustav.Amm

/-! What a swap pays: the price of the constant product after the fee, rounded in the pool's favour.
-/
namespace BlochPos.Amm

open Attempt

/-- What an amount is worth at given reserves, after the fee. -/
def quote (feeBps reserveIn reserveOut amount : ℕ) : ℕ :=
  amount * (BPS - feeBps) * reserveOut / (reserveIn * BPS + amount * (BPS - feeBps))

theorem quote_mul_le : quote f x y a * (x * BPS + a * (BPS - f)) ≤ a * (BPS - f) * y :=
  Nat.div_mul_le_self _ _

/-- More is quoted exactly when so much is covered. -/
theorem le_quote (held : 0 < x) (covered : out * (x * BPS + a * (BPS - f)) ≤ a * (BPS - f) * y) :
    out ≤ quote f x y a := by
  rw [quote, Nat.le_div_iff_mul_le]
  · exact covered
  · exact Nat.add_pos_left (Nat.mul_pos held (by decide)) _

theorem net_le (f a : ℕ) : a * (BPS - f) ≤ a * BPS := Nat.mul_le_mul_left a (Nat.sub_le _ _)

theorem quote_mono (held : 0 < x) (more : a ≤ b) : quote f x y a ≤ quote f x y b := by
  refine le_quote held ?_
  have paid : quote f x y a * (x * BPS + a * (BPS - f)) ≤ a * (BPS - f) * y := quote_mul_le
  obtain ⟨d, rfl⟩ := Nat.exists_eq_add_of_le more
  have within : quote f x y a ≤ y := Nat.div_le_of_le_mul (Nat.mul_le_mul_right y (Nat.le_add_left _ _))
  calc quote f x y a * (x * BPS + (a + d) * (BPS - f))
      = quote f x y a * (x * BPS + a * (BPS - f)) + quote f x y a * (d * (BPS - f)) := by ring
    _ ≤ a * (BPS - f) * y + y * (d * (BPS - f)) := Nat.add_le_add paid (Nat.mul_le_mul_right _ within)
    _ = (a + d) * (BPS - f) * y := by ring

theorem quote_split (held : 0 < x) (rest : left + quote f x y a = y) :
    quote f x y a + quote f (x + a) left b ≤ quote f x y (a + b) := by
  refine le_quote held ?_
  have first : quote f x y a * (x * BPS + a * (BPS - f)) ≤ a * (BPS - f) * y := quote_mul_le
  have second : quote f (x + a) left b * ((x + a) * BPS + b * (BPS - f)) ≤ b * (BPS - f) * left := quote_mul_le
  generalize quote f x y a = p at *
  generalize quote f (x + a) left b = q at *
  have net := Nat.mul_le_mul_left q (net_le f a)
  calc (p + q) * (x * BPS + (a + b) * (BPS - f))
      = p * (x * BPS + a * (BPS - f)) + p * (b * (BPS - f)) + q * (x * BPS + b * (BPS - f)) +
          q * (a * (BPS - f)) := by ring
    _ ≤ a * (BPS - f) * y + p * (b * (BPS - f)) + q * (x * BPS + b * (BPS - f)) + q * (a * BPS) := by omega
    _ = a * (BPS - f) * y + p * (b * (BPS - f)) + q * ((x + a) * BPS + b * (BPS - f)) := by ring
    _ ≤ a * (BPS - f) * y + p * (b * (BPS - f)) + b * (BPS - f) * left := by omega
    _ = (a + b) * (BPS - f) * y := by rw [← rest]; ring

theorem quote_backed (rest : left + quote f x y a = y) : quote f x y a * x * BPS ≤ a * (BPS - f) * left := by
  have paid : quote f x y a * (x * BPS + a * (BPS - f)) ≤ a * (BPS - f) * y := quote_mul_le
  generalize quote f x y a = p at *
  subst rest
  nlinarith

theorem quote_back (rest : left + quote f x y a = y) : quote f left (x + a) (quote f x y a) ≤ a := by
  have backed := quote_backed rest
  generalize quote f x y a = p at *
  rw [quote]
  refine Nat.div_le_of_le_mul ?_
  have net := Nat.mul_le_mul_right x (net_le f p)
  have net' := Nat.mul_le_mul_right left (net_le f a)
  calc p * (BPS - f) * (x + a) = p * (BPS - f) * x + p * (BPS - f) * a := by ring
    _ ≤ a * BPS * left + p * (BPS - f) * a := by
      refine Nat.add_le_add_right ?_ _
      calc p * (BPS - f) * x ≤ p * BPS * x := net
        _ = p * x * BPS := by ring
        _ ≤ a * (BPS - f) * left := backed
        _ ≤ a * BPS * left := net'
    _ = (left * BPS + p * (BPS - f)) * a := by ring

theorem quote_product (rest : left + quote f x y a = y) : x * y ≤ (x + a) * left := by
  have backed := quote_backed rest
  generalize quote f x y a = p at *
  subst rest
  have net := Nat.mul_le_mul_right left (net_le f a)
  have scaled : p * x * BPS ≤ a * left * BPS := by
    calc p * x * BPS ≤ a * BPS * left := backed.trans net
      _ = a * left * BPS := by ring
  have := Nat.le_of_mul_le_mul_right scaled (by decide)
  nlinarith

namespace PoolState

/-- An accepted swap of an amount of one side. -/
def Swaps (pool : PoolState) (inputIndex amount : ℕ) (t : Transition) : Prop :=
  ∃ request height minimumOut, request.action = .swapExactInput inputIndex amount minimumOut ∧
    pool.transition request height = .ok t

/-- What an accepted swap does. -/
structure Priced (pool : PoolState) (i : Fin 2) (amount : ℕ) (t : Transition) : Prop where
  held : ∀ j, 0 < pool.reserves j
  credit : t.userCredit (1 - i) = quote pool.feeBps (pool.reserves i) (pool.reserves (1 - i)) amount
  fee : t.next.feeBps = pool.feeBps
  paid : t.next.reserves i = pool.reserves i + amount
  left : t.next.reserves (1 - i) + t.userCredit (1 - i) = pool.reserves (1 - i)
  below : t.userCredit (1 - i) < pool.reserves (1 - i)

variable {pool : PoolState}

theorem eq_quote (kept : checkedSub BPS f = some fee) (net : checkedMul u128Max amount fee = some effective)
    (multiplied : checkedMul u128Max effective y = some numerator)
    (summed : (checkedMul u128Max x BPS).bind (checkedAdd u128Max · effective) = some denominator)
    (divided : checkedDiv numerator denominator = some quotient) (word : toU64 quotient = some out) :
    out = quote f x y amount := by
  obtain ⟨_, scaled, added⟩ := Option.bind_eq_some_iff.mp summed
  have fee_eq : fee = BPS - f := by
    have := checkedSub_eq_some kept
    omega
  obtain ⟨rfl, -⟩ := checkedMul_eq_some net
  obtain ⟨rfl, -⟩ := checkedMul_eq_some multiplied
  obtain ⟨rfl, -⟩ := checkedMul_eq_some scaled
  obtain ⟨rfl, -⟩ := checkedAdd_eq_some added
  obtain ⟨-, rfl⟩ := checkedDiv_eq_some divided
  rw [(toU64_eq_some word).1, quote, fee_eq]

theorem Swaps.priced (swaps : pool.Swaps inputIndex amount t) :
    inputIndex ≤ 1 ∧ Priced pool (Fin.ofNat 2 inputIndex) amount t := by
  obtain ⟨request, height, minimumOut, asked, done⟩ := swaps
  simp only [transition, asked, perform, swapExactInput, ok_iff, not_exists, not_or, not_le, not_lt] at done
  obtain ⟨-, -, -, _, ⟨⟨side, -⟩, full, fee, kept, effective, net, numerator, multiplied, denominator, summed,
    quotient, divided, out, word, ⟨-, below⟩, -, paidIn, added, left, taken, -, -, -, -, -, rfl⟩, revision, -, rfl⟩ :=
    done
  refine ⟨side, ?_⟩
  generalize Fin.ofNat 2 inputIndex = i at *
  obtain ⟨rfl, -⟩ := checkedAdd_eq_some added
  exact {
    held := fun j => Nat.pos_of_ne_zero (full j)
    credit := (Function.update_self _ _ _).trans (eq_quote kept net multiplied summed divided word)
    fee := rfl
    paid := by simp [Function.update_of_ne (side_ne_other i)]
    left := by simpa using checkedSub_eq_some taken
    below := by simpa using below }

theorem mul_sides (g : Fin 2 → ℕ) (i : Fin 2) : g 0 * g 1 = g i * g (1 - i) := by
  fin_cases i
  · rfl
  · exact Nat.mul_comm _ _

/-- The check of the product refuses nothing: the action is invalid only as it stands. -/
theorem swap_invalid (asked : request.action = .swapExactInput inputIndex amount minimumOut)
    (refused : pool.transition request height = .error .invalidAction) : 1 < inputIndex ∨ amount = 0 := by
  simp only [transition, asked, perform, swapExactInput, bind_eq_error_iff, refuse_eq_error_iff, orRefuse_eq_error_iff,
    ok_iff, reduceCtorEq, and_false, and_true, false_or, or_false, exists_false, pure, Except.pure] at refused
  obtain ⟨-, -, -, invalid | ⟨-, -, fee, kept, effective, net, numerator, multiplied, denominator, summed,
    quotient, divided, out,
    word, -, -, paidIn, added, left, taken, nextProduct, grown, previousProduct, before, falls⟩⟩ := refused
  · exact invalid
  · generalize Fin.ofNat 2 inputIndex = i at *
    obtain ⟨rfl, -⟩ := checkedMul_eq_some grown
    obtain ⟨rfl, -⟩ := checkedMul_eq_some before
    obtain ⟨rfl, -⟩ := checkedAdd_eq_some added
    have rest := checkedSub_eq_some taken
    rw [eq_quote kept net multiplied summed divided word] at rest
    rw [mul_sides _ i, mul_sides pool.reserves i, Function.update_of_ne (side_ne_other i), Function.update_self,
      Function.update_self] at falls
    exact absurd falls (not_lt.mpr (quote_product rest))

/-- A swap pays the price of the constant product after the fee, rounded down and below the reserve, and
more for more. In two parts it pays no more than at once, and what it pays buys back no more than was paid
in. -/
theorem swap_priced_for_pool (pool : PoolState) :
    (∀ inputIndex amount t, pool.Swaps inputIndex amount t →
      let i : Fin 2 := Fin.ofNat 2 inputIndex
      t.userCredit (1 - i) = amount * (BPS - pool.feeBps) * pool.reserves (1 - i) /
          (pool.reserves i * BPS + amount * (BPS - pool.feeBps)) ∧
        t.userCredit (1 - i) < pool.reserves (1 - i)) ∧
    (∀ inputIndex a b t u, a ≤ b → pool.Swaps inputIndex a t → pool.Swaps inputIndex b u →
      t.userCredit (1 - Fin.ofNat 2 inputIndex) ≤ u.userCredit (1 - Fin.ofNat 2 inputIndex)) ∧
    (∀ request height inputIndex amount minimumOut,
      request.action = .swapExactInput inputIndex amount minimumOut →
      pool.transition request height = .error .invalidAction → 1 < inputIndex ∨ amount = 0) ∧
    (∀ inputIndex a b t u v, pool.Swaps inputIndex a t → t.next.Swaps inputIndex b u →
      pool.Swaps inputIndex (a + b) v →
      t.userCredit (1 - Fin.ofNat 2 inputIndex) + u.userCredit (1 - Fin.ofNat 2 inputIndex) ≤
        v.userCredit (1 - Fin.ofNat 2 inputIndex)) ∧
    ∀ inputIndex amount t u, pool.Swaps inputIndex amount t →
      t.next.Swaps (1 - inputIndex) (t.userCredit (1 - Fin.ofNat 2 inputIndex)) u →
      u.userCredit (Fin.ofNat 2 inputIndex) ≤ amount := by
  refine ⟨fun inputIndex amount t swaps => ?_, fun inputIndex a b t u more first second => ?_,
    fun _ _ _ _ _ asked refused => swap_invalid asked refused, fun inputIndex a b t u v first second whole => ?_,
    fun inputIndex amount t u there back => ?_⟩
  · exact ⟨swaps.priced.2.credit, swaps.priced.2.below⟩
  · rw [first.priced.2.credit, second.priced.2.credit]
    exact quote_mono (first.priced.2.held _) more
  · have one := first.priced.2
    have rest := one.left
    rw [one.credit] at rest
    rw [one.credit, second.priced.2.credit, whole.priced.2.credit, one.fee, one.paid]
    exact quote_split (one.held _) rest
  · obtain ⟨side, priced⟩ := there.priced
    have returned := back.priced.2
    have other : Fin.ofNat 2 (1 - inputIndex) = 1 - Fin.ofNat 2 inputIndex := by
      interval_cases inputIndex <;> rfl
    have again : (1 : Fin 2) - (1 - Fin.ofNat 2 inputIndex) = Fin.ofNat 2 inputIndex := sub_sub_cancel _ _
    have credit := returned.credit
    rw [other, again, priced.fee, priced.paid, priced.credit] at credit
    have rest := priced.left
    rw [priced.credit] at rest
    exact credit.trans_le (quote_back rest)

def trySwap (pool : PoolState) (inputIndex amount : ℕ) : Option Transition :=
  (pool.transition ⟨pool.id, pool.revision, 0, .swapExactInput inputIndex amount 1⟩ 0).toOption

theorem swaps_of_trySwap (tried : trySwap pool inputIndex amount = some t) : pool.Swaps inputIndex amount t :=
  ⟨_, _, _, rfl, toOption_eq_some_iff.mp tried⟩

/-- A thousand in two parts and at once, and the first part swapped back. -/
theorem sample_swapped : let pool := sample ![4000, 9000] 6000 1
    ∃ t u v w, pool.Swaps 0 600 t ∧ t.next.Swaps 0 400 u ∧ pool.Swaps 0 1000 v ∧
      t.next.Swaps 1 (t.userCredit 1) w ∧ t.userCredit 1 + u.userCredit 1 ≤ v.userCredit 1 ∧ w.userCredit 0 ≤ 600 := by
  intro pool
  have all : (trySwap pool 0 600).any (fun t => (trySwap t.next 0 400).isSome ∧ (trySwap pool 0 1000).isSome ∧
      (trySwap t.next 1 (t.userCredit 1)).isSome) = true := by decide +kernel
  simp only [Option.any_eq_true, decide_eq_true_eq, Option.isSome_iff_exists] at all
  obtain ⟨t, first, ⟨u, second⟩, ⟨v, whole⟩, w, back⟩ := all
  have first := swaps_of_trySwap first
  have second := swaps_of_trySwap second
  have whole := swaps_of_trySwap whole
  have back := swaps_of_trySwap back
  obtain ⟨-, -, -, split, returns⟩ := swap_priced_for_pool pool
  exact ⟨t, u, v, w, first, second, whole, back, split 0 600 400 t u v first second whole, returns 0 600 t w first back⟩

end PoolState

end BlochPos.Amm
