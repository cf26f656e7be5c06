import BlochPos.Committees
import BlochPos.Lib.Run

/-! The chain of reveals behind the beacon: a producer walks its chain down, the network keeps the
last value seen. -/
namespace BlochPos

/-- A producer's chain, the seed first and the commitment last. -/
structure RandaoChain where
  values : List Bytes32
  revealed : ℕ
  size : values.length = RANDAO_CHAIN_LENGTH + 1

namespace RandaoChain

def generate (c : Crypto) (seed : Bytes32) : RandaoChain :=
  ⟨.iterate (chainStep c) seed (RANDAO_CHAIN_LENGTH + 1), 0, List.length_iterate _ _ _⟩

def commitment (chain : RandaoChain) : Bytes32 :=
  chain.values.get ⟨RANDAO_CHAIN_LENGTH, by rw [chain.size]; exact Nat.lt_succ_self _⟩

def peekReveal (chain : RandaoChain) : Option Bytes32 :=
  if RANDAO_CHAIN_LENGTH ≤ chain.revealed then none
  else do
    let idx ← checkedSub (RANDAO_CHAIN_LENGTH - 1) chain.revealed
    chain.values[idx]?

def nextReveal (chain : RandaoChain) : Option (Bytes32 × RandaoChain) := do
  let reveal ← chain.peekReveal
  some (reveal, { chain with revealed := chain.revealed + 1 })

end RandaoChain

def RevealState.register (c0 : Bytes32) : RevealState := ⟨c0, 0⟩

/-- A reveal the network accepts. -/
def Reveals (c : Crypto) (state : RevealState) (reveal : Bytes32) (next : RevealState) : Prop :=
  state.verifyAndAdvance c reveal = .ok next

/-- A producer's next reveal, accepted. -/
def Proposes (c : Crypto) (s : RandaoChain × RevealState) (reveal : Bytes32) (t : RandaoChain × RevealState) : Prop :=
  s.1.nextReveal = some (reveal, t.1) ∧ Reveals c s.2 reveal t.2

section

variable {c : Crypto} {seed : Bytes32}

theorem reveals_iff : Reveals c state reveal next ↔ state.revealsUsed < RANDAO_CHAIN_LENGTH ∧
    chainStep c reveal = state.commitment ∧ next = ⟨reveal, state.revealsUsed + 1⟩ := by
  unfold Reveals RevealState.verifyAndAdvance
  split_ifs with spent other
  · simp [spent]
  · simp [other]
  · simp [not_le.mp spent, not_not.mp other, eq_comm]

def walked (c : Crypto) (seed : Bytes32) (n : ℕ) : RandaoChain × RevealState :=
  ({ RandaoChain.generate c seed with revealed := n }, ⟨(chainStep c)^[RANDAO_CHAIN_LENGTH - n] seed, n⟩)

theorem walked_zero : walked c seed 0 =
    (RandaoChain.generate c seed, .register (RandaoChain.generate c seed).commitment) := by
  simp only [walked, RandaoChain.commitment, RevealState.register, RandaoChain.generate, List.get_eq_getElem,
    List.getElem_iterate, Nat.sub_zero]

theorem nextReveal_walked (short : n < RANDAO_CHAIN_LENGTH) : (walked c seed n).1.nextReveal =
    some ((chainStep c)^[RANDAO_CHAIN_LENGTH - (n + 1)] seed, (walked c seed (n + 1)).1) := by
  have index : checkedSub (RANDAO_CHAIN_LENGTH - 1) n = some (RANDAO_CHAIN_LENGTH - (n + 1)) := by
    rw [checkedSub, if_pos (by omega), Nat.sub_sub, Nat.add_comm]
  have value : (RandaoChain.generate c seed).values[RANDAO_CHAIN_LENGTH - (n + 1)]? =
      some ((chainStep c)^[RANDAO_CHAIN_LENGTH - (n + 1)] seed) :=
    List.getElem?_iterate _ _ _ _ (by omega)
  simp [RandaoChain.nextReveal, RandaoChain.peekReveal, walked, not_le.mpr short, index, value]

theorem proposes_walked (short : n < RANDAO_CHAIN_LENGTH) :
    Proposes c (walked c seed n) ((chainStep c)^[RANDAO_CHAIN_LENGTH - (n + 1)] seed) (walked c seed (n + 1)) := by
  refine ⟨nextReveal_walked short, reveals_iff.mpr ⟨short, ?_, rfl⟩⟩
  rw [← Function.iterate_succ_apply' (chainStep c), walked]
  congr 2
  omega

theorem nextReveal_spent : (walked c seed RANDAO_CHAIN_LENGTH).1.nextReveal = none := by
  simp [RandaoChain.nextReveal, RandaoChain.peekReveal, walked]

theorem eq_walked_of_run (run : Run (Proposes c) (walked c seed 0) reveals t) :
    reveals.length ≤ RANDAO_CHAIN_LENGTH ∧ t = walked c seed reveals.length := by
  refine run.history (P := fun reveals t => reveals.length ≤ RANDAO_CHAIN_LENGTH ∧ t = walked c seed reveals.length)
    ⟨Nat.zero_le _, rfl⟩ ?_
  rintro before _ reveal ⟨chain, state⟩ - ⟨within, rfl⟩ ⟨next, accepted⟩
  rw [List.length_append, List.length_singleton]
  obtain short | spent := within.lt_or_eq
  · rw [nextReveal_walked short] at next
    obtain ⟨rfl, rfl⟩ := Prod.ext_iff.mp (Option.some.inj next)
    obtain ⟨-, -, rfl⟩ := reveals_iff.mp accepted
    exact ⟨short, rfl⟩
  · simp [spent, nextReveal_spent] at next

end

/-- A producer that commits to the end of its chain is accepted once for every link and then no more. Where
a step has one preimage at most, what may be revealed after a commitment is one sequence. -/
theorem reveals_follow_one_chain (c : Crypto) :
    (∀ seed, let chain := RandaoChain.generate c seed
      (∀ n, n ≤ RANDAO_CHAIN_LENGTH ↔ ∃ reveals t, reveals.length = n ∧
        Run (Proposes c) (chain, .register chain.commitment) reveals t) ∧
      ∀ reveals t, Run (Proposes c) (chain, .register chain.commitment) reveals t →
        reveals.length = RANDAO_CHAIN_LENGTH →
        t.1.nextReveal = none ∧ ∀ reveal, t.2.verifyAndAdvance c reveal = .error .chainExhausted) ∧
    (Function.Injective (chainStep c) → ∀ start reveals reveals' t t', Run (Reveals c) start reveals t →
      Run (Reveals c) start reveals' t' → reveals <+: reveals' ∨ reveals' <+: reveals) := by
  refine ⟨fun seed => ⟨fun n => ⟨fun within => ?_, ?_⟩, fun reveals t run all => ?_⟩, ?_⟩
  · rw [← walked_zero]
    induction n with
    | zero => exact ⟨[], _, rfl, .nil _⟩
    | succ n ih =>
      obtain ⟨reveals, t, rfl, run⟩ := ih (Nat.le_of_succ_le within)
      obtain ⟨-, rfl⟩ := eq_walked_of_run run
      exact ⟨_, _, List.length_append, run.append (.single (proposes_walked within))⟩
  · rintro ⟨reveals, t, rfl, run⟩
    rw [← walked_zero] at run
    exact (eq_walked_of_run run).1
  · rw [← walked_zero] at run
    obtain ⟨-, rfl⟩ := eq_walked_of_run run
    rw [all]
    exact ⟨nextReveal_spent, fun reveal => if_pos le_rfl⟩
  · intro inj start reveals reveals' t t' run
    induction run generalizing reveals' with
    | nil => exact fun _ => .inl List.nil_prefix
    | cons first _ ih =>
      rintro (_ | ⟨second, rest⟩)
      · exact .inr List.nil_prefix
      · obtain ⟨-, opens, rfl⟩ := reveals_iff.mp first
        obtain ⟨-, opens', rfl⟩ := reveals_iff.mp second
        obtain rfl := inj (opens.trans opens'.symm)
        exact (ih _ rest).imp (List.prefix_cons_inj _).mpr (List.prefix_cons_inj _).mpr

end BlochPos
