import BlochPos.Transition.BlockRun

/-! The bonds of the validators. A genesis bond or an unfunded deposit counts as stake but is
written off when it leaves. -/
namespace BlochPos

open Attempt SortedMap

/-- What decides how much of a bond was paid for. -/
structure Bonds where
  records : SortedMap ℕ (ℕ × Bytes)
  funded : Finset ℕ
  deposits : List QueuedDeposit
  (genesisPrincipal lowWater : SortedMap ℕ ℕ)

namespace Bonds

section

variable (c : Crypto) (b : Bonds) (i : ℕ)

def principalSat (pubkey : Bytes) : ℕ :=
  ((b.genesisPrincipal.get? i).or ((b.deposits.find? (fun d => d.pubkeyHash = c.sha3 pubkey)).map
    QueuedDeposit.amountSat)).getD u128Max

def unbackedSat (bond : ℕ × Bytes) : ℕ :=
  if i ∈ b.funded then 0 else min (b.principalSat c i bond.2) (b.lowWater.getD i bond.1)

def withdrawableSat (bond : ℕ × Bytes) : ℕ :=
  bond.1 - b.unbackedSat c i bond

def stakedSat : ℕ := b.records.sum (fun _ bond => bond.1)

def backedSat : ℕ := b.records.sum (b.withdrawableSat c)

def put (bond : ℕ × Bytes) : Bonds := { b with records := b.records.insert i bond }

end

def slash (b : Bonds) (i stakedSat : ℕ) (pubkey : Bytes) : Bonds :=
  { b.put i (stakedSat, pubkey) with
    lowWater := b.lowWater.insert i (min (b.lowWater.getD i stakedSat) stakedSat) }

def register (b : Bonds) (i : ℕ) (bond : ℕ × Bytes) (d : QueuedDeposit) (funded : Bool) : Bonds :=
  { b.put i bond with
    deposits := b.deposits ++ [d]
    funded := if funded then insert i b.funded else b.funded }

/-- What a measure of bonds must do for supply to be conserved. Under `strict`
a reward for evidence is at most the issued part of the loss. -/
structure Measure (c : Crypto) (strict : Prop) (measure : Bonds → ℕ) : Prop where
  issue : ∀ {b : Bonds} {i s : ℕ} {pubkey : Bytes} (amount : ℕ), b.records.get? i = some (s, pubkey) →
    measure (b.put i (s + amount, pubkey)) ≤ measure b + amount
  withdraw : ∀ {b : Bonds} {i s : ℕ} {pubkey : Bytes}, b.records.get? i = some (s, pubkey) →
    measure (b.put i (0, pubkey)) + b.withdrawableSat c i (s, pubkey) ≤ measure b
  slash : ∀ {b : Bonds} {i s loss reward : ℕ} {pubkey : Bytes}, b.records.get? i = some (s, pubkey) →
    loss ≤ s → reward ≤ loss → (strict → reward ≤ loss - min (b.unbackedSat c i (s, pubkey)) s) →
    measure (b.slash i (s - loss) pubkey) + reward ≤ measure b
  register : ∀ {b : Bonds} {i : ℕ} (bond : ℕ × Bytes) {d : QueuedDeposit} (funded : Bool),
    b.records.get? i = none →
    (∀ j other, b.records.get? j = some other → c.sha3 other.2 ≠ d.pubkeyHash) →
    measure (b.register i bond d funded) ≤ measure b + bond.1

theorem measure_stakedSat (c : Crypto) : Measure c False stakedSat where
  issue {b i s pubkey} amount found := by
    have traded := sum_insert_of_get? found (s + amount, pubkey) (fun _ bond => bond.1)
    simp only [stakedSat, put]
    omega
  withdraw {b i s pubkey} found := by
    have traded := sum_insert_of_get? found (0, pubkey) (fun _ bond => bond.1)
    have part : b.withdrawableSat c i (s, pubkey) ≤ s := Nat.sub_le _ _
    simp only [stakedSat, put]
    omega
  slash {b i s loss reward pubkey} found bounded rewarded _ := by
    have traded := sum_insert_of_get? found (s - loss, pubkey) (fun _ bond => bond.1)
    simp only [stakedSat, Bonds.slash, put]
    omega
  register {b i} bond {d} funded absent _ := by
    have added := sum_insert_of_absent absent bond (fun _ bond => bond.1)
    simp only [stakedSat, Bonds.register, put]
    omega

section

variable {b : Bonds}

theorem backedSat_of_get? (found : b.records.get? i = some bond) :
    b.backedSat c = b.withdrawableSat c i bond + (b.records.erase i).sum (b.withdrawableSat c) :=
  sum_of_get? found _

theorem backedSat_put (b : Bonds) (i : ℕ) (bond : ℕ × Bytes) :
    (b.put i bond).backedSat c = b.withdrawableSat c i bond + (b.records.erase i).sum (b.withdrawableSat c) :=
  sum_insert ..

theorem sum_erase_congr (b' : Bonds)
    (same : ∀ j bond, b.records.get? j = some bond → j ≠ i →
      b'.withdrawableSat c j bond = b.withdrawableSat c j bond) :
    (b.records.erase i).sum (b'.withdrawableSat c) = (b.records.erase i).sum (b.withdrawableSat c) := by
  refine sum_congr (fun j bond found => ?_)
  rw [get?_erase] at found
  split_ifs at found with here
  exact same j bond found here

theorem withdrawableSat_issue_le (b : Bonds) (i s amount : ℕ) (pubkey : Bytes) :
    b.withdrawableSat c i (s + amount, pubkey) ≤ b.withdrawableSat c i (s, pubkey) + amount := by
  simp only [withdrawableSat, unbackedSat]
  split_ifs
  · omega
  · cases marked : b.lowWater.get? i with
    | none =>
      simp only [getD, marked, Option.getD_none]
      omega
    | some w =>
      simp only [getD, marked, Option.getD_some]
      omega

/-- A slash takes the unissued part first, so the reward is paid from what was issued. -/
theorem withdrawableSat_slash_le (pubkey : Bytes) (bounded : loss ≤ s)
    (rewarded : reward ≤ loss - min (b.unbackedSat c i (s, pubkey)) s) :
    (b.slash i (s - loss) pubkey).withdrawableSat c i (s - loss, pubkey) + reward ≤
      b.withdrawableSat c i (s, pubkey) := by
  have principal : (b.slash i (s - loss) pubkey).principalSat c i pubkey = b.principalSat c i pubkey := rfl
  have funding : (b.slash i (s - loss) pubkey).funded = b.funded := rfl
  have mark : (b.slash i (s - loss) pubkey).lowWater.getD i (s - loss) =
      min (b.lowWater.getD i (s - loss)) (s - loss) := by
    simp [Bonds.slash, getD]
  simp only [withdrawableSat, unbackedSat, principal, funding, mark] at rewarded ⊢
  split_ifs at rewarded ⊢
  · omega
  · cases marked : b.lowWater.get? i with
    | none =>
      simp only [getD, marked, Option.getD_none] at rewarded ⊢
      omega
    | some w =>
      simp only [getD, marked, Option.getD_some] at rewarded ⊢
      omega

/-- A deposit under a key nobody has says nothing about anyone else's principal. -/
theorem principalSat_register (j : ℕ) {other : ℕ × Bytes} (funded : Bool)
    (apart : c.sha3 other.2 ≠ d.pubkeyHash) :
    (b.register i bond d funded).principalSat c j other.2 = b.principalSat c j other.2 := by
  have unmatched : [d].find? (fun d => d.pubkeyHash = c.sha3 other.2) = none := by
    simp [Ne.symm apart]
  simp only [principalSat, Bonds.register, put, List.find?_append, unmatched, Option.or_none]

end

theorem measure_backedSat (c : Crypto) : Measure c True (backedSat c) where
  issue {b i s pubkey} amount found := by
    have added := b.withdrawableSat_issue_le (c := c) i s amount pubkey
    rw [backedSat_put, backedSat_of_get? found]
    omega
  withdraw {b i s pubkey} found := by
    have nothing : b.withdrawableSat c i (0, pubkey) = 0 := Nat.zero_sub _
    rw [backedSat_put, backedSat_of_get? found]
    omega
  slash {b i s loss reward pubkey} found bounded _ rewarded := by
    have own := withdrawableSat_slash_le pubkey bounded (rewarded trivial)
    have others := sum_erase_congr (c := c) (i := i) (b := b) (b.slash i (s - loss) pubkey)
      (fun j bond _ other => by
        simp [withdrawableSat, unbackedSat, principalSat, Bonds.slash, put, getD,
          get?_insert_of_ne _ _ other])
    have whole : (b.slash i (s - loss) pubkey).backedSat c =
        (b.slash i (s - loss) pubkey).withdrawableSat c i (s - loss, pubkey) +
          (b.records.erase i).sum ((b.slash i (s - loss) pubkey).withdrawableSat c) :=
      sum_insert ..
    rw [whole, backedSat_of_get? found, others]
    omega
  register {b i} bond {d} funded absent apart := by
    have own : (b.register i bond d funded).withdrawableSat c i bond ≤ bond.1 := Nat.sub_le _ _
    have others := sum_erase_congr (c := c) (i := i) (b := b) (b.register i bond d funded)
      (fun j other found away => by
        have listed : j ∈ (b.register i bond d funded).funded ↔ j ∈ b.funded := by
          cases funded <;> simp [Bonds.register, put, away]
        simp only [withdrawableSat, unbackedSat, listed, principalSat_register j funded (apart j other found)]
        rfl)
    have whole : (b.register i bond d funded).backedSat c =
        (b.register i bond d funded).withdrawableSat c i bond +
          (b.records.erase i).sum ((b.register i bond d funded).withdrawableSat c) :=
      sum_insert ..
    rw [whole, others, erase_of_get?_none absent]
    exact (Nat.add_le_add_right own _).trans_eq (Nat.add_comm _ _)

end Bonds

end BlochPos
