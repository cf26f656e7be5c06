import Mathlib

/-! Encodings of values as words that can be cut off the front of any string. Values and letters are
arbitrary. -/

variable {A B C : Type*}

/-- Among the valid values, a word is told from every other and from whatever follows it. -/
def Delimits (code : A → List B) (valid : A → Prop) : Prop :=
  ∀ ⦃a⦄, valid a → ∀ ⦃b⦄, valid b → ∀ ⦃x y : List B⦄, code a ++ x = code b ++ y → a = b ∧ x = y

namespace Delimits

variable {code : A → List B}

theorem inj (d : Delimits code valid) (here : valid a) (there : valid b) (same : code a = code b) : a = b :=
  (d here there (congrArg (· ++ []) same)).1

theorem of_length (long : ∀ a, valid a → (code a).length = n)
    (inj : ∀ a b, valid a → valid b → code a = code b → a = b) : Delimits code valid := by
  intro a here b there x y same
  obtain ⟨front, rest⟩ := List.append_inj same ((long a here).trans (long b there).symm)
  exact ⟨inj a b here there front, rest⟩

theorem comap (d : Delimits code valid) (fields : C → A)
    (kept : ∀ c, valid' c → valid (fields c)) (inj : Function.Injective fields) :
    Delimits (fun c => code (fields c)) valid' := by
  intro c here c' there x y same
  obtain ⟨tuple, rest⟩ := d (kept c here) (kept c' there) same
  exact ⟨inj tuple, rest⟩

/-- One code after another. -/
theorem pair (d : Delimits code valid) (d' : Delimits code' valid') :
    Delimits (fun p : A × C => code p.1 ++ code' p.2) (fun p => valid p.1 ∧ valid' p.2) := by
  rintro ⟨a, c⟩ here ⟨b, c'⟩ there x y same
  rw [List.append_assoc, List.append_assoc] at same
  obtain ⟨first, left⟩ := d here.1 there.1 same
  obtain ⟨second, rest⟩ := d' here.2 there.2 left
  exact ⟨Prod.ext first second, rest⟩

theorem flatMap (d : Delimits code valid) {l l' : List A} (here : ∀ a ∈ l, valid a)
    (there : ∀ a ∈ l', valid a) (long : l.length = l'.length)
    (same : l.flatMap code ++ x = l'.flatMap code ++ y) : l = l' ∧ x = y := by
  induction l generalizing l' with
  | nil =>
    rw [List.eq_nil_of_length_eq_zero long.symm] at same ⊢
    exact ⟨rfl, same⟩
  | cons a rest ih =>
    obtain ⟨b, rest', rfl⟩ := List.exists_cons_of_length_eq_add_one long.symm
    rw [List.forall_mem_cons] at here there
    rw [List.flatMap_cons, List.flatMap_cons, List.append_assoc, List.append_assoc] at same
    obtain ⟨rfl, left⟩ := d here.1 there.1 same
    obtain ⟨rfl, after⟩ := ih here.2 there.2 (Nat.succ.inj long) left
    exact ⟨rfl, after⟩

/-- A word behind its length. -/
theorem measured (number : Delimits count fits) :
    Delimits (fun word : List B => count word.length ++ word) (fun word => fits word.length) := by
  intro word here word' there x y same
  rw [List.append_assoc, List.append_assoc] at same
  obtain ⟨long, left⟩ := number here there same
  exact List.append_inj left long

end Delimits
