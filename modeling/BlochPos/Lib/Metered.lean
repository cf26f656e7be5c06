import BlochPos.Lib.Run

/-! Attempts that are paid for from a budget, which is the state they thread, and
the reading backwards of loops in them. -/
namespace Attempt

variable {S E A : Type} {s s' : S} {a : A} {items : List A}

/-- Pays for what comes next, or refuses. -/
def charge (cost : ℕ) (e : E) : Attempt ℕ E Unit := do
  let budget ← get
  check (refuse (budget < cost) e)
  set (budget - cost)

def outcome (x : Attempt S E A) (s : S) : Except E (A × S) :=
  match exec x s with
  | (.ok a, s') => .ok (a, s')
  | (.error e, _) => .error e

def metered (x : Attempt ℕ E A) (budget : ℕ) : Except E (A × ℕ) := outcome x budget

@[simp] theorem exec_charge_eq_ok_iff {e : E} : exec (charge cost e) g = (.ok u, g') ↔ g' + cost = g := by
  simp only [charge, ok_iff, not_lt]
  constructor
  · rintro ⟨_, _, ⟨rfl, rfl⟩, _, ⟨affordable, rfl⟩, rfl⟩
    omega
  · rintro rfl
    exact ⟨_, _, ⟨rfl, rfl⟩, _, ⟨by omega, rfl⟩, by omega⟩

@[simp] theorem outcome_eq_ok_iff {x : Attempt S E A} :
    outcome x s = .ok (a, s') ↔ exec x s = (.ok a, s') := by
  unfold outcome
  rcases exec x s with ⟨_ | _, _⟩ <;> simp

@[simp] theorem metered_eq_ok_iff {x : Attempt ℕ E A} :
    metered x budget = .ok (a, left) ↔ exec x budget = (.ok a, left) := outcome_eq_ok_iff

theorem forM_all {f : A → Attempt S E PUnit} (done : exec (forM items f) s = (.ok u, s')) :
    ∀ a ∈ items, ∃ t t', exec (f a) t = (.ok PUnit.unit, t') := by
  induction items generalizing s with
  | nil => simp
  | cons a rest ih =>
    rw [List.forM_cons, exec_bind_eq_ok_iff] at done
    obtain ⟨_, mid, first, later⟩ := done
    intro b member
    rcases List.mem_cons.mp member with rfl | among
    · exact ⟨s, mid, first⟩
    · exact ih later b among

theorem foldlM_rounds {f : B → A → Attempt S E B} {Q : A → Prop}
    (each : ∀ {b a b' s s'}, exec (f b a) s = (.ok b', s') → Q a ∧ b' = g b a)
    (done : exec (items.foldlM f b) s = (.ok b', s')) :
    (∀ a ∈ items, Q a) ∧ b' = items.foldl g b := by
  induction items generalizing b s with
  | nil =>
    rw [List.foldlM_nil, exec_pure_eq_ok_iff] at done
    exact ⟨by simp, done.1.symm⟩
  | cons a rest ih =>
    rw [List.foldlM_cons, exec_bind_eq_ok_iff] at done
    obtain ⟨mid, t, first, later⟩ := done
    obtain ⟨holds, rfl⟩ := each first
    obtain ⟨others, rfl⟩ := ih later
    exact ⟨List.forall_mem_cons.mpr ⟨holds, others⟩, rfl⟩

/-- A fold whose every step succeeds and extends what is built builds all of it. -/
theorem foldlM_builds (f : S → A → Except E S) (items : List A) {P : List A → S → Prop}
    (start : P [] s) (each : ∀ {before a after s}, before ++ a :: after = items → P before s →
      ∃ t, f s a = .ok t ∧ P (before ++ [a]) t) :
    ∃ t, items.foldlM f s = .ok t ∧ P items t := by
  suffices further : ∀ {before rest s}, before ++ rest = items → P before s →
      ∃ t, rest.foldlM f s = .ok t ∧ P items t from further (List.nil_append items) start
  intro before rest
  induction rest generalizing before with
  | nil =>
    intro s whole built
    rw [List.append_nil] at whole
    exact ⟨s, rfl, whole ▸ built⟩
  | cons a rest ih =>
    intro s whole built
    obtain ⟨mid, taken, more⟩ := each whole built
    obtain ⟨t, folded, all⟩ := ih (by rw [List.append_assoc]; exact whole) more
    exact ⟨t, by rw [List.foldlM_cons, taken]; exact folded, all⟩

end Attempt
