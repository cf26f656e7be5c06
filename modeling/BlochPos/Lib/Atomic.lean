import BlochPos.Lib.Attempt

/-! Attempts that leave no trace when they refuse, and how they compose. -/
namespace Attempt

variable {S E A B : Type}

/-- A refusal leaves the state as it was. -/
def Atomic (x : Attempt S E A) : Prop := ∀ s e s', exec x s = (.error e, s') → s' = s

/-- The state is only read. -/
def ReadOnly (x : Attempt S E A) : Prop := ∀ s, (exec x s).2 = s

/-- Nothing is refused. -/
def Unfailing (x : Attempt S E A) : Prop := ∀ s e s', exec x s ≠ (.error e, s')

section

variable {x : Attempt S E A} {f : A → Attempt S E B}

theorem readOnly_get : ReadOnly (get : Attempt S E S) := fun _ => rfl

theorem readOnly_check (r : Except E A) : ReadOnly (check r : Attempt S E A) := fun _ => rfl

theorem unfailing_modify (g : S → S) : Unfailing (modify g : Attempt S E PUnit) := by
  intro s e s' refused
  cases congrArg Prod.fst refused

theorem unfailing_pure (a : A) : Unfailing (pure a : Attempt S E A) := by
  intro s e s' refused
  cases congrArg Prod.fst refused

theorem Unfailing.bind (first : Unfailing x) (next : ∀ a, Unfailing (f a)) : Unfailing (x >>= f) := by
  intro s e s' refused
  rw [exec_bind] at refused
  split at refused
  next a mid ran => exact next a mid e s' refused
  next e' mid ran => exact first s e' mid ran

theorem ReadOnly.atomic (reads : ReadOnly x) : Atomic x := by
  intro s e s' refused
  have left := reads s
  rwa [refused] at left

theorem ReadOnly.bind_atomic (reads : ReadOnly x) (next : ∀ a, Atomic (f a)) : Atomic (x >>= f) := by
  intro s e s' refused
  rw [exec_bind] at refused
  have left := reads s
  split at refused
  next a mid ran =>
    rw [ran] at left
    rw [next a mid e s' refused]
    exact left
  next e' mid ran =>
    rw [ran] at left
    cases refused
    exact left

theorem Atomic.bind_unfailing (first : Atomic x) (next : ∀ a, Unfailing (f a)) : Atomic (x >>= f) := by
  intro s e s' refused
  rw [exec_bind] at refused
  split at refused
  next a mid ran => exact absurd refused (next a mid e s')
  next e' mid ran =>
    cases refused
    exact first s e s' ran

theorem Atomic.relabel (atomic : Atomic x) (g : E → F) : Atomic (relabel g x) := by
  intro s e s' refused
  have unfolded : exec (Attempt.relabel g x) s = ((exec x s).1.mapError g, (exec x s).2) := rfl
  rw [unfolded, Prod.mk.injEq] at refused
  obtain ⟨failed, rfl⟩ := refused
  cases outcome : (exec x s).1 with
  | error e' => exact atomic s e' _ (Prod.ext outcome rfl)
  | ok a =>
    rw [outcome] at failed
    cases failed

theorem Atomic.zoom {y : Attempt T E A} (atomic : Atomic y) {part : S → Option T}
    {put : S → T → S} (missing : E) (back : ∀ s t, part s = some t → put s t = s) :
    Atomic (zoom part put missing y) := by
  intro s e s' refused
  cases found : part s with
  | none =>
    have unfolded : exec (Attempt.zoom part put missing y) s = (.error missing, s) := by
      rw [Attempt.zoom, exec_bind]
      change exec (check (orRefuse (part s) missing) >>= _) s = _
      rw [found]
      rfl
    rw [unfolded] at refused
    exact (congrArg Prod.snd refused).symm
  | some t =>
    have unfolded : exec (Attempt.zoom part put missing y) s = ((exec y t).1, put s (exec y t).2) := by
      rw [Attempt.zoom, exec_bind]
      change exec (check (orRefuse (part s) missing) >>= _) s = _
      rw [found]
      rfl
    rw [unfolded, Prod.mk.injEq] at refused
    obtain ⟨failed, rfl⟩ := refused
    have left : (exec y t).2 = t := atomic t e _ (Prod.ext failed rfl)
    rw [left, back s t found]

theorem atomic_transact (plan : S → Except E P) (commit : S → P → S) (result : P → A) :
    Atomic (transact plan commit result) := by
  intro s e s' refused
  exact (exec_transact_eq_error_iff.mp refused).2.symm

end

end Attempt
