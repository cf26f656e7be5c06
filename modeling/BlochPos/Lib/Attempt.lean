import Mathlib

/-! Computations that may refuse. `Attempt` threads a state that survives a refusal, as a method on a
mutable receiver with a fallible result does. The lemmas read an accepting run backwards. -/

/-- A fallible computation on a state, which a refusal leaves as it then is. -/
abbrev Attempt (S E : Type) := ExceptT E (StateM S)

namespace Attempt

variable {S E F A : Type} {a : A} {x : Except E A} {s : S} {bad : Prop} {e e' : E} {o : Option A}
  {f : A → Except E B} {t : S} {u : PUnit} {P : Type} {plan : S → Except E P} {commit : S → P → S}
  {result : P → A}

def refuse (bad : Prop) [Decidable bad] (e : E) : Except E Unit := if bad then .error e else .ok ()

def orRefuse (o : Option A) (e : E) : Except E A :=
  match o with
  | none => .error e
  | some a => .ok a

@[simp] theorem refuse_eq_ok_iff [Decidable bad] {u : Unit} : refuse bad e = .ok u ↔ ¬ bad := by
  unfold refuse
  split_ifs with h <;> simp [h]

theorem refuse_congr (e : E) {p q : Prop} [Decidable p] [Decidable q] (same : p ↔ q) :
    refuse p e = refuse q e := by
  by_cases holds : p
  · simp [refuse, holds, same.mp holds]
  · simp [refuse, holds, mt same.mpr holds]

@[simp] theorem orRefuse_eq_ok_iff : orRefuse o e = .ok a ↔ o = some a := by
  cases o <;> simp [orRefuse]

@[simp] theorem bind_eq_ok_iff : (x >>= f) = .ok b ↔ ∃ a, x = .ok a ∧ f a = .ok b := by
  cases x <;> simp [bind, Except.bind]

/-- A check that answers with nothing leaves nothing to name. -/
@[simp] theorem exists_unit {p : Unit → Prop} : (∃ u, p u) ↔ p () :=
  ⟨fun ⟨_, holds⟩ => holds, fun holds => ⟨(), holds⟩⟩

@[simp] theorem pure_eq_ok_iff {b : A} : (pure a : Except E A) = .ok b ↔ a = b := by
  simp [pure, Except.pure]

@[simp] theorem mapError_eq_ok_iff {f : E → F} : x.mapError f = .ok a ↔ x = .ok a := by
  cases x <;> simp [Except.mapError]

theorem toOption_eq_some_iff : x.toOption = some a ↔ x = .ok a := by
  cases x with
  | ok b => simp [Except.toOption]
  | error => simp [Except.toOption]

theorem exists_of_isOk (accepted : x.isOk = true) : ∃ a, x = .ok a := by
  cases x with
  | ok a => exact ⟨a, rfl⟩
  | error => cases accepted

theorem bind_eq_error_iff : (x >>= f) = .error e ↔ x = .error e ∨ ∃ a, x = .ok a ∧ f a = .error e := by
  cases x <;> simp [bind, Except.bind]

theorem refuse_eq_error_iff [Decidable bad] : refuse bad e = .error e' ↔ bad ∧ e = e' := by
  unfold refuse
  split_ifs with h <;> simp [h]

theorem orRefuse_eq_error_iff : orRefuse o e = .error e' ↔ o = none ∧ e = e' := by
  cases o <;> simp [orRefuse]

theorem bind_ne_error (first : x ≠ .error e) (after : ∀ a, f a ≠ .error e) : (x >>= f) ≠ .error e := by
  cases x with
  | ok a => exact after a
  | error e' => exact fun same => first (congrArg Except.error (Except.error.inj same))

theorem pure_ne_error : (pure a : Except E A) ≠ .error e := by rintro ⟨⟩

theorem refuse_ne_error [Decidable bad] (other : e ≠ e') :
    refuse bad e ≠ .error e' := fun refused => other (refuse_eq_error_iff.mp refused).2

theorem orRefuse_ne_error (other : e ≠ e') : orRefuse o e ≠ .error e' :=
  fun refused => other (orRefuse_eq_error_iff.mp refused).2

/-- The result of an attempt and the state it leaves. -/
def exec (x : Attempt S E A) (s : S) : Except E A × S := x.run.run s

/-- A read-only check as a step of an attempt. -/
def check (x : Except E A) : Attempt S E A := ExceptT.mk (pure x)

/-- Check a plan against the state, then carry it out. -/
def transact {P : Type} (plan : S → Except E P) (commit : S → P → S) (result : P → A) : Attempt S E A := do
  let s ← get
  let p ← check (plan s)
  set (commit s p)
  pure (result p)

/-- An attempt on a part of the state that may not be there. -/
def zoom {T : Type} (part : S → Option T) (put : S → T → S) (missing : E) (x : Attempt T E A) :
    Attempt S E A := do
  let s ← get
  let t ← check (orRefuse (part s) missing)
  set (put s (exec x t).2)
  check (exec x t).1

/-- The same attempt under another name for its refusals. -/
def relabel (f : E → F) (x : Attempt S E A) : Attempt S F A :=
  ExceptT.mk (x.run >>= fun r => pure (r.mapError f))

theorem exec_bind (x : Attempt S E A) (f : A → Attempt S E B) (s : S) :
    exec (x >>= f) s = match exec x s with
      | (.ok a, s') => exec (f a) s'
      | (.error e, s') => (.error e, s') := by
  simp only [exec, ExceptT.run_bind, StateT.run_bind]
  rcases (StateT.run (ExceptT.run x) s : Except E A × S) with ⟨_ | _, _⟩ <;> rfl

@[simp] theorem exec_bind_eq_ok_iff {x : Attempt S E A} {f : A → Attempt S E B} :
    exec (x >>= f) s = (.ok b, s'') ↔
      ∃ a s', exec x s = (.ok a, s') ∧ exec (f a) s' = (.ok b, s'') := by
  rw [exec_bind]
  rcases exec x s with ⟨_ | _, _⟩ <;> simp

@[simp] theorem exec_get_eq_ok_iff : exec (get : Attempt S E S) s = (.ok t, s') ↔ s = t ∧ s = s' := by
  change ((.ok s, s) : Except E S × S) = _ ↔ _
  simp

@[simp] theorem exec_set_eq_ok_iff : exec (set t : Attempt S E PUnit) s = (.ok u, s') ↔ t = s' := by
  change ((.ok PUnit.unit, t) : Except E PUnit × S) = _ ↔ _
  simp

@[simp] theorem exec_modify_eq_ok_iff : exec (modify g : Attempt S E PUnit) s = (.ok u, s') ↔ g s = s' := by
  change ((.ok PUnit.unit, g s) : Except E PUnit × S) = _ ↔ _
  simp

@[simp] theorem exec_pure_eq_ok_iff {b : A} :
    exec (pure a : Attempt S E A) s = (.ok b, s') ↔ a = b ∧ s = s' := by
  change ((.ok a, s) : Except E A × S) = _ ↔ _
  simp

@[simp] theorem exec_check_eq_ok_iff : exec (check x) s = (.ok a, s') ↔ x = .ok a ∧ s = s' := by
  change ((x, s) : Except E A × S) = _ ↔ _
  simp

@[simp] theorem exec_zoom_eq_ok_iff {part : S → Option T} {put : S → T → S}
    {x : Attempt T E A} : exec (zoom part put missing x) s = (.ok a, s') ↔
      ∃ t t', part s = some t ∧ exec x t = (.ok a, t') ∧ put s t' = s' := by
  simp only [zoom, exec_bind_eq_ok_iff, exec_get_eq_ok_iff, exec_check_eq_ok_iff, orRefuse_eq_ok_iff,
    exec_set_eq_ok_iff]
  constructor
  · rintro ⟨_, _, ⟨rfl, rfl⟩, t, _, ⟨found, rfl⟩, _, _, rfl, done, rfl⟩
    exact ⟨t, (exec x t).2, found, Prod.ext done rfl, rfl⟩
  · rintro ⟨t, t', found, done, rfl⟩
    exact ⟨s, s, ⟨rfl, rfl⟩, t, s, ⟨found, rfl⟩, (), _, rfl, by rw [done], by rw [done]⟩

theorem exists_exec_of_isOk {x : Attempt S E A} (accepted : (exec x s).1.isOk = true) :
    ∃ a, exec x s = (.ok a, (exec x s).2) := by
  obtain ⟨a, done⟩ := exists_of_isOk accepted
  exact ⟨a, Prod.ext done rfl⟩

@[simp] theorem exec_transact_eq_ok_iff : exec (transact plan commit result) s = (.ok a, s') ↔
      ∃ p, plan s = .ok p ∧ result p = a ∧ commit s p = s' := by
  simp only [transact, exec_bind_eq_ok_iff, exec_get_eq_ok_iff, exec_check_eq_ok_iff, exec_set_eq_ok_iff,
    exec_pure_eq_ok_iff]
  constructor
  · rintro ⟨_, _, ⟨rfl, rfl⟩, p, _, ⟨planned, rfl⟩, _, _, rfl, rfl, rfl⟩
    exact ⟨p, planned, rfl, rfl⟩
  · rintro ⟨p, planned, rfl, rfl⟩
    exact ⟨s, s, ⟨rfl, rfl⟩, p, s, ⟨planned, rfl⟩, (), _, rfl, rfl, rfl⟩

theorem committed_of_transact
    (done : exec (do let _ ← transact plan commit result; pure ()) s = (.ok (), s')) :
    ∃ p, plan s = .ok p ∧ s' = commit s p := by
  simp only [exec_bind_eq_ok_iff, exec_transact_eq_ok_iff, exec_pure_eq_ok_iff] at done
  obtain ⟨_, _, ⟨p, planned, -, rfl⟩, -, rfl⟩ := done
  exact ⟨p, planned, rfl⟩

theorem exec_transact_eq_error_iff : exec (transact plan commit result) s = (.error e, s') ↔
      plan s = .error e ∧ s = s' := by
  have unfolded : exec (transact plan commit result) s = match plan s with
      | .ok p => (.ok (result p), commit s p)
      | .error e => (.error e, s) := by
    rw [transact, exec_bind]
    change (match exec (check (plan s) >>= _) s with | r => r) = _
    rw [exec_bind]
    change (match (plan s, s) with | (.ok a, s') => _ | (.error e, s') => _) = _
    cases plan s <;> rfl
  rw [unfolded]
  cases plan s <;> simp

@[simp] theorem exec_relabel_eq_ok_iff {x : Attempt S E A} {f : E → F} :
    exec (relabel f x) s = (.ok a, s') ↔ exec x s = (.ok a, s') := by
  have unfolded : exec (relabel f x) s = ((exec x s).1.mapError f, (exec x s).2) := rfl
  rw [unfolded, Prod.ext_iff, Prod.ext_iff]
  simp

/-- An accepting run read backwards: what every check and every step of it answered. -/
theorem ok_iff :
    (∀ {E : Type} {bad : Prop} [Decidable bad] {e : E} {u : Unit}, refuse bad e = .ok u ↔ ¬ bad) ∧
    (∀ {E A : Type} {o : Option A} {e : E} {a : A}, orRefuse o e = .ok a ↔ o = some a) ∧
    (∀ {E A B : Type} {x : Except E A} {f : A → Except E B} {b : B},
      (x >>= f) = .ok b ↔ ∃ a, x = .ok a ∧ f a = .ok b) ∧
    (∀ {p : Unit → Prop}, (∃ u, p u) ↔ p ()) ∧
    (∀ {E A : Type} {a b : A}, (pure a : Except E A) = .ok b ↔ a = b) ∧
    (∀ {E F A : Type} {x : Except E A} {f : E → F} {a : A}, x.mapError f = .ok a ↔ x = .ok a) ∧
    (∀ {S E A B : Type} {x : Attempt S E A} {f : A → Attempt S E B} {s s'' : S} {b : B},
      exec (x >>= f) s = (.ok b, s'') ↔ ∃ a s', exec x s = (.ok a, s') ∧ exec (f a) s' = (.ok b, s'')) ∧
    (∀ {S E : Type} {s s' t : S}, exec (get : Attempt S E S) s = (.ok t, s') ↔ s = t ∧ s = s') ∧
    (∀ {S E : Type} {s s' t : S} {u : PUnit}, exec (set t : Attempt S E PUnit) s = (.ok u, s') ↔ t = s') ∧
    (∀ {S E : Type} {s s' : S} {g : S → S} {u : PUnit},
      exec (modify g : Attempt S E PUnit) s = (.ok u, s') ↔ g s = s') ∧
    (∀ {S E A : Type} {s s' : S} {a b : A}, exec (pure a : Attempt S E A) s = (.ok b, s') ↔ a = b ∧ s = s') ∧
    (∀ {S E A : Type} {x : Except E A} {s s' : S} {a : A},
      exec (check x) s = (.ok a, s') ↔ x = .ok a ∧ s = s') ∧
    (∀ {S E A T : Type} {part : S → Option T} {put : S → T → S} {missing : E} {x : Attempt T E A} {s s' : S}
      {a : A}, exec (zoom part put missing x) s = (.ok a, s') ↔
        ∃ t t', part s = some t ∧ exec x t = (.ok a, t') ∧ put s t' = s') ∧
    (∀ {S E A P : Type} {plan : S → Except E P} {commit : S → P → S} {result : P → A} {s s' : S} {a : A},
      exec (transact plan commit result) s = (.ok a, s') ↔
        ∃ p, plan s = .ok p ∧ result p = a ∧ commit s p = s') ∧
    ∀ {S E F A : Type} {x : Attempt S E A} {f : E → F} {s s' : S} {a : A},
      exec (relabel f x) s = (.ok a, s') ↔ exec x s = (.ok a, s') :=
  ⟨refuse_eq_ok_iff, orRefuse_eq_ok_iff, bind_eq_ok_iff, exists_unit, pure_eq_ok_iff, mapError_eq_ok_iff,
    exec_bind_eq_ok_iff, exec_get_eq_ok_iff, exec_set_eq_ok_iff, exec_modify_eq_ok_iff, exec_pure_eq_ok_iff,
    exec_check_eq_ok_iff, exec_zoom_eq_ok_iff, exec_transact_eq_ok_iff, exec_relabel_eq_ok_iff⟩

end Attempt
