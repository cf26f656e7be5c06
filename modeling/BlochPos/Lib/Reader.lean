import BlochPos.Lib.Attempt

/-! Readers of token strings. A reader takes a value off the front of a string or fails. It reads what a
writer wrote if it accepts exactly the writings of admissible values. Tokens, errors and values are
arbitrary. -/

abbrev Reader (T E A : Type) := StateT (List T) (Except E) A

namespace Reader

variable {T E A B : Type}

def refuse (p : Prop) [Decidable p] (e : E) : Reader T E Unit := if p then throw e else pure ()

def orRefuse (o : Option A) (e : E) : Reader T E A :=
  match o with
  | some a => pure a
  | none => throw e

def take (short : E) (n : ℕ) : Reader T E (List T) := do
  let s ← get
  refuse (s.length < n) short
  set (s.drop n)
  pure (s.take n)

def many (item : Reader T E A) : ℕ → Reader T E (List A)
  | 0 => pure []
  | n + 1 => do
    let a ← item
    let rest ← many item n
    pure (a :: rest)

def whole (reader : Reader T E A) (trailing : E) (s : List T) : Except E A := do
  let (a, rest) ← reader.run s
  Attempt.refuse (rest ≠ []) trailing
  pure a

/-- The same reader under other errors. -/
def mapError {E' : Type} (rename : E → E') (reader : Reader T E A) : Reader T E' A :=
  fun s => (reader s).mapError rename

/-- The reader accepts what the writer makes of a value that fits, and nothing else. -/
class Reads (reader : Reader T E A) (write : outParam (A → List T)) (fits : outParam (A → Prop)) : Prop where
  run_eq_ok_iff : ∀ s a rest, reader.run s = .ok (a, rest) ↔ fits a ∧ s = write a ++ rest

section

variable {reader : Reader T E A} {s : List T} {a : A} {b : B} {r : B × List T} {e : E}

theorem run_bind_eq_ok_iff (f : A → Reader T E B) :
    (reader >>= f).run s = .ok r ↔ ∃ a mid, reader.run s = .ok (a, mid) ∧ (f a).run mid = .ok r := by
  rw [StateT.run_bind, Attempt.bind_eq_ok_iff]
  simp only [Prod.exists]

@[simp ↓] theorem run_pure_eq_ok_iff : (pure a : Reader T E A).run s = .ok (a', rest) ↔ a = a' ∧ s = rest := by
  rw [StateT.run_pure, Attempt.pure_eq_ok_iff, Prod.mk.injEq]

theorem run_map_eq_ok_iff :
    (f <$> reader).run s = .ok (b, rest) ↔ ∃ a, reader.run s = .ok (a, rest) ∧ f a = b := by
  rw [← bind_pure_comp, run_bind_eq_ok_iff]
  simp only [run_pure_eq_ok_iff]
  constructor
  · rintro ⟨a, _, done, rfl, rfl⟩
    exact ⟨a, done, rfl⟩
  · rintro ⟨a, done, rfl⟩
    exact ⟨a, rest, done, rfl, rfl⟩

@[simp ↓] theorem run_refuse_bind_eq_ok_iff {p : Prop} [Decidable p] {f : Unit → Reader T E B} :
    (refuse p e >>= f).run s = .ok r ↔ ¬ p ∧ (f ()).run s = .ok r := by
  unfold refuse
  by_cases bad : p
  · rw [if_pos bad]
    constructor
    · intro impossible
      cases impossible
    · exact fun both => absurd bad both.1
  · rw [if_neg bad]
    exact ⟨fun done => ⟨bad, done⟩, fun both => both.2⟩

theorem run_throw_ne_ok {r : A × List T} : (throw e : Reader T E A).run s ≠ .ok r := by
  intro impossible
  cases impossible

theorem run_orRefuse_eq_ok_iff : (orRefuse o e).run s = .ok (a, rest) ↔ o = some a ∧ s = rest := by
  cases o with
  | some found => rw [orRefuse, run_pure_eq_ok_iff, Option.some.injEq]
  | none =>
    constructor
    · intro impossible
      exact absurd impossible run_throw_ne_ok
    · intro impossible
      cases impossible.1

/-- A reader that reads a writer, followed by another. -/
@[simp ↓] theorem run_reads_bind_eq_ok_iff [reads : Reads reader write fits] :
    (reader >>= f).run s = .ok r ↔ ∃ a mid, s = write a ++ mid ∧ fits a ∧ (f a).run mid = .ok r := by
  rw [run_bind_eq_ok_iff]
  simp only [reads.run_eq_ok_iff, and_assoc, and_left_comm]

/-- A string begins with the writing of one value at most. -/
theorem Reads.eq_of_append_eq (reads : Reads reader write fits) (first : fits a)
    (second : fits a') (same : write a ++ rest = write a' ++ rest') : a = a' ∧ rest = rest' := by
  have read := (reads.run_eq_ok_iff (write a ++ rest) a rest).mpr ⟨first, rfl⟩
  have read' := (reads.run_eq_ok_iff (write a ++ rest) a' rest').mpr ⟨second, same⟩
  rw [read, Except.ok.injEq, Prod.mk.injEq] at read'
  exact read'

theorem whole_eq_ok_iff : whole reader trailing s = .ok a ↔ reader.run s = .ok (a, []) := by
  simp only [whole, Attempt.ok_iff, Prod.exists, ne_eq, not_not]
  constructor
  · rintro ⟨_, _, done, rfl, rfl⟩
    exact done
  · intro done
    exact ⟨a, [], done, rfl, rfl⟩

end

instance reads_take (short : E) (n : ℕ) :
    Reads (take (T := T) short n) (fun l => l) (fun l => l.length = n) where
  run_eq_ok_iff s l rest := by
    have whole : (take (T := T) short n).run s =
        (refuse (s.length < n) short >>= fun _ => do set (s.drop n); pure (s.take n)).run s := rfl
    have drops : (do set (s.drop n); pure (s.take n) : Reader T E (List T)).run s =
        .ok (s.take n, s.drop n) := rfl
    rw [whole, run_refuse_bind_eq_ok_iff, drops, Except.ok.injEq, Prod.mk.injEq, not_lt]
    constructor
    · rintro ⟨enough, rfl, rfl⟩
      exact ⟨List.length_take_of_le enough, (List.take_append_drop n s).symm⟩
    · rintro ⟨rfl, rfl⟩
      exact ⟨by simp, List.take_left, List.drop_left⟩

instance reads_many {item : Reader T E A} {write : A → List T} {fits : A → Prop} [Reads item write fits]
    (n : ℕ) : Reads (many item n) (fun l => l.flatMap write) (fun l => l.length = n ∧ ∀ a ∈ l, fits a) where
  run_eq_ok_iff s l rest := by
    induction n generalizing s l rest with
    | zero =>
      rw [many, run_pure_eq_ok_iff]
      constructor
      · rintro ⟨rfl, rfl⟩
        exact ⟨⟨rfl, by simp⟩, rfl⟩
      · rintro ⟨⟨none, -⟩, rfl⟩
        rw [List.length_eq_zero_iff] at none
        exact ⟨none.symm, by rw [none]; rfl⟩
    | succ n ih =>
      rw [many, run_reads_bind_eq_ok_iff]
      simp only [run_bind_eq_ok_iff, ih, run_pure_eq_ok_iff]
      constructor
      · rintro ⟨a, mid, rfl, fits, l, _, ⟨⟨rfl, each⟩, rfl⟩, rfl, rfl⟩
        refine ⟨⟨rfl, ?_⟩, by simp⟩
        intro b among
        rcases List.mem_cons.mp among with rfl | later
        · exact fits
        · exact each b later
      · rintro ⟨⟨size, each⟩, rfl⟩
        cases l with
        | nil => cases size
        | cons a later =>
          refine ⟨a, later.flatMap write ++ rest, by simp, each a List.mem_cons_self, later, rest,
            ⟨⟨Nat.succ.inj size, ?_⟩, rfl⟩, rfl, rfl⟩
          exact fun b among => each b (List.mem_cons_of_mem a among)

theorem reads_mapError [reads : Reads reader write fits] (rename : E → E') :
    Reads (reader.mapError rename) write fits where
  run_eq_ok_iff s a rest := by
    rw [← reads.run_eq_ok_iff]
    change (reader.run s).mapError rename = _ ↔ _
    cases reader.run s <;> simp [Except.mapError]

end Reader
