import BlochPos.Lib.Attempt

/-! Runs of a labelled transition system, the rules that carry a fact along
one, and the run a fallible fold leaves behind. States and labels are arbitrary. -/

/-- A finite run and the labels of its steps, in order. -/
inductive Run {S L : Type} (step : S → L → S → Prop) : S → List L → S → Prop where
  | nil (s : S) : Run step s [] s
  | cons {s t u l ls} (first : step s l t) (rest : Run step t ls u) : Run step s (l :: ls) u

namespace Run

variable {t u : S} {l : L} {ls : List L} {P : S → Prop}

theorem single (taken : step s l t) : Run step s [l] t := .cons taken (.nil t)

theorem of_single (run : Run step s [l] t) : step s l t := by
  cases run with
  | cons taken rest =>
    cases rest
    exact taken

theorem append (first : Run step s ls t) (second : Run step t ls' u) : Run step s (ls ++ ls') u := by
  induction first with
  | nil => exact second
  | cons taken _ ih => exact .cons taken (ih second)

theorem of_append (run : Run step s (ls ++ ls') u) : ∃ t, Run step s ls t ∧ Run step t ls' u := by
  induction ls generalizing s with
  | nil => exact ⟨s, .nil s, run⟩
  | cons l rest ih =>
    cases run with
    | cons taken later =>
      obtain ⟨t, first, second⟩ := ih later
      exact ⟨t, .cons taken first, second⟩

/-- What every step keeps, a run keeps. -/
theorem invariant (keeps : ∀ {s l t}, step s l t → P s → P t) (run : Run step s ls t)
    (start : P s) : P t := by
  induction run with
  | nil => exact start
  | cons taken _ ih => exact ih (keeps taken start)

/-- What holds of the empty run and is kept by one more step holds of a run and the state it ends in. -/
theorem history {P : List L → S → Prop} (start : P [] s)
    (keeps : ∀ {ls t l u}, Run step s ls t → P ls t → step t l u → P (ls ++ [l]) u)
    (run : Run step s ls t) : P ls t := by
  -- the steps taken so far are carried along, since a run grows at its front
  suffices further : ∀ {before mid}, Run step s before mid → P before mid → Run step mid ls t →
      P (before ++ ls) t from further (.nil s) start run
  intro before mid taken held rest
  clear run
  induction rest generalizing before with
  | nil =>
    rw [List.append_nil]
    exact held
  | cons next _ ih =>
    rw [List.append_cons]
    exact ih (taken.append (.single next)) (keeps taken held next)

theorem mono (run : Run step s ls t)
    (weaker : ∀ {s l t}, l ∈ ls → step s l t → step' s l t) : Run step' s ls t := by
  induction run with
  | nil s => exact .nil s
  | cons taken _ ih =>
    exact .cons (weaker List.mem_cons_self taken)
      (ih (fun later => weaker (List.mem_cons_of_mem _ later)))

theorem guarded (run : Run (fun s l t => P s → step s l t ∧ P t) s ls t) (start : P s) :
    Run step s ls t ∧ P t := by
  induction run with
  | nil s => exact ⟨.nil s, start⟩
  | cons taken _ ih =>
    obtain ⟨first, kept⟩ := taken start
    exact ⟨.cons first (ih kept).1, (ih kept).2⟩

/-- A fold that gives a result is a run, if what each item does is a step. -/
theorem of_foldlM_some (each : ∀ {s l t}, f s l = some t → step s l t)
    (folded : ls.foldlM f s = some t) : Run step s ls t := by
  induction ls generalizing s with
  | nil =>
    cases folded
    exact .nil _
  | cons l rest ih =>
    simp only [List.foldlM_cons, Option.bind_eq_bind, Option.bind_eq_some_iff] at folded
    obtain ⟨mid, first, later⟩ := folded
    exact .cons (each first) (ih later)

theorem of_foldlM {E : Type} {f : S → L → Except E S} (folded : ls.foldlM f s = .ok t) :
    Run (fun s l t => f s l = .ok t) s ls t := by
  induction ls generalizing s with
  | nil =>
    cases folded
    exact .nil _
  | cons l rest ih =>
    obtain ⟨mid, first, later⟩ := Attempt.bind_eq_ok_iff.mp folded
    exact .cons first (ih later)

end Run

namespace Attempt

variable {S E A : Type} {f : S → A → Except E S} {s : S} {items : List A} {L B : Type} {P : S → Prop}
  {perform : L → Attempt S E Unit} {calls : List L}

/-- The state after the given calls, if all are accepted. -/
def performAll {L : Type} (perform : L → Attempt S E Unit) : List L → S → Option S
  | [], s => some s
  | call :: rest, s => match exec (perform call) s with
    | (.ok _, next) => performAll perform rest next
    | (.error _, _) => none

theorem run_of_performAll
    (done : performAll perform calls s = some t) :
    Run (fun s call t => exec (perform call) s = (.ok (), t)) s calls t := by
  induction calls generalizing s with
  | nil => exact Option.some.inj done ▸ .nil s
  | cons call rest ih =>
    unfold performAll at done
    split at done
    next next accepted => exact .cons accepted (ih done)
    next => cases done

/-- What the calls give rise to, each in the state it is made in. -/
def collect {L B : Type} (perform : L → Attempt S E Unit) (f : S → L → List B) : List L → S → List B
  | [], _ => []
  | call :: rest, s => f s call ++ collect perform f rest (exec (perform call) s).2

theorem collect_concat
    (run : Run (fun s call t => exec (perform call) s = (.ok (), t)) s calls t) (f : S → L → List B)
    (call : L) : collect perform f (calls ++ [call]) s = collect perform f calls s ++ f t call := by
  induction run with
  | nil s => simp [collect]
  | cons taken _ ih => rw [List.cons_append, collect, collect, taken, ih, List.append_assoc]

theorem foldlM_run (view : S → T) (label : A → B → L)
    (each : ∀ {s a t}, f s a = .ok t → ∃ b, step (view s) (label a b) (view t))
    (folded : items.foldlM f s = .ok t) :
    ∃ bs : List B, bs.length = items.length ∧ Run step (view s) (List.zipWith label items bs) (view t) := by
  have run := Run.of_foldlM folded
  clear folded
  induction run with
  | nil s => exact ⟨[], rfl, .nil _⟩
  | cons first _ ih =>
    obtain ⟨b, taken⟩ := each first
    obtain ⟨bs, length, run⟩ := ih
    exact ⟨b :: bs, congrArg Nat.succ length, .cons taken run⟩

/-- A fold that passes some of its items over is a run of the others. -/
theorem foldlM_subrun (view : S → T) (label : A → L)
    (each : ∀ {s a t}, f s a = .ok t → P s → P t ∧ (view t = view s ∨ step (view s) (label a) (view t)))
    (folded : items.foldlM f s = .ok t) (start : P s) :
    P t ∧ ∃ taken : List A, taken.Sublist items ∧ Run step (view s) (taken.map label) (view t) := by
  have run := Run.of_foldlM folded
  clear folded
  induction run with
  | nil s => exact ⟨start, [], .slnil, .nil _⟩
  | cons first _ ih =>
    obtain ⟨kept, outcome⟩ := each first start
    obtain ⟨done, taken, sub, run⟩ := ih kept
    rcases outcome with same | taken_
    · exact ⟨done, taken, sub.cons _, same ▸ run⟩
    · exact ⟨done, _ :: taken, sub.cons_cons _, .cons taken_ run⟩

theorem foldlM_all {Q : A → S → Prop}
    (each : ∀ {s a t}, a ∈ items → f s a = .ok t → P s → P t ∧ Q a t ∧ ∀ b, Q b s → Q b t)
    (folded : items.foldlM f s = .ok t) (start : P s) :
    P t ∧ (∀ a ∈ items, Q a t) ∧ ∀ b, Q b s → Q b t := by
  have run := Run.of_foldlM folded
  clear folded
  induction run with
  | nil s => exact ⟨start, by simp, fun _ stays => stays⟩
  | cons first _ ih =>
    obtain ⟨kept, left, stays⟩ := each List.mem_cons_self first start
    obtain ⟨done, all, staysLater⟩ := ih (fun among => each (List.mem_cons_of_mem _ among)) kept
    refine ⟨done, ?_, fun b here => staysLater b (stays b here)⟩
    intro b member
    rcases List.mem_cons.mp member with rfl | among
    · exact staysLater b left
    · exact all b among

end Attempt

theorem List.foldl_leaves {S A B : Type} {f : S → A → S} (view : S → B)
    (leaves : ∀ s a, view (f s a) = view s) (items : List A) (s : S) :
    view (items.foldl f s) = view s := by
  induction items generalizing s with
  | nil => rfl
  | cons a rest ih => rw [List.foldl_cons, ih, leaves]

theorem List.map_set_of_same {A B : Type} {f : A → B} {l : List A} {a a' : A}
    (found : l[i]? = some a) (same : f a' = f a) : (l.set i a').map f = l.map f := by
  obtain ⟨inside, rfl⟩ := List.getElem?_eq_some_iff.mp found
  have listed : i < (l.map f).length := by rwa [List.length_map]
  rw [List.map_set, same, ← List.getElem_map f (h := listed), List.set_getElem_self]
