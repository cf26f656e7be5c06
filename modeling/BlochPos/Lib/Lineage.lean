import Mathlib

/-! Entries that are named by the digest of what made them and a number. While digests are told apart, an
entry that is gone does not come back. Makers and digests are arbitrary. -/

variable {M D : Type*}

/-- The makers so far, against the entries that are held. -/
structure Lineage (digest : M → D) (inputs : M → List (D ×ₗ ℕ)) (held : D ×ₗ ℕ → Prop) (makers : List M) :
    Prop where
  made : ∀ {id}, held id → ∃ m ∈ makers, digest m = (ofLex id).1
  gone : ∀ {m}, m ∈ makers → ∀ id ∈ inputs m, ¬ held id ∧ ∃ m' ∈ makers, digest m' = (ofLex id).1
  distinct : makers.Pairwise (fun m m' => digest m ≠ digest m')

namespace Lineage

variable {digest : M → D} {inputs : M → List (D ×ₗ ℕ)} {held : D ×ₗ ℕ → Prop} {makers : List M}

theorem empty : Lineage digest inputs (fun _ => False) [] := ⟨nofun, by simp, List.Pairwise.nil⟩

section

variable (lineage : Lineage digest inputs held makers)
include lineage

theorem congr (same : ∀ {id}, held' id → held id) : Lineage digest inputs held' makers where
  made there := lineage.made (same there)
  gone among id taken := ⟨fun there => (lineage.gone among id taken).1 (same there), (lineage.gone among id taken).2⟩
  distinct := lineage.distinct

theorem ne_of_input {id : D ×ₗ ℕ} (there : held id) :
    ∀ m ∈ makers, id ∉ inputs m := fun _ among taken => (lineage.gone among id taken).1 there

theorem concat (new : ∀ m' ∈ makers, digest m' ≠ digest m)
    (takes : ∀ id ∈ inputs m, held id)
    (after : ∀ {id}, held' id → (held id ∧ id ∉ inputs m) ∨ (ofLex id).1 = digest m) :
    Lineage digest inputs held' (makers ++ [m]) where
  made {id} there := by
    obtain ⟨before, -⟩ | made := after there
    · obtain ⟨m', among, same⟩ := lineage.made before
      exact ⟨m', List.mem_append_left _ among, same⟩
    · exact ⟨m, List.mem_append_right _ (List.mem_singleton.mpr rfl), made.symm⟩
  gone {m'} among id taken := by
    -- an earlier maker has the name of the entry, so the new one has not made it
    have stays : ∀ {id}, (∃ m' ∈ makers, digest m' = (ofLex id).1) → (held id → id ∈ inputs m) → ¬ held' id := by
      rintro id ⟨m', before, same⟩ lost there
      obtain ⟨held, kept⟩ | made := after there
      · exact kept (lost held)
      · exact new m' before (same.trans made)
    have widen : ∀ {id : D ×ₗ ℕ}, (∃ m' ∈ makers, digest m' = (ofLex id).1) →
        ∃ m' ∈ makers ++ [m], digest m' = (ofLex id).1 := fun made =>
      made.imp (fun _ named => ⟨List.mem_append_left _ named.1, named.2⟩)
    rw [List.mem_append, List.mem_singleton] at among
    obtain among | rfl := among
    · obtain ⟨absent, made⟩ := lineage.gone among id taken
      exact ⟨stays made (fun there => absurd there absent), widen made⟩
    · have made := lineage.made (takes id taken)
      exact ⟨stays made (fun _ => taken), widen made⟩
  distinct := List.pairwise_append.mpr ⟨lineage.distinct, List.pairwise_singleton _ _, fun m' among last one =>
    List.mem_singleton.mp one ▸ new m' among⟩

end

end Lineage
