import BlochPos.Ustav.Integrity
import BlochPos.Ustav.Pairs

/-! What a staged ledger accepts the full ledger accepts, with the staged outputs in place of the
inputs. -/
namespace BlochPos.Ustav.Ledger

open Attempt SortedMap List

variable {h : Hashes} {l s : Ledger} {w : Witnesses} {height : ℕ} {v : Verifier} {p : Planned} {id : OutPoint}
  {hash : Bytes32} {swap : PairSwap}

theorem Accepts.transfer (accepted : Accepts h s tx w height v p) (domain : l.domain = s.domain)
    (token : l.tokens.get? tx.asset = s.tokens.get? tx.asset)
    (held : ∀ id ∈ tx.inputs, l.outputs.get? id = s.outputs.get? id)
    (fresh : ∀ id ∈ p.ids tx, l.outputs.get? id = none) : Accepts h l tx w height v p := by
  have owner : ∀ id ∈ tx.inputs, l.ownerAt id = s.ownerAt id := fun id among => by
    rw [ownerAt, ownerAt, held id among]
  have amounts : tx.inputs.map l.amountAt = tx.inputs.map s.amountAt :=
    map_congr_left (fun id among => by rw [amountAt, amountAt, held id among])
  exact { accepted with
    known := token.trans accepted.known
    message := by rw [accepted.message, domain]
    inputs := fun input among => by
      have listed := (of_mem_zip among).1
      obtain ⟨o, found, asset⟩ := (accepted.inputs input among).held
      refine ⟨⟨o, (held _ listed).trans found, asset⟩, ?_⟩
      rw [owner _ listed]
      exact (accepted.inputs input among).signed
    conserved := by rw [amounts]; exact accepted.conserved
    eligible := by
      obtain ⟨subjects, g, g', spenders, receivers, done⟩ := accepted.eligible
      refine ⟨subjects, g, g', fun id among => ?_, fun o among => ?_, done⟩
      · rw [domain, owner id among]
        exact spenders id among
      · rw [domain]
        exact receivers o among
    fresh := fresh }

theorem ids_eq (accepted : Accepts h l tx w height v p) :
    p.ids tx = (List.range tx.outputs.length).map (outPoint (transactionHash h l.domain tx)) := by
  rw [Planned.ids, accepted.message]

theorem apply_accepts (done : exec (Ledger.apply h tx w height v gasLimit) l = (.ok receipt, l')) :
    ∃ p, Accepts h l tx w height v p ∧
      l.outputs.size + tx.outputs.length ≤ MAX_LEDGER_OUTPUTS + tx.inputs.length ∧
      l' = l.commitApply tx p ∧ receipt.transaction = p.message := by
  rw [Ledger.apply, exec_transact_eq_ok_iff] at done
  obtain ⟨⟨p, left⟩, planned, rfl, rfl⟩ := done
  obtain ⟨accepted, room⟩ := accepts_of_checkApply (metered_eq_ok_iff.mp planned)
  exact ⟨p, accepted, room, rfl, rfl⟩

/-- A copy of the ledger that holds the inputs only. -/
structure Staged (l s : Ledger) (inputs : List OutPoint) : Prop where
  domain : s.domain = l.domain
  outputs : ∀ id, s.outputs.get? id = if id ∈ inputs then l.outputs.get? id else none
  held : ∀ id ∈ inputs, ∃ o, l.outputs.get? id = some o

theorem staged_new (l : Ledger) : Staged l (.new l.domain) [] :=
  ⟨rfl, fun id => by simp [new], by simp⟩

theorem stageInput_eq_ok
    (done : exec (l.stageInput tx s id) g = (.ok s', g')) :
    (∃ o, l.outputs.get? id = some o ∧ o.asset = tx.asset ∧ s' = { s with outputs := s.outputs.insert id o }) := by
  simp only [stageInput, ok_iff, exec_charge_eq_ok_iff, existsAndEq, and_true, not_not] at done
  obtain ⟨o, found, asset, -, same⟩ := done
  exact ⟨o, found, asset, same.symm⟩

theorem stageInputs_eq_ok (staged : Staged l s before)
    (done : exec (inputs.foldlM (l.stageInput tx) s) g = (.ok s', g')) :
    Staged l s' (before ++ inputs) ∧ s'.tokens = s.tokens := by
  induction inputs generalizing s before g with
  | nil =>
    rw [foldlM_nil, exec_pure_eq_ok_iff] at done
    obtain ⟨rfl, -⟩ := done
    rw [append_nil]
    exact ⟨staged, rfl⟩
  | cons id rest ih =>
    rw [foldlM_cons, exec_bind_eq_ok_iff] at done
    obtain ⟨mid, g₁, first, later⟩ := done
    obtain ⟨o, found, asset, rfl⟩ := stageInput_eq_ok first
    have next : Staged l { s with outputs := s.outputs.insert id o } (before ++ [id]) := by
      refine ⟨staged.domain, fun id' => ?_, fun id' among => ?_⟩
      · rw [get?_insert, staged.outputs]
        by_cases here : id' = id
        · simp [here, found]
        · simp [here]
      · rw [mem_append, mem_singleton] at among
        obtain among | rfl := among
        · exact staged.held id' among
        · exact ⟨o, found⟩
    obtain ⟨all, tokens⟩ := ih next later
    rw [append_assoc] at all
    exact ⟨all, tokens⟩

theorem checkCollisions_eq_ok (done : l.checkCollisions tx hash = .ok ()) :
    ∀ id ∈ (List.range tx.outputs.length).map (outPoint hash), l.outputs.get? id = none := by
  rw [checkCollisions, refuse_eq_ok_iff] at done
  intro id among
  by_contra held
  obtain ⟨o, found⟩ := Option.ne_none_iff_exists'.mp held
  exact done ⟨id, among, contains_iff.mpr ⟨o, found⟩⟩

theorem stageLeg_eq_ok
    (staged : Staged l s before) (done : exec (l.stageLeg tx w hash s) g = (.ok s', g')) :
    Staged l s' (before ++ tx.inputs) ∧
      (∃ token, l.tokens.get? tx.asset = some token ∧ s'.tokens = s.tokens.insert tx.asset token) ∧
      ∀ id ∈ (List.range tx.outputs.length).map (outPoint hash), l.outputs.get? id = none := by
  simp only [stageLeg, ok_iff, exec_charge_eq_ok_iff, existsAndEq, and_true] at done
  obtain ⟨token, known, _, -, _, -, copied, free⟩ := done
  have start : Staged l { s with tokens := s.tokens.insert tx.asset token } before :=
    ⟨staged.domain, staged.outputs, staged.held⟩
  obtain ⟨all, tokens⟩ := stageInputs_eq_ok start copied
  exact ⟨all, ⟨token, known, tokens⟩, checkCollisions_eq_ok free⟩

theorem applyStaged_eq_ok
    (done : exec (applyStaged h tx w height v s) g = (.ok (receipt, s'), g')) :
    ∃ p, Accepts h s tx w height v p ∧ s' = s.commitApply tx p := by
  simp only [applyStaged, ok_iff, existsAndEq, true_and, and_true, exists_const, Prod.exists,
    outcome_eq_ok_iff, Prod.mk.injEq] at done
  obtain ⟨applied, -⟩ := done
  obtain ⟨p, accepted, -, rfl, -⟩ := apply_accepts applied
  exact ⟨p, accepted, rfl⟩

theorem commitApply_get? (l : Ledger) (tx : Transaction) (p : Planned) (id : OutPoint) :
    (l.commitApply tx p).outputs.get? id =
      ((ofList (p.made tx)).get? id).or (if id ∈ tx.inputs then none else l.outputs.get? id) := by
  rw [commitApply_outputs, get?_exchange_eq (made_nodup p tx)]
  congr

theorem mem_ids_of_made (found : (ofList (p.made tx)).get? id = some o) : id ∈ p.ids tx := by
  rw [get?_ofList_eq_some_iff (made_nodup p tx)] at found
  exact made_keys p tx ▸ mem_map_of_mem found

/-- Both legs are accepted, the second after the first. -/
structure Settles (h : Hashes) (l : Ledger) (swap : PairSwap) (w : Witnesses × Witnesses) (height : ℕ)
    (v : Verifier) (p q : Planned) : Prop where
  first : Accepts h l swap.legs.1 w.1 height v p
  second : Accepts h (l.commitApply swap.legs.1 p) swap.legs.2 w.2 height v q
  transfers : swap.legs.1.delta = 0 ∧ swap.legs.2.delta = 0
  other : swap.legs.1.asset ≠ swap.legs.2.asset
  room : l.outputs.size + (swap.legs.1.outputs.length + swap.legs.2.outputs.length) ≤
    MAX_LEDGER_OUTPUTS + (swap.legs.1.inputs.length + swap.legs.2.inputs.length)

theorem authorization_eq_ok {domain : Bytes32} {pair : Pair}
    (done : swap.authorization h domain = .ok (pair, hashes, authorization)) :
    swap.legs.1.asset ≠ swap.legs.2.asset ∧ swap.legs.1.delta = 0 ∧ swap.legs.2.delta = 0 ∧
      hashes = (transactionHash h domain swap.legs.1, transactionHash h domain swap.legs.2) := by
  simp only [PairSwap.authorization, Pair.new, Transaction.signingHash, ok_iff, existsAndEq, and_true, not_or,
    Prod.mk.injEq] at done
  obtain ⟨⟨other, -⟩, ⟨-, first, second⟩, -, -, -, hashes_eq, -⟩ := done
  have plain : ∀ {tx : Transaction}, ¬ tx.notTransfer = true → tx.delta = 0 := by
    intro tx transfer
    by_contra changes
    exact transfer (by simp [Transaction.notTransfer, changes])
  exact ⟨other, plain first, plain second, hashes_eq.symm⟩

theorem Accepts.transfer_second (staged : Staged l s (tx.inputs ++ tx'.inputs))
    (tokens : l.tokens.get? tx'.asset = s.tokens.get? tx'.asset) (other : tx'.asset ≠ tx.asset)
    (free : ∀ id ∈ q.ids tx', l.outputs.get? id = none)
    (second : Accepts h (s.commitApply tx p) tx' w' height v q) :
    Accepts h (l.commitApply tx p) tx' w' height v q := by
  -- both ledgers exchange the same outputs, so they agree wherever they agreed before
  have agree : ∀ {id}, l.outputs.get? id = s.outputs.get? id →
      (l.commitApply tx p).outputs.get? id = (s.commitApply tx p).outputs.get? id := fun same => by
    rw [commitApply_get?, commitApply_get?, same]
  refine second.transfer staged.domain.symm ?_ (fun id among => agree ?_) (fun id among => ?_)
  · rw [commitApply, commitApply, get?_insert_of_ne _ _ other, get?_insert_of_ne _ _ other]
    exact tokens
  · rw [staged.outputs, if_pos (mem_append_right _ among)]
  · rw [agree ?_]
    · exact second.fresh id among
    · rw [free id among, staged.outputs]
      simp [free id among]

/-- Both legs applied to the staged ledger are both applied to the whole one. -/
theorem exchange_staged (staged : Staged l s (tx.inputs ++ tx'.inputs)) :
    l.outputs.exchange (tx.inputs ++ tx'.inputs) ((s.commitApply tx p).commitApply tx' q).outputs.entries =
      ((l.commitApply tx p).commitApply tx' q).outputs := by
  apply ext_get?
  intro id
  rw [get?_exchange_eq (keys_nodup _), ofList_entries]
  simp only [commitApply_get?, staged.outputs, mem_append]
  cases (ofList (q.made tx')).get? id <;> cases (ofList (p.made tx)).get? id <;>
    by_cases here : id ∈ tx.inputs <;> by_cases there : id ∈ tx'.inputs <;> simp [here, there]

theorem settles_of_checkSettle {w : Witnesses × Witnesses}
    (done : exec (l.checkSettle h swap w height v) g = (.ok settled, g')) :
    ∃ v' p q, v.Alike v' ∧ Settles h l swap w height v' p q ∧
      l.commitStaged (swap.legs.1.inputs ++ swap.legs.2.inputs) settled.staged =
        (l.commitApply swap.legs.1 p).commitApply swap.legs.2 q := by
  simp only [checkSettle, ok_iff, exec_charge_eq_ok_iff, existsAndEq, and_true, Prod.exists,
    Option.bind_eq_some_iff, not_lt] at done
  obtain ⟨pair, hash₁, hash₂, authorization, authorized, _, -, _, -, s₁, _, staged₁, s₂, _, staged₂, count,
    ⟨rest, taken, counted⟩, within, receipt₁, s₃, _, applied₁, receipt₂, s₄, applied₂, rfl⟩ := done
  obtain ⟨other, transfer₁, transfer₂, hashes⟩ := authorization_eq_ok authorized
  obtain ⟨rfl, rfl⟩ := Prod.mk.inj hashes
  obtain ⟨stage₁, ⟨token₁, known₁, tokens₁⟩, free₁⟩ := stageLeg_eq_ok (staged_new l) staged₁
  obtain ⟨stage₂, ⟨token₂, known₂, tokens₂⟩, free₂⟩ := stageLeg_eq_ok stage₁ staged₂
  rw [nil_append] at stage₂
  obtain ⟨p, accepted₁, rfl⟩ := applyStaged_eq_ok applied₁
  obtain ⟨q, accepted₂, rfl⟩ := applyStaged_eq_ok applied₂
  have tokens : s₂.tokens = (empty.insert swap.legs.1.asset token₁).insert swap.legs.2.asset token₂ := by
    rw [tokens₂, tokens₁]
    rfl
  have same₁ : l.tokens.get? swap.legs.1.asset = s₂.tokens.get? swap.legs.1.asset := by
    rw [tokens, get?_insert_of_ne _ _ other, get?_insert_self, known₁]
  have same₂ : l.tokens.get? swap.legs.2.asset = s₂.tokens.get? swap.legs.2.asset := by
    rw [tokens, get?_insert_self, known₂]
  have ids₁ := ids_eq accepted₁
  have ids₂ := ids_eq accepted₂
  rw [stage₂.domain] at ids₁
  rw [show (s₂.commitApply swap.legs.1 p).domain = l.domain from stage₂.domain] at ids₂
  have first := accepted₁.transfer stage₂.domain.symm same₁
    (fun id among => by rw [stage₂.outputs, if_pos (mem_append_left _ among)])
    (fun id among => free₁ id (ids₁ ▸ among))
  have second := accepted₂.transfer_second stage₂ same₂ (Ne.symm other) (fun id among => free₂ id (ids₂ ▸ among))
  refine ⟨v.pair (_, _) authorization, p, q, rfl, ⟨first, second, ⟨transfer₁, transfer₂⟩, other, ?_⟩, ?_⟩
  · have left := checkedSub_eq_some taken
    obtain ⟨rfl, -⟩ := checkedAdd_eq_some counted
    omega
  · have exchanged : l.tokens.exchange [] ((s₂.commitApply swap.legs.1 p).commitApply swap.legs.2 q).tokens.entries =
        ((l.commitApply swap.legs.1 p).commitApply swap.legs.2 q).tokens := by
      apply ext_get?
      intro asset
      rw [get?_exchange_eq (keys_nodup _), ofList_entries]
      simp only [commitApply, get?_insert, tokens]
      by_cases second : asset = swap.legs.2.asset
      · simp [second]
      · by_cases first : asset = swap.legs.1.asset
        · simp [first, other]
        · simp [first, second]
    rw [commitStaged, exchange_staged stage₂, exchanged]
    rfl

end BlochPos.Ustav.Ledger
