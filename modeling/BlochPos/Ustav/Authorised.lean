import BlochPos.Ustav.Integrity

/-! What an accepted transaction was authorised by: the rules of its charter's modules, whatever
redeemers they run on. -/
namespace BlochPos.Ustav

open Attempt List

section

variable {v : Verifier} {message : Bytes} {height supply : ℕ} {n : ℤ} {signer : Bytes × ℕ} {count : ℤ}

@[simp] theorem native_verify (v : Verifier) : v.native.verify = v.verifyPq := rfl

theorem eq_true_of_ne_zero (set : (if b = true then 1 else 0) = n) (accepts : n ≠ 0) : b = true := by
  by_contra unset
  rw [if_neg unset] at set
  exact accepts set.symm

theorem compileSupply_accepts
    (ran : effect h (.ofFields [.bytes message, .int delta, .int height, .int supply]) v.native
      (compileSupply c) [x] = .ok (.int n :: st)) (accepts : n ≠ 0) :
    supply + delta ≤ c.cap ∧ ∃ sig, x = .bytes sig ∧ v.verifyPq message c.issuerPubkey sig = true := by
  obtain ⟨sum, sig, ⟨⟨rfl, -⟩, added⟩, within, verdict⟩ : ∃ sum sig,
      ((x = .bytes sig ∧ st = []) ∧ checkedI128 (supply + delta) = some sum) ∧ sum ≤ c.cap ∧
        (if v.verifyPq message c.issuerPubkey sig = true then 1 else 0) = n := by
    simpa [compileSupply, Ctx.ofFields, MINT_CTX_PRIOR_SUPPLY, MINT_CTX_DELTA, MINT_CTX_SIGHASH] using ran
  obtain ⟨rfl, -⟩ := checkedI128_eq_some added
  exact ⟨within, sig, rfl, eq_true_of_ne_zero verdict accepts⟩

theorem compileTransferPolicy_accepts
    (ran : effect h (.ofFields [.bytes message, .int height, .bytes root]) v.native
      (compileTransferPolicy c) [x, .int 1] = .ok (.int n :: st)) (accepts : n ≠ 0) :
    ∃ sig, x = .bytes sig ∧ v.verifyPq message c.authorityPubkey sig = true := by
  obtain ⟨sig, rfl, rfl, frozen, found, sum, added, verdict⟩ : ∃ sig, x = .bytes sig ∧ [x, .int 1] = st ∧
      ∃ frozen, st[1]? = some (.int frozen) ∧ ∃ sum,
        checkedI128 ((if v.verifyPq message c.authorityPubkey sig = true then 1 else 0) +
          if frozen = 0 then 1 else 0) = some sum ∧ (if 0 < sum then 1 else 0) = n := by
    simpa [compileTransferPolicy, Ctx.ofFields, FIELD_SIGHASH] using ran
  obtain rfl : 1 = frozen := by simpa using found
  obtain ⟨same, -⟩ := checkedI128_eq_some added
  refine ⟨sig, rfl, ?_⟩
  by_contra unsigned
  rw [if_neg unsigned] at same
  subst same
  exact accepts verdict.symm

theorem compileVesting_accepts (ran : effect h (.ofFields [.bytes message, .int height, .bytes root]) v.native
      (compileVesting c) [x, datum] = .ok (.int n :: st)) (accepts : n ≠ 0) :
    c.unlockHeight ≤ height ∧ ∃ sig, x = .bytes sig ∧ v.verifyPq message c.beneficiaryPubkey sig = true := by
  obtain ⟨rfl, unlocked, sig, found, verdict⟩ : [x, datum] = st ∧ c.unlockHeight ≤ height ∧
      ∃ sig, st[0]? = some (.bytes sig) ∧
        (if v.verifyPq message c.beneficiaryPubkey sig = true then 1 else 0) = n := by
    simpa [compileVesting, Ctx.ofFields, FIELD_SIGHASH, FIELD_HEIGHT] using ran
  obtain rfl : x = .bytes sig := by simpa using found
  exact ⟨unlocked, sig, rfl, eq_true_of_ne_zero verdict accepts⟩

def signedAt (v : Verifier) (message : Bytes) (redeemer : List Val) (signer : Bytes × ℕ) : Bool :=
  match redeemer[signer.2]? with
  | some (.bytes sig) => v.verifyPq message signer.1 sig
  | _ => false

variable {redeemer : List Val}

theorem compileSigner_effect (listed : signer.2 < redeemer.length)
    (ran : effect h (.ofFields [.bytes message, .int height, .bytes root]) v.native
      (compileSigner redeemer.length signer) (.int count :: (redeemer.reverse ++ [datum])) = .ok st') :
    st' = .int (count + if signedAt v message redeemer signer then 1 else 0) ::
      (redeemer.reverse ++ [datum]) := by
  have place : (Val.bytes signer.1 :: .bytes message :: .int count :: (redeemer.reverse ++ [datum]))[
      redeemer.length + 3 - (signer.2 + 1)]? = redeemer[signer.2]? := by
    have index : redeemer.length + 3 - (signer.2 + 1) = (redeemer.length - 1 - signer.2) + 3 := by omega
    rw [index]
    simp only [getElem?_cons_succ]
    rw [getElem?_append_left (by rw [length_reverse]; omega), getElem?_reverse (by omega)]
    congr 1
    omega
  simp only [compileSigner, Ctx.ofFields, FIELD_SIGHASH, effect_cons, effect_nil, step_ctxField, step_pushBytes,
    step_pick, step_verifySig, step_add, native_verify, ofBool_eq_int_iff, getElem?_cons_zero,
    Option.some.injEq, existsAndEq, true_and, and_true, place, List.cons.injEq, Val.bytes.injEq,
    Val.int.injEq] at ran
  obtain ⟨sig, sum, found, added, rfl⟩ := ran
  obtain ⟨rfl, -⟩ := checkedI128_eq_some added
  rw [signedAt, found]

theorem compileSigners_effect {signers : List (Bytes × ℕ)} (listed : ∀ s ∈ signers, s.2 < redeemer.length)
    (ran : effect h (.ofFields [.bytes message, .int height, .bytes root]) v.native
      (signers.flatMap (compileSigner redeemer.length)) (.int count :: (redeemer.reverse ++ [datum])) =
        .ok st') :
    st' = .int (count + signers.countP (signedAt v message redeemer)) :: (redeemer.reverse ++ [datum]) := by
  induction signers generalizing count with
  | nil =>
    rw [flatMap_nil, effect_nil] at ran
    simp [← ran]
  | cons signer rest ih =>
    rw [forall_mem_cons] at listed
    rw [flatMap_cons, effect_append] at ran
    obtain ⟨mid, first, later⟩ := ran
    obtain rfl := compileSigner_effect listed.1 first
    rw [ih listed.2 later, countP_cons]
    push_cast
    ring_nf

/-- A key that verified a signature among the values. -/
def Presented (v : Verifier) (message : Bytes) (redeemer : List Val) (key : Bytes) : Prop :=
  ∃ sig, .bytes sig ∈ redeemer ∧ v.verifyPq message key sig = true

theorem Presented.of_signedAt (signed : signedAt v message redeemer signer = true) :
    Presented v message redeemer signer.1 := by
  unfold signedAt at signed
  split at signed
  next sig found => exact ⟨sig, mem_of_getElem? found, signed⟩
  next => cases signed

/-- A quorum program accepts only if enough of the signers, all of them different, have signed. -/
theorem compileGovernance_accepts (arity : redeemer.length = c.signers.length)
    (ran : effect h (.ofFields [.bytes message, .int height, .bytes root]) v.native
      (compileGovernance c) (redeemer.reverse ++ [datum]) = .ok (.int n :: st)) (accepts : n ≠ 0) :
    ∃ signed : Finset Bytes, c.threshold ≤ signed.card ∧
      ∀ key ∈ signed, key ∈ c.signers ∧ Presented v message redeemer key := by
  unfold compileGovernance at ran
  dsimp only at ran
  split_ifs at ran with sentinel
  · -- the program that always refuses
    simp only [effect_cons, effect_nil, step_pushInt, existsAndEq, true_and, List.cons.injEq, Val.int.injEq] at ran
    exact absurd ran.1.symm accepts
  · have distinct : c.signers.Nodup := by
      by_contra repeated
      exact sentinel (.inr (.inl repeated))
    rw [← arity, effect_append] at ran
    obtain ⟨mid, counted, judged⟩ := ran
    simp only [effect_cons, step_expectDepth, step_pushInt, existsAndEq, true_and] at counted
    have inside : ∀ s ∈ c.signers.zipIdx, s.2 < redeemer.length := fun s among => by
      rw [arity]
      exact (mem_zipIdx' among).1
    obtain rfl := compileSigners_effect inside counted.2
    simp only [effect_cons, effect_nil, step_pushInt, step_lt, step_not, ofBool_eq_int_iff, existsAndEq, true_and,
      and_true, List.cons.injEq, Val.int.injEq] at judged
    have enough : c.threshold ≤ c.signers.zipIdx.countP (signedAt v message redeemer) := by
      have verdict := eq_true_of_ne_zero judged.2 accepts
      simp only [decide_eq_true_eq] at verdict
      split_ifs at verdict with few
      · exact absurd verdict one_ne_zero
      · omega
    let signed := (c.signers.zipIdx.filter (signedAt v message redeemer)).map Prod.fst
    have once : signed.Nodup := by
      refine List.Nodup.sublist (filter_sublist.map _) ?_
      rw [zipIdx_map_fst]
      exact distinct
    refine ⟨signed.toFinset, ?_, fun key among => ?_⟩
    · rw [toFinset_card_of_nodup once, length_map, ← countP_eq_length_filter]
      exact enough
    · obtain ⟨signer, kept, rfl⟩ := mem_map.mp (mem_toFinset.mp among)
      obtain ⟨listed, verified⟩ := mem_filter.mp kept
      exact ⟨fst_mem_of_mem_zipIdx listed, .of_signedAt verified⟩

end

section

variable {h : Hashes} {domain : Bytes32} {height : ℕ} {w : Witnesses} {m : ModuleKind}

theorem compiled_of_validate (valid : validateRegistration h r v = .ok token) :
    token.compiled = compileCharter h r.charter := by
  simp only [validateRegistration, ok_iff] at valid
  obtain ⟨-, -, tags, -, -, -, -, ⟨compiled, audit⟩, made, -, rfl⟩ := valid
  exact compileCharterWithReport_compiled made

theorem Ledger.TokenSound.compiled (sound : Ledger.TokenSound h P domain asset token) :
    token.compiled = compileCharter h token.registration.charter := by
  obtain ⟨v, -, valid⟩ := sound.valid
  have made : token.atStart.compiled = _ := compiled_of_validate valid
  exact made

theorem runModules_all (compiled : token.compiled = compileCharter h token.registration.charter)
    (counted : w.modules.length = token.compiled.validators.length)
    (ran : exec (runModules h token message height w delta spends false v) g = (.ok (), g'))
    (among : m ∈ token.registration.charter.modules) :
    ∃ redeemer ∈ w.modules, ∃ index g g',
      exec (runModule h token message height delta spends false v (((m, compileModule h m), redeemer), index)) g =
        (.ok (), g') := by
  let modules := token.registration.charter.modules
  have paired : modules.zip token.compiled.validators = modules.map (fun m => (m, compileModule h m)) := by
    rw [compiled]
    have zipped : (modules.map id).zip (modules.map (compileModule h)) = _ := zip_map'
    rw [map_id] at zipped
    exact zipped
  have lengths : (modules.zip token.compiled.validators).length ≤ w.modules.length := by
    rw [length_zip, counted]
    exact Nat.min_le_right _ _
  have listed : (m, compileModule h m) ∈ ((modules.zip token.compiled.validators).zip w.modules).map Prod.fst := by
    rw [map_fst_zip lengths, paired]
    exact mem_map.mpr ⟨m, among, rfl⟩
  obtain ⟨⟨_, redeemer⟩, inside, rfl⟩ := mem_map.mp listed
  obtain ⟨index, placed⟩ := getElem?_of_mem inside
  have entry : (((m, compileModule h m), redeemer), index) ∈
      ((modules.zip token.compiled.validators).zip w.modules).zipIdx :=
    mem_zipIdx_iff_getElem?.mpr placed
  obtain ⟨t, t', done⟩ := forM_all ran _ entry
  exact ⟨redeemer, (of_mem_zip inside).2, index, t, t', done⟩

/-- An accepted run of a module that has a say: its program accepts the redeemer. -/
theorem runModule_accepts (ran : exec (runModule h token message height delta spends false v
      (((m, compileModule h m), redeemer), index)) g = (.ok (), g'))
    (applies : m.applicable delta spends false = true) :
    redeemer.length = m.arity ∧ ∃ n st, n ≠ 0 ∧ effect h (.ofFields (m.fields token message height delta)) v.native
      m.compile (m.seed token false redeemer).reverse = .ok (.int n :: st) := by
  unfold runModule at ran
  dsimp only at ran
  split_ifs at ran with custody
  · cases ran
  · simp only [ok_iff, not_not] at ran
    obtain ⟨_, ⟨arity, rfl⟩, ran⟩ := ran
    refine ⟨arity, ?_⟩
    simp only [runMetered, ok_iff] at ran
    obtain ⟨_, _, ⟨rfl, rfl⟩, ran⟩ := ran
    split at ran
    next left accepted =>
      obtain ⟨n, st, executed, accepts⟩ := run_accepts accepted
      exact ⟨n, st, accepts, executed⟩
    next => cases ran
    next => cases ran
    next => cases ran

theorem seed_reverse (other : m.tag ≠ .supply) (admin : Bool) (redeemer : List Val) :
    (m.seed token admin redeemer).reverse = redeemer.reverse ++ [ofBool (token.frozen || admin)] := by
  cases m with
  | supply => exact absurd rfl other
  | _ => exact reverse_cons

/-- A proof, among those of the witness, that a subject is eligible at the height. -/
def Eligible (h : Hashes) (root : Bytes32) (height : ℕ) (w : Witnesses) (subject : Bytes32) : Prop :=
  ∃ proof ∈ w.eligibility, proof.key = hashBytes subject ∧ proof.verify h root = true ∧
    ∃ value, proof.value = some value ∧ height ≤ ofLeBytes value

theorem checkEligibility_all (gated : token.kycRoot = some root)
    (done : exec (checkEligibility h token height subjects w) g = (.ok (), g'))
    (among : subject ∈ subjects) : Eligible h root height w subject := by
  simp only [checkEligibility, gated, ok_iff, not_not, existsAndEq, and_true] at done
  obtain ⟨counted, done⟩ := done
  have listed : subject ∈ ((subjects.sort (· ≤ ·)).zip w.eligibility).map Prod.fst := by
    rw [map_fst_zip (by rw [Finset.length_sort, counted])]
    exact (Finset.mem_sort _).mpr among
  obtain ⟨⟨_, proof⟩, inside, rfl⟩ := mem_map.mp listed
  obtain ⟨t, t', checked⟩ := forM_all done _ inside
  simp only [checkSubject, ok_iff, exec_charge_eq_ok_iff, existsAndEq, and_true, not_or, not_not, not_lt,
    Bool.not_eq_false] at checked
  obtain ⟨value, -, ⟨key, verified⟩, found, -, late⟩ := checked
  exact ⟨proof, (of_mem_zip inside).2, key, verified, value, found, late⟩

end

namespace Ledger

/-- What authorises a transaction under the charter of its token. Signatures are over its digest and
come from its witness. -/
structure Authorised (h : Hashes) (l : Ledger) (tx : Transaction) (w : Witnesses) (height : ℕ) (v : Verifier)
    (token : Token) : Prop where
  owners : ∀ id ∈ tx.inputs, ∃ o, l.outputs.get? id = some o ∧
    ∃ sig ∈ w.owners, v.verifyPq (hashBytes (transactionHash h l.domain tx)) o.output.owner sig = true
  frozen : token.frozen = true → ∀ c, .transferPolicy c ∈ token.registration.charter.modules →
    ∃ redeemer ∈ w.modules, Presented v (hashBytes (transactionHash h l.domain tx)) redeemer c.authorityPubkey
  supply : tx.delta ≠ 0 → ∃ c, token.supplyConfig = .ok c ∧ 0 ≤ token.supply + tx.delta ∧
    token.supply + tx.delta ≤ c.cap ∧ ∃ redeemer ∈ w.modules,
      Presented v (hashBytes (transactionHash h l.domain tx)) redeemer c.issuerPubkey
  vesting : tx.inputs ≠ [] → ∀ c, .vesting c ∈ token.registration.charter.modules →
    c.unlockHeight ≤ (height : ℤ) ∧ ∃ redeemer ∈ w.modules,
      Presented v (hashBytes (transactionHash h l.domain tx)) redeemer c.beneficiaryPubkey
  governance : ∀ c, .governance c ∈ token.registration.charter.modules →
    ∃ redeemer ∈ w.modules, ∃ signed : Finset Bytes, c.threshold ≤ signed.card ∧ ∀ key ∈ signed,
      key ∈ c.signers ∧ Presented v (hashBytes (transactionHash h l.domain tx)) redeemer key
  eligible : ∀ root, token.kycRoot = some root →
    (∀ id ∈ tx.inputs, ∃ o, l.outputs.get? id = some o ∧
      Eligible h root height w (eligibilityKey h l.domain tx.asset o.output.owner)) ∧
    ∀ o ∈ tx.outputs, Eligible h root height w (eligibilityKey h l.domain tx.asset o.owner)

variable {h : Hashes} {l l' : Ledger} {tx : Transaction} {w : Witnesses} {height : ℕ}

theorem mem_modules_of_supplyConfig {token : Token} (found : token.supplyConfig = .ok c) :
    .supply c ∈ token.registration.charter.modules := by
  obtain ⟨m, among, same⟩ := exists_of_findSome?_eq_some (orRefuse_eq_ok_iff.mp found)
  cases m with
  | supply c' =>
    cases same
    exact among
  | _ => cases same

theorem Accepts.authorised (accepted : Accepts h l tx w height v p) (sound : Sound h P l) :
    Authorised h l tx w height v p.token := by
  have compiled := (sound.tokens accepted.known).compiled
  obtain ⟨g, g', ran⟩ := accepted.ran
  rw [accepted.message] at ran
  -- a module of the charter that has a say ran its program on one of the redeemers, and it accepted
  have each : ∀ {m}, m ∈ p.token.registration.charter.modules →
      m.applicable tx.delta (tx.inputs ≠ []) false = true → ∃ redeemer ∈ w.modules,
        redeemer.length = m.arity ∧ ∃ n st, n ≠ 0 ∧
          effect h (.ofFields (m.fields p.token (transactionHash h l.domain tx) height tx.delta)) v.native
            m.compile (m.seed p.token false redeemer).reverse = .ok (.int n :: st) := by
    intro m among applies
    obtain ⟨redeemer, listed, index, t, t', done⟩ := runModules_all compiled accepted.modules ran among
    exact ⟨redeemer, listed, runModule_accepts done applies⟩
  have paired : (tx.inputs.zip w.owners).map Prod.fst = tx.inputs := map_fst_zip accepted.owners.ge
  have ownerAt : ∀ {id o}, l.outputs.get? id = some o → l.ownerAt id = o.output.owner := fun found => by
    rw [ownerAt, found]
    rfl
  refine ⟨fun id among => ?_, fun frozen c among => ?_, fun changes => ?_, fun spends c among => ?_,
    fun c among => ?_, fun root gated => ⟨fun id among => ?_, fun o among => ?_⟩⟩
  · rw [← paired] at among
    obtain ⟨e, listed, rfl⟩ := mem_map.mp among
    have spendable := accepted.inputs e listed
    obtain ⟨o, found, -⟩ := spendable.held
    refine ⟨o, found, e.2, (of_mem_zip listed).2, ?_⟩
    rw [← ownerAt found, ← accepted.message]
    exact spendable.signed
  · obtain ⟨redeemer, listed, arity, n, st, accepts, done⟩ := each among rfl
    obtain ⟨x, rfl⟩ := length_eq_one_iff.mp arity
    rw [seed_reverse (m := .transferPolicy c) (fun same => by cases same), frozen] at done
    obtain ⟨sig, rfl, verified⟩ := compileTransferPolicy_accepts done accepts
    exact ⟨_, listed, sig, mem_singleton_self _, verified⟩
  · obtain ⟨cap, capped, -⟩ := accepted.capped
    simp only [Token.cap, ok_iff] at capped
    obtain ⟨c, found, rfl⟩ := capped
    obtain ⟨redeemer, listed, arity, n, st, accepts, done⟩ :=
      each (mem_modules_of_supplyConfig found) (by simpa [ModuleKind.applicable] using changes)
    obtain ⟨x, rfl⟩ := length_eq_one_iff.mp arity
    obtain ⟨fits, sig, rfl, verified⟩ := compileSupply_accepts done accepts
    exact ⟨c, found, accepted.supply ▸ Int.natCast_nonneg _, fits, _, listed, sig,
      mem_singleton_self _, verified⟩
  · obtain ⟨redeemer, listed, arity, n, st, accepts, done⟩ :=
      each among (by simpa [ModuleKind.applicable] using spends)
    obtain ⟨x, rfl⟩ := length_eq_one_iff.mp arity
    obtain ⟨unlocked, sig, rfl, verified⟩ := compileVesting_accepts done accepts
    exact ⟨unlocked, _, listed, sig, mem_singleton_self _, verified⟩
  · obtain ⟨redeemer, listed, arity, n, st, accepts, done⟩ := each among rfl
    rw [seed_reverse (m := .governance c) (by rintro ⟨⟩)] at done
    exact ⟨redeemer, listed, compileGovernance_accepts arity done accepts⟩
  · obtain ⟨subjects, t, t', spenders, -, done⟩ := accepted.eligible
    obtain ⟨o, found, -⟩ := accepted.held among
    exact ⟨o, found, ownerAt found ▸ checkEligibility_all gated done (spenders id among)⟩
  · obtain ⟨subjects, t, t', -, receivers, done⟩ := accepted.eligible
    exact checkEligibility_all gated done (receivers o among)

def policyRegistration : Registration :=
  ⟨⟨[1], [.supply ⟨100, [2]⟩, .transferPolicy ⟨[3]⟩, .complianceKycGate, .vesting ⟨1, [4]⟩,
    .governance ⟨[[5], [6]], 2⟩]⟩, 5, some 0⟩

def policyAsset : AssetId := assetHash sampleHashes 7 policyRegistration

def policyMint : Transaction := ⟨policyAsset, [], [⟨[7], 40⟩], 40, 0, 1, 10⟩

/-- Five more are issued with the payment. -/
def policyPayment : Transaction :=
  ⟨policyAsset, [outPoint (transactionHash sampleHashes 7 policyMint) 0], [⟨[7], 30⟩, ⟨[7], 15⟩], 5, 1, 1, 11⟩

/-- Signatures for all modules and, up to height 100, the eligibility of the holder. -/
def policyWitnesses (owners : List Bytes) (vesting : List Val) : Witnesses :=
  ⟨owners, [[.bytes [9]], [.bytes [9]], [], vesting, [.bytes [9], .bytes [9]]],
    [⟨hashBytes (eligibilityKey sampleHashes 7 policyAsset [7]), some (leBytes 8 100), List.replicate 256 0⟩]⟩

/-- A token that asks for an authority, eligible holders, a lock and a quorum is frozen, and issued. -/
def policyCalls : List Call :=
  [.register policyRegistration [] sampleVerifier 100000,
    .updatePolicy ⟨policyAsset, 0, 10, .setFrozen true⟩ ⟨[], [[], [.bytes [9]], [], [], [.bytes [9], .bytes [9]]], []⟩
      1 sampleVerifier 100000,
    .apply policyMint (policyWitnesses [] []) 1 sampleVerifier 100000]

/-- On any ledger that calls lead to, a transaction that is accepted is authorised in every way the
charter of its token asks for, whatever its witness holds. -/
theorem accepted_is_authorised {domain : Bytes32} {calls : List Call}
    (run : Run (Step h) (.new domain) calls l) {gasLimit : ℕ} {receipt : Receipt}
    (done : exec (Ledger.apply h tx w height v gasLimit) l = (.ok receipt, l')) :
    ∃ token, l.tokens.get? tx.asset = some token ∧ Authorised h l tx w height v token := by
  have sound : Sound h (fun _ => True) l := (sound_new domain).run run (fun _ _ => trivial)
  rw [Ledger.apply, exec_transact_eq_ok_iff] at done
  obtain ⟨⟨p, left⟩, planned, -, -⟩ := done
  obtain ⟨accepted, -⟩ := accepts_of_checkApply (metered_eq_ok_iff.mp planned)
  exact ⟨p.token, accepted.known, accepted.authorised sound⟩

theorem policyPayment_is_authorised : ∃ l token, Run (Step sampleHashes) (.new 7) policyCalls l ∧
    l.tokens.get? policyAsset = some token ∧ token.frozen = true ∧ token.kycRoot = some 0 ∧
    Authorised sampleHashes l policyPayment (policyWitnesses [[9]] [.bytes [9]]) 1 sampleVerifier token := by
  have accepted : (performAll sampleHashes policyCalls (.new 7)).any (fun l =>
      (exec (Ledger.apply sampleHashes policyPayment (policyWitnesses [[9]] [.bytes [9]]) 1 sampleVerifier 100000)
        l).1.isOk ∧ (l.tokens.get? policyAsset).map (fun t => (t.frozen, t.kycRoot)) = some (true, some 0)) =
      true := by decide +kernel
  simp only [Option.any_eq_true, decide_eq_true_eq] at accepted
  obtain ⟨l, done, paid, gated⟩ := accepted
  have run := run_of_performAll done
  obtain ⟨receipt, paid⟩ := exists_exec_of_isOk paid
  obtain ⟨token, known, authorised⟩ := accepted_is_authorised run paid
  have listed : l.tokens.get? policyAsset = some token := known
  rw [listed, Option.map_some, Option.some.injEq, Prod.mk.injEq] at gated
  exact ⟨l, token, run, known, gated.1, gated.2, authorised⟩

end Ledger

end BlochPos.Ustav
