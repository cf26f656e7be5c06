import BlochPos.L2.Run

/-! The settlements of an execution layer: each extends the one before it and takes up the inbox
where that left off. -/
namespace BlochPos.L2

open Attempt List Option

section

variable {c : Crypto} {v : SignatureVerifier} {st : State} {tx : Transaction}

/-- What an accepted settlement has been checked for. -/
structure Settles (c : Crypto) (v : SignatureVerifier) (st : State) (tx : Transaction)
    (anchor : SourceAnchor) (number stop : ℕ) (record : Option WithdrawalRecord) : Prop where
  anchored : st.sourceAnchor = some anchor
  counted : fieldNumber tx.statement (S + 512) = anchor.inboxCount
  begins : fieldNumber tx.statement (S + 520) = st.consumed
  ends : fieldNumber tx.statement (S + 528) = stop
  stop_eq : stop = min anchor.inboxCount (satAdd u64Max st.consumed MAX_INBOX_PER_SETTLEMENT)
  number_eq : fieldNumber tx.statement (S + 264) = number
  successor : st.expectedSuccessor = .ok (fieldHash tx.statement (S + 224), number,
    fieldHash tx.statement (S + 272), fieldHash tx.statement (S + 304))
  version : ∃ version, StatementVersion.of tx.statement = some version ∧
    st.checkVersion c tx.statement version ((st.inbox.drop st.consumed).take (stop - st.consumed))
      number = .ok record
  verified : v.verifyL2Settlement st.policy.proofPolicy (st.policy.identities 6) tx.statement tx.proof = true

theorem settles_of_checkSettlement (mode : st.asynchronous = true)
    (checked : st.checkSettlement c v tx parent slot asynchronous = .ok (number, stop, record)) :
    ∃ anchor, Settles c v st tx anchor number stop record := by
  simp only [State.checkSettlement, ok_iff, not_or, not_not, not_and, Bool.not_eq_false, Prod.exists,
    Prod.mk.injEq] at checked
  obtain ⟨⟨rfl, active⟩, version, versioned, -, -, ⟨counted, begins, ends⟩, previous, _, parent', root,
    successor, ⟨previous_eq, number_eq, parent_eq, root_eq, -⟩, _, checkedVersion, verified, -, rfl, rfl,
    rfl⟩ := checked
  obtain ⟨anchor, anchored⟩ := ne_none_iff_exists'.mp (active mode)
  have source : st.source c parent slot = st.sourceAt c anchor := by
    rw [State.source, anchored]
    rfl
  rw [source] at counted ends checkedVersion ⊢
  refine ⟨anchor, anchored, counted, begins, ends, rfl, number_eq, ?_, ?_, verified⟩
  · rw [previous_eq, parent_eq, root_eq]
    exact successor
  · exact ⟨version, versioned, checkedVersion⟩

def Transaction.consumes (inbox : List InboxRecord) (tx : Transaction) : List InboxRecord :=
  (inbox.drop (fieldNumber tx.statement (S + 520))).take
    (fieldNumber tx.statement (S + 528) - fieldNumber tx.statement (S + 520))

def Transaction.tree (c : Crypto) (tx : Transaction) : Bytes32 × ℕ := treeAfter c (some tx.statement)

/-- What one of the third version is checked for besides. -/
structure SettlesV3 (c : Crypto) (st : State) (tx : Transaction) (number : ℕ)
    (record : Option WithdrawalRecord) : Prop where
  deposits : fieldHash tx.statement (S + 568) = depositsHash c (tx.consumes st.inbox)
  data : fieldNumber tx.statement (S + 664) ≠ 0 → ∃ r ∈ st.da, r.l2Number = number ∧
    r.commitment = fieldHash tx.statement (S + 712) ∧ r.height ≤ st.nativeHeight
  grows : (treeAfter c (st.head.map Prod.snd)).2 ≤ (tx.tree c).2
  rooted : (tx.tree c).2 = (treeAfter c (st.head.map Prod.snd)).2 ↔
    (tx.tree c).1 = (treeAfter c (st.head.map Prod.snd)).1
  record_eq : record = if (tx.tree c).1 = (treeAfter c (st.head.map Prod.snd)).1 then none
    else some ⟨number, (tx.tree c).1, (tx.tree c).2, st.nativeHeight + 1⟩

variable {anchor : SourceAnchor} {number stop : ℕ} {record : Option WithdrawalRecord}

section

variable (settles : Settles c v st tx anchor number stop record)
include settles

theorem Settles.slice_eq : (st.inbox.drop st.consumed).take (stop - st.consumed) = tx.consumes st.inbox := by
  rw [Transaction.consumes, settles.begins, settles.ends]

omit settles in
theorem checkSuccessor_eq_ok {head : Option Bytes} {statement : Bytes} {after : Option (Bytes32 × ℕ)}
    (checked : checkSuccessor c head statement = .ok after) :
    (treeAfter c head).2 ≤ (treeAfter c (some statement)).2 ∧
      ((treeAfter c (some statement)).2 = (treeAfter c head).2 ↔
        (treeAfter c (some statement)).1 = (treeAfter c head).1) ∧
      after = if (treeAfter c (some statement)).1 = (treeAfter c head).1 then none
        else some (treeAfter c (some statement)) := by
  simp only [checkSuccessor, ok_iff, not_or, not_lt, not_not] at checked
  obtain ⟨-, ⟨grows, rooted⟩, rfl⟩ := checked
  refine ⟨grows, rooted, ?_⟩
  by_cases same : (treeAfter c (some statement)).1 = (treeAfter c head).1
  · have counts := rooted.mpr same
    rw [if_pos same, if_neg (by omega)]
  · have counts := mt rooted.mp same
    rw [if_neg same, if_pos (by omega)]

theorem Settles.v3
    (version : StatementVersion.of tx.statement = some .v3) : SettlesV3 c st tx number record := by
  obtain ⟨_, versioned, checked⟩ := settles.version
  cases versioned.symm.trans version
  rw [settles.slice_eq] at checked
  simp only [State.checkVersion, ok_iff, not_not, not_and] at checked
  obtain ⟨-, deposits, -, after, successor, recorded⟩ := checked
  obtain ⟨grows, rooted, rfl⟩ := checkSuccessor_eq_ok successor
  by_cases same : (treeAfter c (some tx.statement)).1 = (treeAfter c (st.head.map Prod.snd)).1
  · rw [if_pos same] at recorded
    simp only [ok_iff, not_not, not_and] at recorded
    obtain ⟨_, rfl, data, rfl⟩ := recorded
    exact ⟨deposits, data, grows, rooted, (if_pos same).symm⟩
  · rw [if_neg same] at recorded
    simp only [ok_iff, not_not, not_and] at recorded
    obtain ⟨height, next, _, rfl, data, rfl⟩ := recorded
    obtain ⟨rfl, -⟩ := checkedAdd_eq_some next
    exact ⟨deposits, data, grows, rooted, (if_neg same).symm⟩

theorem Settles.v2
    (version : StatementVersion.of tx.statement = some .v2) :
    (st.profile.deposits = true →
      fieldHash tx.statement (S + 536) = expectedBodyCommitment c (tx.consumes st.inbox)) ∧ record = none := by
  obtain ⟨_, versioned, checked⟩ := settles.version
  cases versioned.symm.trans version
  rw [settles.slice_eq] at checked
  simp only [State.checkVersion, ok_iff, not_not, not_and] at checked
  exact ⟨checked.1, checked.2.symm⟩

end

end

def Call.settlement : Call → Option Transaction
  | .settle tx _ _ _ => some tx
  | _ => none

def settled (calls : List Call) : List Transaction := calls.filterMap Call.settlement

def cursor (txs : List Transaction) : ℕ :=
  (txs.getLast?.map (fun tx => fieldNumber tx.statement (S + 528))).getD 0

theorem settled_append_single (calls : List Call) (call : Call) :
    settled (calls ++ [call]) = settled calls ++ call.settlement.toList := by
  unfold settled
  rw [filterMap_append]
  cases found : call.settlement with
  | none => rw [filterMap_cons_none found]; rfl
  | some tx => rw [filterMap_cons_some found]; rfl

theorem settled_append_of_none (calls : List Call) (other : call.settlement = none) :
    settled (calls ++ [call]) = settled calls := by
  rw [settled_append_single, other]
  exact append_nil _

theorem Transaction.consumes_append {tx : Transaction}
    (within : fieldNumber tx.statement (S + 528) ≤ inbox.length) (new : List InboxRecord) :
    tx.consumes (inbox ++ new) = tx.consumes inbox := by
  unfold Transaction.consumes
  generalize fieldNumber tx.statement (S + 520) = start at *
  generalize fieldNumber tx.statement (S + 528) = stop at *
  obtain before | after := Nat.le_total stop start
  · rw [Nat.sub_eq_zero_of_le before, take_zero, take_zero]
  · rw [drop_append_of_le_length (le_trans after within), take_append_of_le_length]
    rw [length_drop]
    omega

section

variable {c : Crypto} {v : SignatureVerifier} {start st post : State} {call : Call} {calls : List Call}
  {version : StatementVersion}

section

variable (accepts : Accepts c v st call post)
include accepts

theorem Accepts.unsettled (other : call.settlement = none) :
    post.head = st.head ∧ post.consumed = st.consumed := by
  cases accepts.change with
  | settle => cases other
  | deposit | data | claim | prepare | advance | checkpoint => exact ⟨rfl, rfl⟩

theorem Accepts.inbox :
    post.inbox = st.inbox ∨ ∃ record, post.inbox = st.inbox ++ [record] ∧ st.inbox.length < u32Max := by
  cases accepts.change with
  | deposit room => exact .inr ⟨_, rfl, room⟩
  | data | claim | settle | prepare | advance | checkpoint => exact .inl rfl

theorem Accepts.sourceAnchor (set : post.sourceAnchor = some anchor) :
    call.settlement = none ∧ (st.sourceAnchor = some anchor ∨
      call = .prepare anchor.block anchor.slot ∧ st.sourceAnchor = none ∧
        anchor.height = st.nativeHeight ∧ anchor.inboxCount = st.inbox.length ∧
        anchor.inboxRoot = st.inboxRoot) := by
  cases accepts.change with
  | settle => cases set
  | prepare anchored =>
    obtain rfl | ⟨none, rfl⟩ := anchored
    · exact ⟨rfl, .inl set⟩
    · cases set
      exact ⟨rfl, .inr ⟨rfl, none, rfl, rfl, rfl⟩⟩
  | deposit | data | claim | advance | checkpoint => exact ⟨rfl, .inl set⟩

theorem Accepts.da (member : record ∈ post.da) :
    record ∈ st.da ∨ ∃ chainId, call = .data chainId record.l2Number record.commitment ∧
      record.height = st.nativeHeight + 1 := by
  cases accepts.change with
  | @data chainId l2Number commitment =>
    obtain old | new := mem_append.mp member
    · exact .inl old
    · obtain rfl := mem_singleton.mp new
      exact .inr ⟨chainId, rfl, rfl⟩
  | settle | advance => exact .inl (mem_of_mem_filter member)
  | deposit | claim | prepare | checkpoint => exact .inl member

end

/-- An anchor was frozen by a call of the run, and nothing has been settled since. -/
def Anchored (c : Crypto) (v : SignatureVerifier) (start : State) (calls : List Call)
    (anchor : SourceAnchor) : Prop :=
  ∃ earlier later st, calls = earlier ++ .prepare anchor.block anchor.slot :: later ∧
    settled later = [] ∧ Run (Accepts c v) start earlier st ∧ st.sourceAnchor = none ∧
    anchor.height = st.nativeHeight ∧ anchor.inboxCount = st.inbox.length ∧
    anchor.inboxRoot = st.inboxRoot

/-- A batch's record was written by a call of the run, in the block of the record's height. -/
def Announced (c : Crypto) (v : SignatureVerifier) (start : State) (calls : List Call)
    (record : DaRecord) : Prop :=
  ∃ earlier chainId later st st', calls = earlier ++ .data chainId record.l2Number record.commitment :: later ∧
    Run (Accepts c v) start earlier st ∧
    Accepts c v st (.data chainId record.l2Number record.commitment) st' ∧
    record.height = st.nativeHeight + 1

theorem Anchored.later (anchored : Anchored c v start calls anchor)
    (other : call.settlement = none) : Anchored c v start (calls ++ [call]) anchor := by
  obtain ⟨earlier, later, st, rfl, unsettled, frozen⟩ := anchored
  refine ⟨earlier, later ++ [call], st, ?_, ?_, frozen⟩
  · rw [append_assoc, cons_append]
  · rw [settled_append_of_none _ other, unsettled]

theorem Announced.later (announced : Announced c v start calls record) (call : Call) :
    Announced c v start (calls ++ [call]) record := by
  obtain ⟨earlier, chainId, later, st, st', rfl, written⟩ := announced
  refine ⟨earlier, chainId, later ++ [call], st, st', ?_, written⟩
  rw [append_assoc, cons_append]

/-- What the calls so far leave for the next settlement. -/
structure Chained (c : Crypto) (v : SignatureVerifier) (start : State) (calls : List Call)
    (st : State) : Prop where
  mode : st.asynchronous = true
  policy : st.policy = start.policy
  head : st.head = (settled calls).getLast?.map (fun tx => (tx.commitment c, tx.statement))
  number : st.settledNumber = (settled calls).length
  cursor : st.consumed = cursor (settled calls)
  room : st.inbox.length ≤ u32Max
  pending : st.consumed ≤ st.inbox.length
  anchored : ∀ anchor, st.sourceAnchor = some anchor → st.consumed ≤ anchor.inboxCount ∧
    anchor.inboxCount ≤ st.inbox.length ∧ Anchored c v start calls anchor
  announced : ∀ record ∈ st.da, Announced c v start calls record
  passed : ∀ tx ∈ settled calls, fieldNumber tx.statement (S + 528) ≤ st.consumed
  taken : (settled calls).flatMap (Transaction.consumes st.inbox) = st.inbox.take st.consumed

theorem chained_start (started : State.Started c start) (mode : start.asynchronous = true) :
    Chained c v start [] start := by
  obtain ⟨policy, profile, _, rfl⟩ := started.eq_blank
  refine ⟨mode, rfl, rfl, rfl, rfl, Nat.zero_le _, le_rfl, ?_, ?_, ?_, rfl⟩
  · intro anchor anchored
    cases anchored
  · intro record member
    cases member
  · intro tx member
    cases member

section

variable (held : Chained c v start calls st)
include held

theorem Chained.announced_step (run : Run (Accepts c v) start calls st)
    (accepts : Accepts c v st call post) (member : record ∈ post.da) :
    Announced c v start (calls ++ [call]) record := by
  obtain old | ⟨chainId, rfl, height⟩ := accepts.da member
  · exact (held.announced record old).later call
  · exact ⟨calls, chainId, [], st, post, rfl, run, accepts, height⟩

theorem Chained.anchored_step (run : Run (Accepts c v) start calls st)
    (accepts : Accepts c v st call post) (set : post.sourceAnchor = some anchor) :
    post.consumed ≤ anchor.inboxCount ∧ anchor.inboxCount ≤ st.inbox.length ∧
      Anchored c v start (calls ++ [call]) anchor := by
  obtain ⟨other, old | ⟨rfl, unset, height, count, root⟩⟩ := accepts.sourceAnchor set
  · rw [(accepts.unsettled other).2]
    obtain ⟨consumed, counted, anchored⟩ := held.anchored anchor old
    exact ⟨consumed, counted, anchored.later other⟩
  · rw [(accepts.unsettled other).2, count]
    exact ⟨held.pending, le_rfl, calls, [], st, rfl, rfl, run, unset, height, count, root⟩

theorem Chained.taken_append (new : List InboxRecord) :
    (settled calls).flatMap (Transaction.consumes (st.inbox ++ new)) = (st.inbox ++ new).take st.consumed := by
  rw [take_append_of_le_length held.pending, ← held.taken]
  apply flatMap_congr
  intro tx member
  exact Transaction.consumes_append (le_trans (held.passed tx member) held.pending) new

theorem Chained.unsettled (run : Run (Accepts c v) start calls st)
    (accepts : Accepts c v st call post) (other : call.settlement = none) :
    Chained c v start (calls ++ [call]) post := by
  obtain ⟨head, consumed⟩ := accepts.unsettled other
  obtain ⟨policy, -, mode⟩ := accepts.fixed
  obtain ⟨room, grows, taken⟩ : post.inbox.length ≤ u32Max ∧ st.inbox.length ≤ post.inbox.length ∧
      (settled calls).flatMap (Transaction.consumes post.inbox) = post.inbox.take st.consumed := by
    obtain same | ⟨record, appended, below⟩ := accepts.inbox
    · rw [same]
      exact ⟨held.room, le_rfl, held.taken⟩
    · rw [appended, length_append]
      exact ⟨below, Nat.le_add_right _ _, held.taken_append [record]⟩
  refine ⟨mode.trans held.mode, policy.trans held.policy, ?_, ?_, ?_, room, ?_, ?_, ?_, ?_, ?_⟩
  all_goals try rw [settled_append_of_none calls other]
  · exact head.trans held.head
  · rw [State.settledNumber, head]
    exact held.number
  · exact consumed.trans held.cursor
  · rw [consumed]
    exact le_trans held.pending grows
  · intro anchor set
    obtain ⟨within, counted, anchored⟩ := held.anchored_step run accepts set
    exact ⟨within, le_trans counted grows, anchored⟩
  · intro record member
    exact held.announced_step run accepts member
  · rw [consumed]
    exact held.passed
  · rw [consumed]
    exact taken

end

variable {tx : Transaction} {anchor : SourceAnchor} {number stop : ℕ} {record : Option WithdrawalRecord}

section

variable (held : Chained c v start calls st)
include held

section

variable (settles : Settles c v st tx anchor number stop record)
include settles

theorem Chained.number_eq : number = (settled calls).length + 1 := by
  have successor := settles.successor
  have counted := held.number
  unfold State.expectedSuccessor at successor
  unfold State.settledNumber at counted
  cases head : st.head with
  | none =>
    rw [head] at successor counted
    simp only [Except.ok.injEq, Prod.mk.injEq] at successor
    obtain ⟨-, rfl, -⟩ := successor
    exact congrArg Nat.succ counted
  | some old =>
    rw [head] at successor counted
    simp only [ok_iff, Prod.mk.injEq] at successor
    obtain ⟨_, next, -, rfl, -⟩ := successor
    obtain ⟨rfl, -⟩ := checkedAdd_eq_some next
    exact congrArg Nat.succ counted

/-- The settlement extends the last one, or the start. -/
theorem Chained.parents :
    (fieldHash tx.statement (S + 224), fieldHash tx.statement (S + 272), fieldHash tx.statement (S + 304)) =
      match (settled calls).getLast? with
      | none => (0, start.policy.initialL2Parent, start.policy.initialL2State)
      | some previous =>
        (previous.commitment c, fieldHash previous.statement (S + 336), fieldHash previous.statement (S + 368)) := by
  have successor := settles.successor
  unfold State.expectedSuccessor at successor
  rw [held.head, held.policy] at successor
  cases last : (settled calls).getLast? with
  | none =>
    rw [last] at successor
    simp only [map_none, Except.ok.injEq, Prod.mk.injEq] at successor
    obtain ⟨digest, -, block, root⟩ := successor
    rw [← digest, ← block, ← root]
  | some previous =>
    rw [last] at successor
    simp only [map_some, ok_iff, Prod.mk.injEq] at successor
    obtain ⟨_, -, digest, -, block, root⟩ := successor
    rw [← digest, ← block, ← root]

theorem Chained.stop_eq :
    stop = min anchor.inboxCount (st.consumed + MAX_INBOX_PER_SETTLEMENT) ∧ st.consumed ≤ stop ∧
      stop ≤ st.inbox.length := by
  obtain ⟨consumed, counted, -⟩ := held.anchored anchor settles.anchored
  have room := held.room
  have stop_eq := settles.stop_eq
  have bounds : u32Max + MAX_INBOX_PER_SETTLEMENT ≤ u64Max := by decide
  unfold satAdd at stop_eq
  omega

end

theorem Chained.settled (run : Run (Accepts c v) start calls st)
    (accepts : Accepts c v st call post) (found : call.settlement = some tx)
    (settles : Settles c v st tx anchor number stop record)
    (head : post.head = some (tx.commitment c, tx.statement)) (inbox : post.inbox = st.inbox)
    (consumed : post.consumed = stop) : Chained c v start (calls ++ [call]) post := by
  obtain ⟨policy, -, mode⟩ := accepts.fixed
  obtain ⟨-, onward, within⟩ := held.stop_eq settles
  have grown : L2.settled (calls ++ [call]) = L2.settled calls ++ [tx] := by
    rw [settled_append_single, found]
    rfl
  refine ⟨mode.trans held.mode, policy.trans held.policy, ?_, ?_, ?_, ?_, ?_, ?_, ?_, ?_, ?_⟩
  · rw [head, grown, getLast?_concat]
    rfl
  · rw [State.settledNumber, head, grown, length_append]
    exact settles.number_eq.trans (held.number_eq settles)
  · rw [consumed, grown, L2.cursor, getLast?_concat]
    exact settles.ends.symm
  · rw [inbox]
    exact held.room
  · rw [consumed, inbox]
    exact within
  · intro anchor' set
    obtain ⟨other, -⟩ := accepts.sourceAnchor set
    simp [found] at other
  · intro record member
    exact held.announced_step run accepts member
  · intro earlier member
    rw [grown, mem_append, mem_singleton] at member
    rw [consumed]
    obtain old | rfl := member
    · exact le_trans (held.passed earlier old) onward
    · exact settles.ends.le
  · -- the new slice continues what has been taken
    have further : stop = st.consumed + (stop - st.consumed) := by omega
    rw [grown, flatMap_append, flatMap_singleton, inbox, held.taken, ← settles.slice_eq, consumed]
    conv_rhs => rw [further, take_add]

end

theorem chained_of_run (started : State.Started c start) (mode : start.asynchronous = true)
    (run : Run (Accepts c v) start calls st) : Chained c v start calls st := by
  refine Run.history (P := Chained c v start) (chained_start started mode) ?_ run
  intro calls st call post run held accepts
  cases found : call.settlement with
  | none => exact held.unsettled run accepts found
  | some tx =>
    cases call with
    | settle tx' parent slot asynchronous =>
      cases found
      cases accepts.change with
      | settle checked =>
        obtain ⟨anchor, settles⟩ := settles_of_checkSettlement held.mode checked
        exact held.settled run accepts rfl settles rfl rfl rfl
    | _ => cases found

/-- The settlements are of one version, with trees no larger than the last. -/
structure Counted (c : Crypto) (version : StatementVersion) (calls : List Call) (st : State) : Prop where
  versions : ∀ tx ∈ settled calls, StatementVersion.of tx.statement = some version
  counts : ∀ tx ∈ settled calls, (tx.tree c).2 ≤ (treeAfter c (st.head.map Prod.snd)).2

theorem Transaction.tree_v2 (version : StatementVersion.of tx.statement = some .v2) :
    tx.tree c = (emptyRoot c, 0) := by
  refine if_neg ?_
  rw [version]
  decide

theorem Counted.grows (counted : Counted c version calls st)
    (versioned : StatementVersion.of tx.statement = some version)
    (settles : Settles c v st tx anchor number stop record)
    (member : earlier ∈ settled calls) : (earlier.tree c).2 ≤ (tx.tree c).2 := by
  cases version with
  | v2 =>
    rw [Transaction.tree_v2 (counted.versions earlier member)]
    exact Nat.zero_le _
  | v3 => exact le_trans (counted.counts earlier member) (settles.v3 versioned).grows

theorem counted_of_run (started : State.Started c start) (mode : start.asynchronous = true)
    (single : ∀ policy identity statement proof, v.verifyL2Settlement policy identity statement proof =
      true → StatementVersion.of statement = some version)
    (run : Run (Accepts c v) start calls st) : Counted c version calls st := by
  refine Run.history (P := Counted c version) ⟨?_, ?_⟩ ?_ run
  · intro tx member
    cases member
  · intro tx member
    cases member
  · intro calls st call post run counted accepts
    cases call with
    | settle tx parent slot asynchronous =>
      cases accepts.change with
      | settle checked =>
        obtain ⟨anchor, settles⟩ := settles_of_checkSettlement (chained_of_run started mode run).mode checked
        have versioned := single _ _ _ _ settles.verified
        have grown : settled (calls ++ [.settle tx parent slot asynchronous]) = settled calls ++ [tx] :=
          settled_append_single calls _
        constructor
        all_goals
          intro earlier member
          rw [grown, mem_append, mem_singleton] at member
        · obtain old | rfl := member
          · exact counted.versions earlier old
          · exact versioned
        · obtain old | rfl := member
          · exact counted.grows versioned settles old
          · exact le_rfl
    | _ =>
      obtain ⟨head, -⟩ := accepts.unsettled rfl
      constructor
      all_goals rw [settled_append_of_none calls rfl]
      · exact counted.versions
      · rw [head]
        exact counted.counts

theorem Settles.record_eq (settles : Settles c v st tx anchor number stop record)
    (counted : Counted c version calls st)
    (head : st.head.map Prod.snd = (settled calls).getLast?.map Transaction.statement)
    (versioned : StatementVersion.of tx.statement = some version) :
    record = if (tx.tree c).1 = (treeAfter c (st.head.map Prod.snd)).1 then none
      else some ⟨number, (tx.tree c).1, (tx.tree c).2, st.nativeHeight + 1⟩ := by
  cases version with
  | v3 => exact (settles.v3 versioned).record_eq
  | v2 =>
    -- no settlement of the second version has a tree
    rw [(settles.v2 versioned).2, Transaction.tree_v2 versioned, head, if_pos]
    cases last : (settled calls).getLast? with
    | none => rfl
    | some previous =>
      have old := Transaction.tree_v2 (c := c) (counted.versions previous (mem_of_getLast? last))
      exact congrArg Prod.fst old.symm

/-- The settlement takes up where those before it left off. -/
structure Continues (c : Crypto) (v : SignatureVerifier) (start : State) (before : List Call) (pre : State)
    (tx : Transaction) (post : State) : Prop where
  number : fieldNumber tx.statement (S + 264) = (settled before).length + 1
  parents : (fieldHash tx.statement (S + 224), fieldHash tx.statement (S + 272),
      fieldHash tx.statement (S + 304)) =
    match (settled before).getLast? with
    | none => (0, start.policy.initialL2Parent, start.policy.initialL2State)
    | some previous =>
      (previous.commitment c, fieldHash previous.statement (S + 336), fieldHash previous.statement (S + 368))
  begins : fieldNumber tx.statement (S + 520) = cursor (settled before)
  -- the anchor is the one preparation since the last settlement that found none set
  ends : ∃ earlier parent slot later anchored, before = earlier ++ .prepare parent slot :: later ∧
    settled later = [] ∧ Run (Accepts c v) start earlier anchored ∧ anchored.sourceAnchor = none ∧
    fieldNumber tx.statement (S + 528) =
      min anchored.inbox.length (cursor (settled before) + MAX_INBOX_PER_SETTLEMENT)
  consumed : pre.consumed = fieldNumber tx.statement (S + 520) ∧
    post.consumed = fieldNumber tx.statement (S + 528)
  deposits : ∀ version, StatementVersion.of tx.statement = some version →
    match version with
    | .v2 => pre.profile.deposits = true →
      fieldHash tx.statement (S + 536) = expectedBodyCommitment c (tx.consumes pre.inbox)
    | .v3 => fieldHash tx.statement (S + 568) = depositsHash c (tx.consumes pre.inbox)
  data : StatementVersion.of tx.statement = some .v3 → fieldNumber tx.statement (S + 664) ≠ 0 →
    ∃ earlier chainId later st st',
      before = earlier ++
        .data chainId (fieldNumber tx.statement (S + 264)) (fieldHash tx.statement (S + 712)) :: later ∧
      Run (Accepts c v) start earlier st ∧
      Accepts c v st
        (.data chainId (fieldNumber tx.statement (S + 264)) (fieldHash tx.statement (S + 712))) st' ∧
      st.nativeHeight < pre.nativeHeight
  recorded : post.withdrawals = pre.withdrawals ++
    if (tx.tree c).1 = (treeAfter c ((settled before).getLast?.map Transaction.statement)).1 then []
    else [⟨fieldNumber tx.statement (S + 264), (tx.tree c).1, (tx.tree c).2, pre.nativeHeight + 1⟩]
  grows : (tx.tree c).1 ≠ (treeAfter c ((settled before).getLast?.map Transaction.statement)).1 →
    (treeAfter c ((settled before).getLast?.map Transaction.statement)).2 < (tx.tree c).2 ∧
      ∀ earlier ∈ settled before, (earlier.tree c).2 < (tx.tree c).2

theorem Chained.data (held : Chained c v start calls st)
    (settles : Settles c v st tx anchor number stop record)
    (version : StatementVersion.of tx.statement = some .v3)
    (users : fieldNumber tx.statement (S + 664) ≠ 0) :
    ∃ earlier chainId later st₁ st₂,
      calls = earlier ++ .data chainId number (fieldHash tx.statement (S + 712)) :: later ∧
      Run (Accepts c v) start earlier st₁ ∧
      Accepts c v st₁ (.data chainId number (fieldHash tx.statement (S + 712))) st₂ ∧
      st₁.nativeHeight < st.nativeHeight := by
  obtain ⟨announced, member, rfl, commitment, height⟩ := (settles.v3 version).data users
  obtain ⟨earlier, chainId, later, st₁, st₂, split, run, accepts, written⟩ := held.announced announced member
  rw [commitment] at split accepts
  exact ⟨earlier, chainId, later, st₁, st₂, split, run, accepts, by omega⟩

theorem Chained.source_bounds (held : Chained c v start calls st) (parent : Bytes32) (slot : ℕ) :
    st.consumed ≤ (st.source c parent slot).inboxCount ∧
      (st.source c parent slot).inboxCount ≤ st.inbox.length := by
  unfold State.source
  cases set : st.sourceAnchor with
  | none => exact ⟨held.pending, le_rfl⟩
  | some anchor =>
    obtain ⟨consumed, counted, -⟩ := held.anchored anchor set
    exact ⟨consumed, counted⟩

theorem Chained.continues (held : Chained c v start calls st) (counted : Counted c version calls st)
    (settles : Settles c v st tx anchor number stop record)
    (versioned : StatementVersion.of tx.statement = some version) (consumed : post.consumed = stop)
    (withdrawals : post.withdrawals = st.withdrawals ++ record.toList) :
    Continues c v start calls st tx post := by
  have head : st.head.map Prod.snd = (L2.settled calls).getLast?.map Transaction.statement := by
    rw [held.head, Option.map_map]
    rfl
  refine ⟨settles.number_eq.trans (held.number_eq settles), held.parents settles,
    settles.begins.trans held.cursor, ?_, ⟨settles.begins.symm, consumed.trans settles.ends.symm⟩, ?_, ?_, ?_, ?_⟩
  · obtain ⟨-, -, earlier, later, frozen, split, unsettled, run, unset, -, count, -⟩ :=
      held.anchored anchor settles.anchored
    refine ⟨earlier, _, _, later, frozen, split, unsettled, run, unset, ?_⟩
    rw [← count, ← held.cursor, settles.ends]
    exact (held.stop_eq settles).1
  · intro version versioned
    cases version with
    | v2 => exact (settles.v2 versioned).1
    | v3 => exact (settles.v3 versioned).deposits
  · rw [settles.number_eq]
    exact held.data settles
  · rw [withdrawals, settles.record_eq counted head versioned, ← head, settles.number_eq]
    split <;> rfl
  · rw [← head]
    intro changed
    have larger : (treeAfter c (st.head.map Prod.snd)).2 < (tx.tree c).2 := by
      cases version with
      | v3 =>
        have rooted := mt (settles.v3 versioned).rooted.mp changed
        have := (settles.v3 versioned).grows
        omega
      | v2 =>
        have unchanged := settles.record_eq counted head versioned
        simp [(settles.v2 versioned).2, if_neg changed] at unchanged
    exact ⟨larger, fun earlier member => lt_of_le_of_lt (counted.counts earlier member) larger⟩

/-- The settlements form one chain that consumes the inbox once and in order: what they have consumed is the
inbox up to the cursor, and each accepted settlement continues the ones before it. -/
theorem State.settlements_form_chain {version : StatementVersion} (started : State.Started c start)
    (mode : start.asynchronous = true)
    (single : ∀ policy identity statement proof,
      v.verifyL2Settlement policy identity statement proof = true → StatementVersion.of statement = some version)
    (run : Run (Accepts c v) start calls st) :
    (∀ parent slot, st.consumed ≤ (st.source c parent slot).inboxCount ∧
      (st.source c parent slot).inboxCount ≤ st.inbox.length) ∧
    (settled calls).flatMap (Transaction.consumes st.inbox) = st.inbox.take st.consumed ∧
    ∀ tx parent slot asynchronous post, Accepts c v st (.settle tx parent slot asynchronous) post →
      Continues c v start calls st tx post := by
  have held := chained_of_run started mode run
  refine ⟨held.source_bounds, held.taken, fun tx parent slot asynchronous post accepts => ?_⟩
  cases accepts.change with
  | settle checked =>
    obtain ⟨anchor, settles⟩ := settles_of_checkSettlement held.mode checked
    exact held.continues (counted_of_run started mode single run) settles
      (single _ _ _ _ settles.verified) rfl rfl

def thirdVersionVerifier : SignatureVerifier :=
  { plainVerifier with
    verifyL2Settlement := fun _ _ statement _ => StatementVersion.of statement = some .v3 }

/-- The first settlement after a deposit has number one and consumes it. -/
theorem State.first_settlement_continues :
    ∃ st tx post, playAll plainCrypto thirdVersionVerifier .plain depositCalls = some st ∧
      Accepts plainCrypto thirdVersionVerifier st (.settle tx 0 0 true) post ∧ post.consumed = 1 ∧
      Continues plainCrypto thirdVersionVerifier .plain depositCalls st tx post := by
  have consumed : ((playAll plainCrypto thirdVersionVerifier .plain depositCalls).bind fun st =>
      (Call.settle (.expected plainCrypto st 7 1) 0 0 true).play plainCrypto thirdVersionVerifier st).map
        State.consumed = some 1 := by decide +kernel
  simp only [map_eq_some_iff, bind_eq_some_iff] at consumed
  obtain ⟨post, ⟨st, played, settled⟩, consumed⟩ := consumed
  have accepts := accepts_of_play settled
  have chain := settlements_form_chain started_plain rfl (v := thirdVersionVerifier)
    (fun _ _ _ _ verified => of_decide_eq_true verified) (run_of_playAll played)
  exact ⟨st, _, post, played, accepts, consumed, chain.2.2 _ _ _ _ _ accepts⟩

end

end BlochPos.L2
