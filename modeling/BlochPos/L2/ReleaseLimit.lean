import BlochPos.L2.Run

/-! The limit on what a release window pays out. Its record is reset by the first paying claim of a
later window. -/
namespace BlochPos.L2

open Attempt

def windowAt (limits : Limits) (nativeHeight : ℕ) : ℕ := (nativeHeight + 1) / limits.releaseWindowBlocks

namespace Call

def heightAfter : Call → ℕ → ℕ
  | .advance, height => height + 1
  | _, height => height

def releases (limits : Limits) (window height : ℕ) : Call → ℕ
  | .claim taken => if windowAt limits height = window then taken.sats else 0
  | _ => 0

end Call

def releasedIn (limits : Limits) (window : ℕ) : ℕ → List Call → ℕ
  | _, [] => 0
  | height, call :: rest =>
    call.releases limits window height + releasedIn limits window (call.heightAfter height) rest

def releaseCap (limits : Limits) (escrowSat : ℕ) : ℕ :=
  max limits.releaseFloorSat (escrowSat * limits.releaseWindowBps / 10000)

theorem windowAt_mono (limits : Limits) (later : height ≤ height') :
    windowAt limits height ≤ windowAt limits height' :=
  Nat.div_le_div_right (Nat.succ_le_succ later)

theorem max_satMul_le_releaseCap (limits : Limits) (escrowSat : ℕ) :
    max (satMul u128Max escrowSat limits.releaseWindowBps / 10000) limits.releaseFloorSat ≤
      releaseCap limits escrowSat := by
  refine max_le ?_ (le_max_left _ _)
  exact le_trans (Nat.div_le_div_right (min_le_left _ _)) (le_max_right _ _)

section

variable {c : Crypto} {v : SignatureVerifier} {st post : State} {call : Call} {rules : Limits} {window : ℕ}

theorem Accepts.limits (accepts : Accepts c v st call post) : post.profile.limits = st.profile.limits :=
  congrArg Profile.limits accepts.fixed.2.1

theorem Accepts.nativeHeight (accepts : Accepts c v st call post) :
    post.nativeHeight = call.heightAfter st.nativeHeight := by
  cases accepts.change <;> rfl

theorem Accepts.releaseWindow (accepts : Accepts c v st call post)
    (other : ∀ claim, call ≠ .claim claim) :
    post.releaseWindow = st.releaseWindow ∧ post.releasedSat = st.releasedSat := by
  cases accepts.change with
  | claim => exact absurd rfl (other _)
  | deposit | data | settle | prepare | advance | checkpoint => exact ⟨rfl, rfl⟩

theorem Call.releases_eq_zero (other : ∀ claim, call ≠ .claim claim) (height : ℕ) :
    call.releases rules window height = 0 := by
  cases call with
  | claim claim => exact absurd rfl (other claim)
  | _ => rfl

theorem Call.le_heightAfter (call : Call) (height : ℕ) : height ≤ call.heightAfter height := by
  cases call with
  | advance => exact Nat.le_succ height
  | _ => exact le_rfl

/-- What a claim finds of its window and leaves of it. -/
structure Paid (rules : Limits) (st : State) (claim : State.Claim) (post : State) (paid cap : ℕ) : Prop where
  -- the window on record is kept once it has paid something, and opened anew until then
  found : (st.releaseWindow = ⟨windowAt rules st.nativeHeight, paid, cap⟩ ∧ paid ≠ 0) ∨
    (¬ (st.releaseWindow.window = windowAt rules st.nativeHeight ∧ st.releaseWindow.released ≠ 0) ∧
      paid = 0 ∧ cap ≤ releaseCap rules st.escrowSat)
  left : post.releaseWindow = ⟨windowAt rules st.nativeHeight, satAdd u128Max paid claim.sats, cap⟩
  total : post.releasedSat = st.releasedSat + claim.sats
  fits : post.releasedSat ≤ u128Max
  admitted : satAdd u128Max paid claim.sats ≤ cap ∨ (st.windowExempt claim.attested = true ∧ paid = 0)

theorem State.currentWindow_eq (room : st.nativeHeight + 1 ≤ u64Max) :
    st.currentWindow =
      if windowAt st.profile.limits st.nativeHeight = st.releaseWindow.window ∧
          st.releaseWindow.released ≠ 0 then st.releaseWindow
      else ⟨windowAt st.profile.limits st.nativeHeight, 0,
        max (satMul u128Max st.escrowSat st.profile.limits.releaseWindowBps / 10000)
          st.profile.limits.releaseFloorSat⟩ := by
  have height : satAdd u64Max st.nativeHeight 1 = st.nativeHeight + 1 := min_eq_left room
  rw [currentWindow, height]
  rfl

theorem Accepts.paid {claim : State.Claim} (accepts : Accepts c v st (.claim claim) post)
    (pinned : st.profile.limits = rules) : ∃ paid cap, Paid rules st claim post paid cap := by
  subst pinned
  cases accepts.change with
  | claim claimable fits =>
    have admitted := of_decide_eq_true claimable.admitted
    have current := State.currentWindow_eq claimable.height
    by_cases recorded : windowAt st.profile.limits st.nativeHeight = st.releaseWindow.window ∧
        st.releaseWindow.released ≠ 0
    · rw [if_pos recorded] at current
      rw [current] at admitted ⊢
      refine ⟨st.releaseWindow.released, st.releaseWindow.cap, .inl ⟨?_, recorded.2⟩, ?_, rfl, fits, admitted⟩
      · rw [recorded.1]
      · rw [recorded.1]
    · rw [if_neg recorded] at current
      rw [current] at admitted ⊢
      refine ⟨0, _, .inr ⟨fun held => recorded ⟨held.1.symm, held.2⟩, rfl, ?_⟩, rfl, rfl, fits, admitted⟩
      exact max_satMul_le_releaseCap _ _

theorem Paid.recorded (change : Paid rules st claim post paid cap)
    (recorded : post.releaseWindow.window = window ∧ post.releaseWindow.released ≠ 0) :
    windowAt rules st.nativeHeight = window ∧
      ((st.releaseWindow.window = window ∧ st.releaseWindow.released ≠ 0) ∨ claim.sats ≠ 0) := by
  rw [change.left] at recorded
  obtain ⟨rfl, released⟩ := recorded
  refine ⟨rfl, ?_⟩
  obtain ⟨kept, positive⟩ | ⟨-, rfl, -⟩ := change.found
  · rw [kept]
    exact .inl ⟨rfl, positive⟩
  · refine .inr fun zero => released ?_
    rw [zero]
    exact Nat.zero_min _

theorem releasedIn_append (rules : Limits) (window : ℕ) (run : Run (Accepts c v) st calls post)
    (later : List Call) :
    releasedIn rules window st.nativeHeight (calls ++ later) =
      releasedIn rules window st.nativeHeight calls + releasedIn rules window post.nativeHeight later := by
  induction run with
  | nil => exact (Nat.zero_add _).symm
  | cons accepts _ ih =>
    simp only [List.cons_append, releasedIn, ← accepts.nativeHeight, ih, Nat.add_assoc]

theorem releasedIn_ne_zero_of_recorded (run : Run (Accepts c v) st calls post)
    (pinned : st.profile.limits = rules)
    (fresh : ¬ (st.releaseWindow.window = window ∧ st.releaseWindow.released ≠ 0))
    (recorded : post.releaseWindow.window = window ∧ post.releaseWindow.released ≠ 0) :
    releasedIn rules window st.nativeHeight calls ≠ 0 := by
  induction run with
  | nil => exact absurd recorded fresh
  | @cons st mid _ call rest accepts _ ih =>
    rw [releasedIn, ← accepts.nativeHeight]
    by_cases kept : mid.releaseWindow.window = window ∧ mid.releaseWindow.released ≠ 0
    · -- the window went on record in this call, which pays from it
      suffices pays : call.releases rules window st.nativeHeight ≠ 0 by omega
      cases call with
      | claim claim =>
        obtain ⟨_, _, change⟩ := accepts.paid pinned
        obtain ⟨here, old | pays⟩ := change.recorded kept
        · exact absurd old fresh
        · rw [Call.releases, if_pos here]
          exact pays
      | _ =>
        rw [(accepts.releaseWindow (by intro _ h; cases h)).1] at kept
        exact absurd kept fresh
    · have := ih (accepts.limits.trans pinned) kept recorded
      omega

/-- What a window has paid and its cap, on record while it lasts. -/
structure Spent (rules : Limits) (window paid cap : ℕ) (st : State) : Prop where
  pinned : st.profile.limits = rules
  reached : window ≤ windowAt rules st.nativeHeight
  recorded : windowAt rules st.nativeHeight = window → st.releaseWindow = ⟨window, paid, cap⟩
  positive : paid ≠ 0
  counted : paid ≤ st.releasedSat

theorem Spent.claim {claim : State.Claim} (spent : Spent rules window paid cap st)
    (here : windowAt rules st.nativeHeight = window) (accepts : Accepts c v st (.claim claim) post) :
    post.releaseWindow = ⟨window, paid + claim.sats, cap⟩ ∧ paid + claim.sats ≤ cap ∧
      paid + claim.sats ≤ post.releasedSat := by
  obtain ⟨found, cap', change⟩ := accepts.paid spent.pinned
  have entry := spent.recorded here
  obtain ⟨rfl, rfl⟩ : found = paid ∧ cap' = cap := by
    obtain ⟨kept, -⟩ | ⟨opened, -⟩ := change.found
    · rw [entry] at kept
      injection kept with _ paidSame capSame
      exact ⟨paidSame.symm, capSame.symm⟩
    · rw [entry] at opened
      exact absurd ⟨here.symm, spent.positive⟩ opened
  have counted : found + claim.sats ≤ post.releasedSat := by
    rw [change.total]
    exact Nat.add_le_add_right spent.counted _
  have sum : satAdd u128Max found claim.sats = found + claim.sats :=
    min_eq_left (le_trans counted change.fits)
  have left := change.left
  have admitted := change.admitted
  rw [here, sum] at left
  rw [sum] at admitted
  refine ⟨left, ?_, counted⟩
  obtain within | ⟨-, unpaid⟩ := admitted
  · exact within
  · exact absurd unpaid spent.positive

theorem Spent.step (spent : Spent rules window paid cap st) (accepts : Accepts c v st call post) :
    Spent rules window (paid + call.releases rules window st.nativeHeight) cap post ∧
      (call.releases rules window st.nativeHeight = 0 ∨
        paid + call.releases rules window st.nativeHeight ≤ cap) := by
  have later : windowAt rules st.nativeHeight ≤ windowAt rules post.nativeHeight := by
    rw [accepts.nativeHeight]
    exact windowAt_mono rules (call.le_heightAfter _)
  have pinned := accepts.limits.trans spent.pinned
  have reached := le_trans spent.reached later
  by_cases claims : ∃ claim, call = .claim claim
  · obtain ⟨claim, rfl⟩ := claims
    by_cases here : windowAt rules st.nativeHeight = window
    · obtain ⟨recorded, within, counted⟩ := spent.claim here accepts
      rw [Call.releases, if_pos here]
      exact ⟨⟨pinned, reached, fun _ => recorded, by have := spent.positive; omega, counted⟩, .inr within⟩
    · obtain ⟨_, _, change⟩ := accepts.paid spent.pinned
      rw [Call.releases, if_neg here]
      refine ⟨⟨pinned, reached, fun again => absurd ?_ here, spent.positive, ?_⟩, .inl rfl⟩
      · rwa [accepts.nativeHeight] at again
      · rw [change.total]
        exact Nat.le_add_right_of_le spent.counted
  · have other : ∀ claim, call ≠ .claim claim := fun claim same => claims ⟨claim, same⟩
    obtain ⟨window_eq, released_eq⟩ := accepts.releaseWindow other
    rw [Call.releases_eq_zero other]
    refine ⟨⟨pinned, reached, fun again => ?_, spent.positive, ?_⟩, .inl rfl⟩
    · rw [window_eq]
      exact spent.recorded (le_antisymm (again ▸ later) spent.reached)
    · rw [released_eq]
      exact spent.counted

theorem Spent.run (spent : Spent rules window paid cap st) (run : Run (Accepts c v) st calls post) :
    releasedIn rules window st.nativeHeight calls = 0 ∨
      paid + releasedIn rules window st.nativeHeight calls ≤ cap := by
  induction run generalizing paid with
  | nil => exact .inl rfl
  | cons accepts _ ih =>
    obtain ⟨spent', within⟩ := spent.step accepts
    have rest := ih spent'
    rw [releasedIn, ← accepts.nativeHeight]
    omega

theorem exists_first_claim (run : Run (Accepts c v) st calls post)
    (pays : releasedIn rules window st.nativeHeight calls ≠ 0) :
    ∃ before claim after st₁ st₂, calls = before ++ .claim claim :: after ∧
      Run (Accepts c v) st before st₁ ∧ Accepts c v st₁ (.claim claim) st₂ ∧
      Run (Accepts c v) st₂ after post ∧ releasedIn rules window st.nativeHeight before = 0 ∧
      windowAt rules st₁.nativeHeight = window ∧ claim.sats ≠ 0 := by
  induction run with
  | nil => exact absurd rfl pays
  | @cons st mid _ call rest accepts run ih =>
    rw [releasedIn, ← accepts.nativeHeight] at pays
    by_cases first : call.releases rules window st.nativeHeight = 0
    · obtain ⟨before, claim, after, st₁, st₂, rfl, earlier, claimed, later, quiet, here, positive⟩ :=
        ih (by omega)
      refine ⟨call :: before, claim, after, st₁, st₂, rfl, .cons accepts earlier, claimed, later, ?_, here,
        positive⟩
      rw [releasedIn, ← accepts.nativeHeight, first, quiet]
    · cases call with
      | claim claim =>
        rw [Call.releases] at first
        obtain ⟨here, positive⟩ := ite_ne_right_iff.mp first
        exact ⟨[], claim, rest, st, mid, rfl, .nil st, accepts, run, rfl, here, positive⟩
      | _ => exact absurd rfl first

theorem Accepts.spent {claim : State.Claim} (accepts : Accepts c v st (.claim claim) post)
    (pinned : st.profile.limits = rules)
    (fresh : ¬ (st.releaseWindow.window = windowAt rules st.nativeHeight ∧ st.releaseWindow.released ≠ 0))
    (pays : claim.sats ≠ 0) :
    ∃ cap, Spent rules (windowAt rules st.nativeHeight) claim.sats cap post ∧
      cap ≤ releaseCap rules st.escrowSat ∧
      (claim.sats ≤ cap ∨ st.windowExempt claim.attested = true) := by
  obtain ⟨paid, cap, change⟩ := accepts.paid pinned
  obtain ⟨kept, positive⟩ | ⟨-, rfl, capped⟩ := change.found
  · rw [kept] at fresh
    exact absurd ⟨rfl, positive⟩ fresh
  · have counted : claim.sats ≤ post.releasedSat := by
      rw [change.total]
      exact Nat.le_add_left _ _
    have sum : satAdd u128Max 0 claim.sats = claim.sats := by
      rw [satAdd, Nat.zero_add]
      exact min_eq_left (le_trans counted change.fits)
    have left := change.left
    have admitted := change.admitted
    rw [sum] at left admitted
    refine ⟨cap, ⟨accepts.limits.trans pinned, ?_, fun _ => left, pays, counted⟩, capped, ?_⟩
    · rw [accepts.nativeHeight]
      rfl
    · exact admitted.imp_right And.left

/-- In each release window the claims release nothing, or no more than the cap set by the escrow before the
window's first paying claim. A first claim above the cap is an exempt one, and nothing else is released in
its window. -/
theorem State.release_window_limited {start : State} (window : ℕ) (started : State.Started c start)
    (run : Run (Accepts c v) start calls st) :
    releasedIn start.profile.limits window start.nativeHeight calls = 0 ∨
    ∃ before claim after st₁ st₂, calls = before ++ .claim claim :: after ∧
      Run (Accepts c v) start before st₁ ∧ Accepts c v st₁ (.claim claim) st₂ ∧
      Run (Accepts c v) st₂ after st ∧
      releasedIn start.profile.limits window start.nativeHeight before = 0 ∧
      windowAt start.profile.limits st₁.nativeHeight = window ∧ claim.sats ≠ 0 ∧
      (releasedIn start.profile.limits window start.nativeHeight calls ≤
          releaseCap start.profile.limits st₁.escrowSat ∨
        releaseCap start.profile.limits st₁.escrowSat < claim.sats ∧
          (claim.attested = true ∨ start.policy.attestorSet = 0) ∧
          releasedIn start.profile.limits window st₂.nativeHeight after = 0) := by
  by_cases pays : releasedIn start.profile.limits window start.nativeHeight calls = 0
  · exact .inl pays
  obtain ⟨before, claim, after, st₁, st₂, rfl, earlier, claimed, later, quiet, here, positive⟩ :=
    exists_first_claim run pays
  refine .inr ⟨before, claim, after, st₁, st₂, rfl, earlier, claimed, later, quiet, here, positive, ?_⟩
  obtain ⟨pinned, policy⟩ : st₁.profile.limits = start.profile.limits ∧ st₁.policy = start.policy :=
    earlier.invariant (P := fun s => s.profile.limits = start.profile.limits ∧ s.policy = start.policy)
      (fun accepts held => ⟨accepts.limits.trans held.1, accepts.fixed.1.trans held.2⟩) ⟨rfl, rfl⟩
  -- nothing was paid from the window before, so that the claim opens its record
  have unopened : ¬ (st₁.releaseWindow.window = window ∧ st₁.releaseWindow.released ≠ 0) := by
    obtain ⟨_, _, _, rfl⟩ := started.eq_blank
    intro recorded
    exact releasedIn_ne_zero_of_recorded earlier rfl (fun held => held.2 rfl) recorded quiet
  subst here
  obtain ⟨cap, spent, capped, admitted⟩ := claimed.spent pinned unopened positive
  have rest := spent.run later
  have total := releasedIn_append start.profile.limits (windowAt start.profile.limits st₁.nativeHeight)
    earlier (.claim claim :: after)
  rw [quiet, Nat.zero_add, releasedIn, Call.releases, if_pos rfl, ← claimed.nativeHeight] at total
  rw [total]
  by_cases within : claim.sats ≤ releaseCap start.profile.limits st₁.escrowSat
  · exact .inl (by omega)
  · refine .inr ⟨by omega, ?_, by omega⟩
    have exempt := of_decide_eq_true (admitted.resolve_left (by omega))
    rwa [policy] at exempt

/-- The first withdrawal of a deposit is the one that its window pays. -/
theorem State.first_release_limited :
    ∃ st window, playAll plainCrypto plainVerifier .plain
        (depositCalls ++ settlementCalls ++ [.claim firstClaim]) = some st ∧
      releasedIn .development window 0 (depositCalls ++ settlementCalls ++ [.claim firstClaim]) = 1000000 ∧
      ∃ before claim after, depositCalls ++ settlementCalls ++ [.claim firstClaim] =
        before ++ .claim claim :: after ∧ releasedIn .development window 0 before = 0 := by
  have height : (playAll plainCrypto plainVerifier .plain
      (depositCalls ++ settlementCalls ++ [.claim firstClaim])).map State.nativeHeight = some 33 := by
    decide +kernel
  obtain ⟨st, played, -⟩ := Option.map_eq_some_iff.mp height
  have released : releasedIn .development (windowAt .development 33) 0
      (depositCalls ++ settlementCalls ++ [.claim firstClaim]) = 1000000 := by decide +kernel
  refine ⟨st, _, played, released, ?_⟩
  obtain none | ⟨before, claim, after, _, _, split, -, -, -, quiet, -⟩ :=
    release_window_limited (windowAt .development 33) started_plain (run_of_playAll played)
  · exact absurd (released.symm.trans none) (by decide)
  · exact ⟨before, claim, after, split, quiet⟩

end

end BlochPos.L2
