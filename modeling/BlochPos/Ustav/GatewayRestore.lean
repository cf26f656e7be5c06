import BlochPos.Lib.Reading
import BlochPos.Ustav.Backing

/-! A gateway whose assets are backed comes back from its snapshot. -/
namespace BlochPos.Ustav.Gateway

open Attempt GatewayLedger SortedMap

variable {h : Hashes} {used : List Bytes32} {l : GatewayLedger} {v : Verifier} {id : Bytes32}

theorem validateConfig_alike (alike : v.Alike v') (native : Ledger) (c : RouteConfig) :
    validateConfig native c v' = validateConfig native c v := by
  have keys : v'.validPqKey = v.validPqKey := alike
  rw [validateConfig, validateConfig, keys]

theorem restoreRoute_sound (native : r.ledger.native = l.native) (sound : RouteSound h v.Alike l id s)
    (new : (s.config.route.sourceDomain, s.config.route.vault) ∉ r.endpoints) :
    restoreRoute h v r s = .ok { r with
      ledger := { r.ledger with routes := r.ledger.routes.insert id s }
      endpoints := insert (s.config.route.sourceDomain, s.config.route.vault) r.endpoints
      counts := r.counts.insert id ⟨0, 0, 0, 0⟩ } := by
  obtain ⟨v', alike, valid⟩ := sound.valid
  rw [validateConfig_alike alike] at valid
  simp only [restoreRoute, ok_iff, native]
  exact ⟨valid, new, by rw [sound.keyed]⟩

def routesOnly (l : GatewayLedger) : GatewayLedger := ⟨l.native, l.routes, .empty, ∅, .empty⟩

theorem restoreRoutes (backed : Backed h v.Alike used l) :
    ∃ endpoints, l.routes.values.foldlM (restoreRoute h v)
        ⟨{ new l.native.domain with native := l.native }, ∅, .empty, ∅⟩ =
      .ok ⟨routesOnly l, endpoints, l.routes.mapVal (fun _ _ => ⟨0, 0, 0, 0⟩), ∅⟩ := by
  rw [values, List.foldlM_map]
  obtain ⟨⟨_, endpoints, _, _⟩, folded, rfl, -, rfl, rfl⟩ :=
    foldlM_builds (fun r e => restoreRoute h v r e.2) l.routes.entries
      (P := fun before r => r.ledger = ⟨l.native, .ofList before, .empty, ∅, .empty⟩ ∧
        (∀ e, e ∈ r.endpoints ↔ ∃ x ∈ before, (x.2.config.route.sourceDomain, x.2.config.route.vault) = e) ∧
        r.counts = (ofList before).mapVal (fun _ _ => ⟨0, 0, 0, 0⟩) ∧ r.nativeIds = ∅)
      (s := ⟨{ new l.native.domain with native := l.native }, ∅, .empty, ∅⟩)
      ⟨rfl, by simp, rfl, rfl⟩ (by
        rintro before e after ⟨_, endpoints, _, _⟩ whole ⟨rfl, ends, rfl, rfl⟩
        have found := get?_of_whole whole
        have new : (e.2.config.route.sourceDomain, e.2.config.route.vault) ∉ endpoints := fun there => by
          obtain ⟨x, among, same⟩ := (ends _).mp there
          obtain ⟨domain, vault⟩ := Prod.ext_iff.mp same
          have held := route?_eq_some (get?_of_before whole among)
          exact (lt_of_before whole among).ne
            (backed.endpoints held (route?_eq_some found) domain vault)
        refine ⟨_, restoreRoute_sound (l := l) rfl (backed.routes found) new, ?_, fun pair => ?_, ?_, rfl⟩
        · rw [ofList_concat]
        · rw [Finset.mem_insert, ends, exists_mem_concat, or_comm, eq_comm]
        · rw [ofList_concat, mapVal_insert])
  refine ⟨endpoints, ?_⟩
  rw [folded, ofList_entries]
  rfl

def readImports (before : List (RecordKey × ImportRecord)) (id : Bytes32) : ℕ × ℕ :=
  ((before.map (fun x => if x.2.deposit.route = id then x.2.deposit.amount else 0)).sum,
    (before.map (fun x => if x.2.deposit.route = id then 1 else 0)).sum)

def mintsOn (l : GatewayLedger) (id : Bytes32) : ℕ :=
  l.imports.sum (fun _ r => if r.deposit.route = id then 1 else 0)

theorem readImports_concat (before : List (RecordKey × ImportRecord)) (e : RecordKey × ImportRecord)
    (id : Bytes32) : readImports (before ++ [e]) id =
      ((readImports before id).1 + if id = e.2.deposit.route then e.2.deposit.amount else 0,
        (readImports before id).2 + if id = e.2.deposit.route then 1 else 0) := by
  simp [readImports, eq_comm]

theorem mintsOn_le (l : GatewayLedger) (id : Bytes32) : mintsOn l id ≤ l.imports.size :=
  count_le_size _ _

/-- What has been read of the imports. -/
structure ReadImports (l : GatewayLedger) (before : List (RecordKey × ImportRecord)) (r : Restoring) : Prop where
  native : r.ledger.native = l.native
  routes : r.ledger.routes = l.routes
  imports : r.ledger.imports = .ofList before
  events : ∀ e, e ∈ r.ledger.events ↔ ∃ x ∈ before, l.eventOf x.2 = some e
  releases : r.ledger.releases = .empty
  counts : ∀ id, r.counts.get? id = (l.routes.get? id).map
    (fun _ => ⟨(readImports before id).1, 0, 0, (readImports before id).2⟩)
  ids : ∀ d, d ∈ r.nativeIds ↔ ∃ x ∈ before, x.2.nativeTransaction = d

variable {before after : List (RecordKey × ImportRecord)} {e : RecordKey × ImportRecord} {r : Restoring}

theorem ReadImports.next (backed : Backed h v.Alike used l) (nonzero : (0 : Bytes32) ∉ used)
    (whole : before ++ e :: after = l.imports.entries) (read : ReadImports l before r) :
    ∃ t, restoreImport r e.2 = .ok t ∧ ReadImports l (before ++ [e]) t := by
  have found := get?_of_whole whole
  have sound := backed.imports found
  obtain ⟨route, routed⟩ := sound.routed
  obtain ⟨s, known, rfl⟩ := Option.map_eq_some_iff.mp routed
  have event : l.eventOf e.2 = some (e.2.event s.config.route) := by
    rw [eventOf, routed]
    rfl
  have others : ∀ x ∈ before, x.1 ≠ e.1 := fun x among => (lt_of_before whole among).ne
  have newEvent : e.2.event s.config.route ∉ r.ledger.events := fun there => by
    obtain ⟨x, among, same⟩ := (read.events _).mp there
    exact others x among (backed.once (get?_of_before whole among) found (same.trans event.symm))
  have newId : e.2.nativeTransaction ∉ r.nativeIds := fun there => by
    obtain ⟨x, among, same⟩ := (read.ids _).mp there
    exact others x among (backed.issued (get?_of_before whole among) found same)
  have nonnull : e.2.nativeTransaction ≠ 0 := fun null => nonzero (Eq.subst null sound.filed)
  -- the partial sums stay within what the route has imported
  have fits := read_le whole (fun _ r => if r.deposit.route = e.2.deposit.route then r.deposit.amount else 0)
  have few := read_le whole (fun _ r => if r.deposit.route = e.2.deposit.route then 1 else 0)
  have total := (backed.routes known).imported
  have bound := (backed.routes known).fits
  have small := mintsOn_le l e.2.deposit.route
  have records := backed.few.2.1
  rw [if_pos rfl] at fits few
  change (readImports before e.2.deposit.route).1 + _ ≤ l.importedOn e.2.deposit.route at fits
  change (readImports before e.2.deposit.route).2 + 1 ≤ mintsOn l e.2.deposit.route at few
  have count := read.counts e.2.deposit.route
  rw [known] at count
  simp only [restoreImport, ok_iff, read.routes]
  obtain ⟨amount, sender, recipient, transaction, block⟩ := sound.nonzero
  refine ⟨_, ⟨s, known, ?_, _, count, _, if_pos (by dsimp only; omega), _, if_pos ?_, rfl⟩, ?_⟩
  · simp only [not_or]
    exact ⟨amount, sender, recipient, transaction, block, nonnull, newId, newEvent⟩
  · have wide : MAX_RECORDS ≤ u64Max := by decide
    dsimp only
    omega
  · exact {
      native := read.native
      routes := rfl
      imports := by rw [ofList_concat, ← read.imports, sound.keyed]
      events := fun pair => by
        rw [Finset.mem_insert, read.events, exists_mem_concat, event, Option.some.injEq, or_comm, eq_comm]
      releases := read.releases
      counts := fun id => by
        rw [get?_insert, readImports_concat]
        split_ifs with here
        · rw [here, known]
          rfl
        · exact read.counts id
      ids := fun d => by rw [Finset.mem_insert, read.ids, exists_mem_concat, or_comm, eq_comm] }

theorem restoreImports (backed : Backed h v.Alike used l) (nonzero : (0 : Bytes32) ∉ used)
    (start : ReadImports l [] r) :
    ∃ t, l.imports.values.foldlM restoreImport r = .ok t ∧ ReadImports l l.imports.entries t := by
  rw [values, List.foldlM_map]
  exact foldlM_builds (fun r e => restoreImport r e.2) l.imports.entries start
    (fun whole read => ReadImports.next backed nonzero whole read)

def readReleases (before : List (RecordKey × Release)) (id : Bytes32) : ℕ × ℕ :=
  ((before.map (fun x => if x.2.route = id then x.2.amount else 0)).sum,
    (before.map (fun x => if x.2.route = id then 1 else 0)).sum)

theorem readReleases_concat (before : List (RecordKey × Release)) (e : RecordKey × Release) (id : Bytes32) :
    readReleases (before ++ [e]) id =
      ((readReleases before id).1 + if id = e.2.route then e.2.amount else 0,
        (readReleases before id).2 + if id = e.2.route then 1 else 0) := by
  simp [readReleases, eq_comm]

/-- The gateway as restored once these releases are read. -/
structure ReadReleases (l : GatewayLedger) (before : List (RecordKey × Release)) (r : Restoring) : Prop where
  native : r.ledger.native = l.native
  routes : r.ledger.routes = l.routes
  imports : r.ledger.imports = l.imports
  events : r.ledger.events = l.events
  releases : r.ledger.releases = .ofList before
  counts : ∀ id, r.counts.get? id = (l.routes.get? id).map
    (fun _ => ⟨l.importedOn id, (readReleases before id).1, (readReleases before id).2, mintsOn l id⟩)
  ids : ∀ d, d ∈ r.nativeIds ↔ (∃ key record, l.imports.get? key = some record ∧ record.nativeTransaction = d) ∨
    ∃ x ∈ before, x.2.nativeBurn = d
  nonces : ∀ id n, (∃ x ∈ before, x.1 = toLex (id, n)) ↔ n < (readReleases before id).2

theorem ReadImports.done (backed : Backed h v.Alike used l) (read : ReadImports l l.imports.entries r) :
    ReadReleases l [] r where
  native := read.native
  routes := read.routes
  imports := by rw [read.imports, ofList_entries]
  events := by
    ext e
    rw [read.events, backed.events]
    simp only [get?_eq_some_iff, Prod.exists]
  releases := read.releases
  counts := read.counts
  ids d := by
    rw [read.ids]
    simp [get?_eq_some_iff]
  nonces id n := by simp [readReleases]

section

variable {before after : List (RecordKey × Release)} {e : RecordKey × Release}

theorem ReadReleases.nonce_eq (backed : Backed h v.Alike used l)
    (whole : before ++ e :: after = l.releases.entries) (read : ReadReleases l before r) :
    e.2.nonce = (readReleases before e.2.route).2 := by
  have found := get?_of_whole whole
  have sound := backed.releases found
  obtain ⟨route, routed, -⟩ := sound.routed
  obtain ⟨s, known, -⟩ := Option.map_eq_some_iff.mp routed
  have key : e.1 = toLex (e.2.route, e.2.nonce) := sound.keyed.symm
  have numbered := (backed.routes known).nonces
  refine le_antisymm (not_lt.mp (fun gap => ?_)) (not_lt.mp (fun again => ?_))
  · -- the release under the number counted so far is lower, so it has been read
    have here : e.2.nonce < s.nextReleaseNonce := (numbered _).mp (by rw [← key, found]; rfl)
    obtain ⟨skipped, held⟩ := Option.isSome_iff_exists.mp ((numbered _).mpr (gap.trans here))
    have lower : toLex (e.2.route, (readReleases before e.2.route).2) < e.1 := by
      rw [key]
      exact Prod.Lex.toLex_lt_toLex.mpr (.inr ⟨rfl, gap⟩)
    have among := mem_before_of_lt whole held lower
    exact lt_irrefl _ ((read.nonces _ _).mp ⟨_, among, rfl⟩)
  · obtain ⟨x, among, same⟩ := (read.nonces _ _).mpr again
    exact (lt_of_before whole among).ne (same.trans key.symm)

theorem ReadReleases.next (backed : Backed h v.Alike used l) (nonzero : (0 : Bytes32) ∉ used)
    (whole : before ++ e :: after = l.releases.entries) (read : ReadReleases l before r) :
    ∃ t, restoreRelease r e.2 = .ok t ∧ ReadReleases l (before ++ [e]) t := by
  have found := get?_of_whole whole
  have sound := backed.releases found
  obtain ⟨route, routed, vault, token⟩ := sound.routed
  obtain ⟨s, known, rfl⟩ := Option.map_eq_some_iff.mp routed
  have nonce := read.nonce_eq backed whole
  have key : e.1 = toLex (e.2.route, e.2.nonce) := sound.keyed.symm
  have newId : e.2.nativeBurn ∉ r.nativeIds := fun there => by
    obtain ⟨key, record, held, same⟩ | ⟨x, among, same⟩ := (read.ids _).mp there
    · exact backed.apart held found same
    · exact (lt_of_before whole among).ne
        (backed.retired (get?_of_before whole among) found same)
  have nonnull : e.2.nativeBurn ≠ 0 := fun null => nonzero (Eq.subst null sound.filed)
  have fits := read_le whole (fun _ r => if r.route = e.2.route then r.amount else 0)
  have total := (backed.routes known).burned
  have bound := (backed.routes known).fits
  have covered := (backed.routes known).backed.1
  have below : e.2.nonce < s.nextReleaseNonce :=
    ((backed.routes known).nonces _).mp (by rw [← key, found]; rfl)
  have last := (backed.routes known).next
  rw [if_pos rfl] at fits
  change (readReleases before e.2.route).1 + _ ≤ l.releasedOn e.2.route at fits
  have count := read.counts e.2.route
  rw [known] at count
  simp only [restoreRelease, ok_iff, read.routes]
  refine ⟨_, ⟨s, known, _, count, ?_, _, if_pos (by dsimp only; omega), _,
    if_pos (by dsimp only; omega), rfl⟩, ?_⟩
  · simp only [not_or, not_not]
    exact ⟨sound.nonzero.1, sound.nonzero.2, vault, token, nonnull, newId, nonce⟩
  · exact {
      native := read.native
      routes := rfl
      imports := read.imports
      events := read.events
      releases := by rw [ofList_concat, ← read.releases, sound.keyed]
      counts := fun id => by
        rw [get?_insert, readReleases_concat]
        split_ifs with here
        · rw [here, known]
          rfl
        · exact read.counts id
      ids := fun d => by
        rw [Finset.mem_insert, read.ids, exists_mem_concat, or_comm, or_assoc, eq_comm (a := d)]
      nonces := fun id n => by
        simp only [exists_mem_concat, read.nonces, readReleases_concat, key, EmbeddingLike.apply_eq_iff_eq,
          Prod.mk.injEq]
        split_ifs with here
        · subst here
          rw [← nonce, and_iff_right rfl]
          omega
        · simp [Ne.symm here] }

end

theorem restoreReleases (backed : Backed h v.Alike used l) (nonzero : (0 : Bytes32) ∉ used)
    (start : ReadReleases l [] r) :
    ∃ t, l.releases.values.foldlM restoreRelease r = .ok t ∧ ReadReleases l l.releases.entries t := by
  rw [values, List.foldlM_map]
  exact foldlM_builds (fun r e => restoreRelease r e.2) l.releases.entries start
    (fun whole read => ReadReleases.next backed nonzero whole read)

theorem mints_eq_sum (l : GatewayLedger) (asset : AssetId) :
    l.mints asset = l.routes.sum (fun id s => if s.config.route.nativeAsset = asset then mintsOn l id else 0) := by
  simp only [mintsOn]
  rw [sum_by_key l.routes l.imports (fun r => r.deposit.route)
    (fun s => s.config.route.nativeAsset = asset) (fun _ => 1)]
  refine sum_congr (fun key r _ => ?_)
  simp [route?]

theorem ReadReleases.count_eq (backed : Backed h v.Alike used l) (read : ReadReleases l l.releases.entries r)
    (known : l.routes.get? id = some s) :
    r.counts.get? id = some ⟨s.imported, s.burned, s.nextReleaseNonce, mintsOn l id⟩ := by
  have sound := backed.routes known
  have numbers : ∀ n, n < s.nextReleaseNonce ↔ n < (readReleases l.releases.entries id).2 := by
    intro n
    rw [← sound.nonces, ← read.nonces, Option.isSome_iff_exists]
    simp [get?_eq_some_iff]
  have same : s.nextReleaseNonce = (readReleases l.releases.entries id).2 :=
    le_antisymm (not_lt.mp (fun less => lt_irrefl _ ((numbers _).mp less)))
      (not_lt.mp (fun less => lt_irrefl _ ((numbers _).mpr less)))
  rw [read.counts, known, sound.imported, sound.burned, same]
  rfl

def readRoutes (l : GatewayLedger) (before : List (Bytes32 × RouteState)) (asset : AssetId) : ℕ × ℕ :=
  ((before.map (fun x => if x.2.config.route.nativeAsset = asset then x.2.imported - x.2.burned else 0)).sum,
    (before.map (fun x => if x.2.config.route.nativeAsset = asset then mintsOn l x.1 else 0)).sum)

/-- The totals of the routes read so far, by asset. -/
structure ReadRoutes (l : GatewayLedger) (before : List (Bytes32 × RouteState))
    (byAsset : SortedMap AssetId (ℕ × ℕ)) : Prop where
  held : ∀ {asset tally}, byAsset.get? asset = some tally → l.bridged asset = true
  totals : ∀ asset, byAsset.getD asset (0, 0) = readRoutes l before asset

section

variable (backed : Backed h v.Alike used l)
include backed

theorem ReadRoutes.next (sound : Ledger.Sound h v.Alike l.native)
    (read : ReadReleases l l.releases.entries r) {before after : List (Bytes32 × RouteState)}
    {e : Bytes32 × RouteState}
    (whole : before ++ e :: after = l.routes.entries) (tallied : ReadRoutes l before byAsset) :
    ∃ t, tallyRoute r.counts byAsset e = .ok t ∧ ReadRoutes l (before ++ [e]) t := by
  have found := get?_of_whole whole
  have route := backed.routes found
  have bridged : l.bridged e.2.config.route.nativeAsset = true :=
    bridged_iff.mpr ⟨e.1, by rw [route?_eq_some found]; rfl⟩
  obtain ⟨token, known, supply, -⟩ := backed.supply bridged
  have small := (sound.tokens known).fits
  have fits := read_le whole
    (fun _ s => if s.config.route.nativeAsset = e.2.config.route.nativeAsset then s.imported - s.burned else 0)
  have few := read_le whole
    (fun id s => if s.config.route.nativeAsset = e.2.config.route.nativeAsset then mintsOn l id else 0)
  rw [← mints_eq_sum] at few
  rw [if_pos rfl] at fits few
  change (readRoutes l before _).1 + _ ≤ l.outstanding e.2.config.route.nativeAsset at fits
  change (readRoutes l before _).2 + _ ≤ _ at few
  have within : l.mints e.2.config.route.nativeAsset ≤ l.imports.size := count_le_size _ _
  have records := backed.few.2.1
  have wide : 2 ^ 127 ≤ u128Max ∧ MAX_RECORDS ≤ u64Max := by decide
  simp only [tallyRoute, ok_iff, tallied.totals]
  refine ⟨_, ⟨_, read.count_eq backed found, _, if_pos route.backed.1, ?_, _,
    if_pos (by dsimp only; omega), _, if_pos (by dsimp only; omega), rfl⟩, ?_⟩
  · simp only [not_or, not_not, not_lt]
    exact ⟨trivial, trivial, trivial, route.backed.2⟩
  · refine ⟨fun {asset tally} there => ?_, fun asset => ?_⟩
    · rw [get?_insert] at there
      split_ifs at there with same
      · rw [same]
        exact bridged
      · exact tallied.held there
    · have before_eq := tallied.totals asset
      rw [getD] at before_eq ⊢
      rw [get?_insert]
      split_ifs with same
      · subst same
        simp [readRoutes]
      · rw [before_eq]
        simp [readRoutes, Ne.symm same]

theorem tallyRoutes (sound : Ledger.Sound h v.Alike l.native)
    (read : ReadReleases l l.releases.entries r) :
    ∃ byAsset, l.routes.entries.foldlM (tallyRoute r.counts) .empty = .ok byAsset ∧
      ReadRoutes l l.routes.entries byAsset :=
  foldlM_builds (tallyRoute r.counts) l.routes.entries ⟨fun found => by simp at found, fun _ => rfl⟩
    (fun whole tallied => ReadRoutes.next backed sound read whole tallied)

theorem ReadRoutes.agree
    (tallied : ReadRoutes l l.routes.entries byAsset) {e : AssetId × (ℕ × ℕ)} (among : e ∈ byAsset.entries) :
    l.native.supply e.1 = some e.2.1 ∧ l.native.nextMintNonce e.1 = some e.2.2 := by
  have found := get?_eq_some_iff.mpr among
  obtain ⟨token, known, supply, nonce⟩ := backed.supply (tallied.held found)
  have totals := tallied.totals e.1
  rw [getD_eq_of_get? found] at totals
  rw [Ledger.supply, Ledger.nextMintNonce, known, totals]
  refine ⟨congrArg some supply, congrArg some ?_⟩
  rw [nonce, mints_eq_sum]
  rfl

theorem Backed.restore (nonzero : (0 : Bytes32) ∉ used)
    (sound : Ledger.Sound h v.Alike l.native) (few : l.native.outputs.size ≤ MAX_LEDGER_OUTPUTS) :
    restore h (l.snapshot h) (l.stateRoot h) v = .ok l := by
  obtain ⟨endpoints, routes⟩ := restoreRoutes backed
  have start : ReadImports l [] ⟨routesOnly l, endpoints, l.routes.mapVal (fun _ _ => ⟨0, 0, 0, 0⟩), ∅⟩ :=
    ⟨rfl, rfl, rfl, by simp [routesOnly], rfl, fun id => by rw [get?_mapVal]; rfl, by simp⟩
  obtain ⟨imported, imports, readImports⟩ := restoreImports backed nonzero start
  obtain ⟨released, releases, read⟩ := restoreReleases backed nonzero (readImports.done backed)
  obtain ⟨byAsset, totals, tallied⟩ := tallyRoutes backed sound read
  have whole : released.ledger = l := by
    have same : released.ledger = ⟨l.native, l.routes, l.imports, l.events, .ofList l.releases.entries⟩ := by
      rw [← read.native, ← read.routes, ← read.imports, ← read.events, ← read.releases]
    rw [same, ofList_entries]
  simp only [GatewayLedger.restore, snapshot, ok_iff]
  refine ⟨refuse_eq_ok_iff.mpr ?_, l.native, sound.restore few, _, routes, imported, imports, released, releases,
    byAsset, by rw [whole]; exact totals, ?_, ?_, whole⟩
  · rw [map_values_eq_keys (fun found => (backed.routes found).keyed),
      map_values_eq_keys (fun found => (backed.imports found).keyed),
      map_values_eq_keys (fun found => (backed.releases found).keyed)]
    simp only [not_or, not_not, not_lt, values, List.length_map]
    exact ⟨trivial, backed.few.1, backed.few.2.1, backed.few.2.2, l.routes.keys_isChain, l.imports.keys_isChain,
      l.releases.keys_isChain⟩
  · rintro ⟨e, among, off⟩
    rw [whole] at off
    obtain ⟨supply, nonce⟩ := tallied.agree backed among
    exact off.elim (fun other => other supply) (fun other => other nonce)
  · rw [whole]
    exact fun off => off rfl

end

end BlochPos.Ustav.Gateway
