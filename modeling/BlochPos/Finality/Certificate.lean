import BlochPos.StateRoot.Proofs
import BlochPos.Transition.Codec

/-! The finality certificate on the wire. Its state proofs leave out empty siblings, and a bitmap
tells how many are left. -/
namespace BlochPos.FinalityCert

open Reader List StateRoot

def MAGIC : Bytes := ascii "BLOCHFC1"
def VERSION : ℕ := 1
def MAX_RECORDS : ℕ := 2 ^ 16
def MAX_VOTES_PER_LINK : ℕ := 2 ^ 16
def MAX_SIG_BYTES : ℕ := 16 * 1024
def MAX_RECORD_BYTES : ℕ := 64 * 1024
def MAX_ANCESTRY : ℕ := 4096

/-- Bit `d` of a bitmap, the most significant first. -/
def bit (bitmap : Bytes32) (d : ℕ) : Bool := bitmap.val.testBit (TREE_DEPTH - 1 - d)

def countOnes (bitmap : Bytes32) : ℕ := (range TREE_DEPTH).countP (bit bitmap)

structure CompressedProof where
  bitmap : Bytes32
  siblings : List Bytes32
deriving DecidableEq

namespace CompressedProof

/-- The bits set and the siblings kept from a depth on. -/
def compressFrom (empty : ℕ → Bytes32) : ℕ → List Bytes32 → ℕ × List Bytes32
  | _, [] => (0, [])
  | d, s :: rest =>
    let later := compressFrom empty (d + 1) rest
    if s ≠ empty (d + 1) then (later.1 ||| 2 ^ (TREE_DEPTH - 1 - d), s :: later.2) else later

def compress (p : InclusionProof Bytes32) (empty : ℕ → Bytes32) : CompressedProof :=
  ⟨Fin.ofNat _ (compressFrom empty 0 p.siblings).1, (compressFrom empty 0 p.siblings).2⟩

def expandAt (bitmap : Bytes32) (empty : ℕ → Bytes32) : List ℕ → List Bytes32 → Option (List Bytes32)
  | [], siblings => if siblings = [] then some [] else none
  | d :: depths, siblings =>
    if bit bitmap d then
      siblings.head?.bind (fun s => (expandAt bitmap empty depths siblings.tail).map (s :: ·))
    else (expandAt bitmap empty depths siblings).map (empty (d + 1) :: ·)

def expand (p : CompressedProof) (empty : ℕ → Bytes32) : Option (InclusionProof Bytes32) :=
  (expandAt p.bitmap empty (range TREE_DEPTH) p.siblings).map InclusionProof.mk

variable {bitmap : Bytes32} {empty : ℕ → Bytes32} {depths : List ℕ} {siblings : List Bytes32} {d : ℕ}

theorem isSome_expandAt :
    (expandAt bitmap empty depths siblings).isSome ↔ siblings.length = depths.countP (bit bitmap) := by
  induction depths generalizing siblings with
  | nil => cases siblings <;> simp [expandAt]
  | cons d depths ih =>
    by_cases set : bit bitmap d = true
    · cases siblings <;> simp [expandAt, set, ih]
    · simp [expandAt, set, ih]

theorem compressFrom_lt (inside : d + siblings.length ≤ TREE_DEPTH) :
    (compressFrom empty d siblings).1 < 2 ^ (TREE_DEPTH - d) := by
  induction siblings generalizing d with
  | nil => exact Nat.two_pow_pos _
  | cons s rest ih =>
    rw [length_cons] at inside
    have later : (compressFrom empty (d + 1) rest).1 < 2 ^ (TREE_DEPTH - d) :=
      (ih (by omega)).trans (Nat.pow_lt_pow_right (by decide) (by omega))
    rw [compressFrom]
    split_ifs
    · exact Nat.or_lt_two_pow later (Nat.pow_lt_pow_right (by decide) (by omega))
    · exact later

/-- A bitmap with the bits of a proof from a depth on gives back the proof from there. -/
theorem expandAt_compressFrom (inside : d + siblings.length ≤ TREE_DEPTH)
    (same : ∀ i, d ≤ i → i < TREE_DEPTH →
      bit bitmap i = (compressFrom empty d siblings).1.testBit (TREE_DEPTH - 1 - i)) :
    expandAt bitmap empty (range' d siblings.length) (compressFrom empty d siblings).2 = some siblings := by
  induction siblings generalizing d with
  | nil => rfl
  | cons s rest ih =>
    rw [length_cons] at inside ⊢
    have here := same d le_rfl (by omega)
    have unset : (compressFrom empty (d + 1) rest).1.testBit (TREE_DEPTH - 1 - d) = false :=
      Nat.testBit_lt_two_pow ((compressFrom_lt (by omega)).trans_eq (congrArg _ (by omega)))
    rw [compressFrom] at same here ⊢
    rw [range'_succ]
    by_cases elided : s = empty (d + 1)
    · simp only [elided, ne_eq, not_true_eq_false, if_false] at same here ⊢
      simp [expandAt, here, unset, ih (by omega) (fun i above => same i (by omega))]
    · simp only [ne_eq, elided, not_false_eq_true, if_true] at same here ⊢
      have later : ∀ i, d + 1 ≤ i → i < TREE_DEPTH →
          bit bitmap i = (compressFrom empty (d + 1) rest).1.testBit (TREE_DEPTH - 1 - i) := by
        intro i above below
        have other : TREE_DEPTH - 1 - d ≠ TREE_DEPTH - 1 - i := by omega
        rw [same i (by omega) below, Nat.testBit_or, Nat.testBit_two_pow_of_ne other, Bool.or_false]
      rw [Nat.testBit_or, Nat.testBit_two_pow_self, Bool.or_true] at here
      simp [expandAt, here, ih (by omega) later]

theorem expand_compress {p : InclusionProof Bytes32} (whole : p.siblings.length = TREE_DEPTH) :
    (compress p empty).expand empty = some p := by
  have bits : ∀ i, 0 ≤ i → i < TREE_DEPTH → bit (compress p empty).bitmap i =
      (compressFrom empty 0 p.siblings).1.testBit (TREE_DEPTH - 1 - i) := by
    intro i _ below
    have small : (compressFrom empty 0 p.siblings).1 < 2 ^ TREE_DEPTH := compressFrom_lt (by omega)
    exact congrArg (Nat.testBit · _) (Nat.mod_eq_of_lt small)
  have expanded := expandAt_compressFrom (by omega) bits
  rw [whole, ← range_eq_range'] at expanded
  exact congrArg (Option.map InclusionProof.mk) expanded

end CompressedProof

structure Vote where
  (validator slot : ℕ)
  head : Bytes32
  signature : Bytes
deriving DecidableEq

/-- A supermajority link and the votes that make it. -/
structure Link where
  sourceEpoch : ℕ
  sourceRoot : Bytes32
  targetEpoch : ℕ
  targetRoot : Bytes32
  votes : List Vote
deriving DecidableEq

structure RegistryProof where
  header : BlockHeaderV4
  records : List (Bytes × CompressedProof)
  absent : List (ℕ × CompressedProof)
deriving DecidableEq

structure Certificate where
  checkpointHeader : BlockHeaderV4
  registry : RegistryProof
  links : Link × Link
  ancestry : List BlockHeaderV4
deriving DecidableEq

def CompressedProof.bytes (p : CompressedProof) : Bytes := hashBytes p.bitmap ++ p.siblings.flatMap hashBytes

def Vote.bytes (v : Vote) : Bytes :=
  leBytes 4 v.validator ++ leBytes 8 v.slot ++ hashBytes v.head ++ putBytes v.signature

def Link.bytes (l : Link) : Bytes :=
  leBytes 8 l.sourceEpoch ++ hashBytes l.sourceRoot ++ leBytes 8 l.targetEpoch ++ hashBytes l.targetRoot ++
    putList Vote.bytes l.votes

def Certificate.encode (c : Certificate) : Bytes :=
  MAGIC ++ leBytes 2 VERSION ++ c.checkpointHeader.canonicalSerialize ++
    c.registry.header.canonicalSerialize ++
    putList (fun r => putBytes r.1 ++ r.2.bytes) c.registry.records ++
    putList (fun a => leBytes 4 a.1 ++ a.2.bytes) c.registry.absent ++
    c.links.1.bytes ++ c.links.2.bytes ++ putList BlockHeaderV4.canonicalSerialize c.ancestry

inductive Refusal where
  | malformed (what : String)
deriving DecidableEq

abbrev Rd := Reader UInt8 Refusal

namespace Rd

def take (n : ℕ) : Rd Bytes := Reader.take (.malformed "truncated") n

/-- A field of fixed width, which only the end of the input can spoil. -/
def field {A : Type} (reader : TxReader A) : Rd A := reader.mapError (fun _ => .malformed "truncated")

def count (max : ℕ) : Rd ℕ := do
  let n ← field .u32
  Reader.refuse (max < n) (.malformed "count over bound")
  pure n

def sized (max : ℕ) : Rd Bytes := do
  let n ← count max
  take n

def counted {A : Type} (max : ℕ) (item : Rd A) : Rd (List A) := do
  let n ← count max
  many item n

def header : Rd BlockHeaderV4 := field BlockHeaderV4.decode

def proof : Rd CompressedProof := do
  let bitmap ← field .h32
  let siblings ← many (field .h32) (countOnes bitmap)
  pure ⟨bitmap, siblings⟩

def record : Rd (Bytes × CompressedProof) := do
  let bytes ← sized MAX_RECORD_BYTES
  let p ← proof
  pure (bytes, p)

def absence : Rd (ℕ × CompressedProof) := do
  let i ← field .u32
  let p ← proof
  pure (i, p)

def vote : Rd Vote := do
  let validator ← field .u32
  let slot ← field .u64
  let head ← field .h32
  let signature ← sized MAX_SIG_BYTES
  pure ⟨validator, slot, head, signature⟩

def link : Rd Link := do
  let sourceEpoch ← field .u64
  let sourceRoot ← field .h32
  let targetEpoch ← field .u64
  let targetRoot ← field .h32
  let votes ← counted MAX_VOTES_PER_LINK vote
  pure ⟨sourceEpoch, sourceRoot, targetEpoch, targetRoot, votes⟩

def certificate : Rd Certificate := do
  let magic ← take 8
  Reader.refuse (magic ≠ MAGIC) (.malformed "magic")
  let version ← field (.number 2)
  Reader.refuse (version ≠ VERSION) (.malformed "version")
  let checkpointHeader ← header
  let setHeader ← header
  let records ← counted MAX_RECORDS record
  let absent ← counted (MAX_RECORDS + 1) absence
  let first ← link
  let second ← link
  let ancestry ← counted MAX_ANCESTRY header
  pure ⟨checkpointHeader, ⟨setHeader, records, absent⟩, (first, second), ancestry⟩

end Rd

def Certificate.decode (b : Bytes) : Except Refusal Certificate :=
  whole Rd.certificate (.malformed "trailing bytes") b

/-- The siblings of a proof are as many as its bitmap says. -/
def CompressedProof.Fits (p : CompressedProof) : Prop := p.siblings.length = countOnes p.bitmap
deriving Decidable

def Vote.Fits (v : Vote) : Prop :=
  v.validator < 2 ^ 32 ∧ v.slot < 2 ^ 64 ∧ v.signature.length ≤ MAX_SIG_BYTES
deriving Decidable

def Link.Fits (l : Link) : Prop :=
  l.sourceEpoch < 2 ^ 64 ∧ l.targetEpoch < 2 ^ 64 ∧ l.votes.length ≤ MAX_VOTES_PER_LINK ∧ ∀ v ∈ l.votes, v.Fits
deriving Decidable

/-- The words of a certificate fit their widths, its parts the decoder's bounds. -/
def Certificate.Fits (c : Certificate) : Prop :=
  c.checkpointHeader.Fits ∧ c.registry.header.Fits ∧
    (c.registry.records.length ≤ MAX_RECORDS ∧
      ∀ r ∈ c.registry.records, r.1.length ≤ MAX_RECORD_BYTES ∧ r.2.Fits) ∧
    (c.registry.absent.length ≤ MAX_RECORDS + 1 ∧ ∀ a ∈ c.registry.absent, a.1 < 2 ^ 32 ∧ a.2.Fits) ∧
    c.links.1.Fits ∧ c.links.2.Fits ∧ c.ancestry.length ≤ MAX_ANCESTRY ∧ ∀ h ∈ c.ancestry, h.Fits
deriving Decidable

namespace Rd

variable {A : Type} {write : A → Bytes} {fits : A → Prop} {max : ℕ}

instance : Fact (MAX_RECORDS < 2 ^ 32) := ⟨by decide⟩
instance : Fact (MAX_RECORDS + 1 < 2 ^ 32) := ⟨by decide⟩
instance : Fact (MAX_VOTES_PER_LINK < 2 ^ 32) := ⟨by decide⟩
instance : Fact (MAX_SIG_BYTES < 2 ^ 32) := ⟨by decide⟩
instance : Fact (MAX_RECORD_BYTES < 2 ^ 32) := ⟨by decide⟩
instance : Fact (MAX_ANCESTRY < 2 ^ 32) := ⟨by decide⟩

instance reads_take (n : ℕ) : Reads (take n) (fun b => b) (fun b => b.length = n) := Reader.reads_take _ n

instance reads_field {reader : TxReader A} [Reads reader write fits] : Reads (field reader) write fits :=
  reads_mapError _

instance reads_count [small : Fact (max < 2 ^ 32)] : Reads (count max) (leBytes 4) (fun n => n ≤ max) where
  run_eq_ok_iff s n rest := by
    simp only [count, run_reads_bind_eq_ok_iff, run_refuse_bind_eq_ok_iff, run_pure_eq_ok_iff, not_lt]
    constructor
    · rintro ⟨_, _, rfl, -, within, rfl, rfl⟩
      exact ⟨within, rfl⟩
    · rintro ⟨within, rfl⟩
      exact ⟨n, rest, rfl, within.trans_lt small.out, within, rfl, rfl⟩

instance reads_sized [Fact (max < 2 ^ 32)] : Reads (sized max) putBytes (fun b => b.length ≤ max) where
  run_eq_ok_iff s b rest := by
    simp only [sized, run_reads_bind_eq_ok_iff, Reads.run_eq_ok_iff, putBytes, append_assoc]
    constructor
    · rintro ⟨_, _, rfl, within, rfl, rfl⟩
      exact ⟨within, rfl⟩
    · rintro ⟨within, rfl⟩
      exact ⟨b.length, b ++ rest, rfl, within, rfl, rfl⟩

instance reads_counted {item : Rd A} [Reads item write fits] [Fact (max < 2 ^ 32)] :
    Reads (counted max item) (putList write) (fun l => l.length ≤ max ∧ ∀ a ∈ l, fits a) where
  run_eq_ok_iff s l rest := by
    simp only [counted, run_reads_bind_eq_ok_iff, Reads.run_eq_ok_iff, putList, append_assoc]
    constructor
    · rintro ⟨_, _, rfl, within, ⟨rfl, each⟩, rfl⟩
      exact ⟨⟨within, each⟩, rfl⟩
    · rintro ⟨⟨within, each⟩, rfl⟩
      exact ⟨l.length, l.flatMap write ++ rest, rfl, within, ⟨rfl, each⟩, rfl⟩

instance reads_header : Reads header BlockHeaderV4.canonicalSerialize BlockHeaderV4.Fits := reads_field

instance reads_proof : Reads proof CompressedProof.bytes CompressedProof.Fits where
  run_eq_ok_iff s p rest := by
    cases p
    rw [and_comm, proof]
    simp [CompressedProof.bytes, CompressedProof.Fits]

instance reads_record : Reads record (fun r => putBytes r.1 ++ r.2.bytes)
    (fun r => r.1.length ≤ MAX_RECORD_BYTES ∧ r.2.Fits) where
  run_eq_ok_iff s r rest := by
    cases r
    rw [and_comm, record]
    simp

instance reads_absence : Reads absence (fun a => leBytes 4 a.1 ++ a.2.bytes)
    (fun a => a.1 < 2 ^ 32 ∧ a.2.Fits) where
  run_eq_ok_iff s a rest := by
    cases a
    rw [and_comm, absence]
    simp

instance reads_vote : Reads vote Vote.bytes Vote.Fits where
  run_eq_ok_iff s v rest := by
    cases v
    rw [and_comm, vote]
    simp [Vote.bytes, Vote.Fits]

instance reads_link : Reads link Link.bytes Link.Fits where
  run_eq_ok_iff s l rest := by
    cases l
    rw [and_comm, link]
    simp [Link.bytes, Link.Fits]

instance reads_certificate : Reads certificate Certificate.encode Certificate.Fits where
  run_eq_ok_iff s c rest := by
    obtain ⟨checkpointHeader, ⟨header, records, absent⟩, ⟨first, second⟩, ancestry⟩ := c
    have magic : MAGIC.length = 8 := by decide
    have version : VERSION < 65536 := by decide
    rw [and_comm, certificate]
    simp [Certificate.encode, Certificate.Fits, magic, version]

end Rd

theorem decode_eq_ok_iff {b : Bytes} {c : Certificate} :
    Certificate.decode b = .ok c ↔ c.Fits ∧ b = c.encode := by
  rw [Certificate.decode, whole_eq_ok_iff, Rd.reads_certificate.run_eq_ok_iff, append_nil]

/-- The decoder reads back what is encoded within its bounds and accepts nothing else. Compression loses
nothing of a whole proof, and a compressed proof expands exactly if it has a sibling for each bit. -/
theorem certificate_codec_canonical : (∀ c : Certificate, c.Fits → Certificate.decode c.encode = .ok c) ∧
    (∀ b c, Certificate.decode b = .ok c → c.encode = b) ∧
    (∀ (p : InclusionProof Bytes32) (empty : ℕ → Bytes32), p.siblings.length = TREE_DEPTH →
      (CompressedProof.compress p empty).expand empty = some p) ∧
    ∀ (p : CompressedProof) (empty : ℕ → Bytes32),
      (p.expand empty).isSome ↔ p.siblings.length = countOnes p.bitmap := by
  refine ⟨fun c fits => ?_, fun b c decoded => ?_, fun p empty => CompressedProof.expand_compress, ?_⟩
  · exact decode_eq_ok_iff.mpr ⟨fits, rfl⟩
  · exact (decode_eq_ok_iff.mp decoded).2.symm
  · intro p empty
    rw [CompressedProof.expand, Option.isSome_map]
    exact CompressedProof.isSome_expandAt

/-- A record and an absence, each proved by one sibling, and a vote on each link. -/
theorem small_certificate_read_back : let header : BlockHeaderV4 := ⟨0, 0, 0, 0, 64, 0, 0, 0, 0, 0, 0, 0, by decide⟩
    let proof : CompressedProof := .compress ⟨7 :: List.replicate 255 0⟩ (fun _ => 0)
    let vote : Vote := ⟨0, 64, 5, [9]⟩
    let c : Certificate := ⟨header, ⟨header, [([1], proof)], [(1, proof)]⟩,
      (⟨0, 1, 1, 2, [vote]⟩, ⟨1, 2, 2, 3, [vote]⟩), [header]⟩
    proof.siblings = [7] ∧ Certificate.decode c.encode = .ok c := by
  intro header proof vote c
  exact ⟨by decide +kernel, certificate_codec_canonical.1 c (by decide +kernel)⟩

end BlochPos.FinalityCert
