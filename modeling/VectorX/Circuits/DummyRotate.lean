import VectorX.Contracts.VectorX
import VectorX.Input.HeaderRotate

/-!
# The dummy rotate function

Reference: `circuits/dummy_rotate.rs`. The dummy computes on the host what the rotate circuit
proves. The search for the end of an epoch returns 0 if there is none: the hint of the circuit
panics there, the dummy hashes the authorities of block 0.

The binaries are deployed as release builds, in which the arithmetic of the search wraps. The
results are for builds with overflow checks and for builds without them.
-/

namespace VectorX

open Plonky2x Solidity
open Bytes (slice beNat beBytes)
open Contract (rotateInput)

variable {crypto : Crypto} (profile : Profile) (chain : EpochChain crypto)

/-- `DummyRotate::run`, with at most `fuel` rounds of the search. -/
def DummyRotate.run (fuel : ℕ) (inputBytes : List UInt8) : Option (List UInt8) := do
  -- slices past the end panic
  if inputBytes.length < 40 then none
  let authoritySetId := UInt64.ofNat (beNat (slice inputBytes 0 8))
  let epochEndBlockNumber ←
    lastJustifiedBlockWithin chain.toSetIds profile fuel authoritySetId
  let newAuthoritySetHash ← RpcDataFetcher.computeAuthoritySetHash chain epochEndBlockNumber
  some newAuthoritySetHash.data

/-- The output is the hash of the set after `s`, taken at the end of the epoch of `s`, and so is
every output of the rotate circuit for the hint of the host, which uses the same search. -/
structure AgreesWithRotate (s : UInt64) (hash : Bytes32) (output : List UInt8) : Prop where
  epochEnd : ∃ (b : UInt32) (c : Bytes32), chain.toSetIds.IsEpochEnd s.toNat b.toNat ∧
    RpcDataFetcher.computeAuthoritySetHash chain b = some c ∧ output = c.data
  circuit : ∀ (DUMMY_PUBLIC_KEY : Bytes32Variable)
    (HEADER_LENGTH MAX_AUTHORITY_SET_SIZE MAX_SUBARRAY_SIZE fuel : ℕ) (b : UInt32)
    (r : RotateVariable HEADER_LENGTH MAX_AUTHORITY_SET_SIZE)
    (justification : JustificationVariable MAX_AUTHORITY_SET_SIZE) (c : Bytes32),
    MAX_AUTHORITY_SET_SIZE < GOLDILOCKS →
    lastJustifiedBlockWithin chain.toSetIds profile fuel s = some b →
    rotateHintAt chain DUMMY_PUBLIC_KEY HEADER_LENGTH MAX_AUTHORITY_SET_SIZE b = some r →
    rotate crypto MAX_SUBARRAY_SIZE s hash r justification = some c → output = c.data

variable {profile chain} {s : UInt64} {hash : Bytes32} {fuel : ℕ}

/-- The input of the contract is decoded to the set id. -/
theorem DummyRotate.run_rotateInput :
    DummyRotate.run profile chain fuel (rotateInput s hash) =
      (lastJustifiedBlockWithin chain.toSetIds profile fuel s).bind fun b =>
        (RpcDataFetcher.computeAuthoritySetHash chain b).bind fun c => some c.data := by
  have hid : s.toNat < 256 ^ 8 := s.toNat_lt
  have hlen : ¬ (rotateInput s hash).length < 40 := by
    rw [rotateInput, List.length_append, Bytes.length_beBytes, hash.length_data]
    omega
  have hslice : slice (rotateInput s hash) 0 8 = beBytes 8 s.toNat :=
    Bytes.slice_append_middle List.length_nil (Bytes.length_beBytes 8 s.toNat) hash.data
  rw [DummyRotate.run, if_neg hlen, hslice, Bytes.beNat_beBytes, Nat.mod_eq_of_lt hid,
    UInt64.ofNat_toNat]
  rfl

theorem DummyRotate.run_eq_some_iff {output : List UInt8} :
    DummyRotate.run profile chain fuel (rotateInput s hash) = some output ↔
      ∃ b c, lastJustifiedBlockWithin chain.toSetIds profile fuel s = some b ∧
        RpcDataFetcher.computeAuthoritySetHash chain b = some c ∧ c.data = output := by
  rw [DummyRotate.run_rotateInput]
  simp only [Option.bind_eq_some_iff, Option.some.injEq]
  constructor
  · rintro ⟨b, hb, c, hc, rfl⟩
    exact ⟨b, c, hb, hc, rfl⟩
  · rintro ⟨b, c, hb, hc, rfl⟩
    exact ⟨b, hb, c, hc, rfl⟩

section Hint

variable {b : UInt32} {DUMMY_PUBLIC_KEY : Bytes32Variable}
  {HEADER_LENGTH MAX_AUTHORITY_SET_SIZE MAX_SUBARRAY_SIZE : ℕ}
  {r : RotateVariable HEADER_LENGTH MAX_AUTHORITY_SET_SIZE}

/-- What the hint writes are the authorities of the block. -/
theorem rotateHintAt_eq_some
    (h : rotateHintAt chain DUMMY_PUBLIC_KEY HEADER_LENGTH MAX_AUTHORITY_SET_SIZE b = some r) :
    ∃ authorities, getAuthorities chain b = some authorities ∧
      r.targetHeaderNumAuthorities = Variable.ofNat authorities.length ∧
      r.newPubkeys.data = authorities ++
        List.replicate (MAX_AUTHORITY_SET_SIZE - authorities.length) DUMMY_PUBLIC_KEY := by
  simp only [rotateHintAt, Option.bind_eq_bind, Option.bind_eq_some_iff] at h
  obtain ⟨data, hdata, h⟩ := h
  split at h
  · exact absurd h (by simp)
  obtain ⟨-, -, -, hnum, -, hkeys⟩ := HeaderRotateData.toRotateVariable_eq_some.mp h
  simp only [getHeaderRotate, Option.bind_eq_bind, Option.bind_eq_some_iff] at hdata
  obtain ⟨_, -, _, -, _, -, _, -, _, -, _, -, hdata⟩ := hdata
  split at hdata
  · exact absurd hdata (by simp)
  simp only [Option.bind_eq_some_iff] at hdata
  obtain ⟨authorities, hauthorities, position, -, hdata⟩ := hdata
  obtain rfl := Option.some.inj hdata
  exact ⟨authorities, hauthorities, hnum, hkeys⟩

/-- The circuit returns the hash of the authorities of the block. -/
theorem rotate_of_rotateHintAt {justification : JustificationVariable MAX_AUTHORITY_SET_SIZE}
    {c : Bytes32} (hfield : MAX_AUTHORITY_SET_SIZE < GOLDILOCKS)
    (hhint : rotateHintAt chain DUMMY_PUBLIC_KEY HEADER_LENGTH MAX_AUTHORITY_SET_SIZE b = some r)
    (hrotate : rotate crypto MAX_SUBARRAY_SIZE s hash r justification = some c) :
    RpcDataFetcher.computeAuthoritySetHash chain b = some c := by
  obtain ⟨authorities, hauthorities, hnum, hkeys⟩ := rotateHintAt_eq_some hhint
  obtain ⟨-, headerHash, -, -, -, hcommit⟩ := rotate_eq_some.mp hrotate
  have hmax : authorities.length ≤ MAX_AUTHORITY_SET_SIZE := by
    have hlen := congrArg List.length hkeys
    rw [r.newPubkeys.length_data, List.length_append, List.length_replicate] at hlen
    omega
  rw [RpcDataFetcher.computeAuthoritySetHash, hauthorities, Option.bind_eq_bind, Option.bind_some,
    hashAuthorities_eq, ← hcommit, hnum, hkeys, Variable.val_ofNat_of_lt (by omega), List.take_left]

end Hint

/-- What the dummy returns for a set that is followed by another one. -/
theorem agreesWithRotate_of_run {output : List UInt8}
    (hnext : s.toNat < chain.toSetIds.id chain.toSetIds.head.toNat)
    (h : DummyRotate.run profile chain fuel (rotateInput s hash) = some output) :
    AgreesWithRotate profile chain s hash output := by
  obtain ⟨b, c, hb, hc, rfl⟩ := DummyRotate.run_eq_some_iff.mp h
  have hend := isEpochEnd_of_lastJustifiedBlockWithin hnext hb
  constructor
  · exact ⟨b, c, hend, hc, rfl⟩
  · intro DUMMY_PUBLIC_KEY HEADER_LENGTH MAX_AUTHORITY_SET_SIZE MAX_SUBARRAY_SIZE fuel' b' r justification
      c' hfield hb' hhint hrotate
    have hend' := isEpochEnd_of_lastJustifiedBlockWithin hnext hb'
    obtain rfl : b = b' := UInt32.toNat_inj.mp (hend.unique hend')
    have hc' := rotate_of_rotateHintAt hfield hhint hrotate
    rw [Option.some.inj (hc.symm.trans hc')]

/-- There is no output that agrees for a set that is not followed by another one. -/
theorem AgreesWithRotate.lt {output : List UInt8} (h : AgreesWithRotate profile chain s hash output) :
    s.toNat < chain.toSetIds.id chain.toSetIds.head.toNat := by
  obtain ⟨b, -, hend, -, -⟩ := h.epochEnd
  exact (chain.toSetIds.exists_isEpochEnd_iff s.toNat).mp ⟨_, hend⟩

variable (hash) in
/-- The dummy hashes the authorities of block 0 for the current set and those to come, unless the
search does not end or these authorities have no hash. -/
theorem DummyRotate.exists_run_iff_of_le
    (hall : chain.toSetIds.id chain.toSetIds.head.toNat ≤ s.toNat) :
    (∃ fuel output, DummyRotate.run profile chain fuel (rotateInput s hash) = some output) ↔
      profile.SearchEnds s chain.toSetIds.head ∧ chain.grandpaAuthorities 0 ≠ [] ∧
        ∀ a ∈ chain.grandpaAuthorities 0, a.2 = 1 := by
  have hzero : (0 : UInt32).toNat = 0 := rfl
  have hhash := exists_computeAuthoritySetHash_iff chain 0
  rw [hzero] at hhash
  constructor
  · rintro ⟨fuel, output, h⟩
    obtain ⟨b, c, hb, hc, rfl⟩ := DummyRotate.run_eq_some_iff.mp h
    obtain ⟨rfl, hends⟩ := (exists_lastJustifiedBlockWithin_iff hall).mp ⟨fuel, hb⟩
    exact ⟨hends, (hhash.mp ⟨c, hc⟩).2⟩
  · rintro ⟨hends, hne, hweight⟩
    obtain ⟨c, hc⟩ := hhash.mpr ⟨UInt32.le_iff_toNat_le.mpr (Nat.zero_le _), hne, hweight⟩
    obtain ⟨fuel, hb⟩ := (exists_lastJustifiedBlockWithin_iff hall).mpr ⟨rfl, hends⟩
    exact ⟨fuel, c.data, DummyRotate.run_eq_some_iff.mpr ⟨0, c, hb, hc, rfl⟩⟩

/-- **Dummy rotate.** What the dummy returns agrees with the circuit if and only if the set is
followed by another one, or the dummy fails: the search does not end, or block 0 has no authorities
with a hash. -/
theorem dummyRotate_agrees_iff {crypto : Crypto} (profile : Profile) (chain : EpochChain crypto)
    (s : UInt64) (hash : Bytes32) :
    (∀ fuel output, DummyRotate.run profile chain fuel (rotateInput s hash) = some output →
        AgreesWithRotate profile chain s hash output) ↔
      s.toNat < chain.toSetIds.id chain.toSetIds.head.toNat ∨
        ¬ (profile.SearchEnds s chain.toSetIds.head ∧
          chain.grandpaAuthorities 0 ≠ [] ∧ ∀ a ∈ chain.grandpaAuthorities 0, a.2 = 1) := by
  rcases Nat.lt_or_ge s.toNat (chain.toSetIds.id chain.toSetIds.head.toNat) with hnext | hall
  · exact ⟨fun _ => Or.inl hnext, fun _ fuel output h => agreesWithRotate_of_run hnext h⟩
  · rw [← DummyRotate.exists_run_iff_of_le hash hall]
    constructor
    · intro hagrees
      refine Or.inr fun ⟨fuel, output, h⟩ => ?_
      exact absurd (hagrees fuel output h).lt (Nat.not_lt.mpr hall)
    · rintro (hnext | hfails) fuel output h
      · exact absurd hnext (Nat.not_lt.mpr hall)
      · exact absurd ⟨fuel, output, h⟩ hfails

/-- The set at the head of two epochs: the release build returns the hash of the authorities of
block 0. -/
theorem not_agreesWithRotate :
    ¬ ∀ (crypto : Crypto) (chain : EpochChain crypto) (s : UInt64) (hash : Bytes32) (fuel : ℕ)
        (output : List UInt8),
        DummyRotate.run .release chain fuel (rotateInput s hash) = some output →
        AgreesWithRotate .release chain s hash output := by
  intro hclaim
  have hrun : DummyRotate.run .release (Reference.twoEpochChain [] []) 5
      (rotateInput 1 (Reference.crypto [] |>.sha256 Reference.pubkey₂.data)) =
        some (Reference.authoritySetHash).data := by
    decide +kernel
  have hlt := (hclaim _ _ _ _ _ _ hrun).lt
  exact absurd hlt (by decide)

end VectorX
