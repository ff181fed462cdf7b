import VectorX.Circuits.EpochEndLog
import VectorX.Circuits.JustificationSoundness
import VectorX.Circuits.RotateSoundness
import VectorX.Contracts.VectorX
import VectorX.Input.HeaderRotate
import VectorX.Input.Justification

/-!
# What honest authorities finalize

Authorities sign precommits. Let more than two thirds of a trusted set sign blocks of one chain
only, and let these blocks announce trusted sets only. Then so do the circuits, on the witnesses
that they do not check and that the hints write: votes are in the slots of committed keys, and a log
ends with the hashed bytes and has a slot for each of its authorities.
-/

namespace VectorX

open Plonky2x Plonky2x.CircuitBuilder
open Contract (nextAuthoritySetId)
open HashChain (CollisionFree)

/-! ## Honest authorities -/

section Honest

/-- More than two thirds of the keys of `A` have a valid signature over one precommit for the block,
by the authority set with the given id. -/
def FinalizedBy (crypto : Crypto) (A : List Bytes32Variable) (id : U64Variable)
    (blockNumber : U32Variable) (blockHash : Bytes32Variable) : Prop :=
  ∃ (msg : List UInt8) (signatures : List EDDSASignature), IsPrecommit msg blockHash blockNumber id ∧
    2 * A.length < 3 * validVotes crypto A msg signatures

/-- More than two thirds of a trusted set sign blocks of the chain only, and every log in the
encoding of a block that they have signed announces a trusted set. -/
structure HonestAuthorities {crypto : Crypto} (chain : Chain crypto)
    (Trusted : U64Variable → List Bytes32Variable → Prop) : Prop where
  signed : ∀ id A n hash, Trusted id A → FinalizedBy crypto A id n hash →
    n ≤ chain.head ∧ hash = (chain.header n.toNat).hash crypto
  announced : ∀ id next A n p keys, Trusted id A →
    FinalizedBy crypto A id n ((chain.header n.toNat).hash crypto) →
    nextAuthoritySetId id = some next → keys ≠ [] →
    IsEpochEndLog (chain.header n.toNat).encode p keys → Trusted next keys

/-- The hash is the commitment to a trusted set. -/
def TrustedHash (crypto : Crypto) (Trusted : U64Variable → List Bytes32Variable → Prop)
    (id : U64Variable) (hash : Bytes32Variable) : Prop :=
  ∃ A, Trusted id A ∧ authoritySetCommitment crypto A = some hash

end Honest

/-! ## Justifications -/

section Justification

variable {crypto : Crypto} {Trusted : U64Variable → List Bytes32Variable → Prop}
  {MAX_NUM_AUTHORITIES : ℕ} {j : JustificationVariable MAX_NUM_AUTHORITIES} {id : U64Variable}
  {n : U32Variable} {blockHash hash : Bytes32Variable}

/-- The votes are those of the committed keys, which do not collide with the trusted set. -/
structure HonestVotes (crypto : Crypto) (Trusted : U64Variable → List Bytes32Variable → Prop)
    (id : U64Variable) (j : JustificationVariable MAX_NUM_AUTHORITIES) : Prop where
  votesCommitted : VotesCommitted j
  collisionFree : ∀ A, Trusted id A → CollisionFree crypto.sha256 (justificationMessages crypto A j)

/-- An accepted justification of a trusted set shows that it has finalized the block. -/
theorem exists_finalizedBy (htrusted : TrustedHash crypto Trusted id hash)
    (hvotes : HonestVotes crypto Trusted id j) (hslots : 3 * MAX_NUM_AUTHORITIES < 2 ^ 32)
    (h : verifySimpleJustification crypto n blockHash id hash j = some ()) :
    ∃ A, Trusted id A ∧ FinalizedBy crypto A id n blockHash := by
  obtain ⟨A, hA, hcommit⟩ := htrusted
  obtain ⟨hprecommit, hmost⟩ := (verifySimpleJustification_eq_some.mp h).signedByTwoThirds hcommit
    (hvotes.collisionFree A hA) hvotes.votesCommitted hslots
  exact ⟨A, hA, _, _, hprecommit, hmost⟩

/-- What the hint writes has its votes in the slots of committed keys. -/
theorem votesCommitted_of_hint {fetcher : RpcDataFetcher crypto}
    {DUMMY_PUBLIC_KEY : Bytes32Variable} {DUMMY_SIGNATURE : BytesVariable 64}
    (hslots : MAX_NUM_AUTHORITIES < 2 ^ 32)
    (h : hintSimpleJustification fetcher DUMMY_PUBLIC_KEY DUMMY_SIGNATURE MAX_NUM_AUTHORITIES n id =
      some j) : VotesCommitted j := by
  rw [hintSimpleJustification, Option.bind_eq_bind, Option.bind_eq_some_iff] at h
  obtain ⟨e | justification, hjust, h⟩ := h
  · exact absurd h (by simp)
  obtain ⟨flags, hlen, hflags⟩ := of_getJustificationFromBlock hjust
  simp only [Option.bind_eq_bind] at h
  split at h
  · exact absurd h (by simp)
  simp only [Option.bind_eq_some_iff, newArray_eq_some_iff] at h
  obtain ⟨_, _, _, _, signed, hsigned, _, _, _, _, h⟩ := h
  obtain rfl := Option.some.inj h
  rw [hflags] at hsigned
  have htotal := signed.length_data
  rw [hsigned, List.length_append, hlen, List.length_replicate] at htotal
  have hnum : (UInt32.ofNat justification.numAuthorities).toNat = justification.numAuthorities := by
    rw [UInt32.toNat_ofNat', Nat.mod_eq_of_lt (by omega)]
  refine ⟨by rw [hnum]; omega, fun i hi => ?_⟩
  have hget := signed.getElem?_data i
  rw [hi, hsigned] at hget
  rw [hnum]
  by_contra hge
  rw [List.getElem?_append_right (by omega)] at hget
  exact absurd (List.eq_of_mem_replicate (List.mem_of_getElem? hget)) (by simp)

end Justification

/-! ## Rotations -/

section Rotation

variable {S MAX_AUTHORITY_SET_SIZE MAX_SUBARRAY_SIZE : ℕ}

/-- The bytes of a header that are hashed. -/
def EncodedHeaderVariable.hashed (header : EncodedHeaderVariable S) : List UInt8 :=
  header.headerBytes.data.take header.headerSize.toNat

/-- The log that a rotation reads has a slot for each authority, is read in windows inside the
header bytes, and ends inside the hashed ones. -/
structure ReadsHashedLog (crypto : Crypto) (r : RotateVariable S MAX_AUTHORITY_SET_SIZE) : Prop where
  numAuthorities_le : r.targetHeaderNumAuthorities.val ≤ MAX_AUTHORITY_SET_SIZE
  windows : WindowsInside MAX_AUTHORITY_SET_SIZE r.targetHeader.headerBytes.data
    r.nextAuthoritySetStartPosition.val r.targetHeaderNumAuthorities.val
  end_le : ∀ total, totalPrefixLength crypto r = some total →
    r.nextAuthoritySetStartPosition.val + total.val +
      (r.targetHeaderNumAuthorities.val * VALIDATOR_LENGTH + DELAY_LENGTH) ≤
      r.targetHeader.headerSize.toNat

variable {crypto : Crypto} {r : RotateVariable S MAX_AUTHORITY_SET_SIZE}
  {justification : JustificationVariable MAX_AUTHORITY_SET_SIZE} {id next : U64Variable}
  {hash output : Bytes32Variable}

theorem EncodedHeaderVariable.hash_eq {header : EncodedHeaderVariable S}
    (h : hashEncodedHeader crypto header = some hash) : hash = crypto.blake2b header.hashed :=
  (curtaBlake2bVariable_eq_some.mp h).2.symm

/-- An accepted rotation commits to the authorities that a log in the hashed bytes announces. -/
theorem exists_announced_of_rotate (hfield : S < GOLDILOCKS) (hreads : ReadsHashedLog crypto r)
    (h : VectorX.rotate crypto MAX_SUBARRAY_SIZE id hash r justification = some output) :
    verifySimpleJustification crypto r.epochEndBlockNumber (crypto.blake2b r.targetHeader.hashed) id
        hash justification = some () ∧
      ∃ keys, IsEpochEndLog r.targetHeader.hashed r.nextAuthoritySetStartPosition.val keys ∧
        authoritySetCommitment crypto keys = some output := by
  obtain ⟨rfl, headerHash, hhash, hjust, hverify, hcommit⟩ := rotate_eq_some.mp h
  obtain rfl := EncodedHeaderVariable.hash_eq hhash
  refine ⟨hjust, _, ?_, hcommit⟩
  have hlen := r.targetHeader.headerBytes.length_data
  have hprefix := hreads.windows.prefixWindow
  rw [hlen] at hprefix
  obtain ⟨length, size, hlog, hkeys⟩ := exists_log_of_verifyEpochEndHeader hfield hprefix
    (fun length size hlength hsize hhead => by
      have hwindow := hreads.windows.validatorsWindow length size hlength hsize
        (prefix_drop_iff.mpr (slice_logHead_iff.mpr hhead))
      rwa [hlen] at hwindow) hverify
  have hend := hreads.end_le _ (hlog.totalPrefixLength_eq hhash)
  rw [hlog.val_totalPrefixLength] at hend
  exact hlog.isEpochEndLog_take hreads.numAuthorities_le hkeys hend

/-- What the hint writes for an epoch end header that fits ends with the hashed bytes. -/
theorem readsHashedLog_of_hint {chain : EpochChain crypto} {DUMMY_PUBLIC_KEY : Bytes32Variable}
    {b : UInt32} {keys : List Bytes32Variable} {before after : List DigestItem}
    {data : HeaderRotateData} (h : AnnouncesAuthorities chain b keys before after) (hlength : S < 2 ^ 32)
    (hfit : (chain.header b.toNat).encode.length ≤ S) (hcount : before.length + 1 + after.length < 64)
    (hpos : 1 ≤ keys.length) (hroom : WindowFits S MAX_AUTHORITY_SET_SIZE b keys before)
    (hdata : getHeaderRotate chain DUMMY_PUBLIC_KEY S MAX_AUTHORITY_SET_SIZE b = some data)
    (hr : data.toRotateVariable S MAX_AUTHORITY_SET_SIZE b = some r) : ReadsHashedLog crypto r := by
  have hgold := two_pow_32_lt_goldilocks
  have hw := h.writesLog hfit hcount (by omega) hdata hr
  have hwindows := hw.windowsInside h hpos hroom
  have hnum := hw.numAuthorities
  refine ⟨hnum ▸ hw.length_le, hnum ▸ hwindows, fun total htotal => ?_⟩
  obtain ⟨hencoding, hsize⟩ := h.isEncoding
  obtain ⟨first, hprefix⟩ := hw.log_headerBytes
  have hlog := AuthoritySetLog.of_epochEndLog hencoding hsize hpos hw.length_le hwindows hprefix
  rw [← hnum] at hlog
  have hheader : r.targetHeader.headerSize.toNat = (chain.header b.toNat).encode.length := by
    rw [hw.headerSize, UInt32.toNat_ofNat', Nat.mod_eq_of_lt (by omega)]
  have hhash : hashEncodedHeader crypto r.targetHeader = some (crypto.blake2b r.targetHeader.hashed) :=
    curtaBlake2bVariable_eq_some.mpr
      ⟨by rw [hheader, r.targetHeader.headerBytes.length_data]; exact hfit, rfl⟩
  obtain rfl := Option.some.inj ((hlog.totalPrefixLength_eq hhash).symm.trans htotal)
  -- the whole log is in the encoding of the header
  obtain ⟨first', hencoded⟩ := hw.log
  have hend := hencoded.length_le
  have hwidth : VALIDATOR_LENGTH = 40 := rfl
  have hdelay : DELAY_LENGTH = 4 := rfl
  rw [length_epochEndLog, List.length_drop, ← hnum] at hend
  rw [hlog.val_totalPrefixLength, hheader, hwidth, hdelay]
  omega

/-- An accepted rotation of a trusted set returns the commitment to a trusted set. -/
theorem trustedHash_of_rotate {chain : Chain crypto}
    {Trusted : U64Variable → List Bytes32Variable → Prop}
    (hhonest : HonestAuthorities chain Trusted) (htrusted : TrustedHash crypto Trusted id hash)
    (hnext : nextAuthoritySetId id = some next) (hfield : S < GOLDILOCKS)
    (hslots : 3 * MAX_AUTHORITY_SET_SIZE < 2 ^ 32)
    (hvotes : HonestVotes crypto Trusted id justification) (hreads : ReadsHashedLog crypto r)
    (hfree : CollisionFree crypto.blake2b
      [r.targetHeader.hashed, (chain.header r.epochEndBlockNumber.toNat).encode])
    (h : VectorX.rotate crypto MAX_SUBARRAY_SIZE id hash r justification = some output) :
    TrustedHash crypto Trusted next output := by
  obtain ⟨hjust, keys, hlog, hcommit⟩ := exists_announced_of_rotate hfield hreads h
  obtain ⟨A, hA, hfinal⟩ := exists_finalizedBy htrusted hvotes hslots hjust
  obtain ⟨-, hhash⟩ := hhonest.signed id A _ _ hA hfinal
  have hbytes : r.targetHeader.hashed = (chain.header r.epochEndBlockNumber.toNat).encode :=
    hfree _ (by simp) _ (by simp) hhash
  rw [hhash] at hfinal
  rw [hbytes] at hlog
  exact ⟨keys, hhonest.announced id next A _ _ keys hA hfinal hnext
    ((exists_authoritySetCommitment crypto).mp ⟨output, hcommit⟩) hlog, hcommit⟩

end Rotation

end VectorX
