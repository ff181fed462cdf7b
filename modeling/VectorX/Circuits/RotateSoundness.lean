import VectorX.Circuits.RotateGrammar
import VectorX.Reference.Rotate

/-!
# Soundness of the rotation

The rotation ties the position of the log neither to the length of the hashed header nor to the
number of slots for authorities: a log is also accepted in the bytes that follow the header, and a
set with more authorities than slots is cut off.
-/

namespace VectorX

open Plonky2x Plonky2x.CircuitBuilder
open Bytes (slice leNat)
open Pattern (Agrees)

/-! ## Accepted witnesses -/

section Accepted

variable {crypto : Crypto} {S MAX_AUTHORITY_SET_SIZE MAX_SUBARRAY_SIZE : ℕ}

/-- The length of the prefix of the log, as `verify_epoch_end_header` computes it. -/
def totalPrefixLength (crypto : Crypto) (r : RotateVariable S MAX_AUTHORITY_SET_SIZE) :
    Option Variable := do
  let headerHash ← hashEncodedHeader crypto r.targetHeader
  let prefixSubarray ← crypto.getFixedSubarray MAX_PREFIX_LENGTH r.targetHeader.headerBytes
    r.nextAuthoritySetStartPosition headerHash.data
  let prefixIdxAfterFlag ← verifyScheduledChangeMessageLengthAndFlag crypto prefixSubarray
  verifyEncodedNumAuthorities crypto prefixSubarray prefixIdxAfterFlag headerHash
    r.targetHeaderNumAuthorities

/-- The keys of `n` encoded validators from position `cursor` on. -/
def encodedPubkeys (l : List UInt8) (cursor n : ℕ) : List (List UInt8) :=
  (List.range n).map fun i => slice l (cursor + i * VALIDATOR_LENGTH) PUBKEY_LENGTH

variable {r : RotateVariable S MAX_AUTHORITY_SET_SIZE} {length size : List UInt8}

theorem AuthoritySetLog.val_totalPrefixLength {l : List UInt8} {p n : ℕ}
    (hlog : AuthoritySetLog MAX_AUTHORITY_SET_SIZE l p n length size) :
    (Variable.ofNat (7 + length.length + size.length)).val = 7 + length.length + size.length := by
  have hle := length_prefix_le hlog.isEncoding_length hlog.isEncoding_size
  exact Variable.val_ofNat_of_lt (Nat.lt_of_le_of_lt hle (by decide))

/-- The length of the prefix of a log. -/
theorem AuthoritySetLog.totalPrefixLength_eq {headerHash : Bytes32Variable}
    (hlog : AuthoritySetLog MAX_AUTHORITY_SET_SIZE r.targetHeader.headerBytes.data
      r.nextAuthoritySetStartPosition.val r.targetHeaderNumAuthorities.val length size)
    (hhash : hashEncodedHeader crypto r.targetHeader = some headerHash) :
    totalPrefixLength crypto r = some (Variable.ofNat (7 + length.length + size.length)) := by
  have hlen := r.targetHeader.headerBytes.length_data
  have hroom := hlog.prefixRoom
  rw [hlen] at hroom
  obtain ⟨sub, -, hsub⟩ := r.targetHeader.headerBytes.exists_subarray hroom
  obtain ⟨-, cursor, hcursor, htotal⟩ := (verifyPrefix_eq_some crypto headerHash _ hsub
    hlog.prefixRoom).mpr
    ⟨length, size, hlog.isEncoding_length, hlog.isEncoding_size,
      ((agrees_logPattern hlog.room).mp hlog.agrees).1, hlog.val_totalPrefixLength⟩
  have hget : crypto.getFixedSubarray _ _ _ headerHash.data = some sub :=
    (getFixedSubarray_eq_some headerHash.data hroom).mpr hsub
  rw [totalPrefixLength, hhash, Option.bind_eq_bind, Option.bind_some, hget, Option.bind_eq_bind,
    Option.bind_some, hcursor, Option.bind_eq_bind, Option.bind_some]
  exact htotal

/-- **Output.** The rotation commits to the keys of the first `MAX_AUTHORITY_SET_SIZE` validators of
the log. -/
theorem exists_authoritySetLog {id : U64Variable} {hash : Bytes32Variable}
    {justification : JustificationVariable MAX_AUTHORITY_SET_SIZE} {output : Bytes32Variable}
    (hpast : crypto.RejectsPastEnd) (hfield : S < GOLDILOCKS)
    (h : rotate crypto MAX_SUBARRAY_SIZE id hash r justification = some output) :
    ∃ length size, AuthoritySetLog MAX_AUTHORITY_SET_SIZE r.targetHeader.headerBytes.data
        r.nextAuthoritySetStartPosition.val r.targetHeaderNumAuthorities.val length size ∧
      totalPrefixLength crypto r = some (Variable.ofNat (7 + length.length + size.length)) ∧
      ∃ keys : List Bytes32Variable, keys.map ArrayVariable.data =
          encodedPubkeys r.targetHeader.headerBytes.data
            (r.nextAuthoritySetStartPosition.val + (7 + length.length + size.length))
            (min r.targetHeaderNumAuthorities.val MAX_AUTHORITY_SET_SIZE) ∧
        authoritySetCommitment crypto keys = some output := by
  obtain ⟨rfl, headerHash, hhash, -, hverify, hcommit⟩ := rotate_eq_some.mp h
  obtain ⟨length, size, hlog, hkeys⟩ := exists_log_of_rejectsPastEnd hpast hfield hverify
  refine ⟨length, size, hlog, hlog.totalPrefixLength_eq hhash, _, ?_, hcommit⟩
  have hlen := r.newPubkeys.length_data
  apply List.ext_getElem
  · rw [List.length_map, List.length_take, hlen, encodedPubkeys, List.length_map, List.length_range]
  · intro i hi _
    rw [List.length_map, List.length_take, hlen] at hi
    have hget := List.getElem?_eq_getElem (l := r.newPubkeys.data) (i := i) (by omega)
    simp only [encodedPubkeys, List.getElem_map, List.getElem_take, List.getElem_range]
    exact hkeys i _ (by omega) hget

end Accepted

/-! ## Truncated authority sets -/

/-- The rotation commits to exactly the announced authorities: the delay after the last of them is
zero, and the commitment is to all of their keys, in order. -/
structure CommitsToAllAuthorities (crypto : Crypto) {S MAX_AUTHORITY_SET_SIZE : ℕ}
    (r : RotateVariable S MAX_AUTHORITY_SET_SIZE) (total : Variable) (output : Bytes32Variable) :
    Prop where
  le_max : r.targetHeaderNumAuthorities.val ≤ MAX_AUTHORITY_SET_SIZE
  delay : slice r.targetHeader.headerBytes.data (r.nextAuthoritySetStartPosition.val + total.val +
    r.targetHeaderNumAuthorities.val * VALIDATOR_LENGTH) DELAY_LENGTH = [0, 0, 0, 0]
  commitment : ∃ keys : List Bytes32Variable,
    keys.map ArrayVariable.data = encodedPubkeys r.targetHeader.headerBytes.data
      (r.nextAuthoritySetStartPosition.val + total.val) r.targetHeaderNumAuthorities.val ∧
    authoritySetCommitment crypto keys = some output

/-- **No truncation.** An accepted rotation commits to exactly the announced authorities if and only
if there are at most `MAX_AUTHORITY_SET_SIZE` of them. That there are is part of the commitment; the
other direction says that the circuit needs no more than this bound, which it does not check. -/
theorem rotate_commitsToAllAuthorities_iff (crypto : Crypto)
    {S MAX_AUTHORITY_SET_SIZE MAX_SUBARRAY_SIZE : ℕ} (id : U64Variable) (hash : Bytes32Variable)
    (r : RotateVariable S MAX_AUTHORITY_SET_SIZE)
    (justification : JustificationVariable MAX_AUTHORITY_SET_SIZE) (output : Bytes32Variable)
    (hpast : crypto.RejectsPastEnd) (hfield : S < GOLDILOCKS)
    (h : rotate crypto MAX_SUBARRAY_SIZE id hash r justification = some output) :
    (∃ total, totalPrefixLength crypto r = some total ∧
        CommitsToAllAuthorities crypto r total output) ↔
      r.targetHeaderNumAuthorities.val ≤ MAX_AUTHORITY_SET_SIZE := by
  constructor
  · rintro ⟨total, -, hall⟩
    exact hall.le_max
  · intro hmax
    obtain ⟨length, size, hlog, htotal, keys, hkeys, hcommit⟩ :=
      exists_authoritySetLog hpast hfield h
    obtain ⟨-, hauthorities⟩ := (agrees_logPattern hlog.room).mp hlog.agrees
    have hval : (Variable.ofNat (7 + length.length + size.length)).val =
        7 + length.length + size.length := hlog.val_totalPrefixLength
    rw [Nat.min_eq_left hmax] at hkeys
    refine ⟨_, htotal, hmax, ?_, keys, ?_, hcommit⟩
    · rw [hval]
      exact ((agrees_authoritiesPattern hlog.room).mp hauthorities).2 hmax
    · rw [hval]
      exact hkeys

/-- Block 1 announces the second authority. -/
def singleRotate : RotateVariable 256 1 :=
  Reference.rotateVariable (Reference.epochEndHeader [Reference.pubkey₂]) []
    Reference.length_epochEndHeader 1 97 Reference.pubkey₂

/-- A rotation with one slot to a set of one authority. -/
theorem rotate_commitsToAllAuthorities_iff_single :
    (∃ total, totalPrefixLength (Reference.crypto [Reference.epochEndSigned₁]) singleRotate =
          some total ∧
        CommitsToAllAuthorities (Reference.crypto [Reference.epochEndSigned₁]) singleRotate total
          ((Reference.crypto []).sha256 Reference.pubkey₂.data)) ↔
      singleRotate.targetHeaderNumAuthorities.val ≤ 1 :=
  rotate_commitsToAllAuthorities_iff (Reference.crypto [Reference.epochEndSigned₁]) 298
    Reference.authoritySetHash singleRotate _ _ (Reference.rejectsPastEnd_crypto _) (by decide)
    (Reference.rotate_rotateVariable Reference.epochEndSignature₁ (by decide)
      (by decide) rfl)

/-- Block 1 announces both authorities. -/
def pairRotate : RotateVariable 256 1 :=
  Reference.rotateVariable (Reference.epochEndHeader [Reference.pubkey₁, Reference.pubkey₂]) []
    (by decide +kernel) 2 97 Reference.pubkey₁

theorem totalPrefixLength_pairRotate :
    totalPrefixLength (Reference.crypto [Reference.epochEndSigned₂]) pairRotate =
      some (Variable.ofNat 10) := by decide +kernel

theorem encodedPubkeys_pairRotate :
    encodedPubkeys pairRotate.targetHeader.headerBytes.data (97 + 10) 2 =
      [Reference.pubkey₁, Reference.pubkey₂].map ArrayVariable.data := by decide +kernel

/-- The commitment to the first authority is not the one to both. -/
theorem commitment_pubkey₁_ne :
    authoritySetCommitment (Reference.crypto [Reference.epochEndSigned₂])
        [Reference.pubkey₁, Reference.pubkey₂] ≠
      some ((Reference.crypto []).sha256 Reference.pubkey₁.data) := by decide +kernel

/-- A circuit with one slot rotates to the first of two authorities. -/
theorem not_commitsToAllAuthorities :
    ¬ ∀ (crypto : Crypto) (S MAX_AUTHORITY_SET_SIZE MAX_SUBARRAY_SIZE : ℕ) (id : U64Variable)
        (hash : Bytes32Variable) (r : RotateVariable S MAX_AUTHORITY_SET_SIZE)
        (justification : JustificationVariable MAX_AUTHORITY_SET_SIZE) (output : Bytes32Variable),
        rotate crypto MAX_SUBARRAY_SIZE id hash r justification = some output →
        ∃ total, totalPrefixLength crypto r = some total ∧
          CommitsToAllAuthorities crypto r total output := by
  intro hclaim
  obtain ⟨total, htotal, hall⟩ := hclaim (Reference.crypto [Reference.epochEndSigned₂]) 256 1 44 298
    Reference.authoritySetHash pairRotate _ _
    (Reference.rotate_rotateVariable Reference.epochEndSignature₂ (by decide)
      (by decide) rfl)
  obtain ⟨keys, hkeys, hcommit⟩ := hall.commitment
  obtain rfl := Option.some.inj (totalPrefixLength_pairRotate.symm.trans htotal)
  have hboth : keys = [Reference.pubkey₁, Reference.pubkey₂] :=
    List.map_injective_iff.mpr (fun a b h => ArrayVariable.ext h)
      (hkeys.trans encodedPubkeys_pairRotate)
  rw [hboth] at hcommit
  exact commitment_pubkey₁_ne hcommit

/-! ## Logs beyond the signed bytes -/

/-- The bytes of a header that fit into the circuit. -/
structure SignedHeader (S : ℕ) where
  bytes : List UInt8
  length_le : bytes.length ≤ S
  length_lt : bytes.length < 2 ^ 32

/-- The hashed bytes of the witness are the signed header. -/
def EncodedHeaderVariable.Carries {S : ℕ} (header : EncodedHeaderVariable S)
    (signed : SignedHeader S) : Prop :=
  header.headerSize.toNat = signed.bytes.length ∧
    header.headerBytes.data.take signed.bytes.length = signed.bytes

/-- Every accepted witness for the signed header takes the log from the hashed bytes. -/
def ReadsOnlySigned (crypto : Crypto) {S : ℕ} (MAX_AUTHORITY_SET_SIZE : ℕ) (id : U64Variable)
    (hash : Bytes32Variable) (signed : SignedHeader S) : Prop :=
  ∀ (MAX_SUBARRAY_SIZE : ℕ) (r : RotateVariable S MAX_AUTHORITY_SET_SIZE)
    (justification : JustificationVariable MAX_AUTHORITY_SET_SIZE) (output : Bytes32Variable)
    (total : Variable), r.targetHeader.Carries signed →
    rotate crypto MAX_SUBARRAY_SIZE id hash r justification = some output →
    totalPrefixLength crypto r = some total →
    ∀ i, r.nextAuthoritySetStartPosition.val + 1 ≤ i →
      i < r.nextAuthoritySetStartPosition.val + total.val +
        r.targetHeaderNumAuthorities.val * VALIDATOR_LENGTH + DELAY_LENGTH →
      i < r.targetHeader.headerSize.toNat

/-- A log at position `p` of the circuit's `S` bytes can agree with the signed bytes and end beyond
them. -/
def CutLog (MAX_AUTHORITY_SET_SIZE S : ℕ) (bytes : List UInt8) (p : ℕ) : Prop :=
  ∃ n length size, (∃ v, Compact.IsEncoding length v) ∧ Compact.IsEncoding size n ∧ 0 < n ∧
    p + (7 + length.length + size.length) + (MAX_AUTHORITY_SET_SIZE * 40 + 4) ≤ S ∧
    bytes.length < p + (7 + length.length + size.length) + (n * 40 + 4) ∧
    Agrees (logPattern MAX_AUTHORITY_SET_SIZE n length size) bytes p

section Cut

variable {crypto : Crypto} {S MAX_AUTHORITY_SET_SIZE : ℕ} {id : U64Variable}
  {hash : Bytes32Variable} {signed : SignedHeader S} {p : ℕ}

theorem EncodedHeaderVariable.Carries.hashEncodedHeader_eq {header : EncodedHeaderVariable S}
    (h : header.Carries signed) :
    hashEncodedHeader crypto header = some (crypto.blake2b signed.bytes) := by
  refine curtaBlake2bVariable_eq_some.mpr ⟨?_, by rw [h.1, h.2]⟩
  rw [h.1, header.headerBytes.length_data]
  exact signed.length_le

/-- A justification needs a slot for an authority. -/
theorem max_pos_of_justified {blockNumber : U32Variable} {blockHash : Bytes32Variable}
    {justification : JustificationVariable MAX_AUTHORITY_SET_SIZE}
    (h : verifySimpleJustification crypto blockNumber blockHash id hash justification = some ()) :
    0 < MAX_AUTHORITY_SET_SIZE := by
  have hne := (exists_authoritySetCommitment crypto).mp
    ⟨_, (verifySimpleJustification_eq_some.mp h).commitment⟩
  rw [← justification.pubkeys.length_data, List.length_pos_iff]
  exact fun hnil => hne (by rw [hnil, List.take_nil])

/-- In the bytes after the header there is a log wherever there is room for the shortest one. -/
theorem cutLog_of_room {bytes : List UInt8}
    (hroom : bytes.length - 1 + 9 + (MAX_AUTHORITY_SET_SIZE * 40 + 4) ≤ S) :
    CutLog MAX_AUTHORITY_SET_SIZE S bytes (bytes.length - 1) := by
  refine ⟨1, [0], [4], ⟨0, ⟨by simp [Compact.Valid, Bytes.leNat], rfl, rfl⟩⟩,
    ⟨by simp [Compact.Valid, Bytes.leNat], rfl, rfl⟩, Nat.one_pos, ?_, ?_, ?_⟩
  · simp only [List.length_singleton]
    omega
  · simp only [List.length_singleton]
    omega
  · intro i a b hi hb
    have hlt : bytes.length - 1 + i < bytes.length := (List.getElem?_eq_some_iff.mp hb).1
    obtain rfl : i = 0 := by omega
    exact absurd hi (by simp [logPattern])

/-- The first bytes of a log that is not cut off before its message. -/
theorem slice_of_agrees_logPattern {bytes : List UInt8} {n : ℕ} {length size : List UInt8}
    (hlen : p + 6 ≤ bytes.length)
    (h : Agrees (logPattern MAX_AUTHORITY_SET_SIZE n length size) bytes p) :
    slice bytes (p + 1) 5 = [4, 70, 82, 78, 75] := by
  rw [logPattern, Pattern.agrees_append, Pattern.agrees_append, logHead, List.map_append,
    Pattern.agrees_append] at h
  exact (Pattern.agrees_map_some (by simpa using hlen)).mp h.2.1.1

/-- The signed header, continued as the pattern prescribes. -/
def completedHeader (signed : SignedHeader S) (pattern : List (Option UInt8)) (p : ℕ) :
    EncodedHeaderVariable S where
  headerBytes := ⟨Pattern.complete pattern signed.bytes p S 0,
    Pattern.length_complete pattern p 0 signed.length_le⟩
  headerSize := UInt32.ofNat signed.bytes.length

theorem carries_completedHeader (pattern : List (Option UInt8)) :
    (completedHeader signed pattern p).Carries signed := by
  refine ⟨?_, Pattern.take_complete pattern signed.bytes p S 0⟩
  rw [completedHeader, UInt32.toNat_ofNat', Nat.mod_eq_of_lt signed.length_lt]

/-- The keys of the encoded validators that the circuit has slots for. -/
def keysAt (header : EncodedHeaderVariable S) {cursor : ℕ}
    (h : cursor + (MAX_AUTHORITY_SET_SIZE * 40 + 4) ≤ S) :
    ArrayVariable Bytes32Variable MAX_AUTHORITY_SET_SIZE :=
  ArrayVariable.ofFn fun i => ⟨slice header.headerBytes.data (cursor + i.val * 40) 32,
    Bytes.length_slice (by rw [header.headerBytes.length_data]; omega)⟩

theorem data_keysAt {header : EncodedHeaderVariable S} {cursor i : ℕ} {key : Bytes32Variable}
    (h : cursor + (MAX_AUTHORITY_SET_SIZE * 40 + 4) ≤ S)
    (hget : (keysAt header h).data[i]? = some key) :
    key.data = slice header.headerBytes.data (cursor + i * 40) 32 := by
  rw [keysAt, ArrayVariable.ofFn, List.getElem?_ofFn] at hget
  split at hget
  · rw [← Option.some.inj hget]
  · exact absurd hget (by simp)

/-- The witness that continues a log of `n` authorities at position `p`. -/
def completedRotate (signed : SignedHeader S) (blockNumber : U32Variable) (p n : ℕ)
    {length size : List UInt8}
    (h : p + (7 + length.length + size.length) + (MAX_AUTHORITY_SET_SIZE * 40 + 4) ≤ S) :
    RotateVariable S MAX_AUTHORITY_SET_SIZE where
  epochEndBlockNumber := blockNumber
  targetHeader := completedHeader signed (logPattern MAX_AUTHORITY_SET_SIZE n length size) p
  targetHeaderNumAuthorities := Variable.ofNat n
  nextAuthoritySetStartPosition := Variable.ofNat p
  newPubkeys :=
    keysAt (completedHeader signed (logPattern MAX_AUTHORITY_SET_SIZE n length size) p) h

/-- A log that is cut off by the end of the header can be continued in the bytes after it. -/
theorem exists_rotate_of_cutLog {blockNumber : U32Variable}
    {justification : JustificationVariable MAX_AUTHORITY_SET_SIZE} (hfield : S < GOLDILOCKS)
    (hjust : verifySimpleJustification crypto blockNumber (crypto.blake2b signed.bytes) id hash
      justification = some ())
    (hcut : CutLog MAX_AUTHORITY_SET_SIZE S signed.bytes p) :
    ∃ (r : RotateVariable S MAX_AUTHORITY_SET_SIZE) (output : Bytes32Variable) (total : Variable),
      r.targetHeader.Carries signed ∧
      rotate crypto (MAX_AUTHORITY_SET_SIZE * VALIDATOR_LENGTH + DELAY_LENGTH) id hash r
        justification = some output ∧
      totalPrefixLength crypto r = some total ∧
      signed.bytes.length < r.nextAuthoritySetStartPosition.val + total.val +
        r.targetHeaderNumAuthorities.val * VALIDATOR_LENGTH + DELAY_LENGTH := by
  obtain ⟨n, length, size, hlength, hsize, hpos, hroom, hlong, hagrees⟩ := hcut
  have hmax := max_pos_of_justified hjust
  have hn : n < 2 ^ 32 := hsize.value ▸ Compact.value_lt _
  have hnval : (Variable.ofNat n).val = n :=
    Variable.val_ofNat_of_lt (Nat.lt_trans hn two_pow_32_lt_goldilocks)
  have hpval : (Variable.ofNat p).val = p := Variable.val_ofNat_of_lt (by omega)
  have hcarries : (completedRotate signed blockNumber p n hroom).targetHeader.Carries signed :=
    carries_completedHeader _
  have hlog : AuthoritySetLog MAX_AUTHORITY_SET_SIZE
      (completedRotate signed blockNumber p n hroom).targetHeader.headerBytes.data
      (Variable.ofNat p).val (Variable.ofNat n).val length size := by
    have hlen := (completedRotate signed blockNumber p n hroom).targetHeader.headerBytes.length_data
    have hwidth : MAX_PREFIX_LENGTH = 17 := rfl
    rw [hnval, hpval]
    exact ⟨hlength, hsize, hpos, by rw [hlen]; omega, by rw [hlen]; omega,
      Pattern.agrees_complete hagrees⟩
  have hverify : verifyEpochEndHeader crypto (MAX_AUTHORITY_SET_SIZE * VALIDATOR_LENGTH + DELAY_LENGTH)
      (completedRotate signed blockNumber p n hroom).targetHeader (crypto.blake2b signed.bytes)
      (Variable.ofNat n) (Variable.ofNat p) (completedRotate signed blockNumber p n hroom).newPubkeys =
        some () := by
    refine verifyEpochEndHeader_of_log hfield hlog fun i key _ hget => ?_
    rw [hpval]
    exact data_keysAt hroom hget
  obtain ⟨output, hcommit⟩ := (exists_authoritySetCommitment crypto
    (A := (completedRotate signed blockNumber p n hroom).newPubkeys.data.take
      (Variable.ofNat n).val)).mpr (by
    rw [ne_eq, List.take_eq_nil_iff, hnval, ← List.length_eq_zero_iff, ArrayVariable.length_data]
    omega)
  refine ⟨completedRotate signed blockNumber p n hroom, output, _, hcarries, rotate_eq_some.mpr
    ⟨rfl, _, hcarries.hashEncodedHeader_eq, hjust, hverify, hcommit⟩,
    AuthoritySetLog.totalPrefixLength_eq hlog hcarries.hashEncodedHeader_eq, ?_⟩
  rw [hlog.val_totalPrefixLength]
  change _ < (Variable.ofNat p).val + _ + (Variable.ofNat n).val * 40 + 4
  rw [hpval, hnval]
  exact hlong

theorem not_readsOnlySigned_of_cutLog {blockNumber : U32Variable}
    {justification : JustificationVariable MAX_AUTHORITY_SET_SIZE} (hfield : S < GOLDILOCKS)
    (hjust : verifySimpleJustification crypto blockNumber (crypto.blake2b signed.bytes) id hash
      justification = some ())
    (hcut : CutLog MAX_AUTHORITY_SET_SIZE S signed.bytes p) :
    ¬ ReadsOnlySigned crypto MAX_AUTHORITY_SET_SIZE id hash signed := by
  intro hreads
  obtain ⟨r, output, total, hcarries, hrotate, htotal, hlong⟩ :=
    exists_rotate_of_cutLog hfield hjust hcut
  have hdelay : DELAY_LENGTH = 4 := rfl
  -- the last byte of the delay is beyond the header
  have hlast := hreads _ r justification output total hcarries hrotate htotal
    (r.nextAuthoritySetStartPosition.val + total.val +
      r.targetHeaderNumAuthorities.val * VALIDATOR_LENGTH + 3) (by omega) (by omega)
  rw [hcarries.1] at hlast
  omega

/-- At the deployed sizes, every signed header of up to 23828 bytes can be continued by a forged
log. -/
theorem not_readsOnlySigned_of_le {signed : SignedHeader MAX_HEADER_SIZE}
    {blockNumber : U32Variable}
    {justification : JustificationVariable VectorX.MAX_AUTHORITY_SET_SIZE}
    (hjust : verifySimpleJustification crypto blockNumber (crypto.blake2b signed.bytes) id hash
      justification = some ())
    (hlen : signed.bytes.length ≤ 23828) :
    ¬ ReadsOnlySigned crypto VectorX.MAX_AUTHORITY_SET_SIZE id hash signed := by
  have hmax : MAX_HEADER_SIZE = 35840 := rfl
  refine not_readsOnlySigned_of_cutLog (by decide) hjust (cutLog_of_room ?_)
  change _ + (300 * 40 + 4) ≤ _
  omega

/-- The log of an accepted witness that leaves the hashed bytes is cut off by their end. -/
theorem cutLog_of_lt {r : RotateVariable S MAX_AUTHORITY_SET_SIZE} {length size : List UInt8}
    (hcarries : r.targetHeader.Carries signed)
    (hlog : AuthoritySetLog MAX_AUTHORITY_SET_SIZE r.targetHeader.headerBytes.data
      r.nextAuthoritySetStartPosition.val r.targetHeaderNumAuthorities.val length size)
    (hlong : signed.bytes.length < r.nextAuthoritySetStartPosition.val +
      (7 + length.length + size.length) + (r.targetHeaderNumAuthorities.val * 40 + 4)) :
    CutLog MAX_AUTHORITY_SET_SIZE S signed.bytes r.nextAuthoritySetStartPosition.val := by
  have hroom := hlog.room
  rw [r.targetHeader.headerBytes.length_data] at hroom
  refine ⟨_, length, size, hlog.isEncoding_length, hlog.isEncoding_size, hlog.pos, hroom, hlong, ?_⟩
  rw [← hcarries.2]
  exact hlog.agrees.take _

end Cut

/-- **Signed bytes.** Let a header have an accepted justification, and let the subarray gadget
reject what leaves the array. Every rotation on the header takes the log from the signed bytes if
and only if the shortest log does not fit after them and no log that starts in them is cut off by
their end. The condition is necessary for every gadget. -/
theorem readsOnlySigned_iff (crypto : Crypto) {S MAX_AUTHORITY_SET_SIZE : ℕ} (id : U64Variable)
    (hash : Bytes32Variable) (signed : SignedHeader S) (blockNumber : U32Variable)
    (justification : JustificationVariable MAX_AUTHORITY_SET_SIZE) (hpast : crypto.RejectsPastEnd)
    (hfield : S < GOLDILOCKS)
    (hjust : verifySimpleJustification crypto blockNumber (crypto.blake2b signed.bytes) id hash
      justification = some ()) :
    ReadsOnlySigned crypto MAX_AUTHORITY_SET_SIZE id hash signed ↔
      S < signed.bytes.length - 1 + 9 + (MAX_AUTHORITY_SET_SIZE * 40 + 4) ∧
        ∀ p, p + 1 < signed.bytes.length → ¬ CutLog MAX_AUTHORITY_SET_SIZE S signed.bytes p := by
  constructor
  · intro hreads
    have hcut : ∀ p, ¬ CutLog MAX_AUTHORITY_SET_SIZE S signed.bytes p :=
      fun p hcut => not_readsOnlySigned_of_cutLog hfield hjust hcut hreads
    refine ⟨?_, fun p _ => hcut p⟩
    by_contra hroom
    exact hcut _ (cutLog_of_room (Nat.not_lt.mp hroom))
  · rintro ⟨hroom, hcut⟩ M r j output total hcarries hrotate htotal i hi hlt
    obtain ⟨rfl, headerHash, hhash, -, hverify, -⟩ := rotate_eq_some.mp hrotate
    obtain ⟨length, size, hlog, -⟩ := exists_log_of_rejectsPastEnd hpast hfield hverify
    obtain rfl := Option.some.inj (htotal.symm.trans (hlog.totalPrefixLength_eq hhash))
    have hdelay : DELAY_LENGTH = 4 := rfl
    have hwidth : VALIDATOR_LENGTH = 40 := rfl
    rw [hlog.val_totalPrefixLength, hwidth] at hlt
    rw [hcarries.1]
    by_contra hge
    have hlogCut := cutLog_of_lt hcarries hlog (by omega)
    by_cases hstart : r.nextAuthoritySetStartPosition.val + 1 < signed.bytes.length
    · exact hcut _ hstart hlogCut
    · obtain ⟨n, length', size', ⟨v, hlength⟩, hsize, -, hroom', -, -⟩ := hlogCut
      have hpos₁ : 1 ≤ length'.length := hlength.length ▸ Compact.byteLength_pos _
      have hpos₂ : 1 ≤ size'.length := hsize.length ▸ Compact.byteLength_pos _
      omega

/-- Block 1 of the reference chain, which announces the second authority, in a circuit for `S`
bytes. -/
def signedEpochEnd (S : ℕ) (hS : 184 ≤ S) : SignedHeader S where
  bytes := (Reference.epochEndHeader [Reference.pubkey₂]).encode
  length_le := Nat.le_trans (by decide +kernel) hS
  length_lt := by decide +kernel

/-- The only log in that block is its own. -/
theorem not_cutLog_signedEpochEnd (p : ℕ) :
    ¬ CutLog 1 200 (signedEpochEnd 200 (by decide)).bytes p := by
  rintro ⟨n, length, size, hlength, hsize, -, hroom, hlong, hagrees⟩
  have hlen : (signedEpochEnd 200 (by decide)).bytes.length = 184 := by decide +kernel
  obtain ⟨v, hlength⟩ := hlength
  have hlengthLe : length.length ≤ 5 := hlength.length ▸ Compact.byteLength_le _
  have hsizeLe : size.length ≤ 5 := hsize.length ▸ Compact.byteLength_le _
  obtain rfl : p = 97 := by
    have hhead := slice_of_agrees_logPattern (by omega) hagrees
    have honly : ∀ p < 150, slice (signedEpochEnd 200 (by decide)).bytes (p + 1) 5 =
        [4, 70, 82, 78, 75] → p = 97 := by decide +kernel
    exact honly p (by omega) hhead
  -- the two compact integers there are one byte long, and the second is 1
  obtain ⟨-, hslice, -, hslice'⟩ := ((agrees_logPattern (by omega)).mp hagrees).1
  have hbyte : Compact.byteLength
      (leNat (slice (signedEpochEnd 200 (by decide)).bytes (97 + 6) 5) % 4) = 1 := by decide +kernel
  obtain ⟨-, -, hone⟩ := hlength.of_take (by rw [Bytes.take_slice _ hlengthLe, hslice])
  rw [hbyte] at hone
  rw [← hone] at hslice'
  have hvalue : Compact.value
      (leNat (slice (signedEpochEnd 200 (by decide)).bytes (97 + (7 + 1)) 5)) = 1 ∧
    Compact.byteLength
      (leNat (slice (signedEpochEnd 200 (by decide)).bytes (97 + (7 + 1)) 5) % 4) = 1 := by
    decide +kernel
  obtain ⟨-, hn, hone'⟩ := hsize.of_take (by rw [Bytes.take_slice _ hsizeLe, hslice'])
  rw [hvalue.1] at hn
  rw [hvalue.2] at hone'
  omega

/-- Block 1 is safe in a circuit that it almost fills, and not in a larger one. -/
theorem readsOnlySigned_iff_epochEnd :
    ReadsOnlySigned (Reference.crypto [Reference.epochEndSigned₁]) 1 298 Reference.authoritySetHash
        (signedEpochEnd 200 (by decide)) ∧
      ¬ ReadsOnlySigned (Reference.crypto [Reference.epochEndSigned₁]) 1 298
        Reference.authoritySetHash (signedEpochEnd 256 (by decide)) := by
  have hjust := Reference.verifySimpleJustification_justification Reference.epochEndSignature₁
    (Reference.isPrecommit_precommitMessage
      (Reference.blockHash (Reference.epochEndHeader [Reference.pubkey₂])) 1 298)
  have hpast := Reference.rejectsPastEnd_crypto [Reference.epochEndSigned₁]
  constructor
  · refine (readsOnlySigned_iff (Reference.crypto [Reference.epochEndSigned₁]) 298
      Reference.authoritySetHash (signedEpochEnd 200 (by decide)) 1 _ hpast (by decide) hjust).mpr
      ⟨?_, fun p _ => not_cutLog_signedEpochEnd p⟩
    decide +kernel
  · intro hreads
    have hroom := ((readsOnlySigned_iff (Reference.crypto [Reference.epochEndSigned₁]) 298
      Reference.authoritySetHash (signedEpochEnd 256 (by decide)) 1 _ hpast (by decide) hjust).mp
      hreads).1
    exact absurd hroom (by decide +kernel)

/-- A log for the second authority, after the signed bytes of block 1. -/
def forgedRotate : RotateVariable 256 1 :=
  Reference.rotateVariable (Reference.chainHeader 0 1)
    (0 :: (DigestItem.consensus consensusEngineIdBytes
      (Reference.scheduledChange [Reference.pubkey₂])).encode) (by decide +kernel) 1 132
    Reference.pubkey₂

theorem totalPrefixLength_forgedRotate :
    totalPrefixLength (Reference.crypto [Reference.blockSigned₁]) forgedRotate =
      some (Variable.ofNat 9) := by decide +kernel

/-- The circuit rotates to an authority that the signed block does not mention. -/
theorem not_readsOnlySigned :
    ¬ ∀ (crypto : Crypto) (S MAX_AUTHORITY_SET_SIZE MAX_SUBARRAY_SIZE : ℕ) (id : U64Variable)
        (hash : Bytes32Variable) (r : RotateVariable S MAX_AUTHORITY_SET_SIZE)
        (justification : JustificationVariable MAX_AUTHORITY_SET_SIZE) (output : Bytes32Variable)
        (total : Variable),
        rotate crypto MAX_SUBARRAY_SIZE id hash r justification = some output →
        totalPrefixLength crypto r = some total →
        ∀ i, r.nextAuthoritySetStartPosition.val + 1 ≤ i →
          i < r.nextAuthoritySetStartPosition.val + total.val +
            r.targetHeaderNumAuthorities.val * VALIDATOR_LENGTH + DELAY_LENGTH →
          i < r.targetHeader.headerSize.toNat := by
  intro hclaim
  have hlast := hclaim (Reference.crypto [Reference.blockSigned₁]) 256 1 44 298
    Reference.authoritySetHash forgedRotate _ _ _
    (Reference.rotate_rotateVariable Reference.blockSignature₁ (by decide)
      (by decide) rfl)
    totalPrefixLength_forgedRotate 133 (by decide) (by decide)
  exact absurd hlast (by decide +kernel)

end VectorX
