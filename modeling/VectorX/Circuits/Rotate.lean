import VectorX.Circuits.Justification
import VectorX.Common.Pattern

/-!
# Rotation of the authority set

Reference: `circuits/builder/rotate.rs`. The header of an epoch end block announces the next
authority set in a consensus log. The circuit parses that log from a position that the prover
supplies.
-/

namespace VectorX

open Plonky2x Plonky2x.CircuitBuilder
open Bytes (slice leNat)

/-! ## Definitions -/

section Definitions

/-- The consensus engine id `FRNK`. -/
def consensusEngineIdBytes : BytesVariable 4 := ⟨[70, 82, 78, 75], rfl⟩

/-- All validators have a voting power of 1. -/
def expectedWeightBytes : BytesVariable WEIGHT_LENGTH := ⟨[1, 0, 0, 0, 0, 0, 0, 0], rfl⟩

def expectedDelayBytes : BytesVariable DELAY_LENGTH := ⟨[0, 0, 0, 0], rfl⟩

/-- `verify_consensus_log`. -/
def verifyConsensusLog {LEN : ℕ} (subarray : BytesVariable LEN) : Option Unit := do
  -- the first byte is skipped
  let headerConsensusFlag ← subarray.data[1]?
  assertIsEqual headerConsensusFlag 4
  let engineId ← subarray.subarray 2 4
  assertIsEqual engineId consensusEngineIdBytes

/-- `verify_scheduled_change_message_length_and_flag`: the index after the flag. -/
def verifyScheduledChangeMessageLengthAndFlag (crypto : Crypto) {LEN : ℕ}
    (subarray : BytesVariable LEN) : Option Variable := do
  let prefixCursor := Variable.ofNat CONSENSUS_ENGINE_ID_PREFIX_LENGTH
  let encodedLength ← subarray.subarray CONSENSUS_ENGINE_ID_PREFIX_LENGTH MAX_COMPACT_UINT_BYTES
  -- the value of the message length is not checked
  let (_, compressMode) ← decodeCompactInt crypto encodedLength
  let byteLength ← getCompactIntByteLength crypto compressMode
  let prefixCursor := prefixCursor + byteLength
  let headerScheduleChangeFlag ← crypto.selectArrayRandomGate subarray.data prefixCursor
  assertIsEqual headerScheduleChangeFlag 1
  some (prefixCursor + Variable.ofNat 1)

/-- `verify_encoded_num_authorities`: the total length of the prefix. -/
def verifyEncodedNumAuthorities (crypto : Crypto) {LEN : ℕ} (subarray : BytesVariable LEN)
    (prefixCursor : Variable) (headerHash : Bytes32Variable) (untrustedAuthoritySetSize : Variable) :
    Option Variable := do
  let encodedSize ←
    crypto.getFixedSubarray MAX_COMPACT_UINT_BYTES subarray prefixCursor headerHash.data
  let (decodedSize, compressMode) ← decodeCompactInt crypto encodedSize
  let numAuthorities ← U32Variable.fromVariables untrustedAuthoritySetSize
  assertIsEqual decodedSize numAuthorities
  let byteLength ← getCompactIntByteLength crypto compressMode
  some (prefixCursor + byteLength)

/-- The checks of validator `i`: its key and weight unless validators are disabled, and the delay
after it if it is the last one. Returns whether validators are disabled from now on. -/
def verifyValidator {MAX_SUBARRAY_SIZE : ℕ} (numAuthorities : Variable)
    (encValidatorSubarray : BytesVariable MAX_SUBARRAY_SIZE) (i : ℕ) (newPubkey : Bytes32Variable)
    (validatorDisabled : BoolVariable) : Option BoolVariable := do
  let idx := i * VALIDATOR_LENGTH
  let currValidator := Variable.ofNat (i + 1)
  let extractedPubkey ← encValidatorSubarray.subarray idx PUBKEY_LENGTH
  let pubkeyMatch := isEqual extractedPubkey newPubkey
  assertIsEqual (pubkeyMatch || validatorDisabled) true
  let extractedWeight ← encValidatorSubarray.subarray (idx + PUBKEY_LENGTH) WEIGHT_LENGTH
  let weightMatch := isEqual extractedWeight expectedWeightBytes
  assertIsEqual (weightMatch || validatorDisabled) true
  let atEnd := isEqual currValidator numAuthorities
  let extractedDelay ← encValidatorSubarray.subarray (idx + VALIDATOR_LENGTH) DELAY_LENGTH
  let delayMatch := isEqual extractedDelay expectedDelayBytes
  assertIsEqual (delayMatch || !atEnd) true
  some (select atEnd true validatorDisabled)

/-- The loop over the validators from index `i` on. -/
def verifyValidators {MAX_SUBARRAY_SIZE : ℕ} (numAuthorities : Variable)
    (encValidatorSubarray : BytesVariable MAX_SUBARRAY_SIZE) :
    ℕ → BoolVariable → List Bytes32Variable → Option Unit
  | _, _, [] => some ()
  | i, validatorDisabled, newPubkey :: newPubkeys => do
    let validatorDisabled ←
      verifyValidator numAuthorities encValidatorSubarray i newPubkey validatorDisabled
    verifyValidators numAuthorities encValidatorSubarray (i + 1) validatorDisabled newPubkeys

/-- `verify_epoch_end_header`. -/
def verifyEpochEndHeader (crypto : Crypto) {S MAX_AUTHORITY_SET_SIZE : ℕ} (MAX_SUBARRAY_SIZE : ℕ)
    (header : EncodedHeaderVariable S) (headerHash : Bytes32Variable)
    (numAuthorities startPosition : Variable)
    (newPubkeys : ArrayVariable Bytes32Variable MAX_AUTHORITY_SET_SIZE) : Option Unit := do
  let numAuthoritiesZero := isZero numAuthorities
  assertIsEqual numAuthoritiesZero false
  let cursor := startPosition
  let prefixSubarray ←
    crypto.getFixedSubarray MAX_PREFIX_LENGTH header.headerBytes cursor headerHash.data
  verifyConsensusLog prefixSubarray
  let prefixIdxAfterFlag ← verifyScheduledChangeMessageLengthAndFlag crypto prefixSubarray
  let totalPrefixLength ←
    verifyEncodedNumAuthorities crypto prefixSubarray prefixIdxAfterFlag headerHash numAuthorities
  let cursor := cursor + totalPrefixLength
  let encValidatorSubarray ←
    crypto.getFixedSubarray MAX_SUBARRAY_SIZE header.headerBytes cursor headerHash.data
  verifyValidators numAuthorities encValidatorSubarray 0 false newPubkeys.data

/-- `rotate`, on the untrusted header and justification. -/
def rotate (crypto : Crypto) {S MAX_AUTHORITY_SET_SIZE : ℕ} (MAX_SUBARRAY_SIZE : ℕ)
    (currentAuthoritySetId : U64Variable) (currentAuthoritySetHash : Bytes32Variable)
    (rotate : RotateVariable S MAX_AUTHORITY_SET_SIZE)
    (justification : JustificationVariable MAX_AUTHORITY_SET_SIZE) : Option Bytes32Variable := do
  if MAX_SUBARRAY_SIZE ≠ MAX_AUTHORITY_SET_SIZE * VALIDATOR_LENGTH + DELAY_LENGTH then none
  let targetHeaderHash ← hashEncodedHeader crypto rotate.targetHeader
  verifySimpleJustification crypto rotate.epochEndBlockNumber targetHeaderHash
    currentAuthoritySetId currentAuthoritySetHash justification
  verifyEpochEndHeader crypto MAX_SUBARRAY_SIZE rotate.targetHeader targetHeaderHash
    rotate.targetHeaderNumAuthorities rotate.nextAuthoritySetStartPosition rotate.newPubkeys
  computeAuthoritySetCommitment crypto rotate.targetHeaderNumAuthorities rotate.newPubkeys

end Definitions

/-! ## The prefix of the log -/

section Prefix

variable {crypto : Crypto}

/-- The consensus flag and the engine id. -/
theorem verifyConsensusLog_eq_some {LEN : ℕ} {subarray : BytesVariable LEN} {u : Unit}
    (hlen : 6 ≤ LEN) :
    verifyConsensusLog subarray = some u ↔
      slice subarray.data 1 5 = [4, 70, 82, 78, 75] := by
  have hsplit := Bytes.slice_eq_append_iff (l := subarray.data) (a := [4])
    (b := [70, 82, 78, 75]) (i := 1)
  simp only [List.cons_append, List.nil_append, List.length_cons, List.length_nil, Nat.zero_add,
    Nat.reduceAdd, Bytes.slice_one_eq_iff] at hsplit
  rw [hsplit]
  simp only [verifyConsensusLog, Option.bind_eq_bind, Option.bind_eq_some_iff,
    assertIsEqual_eq_some, ArrayVariable.subarray_eq_some_iff]
  constructor
  · rintro ⟨flag, hflag, _, rfl, id, ⟨-, hid⟩, rfl⟩
    exact ⟨hflag, hid.symm⟩
  · rintro ⟨hflag, hid⟩
    exact ⟨4, hflag, (), rfl, consensusEngineIdBytes, ⟨hlen, hid.symm⟩, rfl⟩

/-- The message length and the flag after it. -/
theorem verifyScheduledChange_eq_some {LEN : ℕ} {subarray : BytesVariable LEN} {cursor : Variable}
    (hlen : 12 ≤ LEN) :
    verifyScheduledChangeMessageLengthAndFlag crypto subarray = some cursor ↔
      Compact.Valid (leNat (slice subarray.data 6 5)) ∧
      subarray.data[6 + Compact.byteLength (leNat (slice subarray.data 6 5) % 4)]? = some 1 ∧
      cursor.val = 7 + Compact.byteLength (leNat (slice subarray.data 6 5) % 4) := by
  obtain ⟨encoded, hencoded, hdata⟩ := subarray.exists_subarray (show 6 + 5 ≤ LEN by omega)
  have hcursor : ∀ l : Variable, l.val ≤ 5 →
      (Variable.ofNat 6 + l).val = 6 + l.val ∧
        (Variable.ofNat 6 + l + Variable.ofNat 1).val = 7 + l.val := by
    intro l hl
    have hsix : (Variable.ofNat 6).val = 6 := Variable.val_ofNat_of_lt (by decide)
    have hone : (Variable.ofNat 1).val = 1 := Variable.val_ofNat_of_lt (by decide)
    have hbig : 100 < GOLDILOCKS := by decide
    have hfirst : (Variable.ofNat 6 + l).val = 6 + l.val := by
      rw [Variable.val_add_of_lt (by omega), hsix]
    refine ⟨hfirst, ?_⟩
    rw [Variable.val_add_of_lt (by omega), hfirst, hone]
    omega
  have hle := Compact.byteLength_le (leNat (slice subarray.data 6 5) % 4)
  simp only [verifyScheduledChangeMessageLengthAndFlag, CONSENSUS_ENGINE_ID_PREFIX_LENGTH,
    MAX_COMPACT_UINT_BYTES, hencoded, Option.bind_eq_bind, Option.bind_some,
    Option.bind_eq_some_iff, Prod.exists, assertIsEqual_eq_some, Option.some.injEq]
  constructor
  · rintro ⟨value, mode, hdecode, l, hl, flag, hflag, _, rfl, rfl⟩
    obtain ⟨hvalid, -, hlength⟩ := of_decodeCompactInt hdecode hl
    rw [hdata] at hvalid hlength
    obtain ⟨hsix, hseven⟩ := hcursor l (by omega)
    rw [crypto.selectArrayRandomGate_eq _ _ (by rw [subarray.length_data]; omega), hsix,
      hlength] at hflag
    exact ⟨hvalid, hflag, by rw [hseven, hlength]⟩
  · rintro ⟨hvalid, hflag, hval⟩
    obtain ⟨value, mode, l, hdecode, hl, -, hlength⟩ := exists_decodeCompactInt crypto (hdata ▸ hvalid)
    rw [hdata] at hlength
    obtain ⟨hsix, hseven⟩ := hcursor l (by omega)
    refine ⟨value, mode, hdecode, l, hl, 1, ?_, (), rfl, Fin.ext ?_⟩
    · rw [crypto.selectArrayRandomGate_eq _ _ (by rw [subarray.length_data]; omega), hsix, hlength]
      exact hflag
    · rw [hseven, hlength, hval]

/-- The number of authorities. -/
theorem verifyEncodedNumAuthorities_eq_some {LEN : ℕ} {subarray : BytesVariable LEN}
    {cursor n total : Variable} {hash : Bytes32Variable} (hlen : LEN < GOLDILOCKS)
    (hcursor : cursor.val + 5 ≤ LEN) :
    verifyEncodedNumAuthorities crypto subarray cursor hash n = some total ↔
      Compact.Valid (leNat (slice subarray.data cursor.val 5)) ∧
      Compact.value (leNat (slice subarray.data cursor.val 5)) = n.val ∧
      total.val = cursor.val +
        Compact.byteLength (leNat (slice subarray.data cursor.val 5) % 4) := by
  obtain ⟨encoded, -, hdata⟩ := subarray.exists_subarray hcursor
  have hsub : crypto.getFixedSubarray 5 subarray cursor hash.data = some encoded :=
    (getFixedSubarray_eq_some _ hcursor).mpr hdata
  have hle := Compact.byteLength_le (leNat (slice subarray.data cursor.val 5) % 4)
  simp only [verifyEncodedNumAuthorities, MAX_COMPACT_UINT_BYTES, hsub, Option.bind_eq_bind,
    Option.bind_some, Option.bind_eq_some_iff, Prod.exists, assertIsEqual_eq_some,
    Option.some.injEq, U32Variable.fromVariables_eq_some_iff]
  constructor
  · rintro ⟨value, mode, hdecode, num, hnum, _, rfl, l, hl, rfl⟩
    obtain ⟨hvalid, hvalue, hlength⟩ := of_decodeCompactInt hdecode hl
    rw [hdata] at hvalid hvalue hlength
    refine ⟨hvalid, by rw [hnum, hvalue], ?_⟩
    rw [Variable.val_add_of_lt (by omega), hlength]
  · rintro ⟨hvalid, hvalue, htotal⟩
    obtain ⟨value, mode, l, hdecode, hl, hvalue', hlength⟩ :=
      exists_decodeCompactInt crypto (hdata ▸ hvalid)
    rw [hdata] at hvalue' hlength
    refine ⟨value, mode, hdecode, value, by rw [← hvalue, hvalue'], (), rfl, l, hl, Fin.ext ?_⟩
    rw [Variable.val_add_of_lt (by omega), hlength, htotal]

end Prefix

/-! ## The rotation -/

/-- What the constraints of `rotate` say. -/
theorem rotate_eq_some {crypto : Crypto} {S MAX_AUTHORITY_SET_SIZE MAX_SUBARRAY_SIZE : ℕ}
    {id : U64Variable} {hash : Bytes32Variable} {r : RotateVariable S MAX_AUTHORITY_SET_SIZE}
    {justification : JustificationVariable MAX_AUTHORITY_SET_SIZE} {output : Bytes32Variable} :
    rotate crypto MAX_SUBARRAY_SIZE id hash r justification = some output ↔
      MAX_SUBARRAY_SIZE = MAX_AUTHORITY_SET_SIZE * VALIDATOR_LENGTH + DELAY_LENGTH ∧
      ∃ headerHash, hashEncodedHeader crypto r.targetHeader = some headerHash ∧
        verifySimpleJustification crypto r.epochEndBlockNumber headerHash id hash justification =
          some () ∧
        verifyEpochEndHeader crypto MAX_SUBARRAY_SIZE r.targetHeader headerHash
          r.targetHeaderNumAuthorities r.nextAuthoritySetStartPosition r.newPubkeys = some () ∧
        authoritySetCommitment crypto
          (r.newPubkeys.data.take r.targetHeaderNumAuthorities.val) = some output := by
  rw [rotate]
  by_cases hsize : MAX_SUBARRAY_SIZE = MAX_AUTHORITY_SET_SIZE * VALIDATOR_LENGTH + DELAY_LENGTH
  · simp only [hsize, ne_eq, not_true_eq_false, if_false, Option.bind_eq_bind,
      Option.bind_eq_some_iff, computeAuthoritySetCommitment_eq, true_and]
    constructor
    · rintro ⟨headerHash, hhash, _, hjust, _, hverify, hcommit⟩
      exact ⟨headerHash, hhash, hjust, hverify, hcommit⟩
    · rintro ⟨headerHash, hhash, hjust, hverify, hcommit⟩
      exact ⟨headerHash, hhash, (), hjust, (), hverify, hcommit⟩
  · simp [hsize]

end VectorX
