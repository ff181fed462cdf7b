import VectorX.Circuits.EpochEndLog
import VectorX.Reference.EpochChain

/-!
# The hint for a rotation

Reference: `circuits/input/mod.rs`. `get_header_rotate` looks for the first GRANDPA log of an epoch
end header, checks it against the new authorities and adds up the lengths of what comes before it.
The sum takes the number of logs for a single byte, the one that the circuit skips before a log.
-/

namespace VectorX

open Plonky2x Plonky2x.CircuitBuilder
open Bytes (slice)

/-! ## Definitions -/

section Definitions

/-- `assert_eq!`. -/
def assertEq {α : Type*} [DecidableEq α] (a b : α) : Option Unit := if a = b then some () else none

/-- `u64` subtraction that panics on underflow. -/
def checkedSub64 (a b : UInt64) : Option UInt64 := if b ≤ a then some (a - b) else none

/-- The data for a rotation. -/
structure HeaderRotateData where
  headerBytes : List UInt8
  headerSize : ℕ
  numAuthorities : ℕ
  startPosition : ℕ
  endPosition : ℕ
  newAuthoritySetHash : List UInt8
  paddedPubkeys : List Bytes32Variable

/-- The loop over the chunks of one validator each. -/
def checkAuthorityChunks (newAuthorities : List Bytes32Variable) (authoritiesBytes : List UInt8) :
    Option Unit := do
  let _ ← (List.range (authoritiesBytes.length / VALIDATOR_LENGTH)).mapM fun i => do
    let authorityChunk := slice authoritiesBytes (i * VALIDATOR_LENGTH) VALIDATOR_LENGTH
    let authority ← newAuthorities[i]?
    assertEq (authorityChunk.take PUBKEY_LENGTH) authority.data
    assertEq (authorityChunk.drop PUBKEY_LENGTH) expectedWeightBytes.data
  some ()

/-- The checks of the message of the log. -/
def checkScheduledChange (newAuthorities : List Bytes32Variable) (encodedNumAuthoritiesLen : ℕ)
    (value : List UInt8) : Option Unit := do
  let flag ← value[0]?
  assertEq flag 1
  let cursor := 1 + encodedNumAuthoritiesLen
  if value.length < cursor then none
  let authoritiesBytes := value.drop cursor
  checkAuthorityChunks newAuthorities authoritiesBytes
  let cursor := cursor + authoritiesBytes.length / VALIDATOR_LENGTH * VALIDATOR_LENGTH
  assertEq (slice value cursor DELAY_LENGTH) expectedDelayBytes.data

/-- The loop over the logs, from the given position on. -/
def findScheduledChange (newAuthorities : List Bytes32Variable) (encodedNumAuthoritiesLen : ℕ) :
    ℕ → List DigestItem → Option ℕ
  | _, [] => none
  | position, .consensus consensusId value :: logs =>
    if consensusId = consensusEngineIdBytes then do
      checkScheduledChange newAuthorities encodedNumAuthoritiesLen value
      some position
    else
      findScheduledChange newAuthorities encodedNumAuthoritiesLen
        (position + (DigestItem.consensus consensusId value).encode.length) logs
  | position, log :: logs =>
    findScheduledChange newAuthorities encodedNumAuthoritiesLen (position + log.encode.length) logs

variable {crypto : Crypto} (chain : EpochChain crypto) (DUMMY_PUBLIC_KEY : Bytes32Variable)

/-- `get_header_rotate`. Where a subtraction underflows, a build without overflow checks wraps and
then fails in the lookup or the assertion after it. -/
def getHeaderRotate (HEADER_LENGTH VALIDATOR_SET_SIZE_MAX : ℕ) (epochEndBlock : UInt32) :
    Option HeaderRotateData := do
  let epochEndBlockAuthoritySetId ← getAuthoritySetId chain.toSetIds epochEndBlock
  let prevBlock ← checkedSub epochEndBlock 1
  let prevAuthoritySetId ← getAuthoritySetId chain.toSetIds prevBlock
  let expectedAuthoritySetId ← checkedSub64 epochEndBlockAuthoritySetId 1
  assertEq expectedAuthoritySetId prevAuthoritySetId
  let header ← getHeader chain.toChain epochEndBlock.toNat
  let headerSize := header.encode.length
  if HEADER_LENGTH < headerSize then none
  let headerBytes := header.encode ++ List.replicate (HEADER_LENGTH - headerSize) 0
  let newAuthorities ← getAuthorities chain epochEndBlock
  let numAuthorities := newAuthorities.length
  let encodedNumAuthoritiesLen := (Compact.encode (numAuthorities % 2 ^ 32)).length
  let scheduledChangeMessageLength :=
    1 + encodedNumAuthoritiesLen + 40 * numAuthorities + DELAY_LENGTH
  let encodedScheduledChangeMessageLengthSize :=
    (Compact.encode (scheduledChangeMessageLength % 2 ^ 32)).length
  let numberEncoded := Compact.encode epochEndBlock.toNat
  let position := HASH_SIZE + numberEncoded.length + HASH_SIZE + HASH_SIZE
  let position ← findScheduledChange newAuthorities encodedNumAuthoritiesLen position header.logs
  let prefixLength := CONSENSUS_ENGINE_ID_PREFIX_LENGTH + encodedScheduledChangeMessageLengthSize + 1 +
    encodedNumAuthoritiesLen
  some {
    headerBytes
    headerSize
    numAuthorities
    startPosition := position
    endPosition := position + prefixLength + (32 + 8) * numAuthorities + 4
    newAuthoritySetHash := computeAuthoritySetHash crypto newAuthorities
    paddedPubkeys := newAuthorities ++
      List.replicate (VALIDATOR_SET_SIZE_MAX - numAuthorities) DUMMY_PUBLIC_KEY }

/-- The data as a circuit variable. An array of another length cannot be written. -/
def HeaderRotateData.toRotateVariable (data : HeaderRotateData) (HEADER_LENGTH MAX_AUTHORITY_SET_SIZE : ℕ)
    (epochEndBlock : UInt32) : Option (RotateVariable HEADER_LENGTH MAX_AUTHORITY_SET_SIZE) := do
  let headerBytes ← newArray HEADER_LENGTH data.headerBytes
  let newPubkeys ← newArray MAX_AUTHORITY_SET_SIZE data.paddedPubkeys
  some {
    epochEndBlockNumber := epochEndBlock
    targetHeader := { headerBytes, headerSize := UInt32.ofNat data.headerSize }
    targetHeaderNumAuthorities := Variable.ofNat data.numAuthorities
    nextAuthoritySetStartPosition := Variable.ofNat data.startPosition
    newPubkeys }

/-- What `RotateHint::hint` writes for the block that the search returns. -/
def rotateHintAt (HEADER_LENGTH MAX_AUTHORITY_SET_SIZE : ℕ) (epochEndBlock : UInt32) :
    Option (RotateVariable HEADER_LENGTH MAX_AUTHORITY_SET_SIZE) := do
  let rotateData ←
    getHeaderRotate chain DUMMY_PUBLIC_KEY HEADER_LENGTH MAX_AUTHORITY_SET_SIZE epochEndBlock
  if MAX_AUTHORITY_SET_SIZE < rotateData.numAuthorities then none
  rotateData.toRotateVariable HEADER_LENGTH MAX_AUTHORITY_SET_SIZE epochEndBlock

/-- `RotateHint::hint`. -/
def rotateHint (HEADER_LENGTH MAX_AUTHORITY_SET_SIZE : ℕ) (authoritySetId : UInt64) :
    Option (RotateVariable HEADER_LENGTH MAX_AUTHORITY_SET_SIZE) := do
  let epochEndBlock ← lastJustifiedBlock chain.toSetIds authoritySetId
  rotateHintAt chain DUMMY_PUBLIC_KEY HEADER_LENGTH MAX_AUTHORITY_SET_SIZE epochEndBlock

end Definitions

/-! ## Epoch end headers -/

section Headers

/-- The message that schedules the change to the given authorities, without delay. -/
def scheduledChangeMessage (keys : List Bytes32Variable) : List UInt8 :=
  [1] ++ Compact.encode keys.length ++ encodeAuthorities keys ++ expectedDelayBytes.data

/-- The log that announces the given authorities. -/
def announcement (keys : List Bytes32Variable) : DigestItem :=
  .consensus consensusEngineIdBytes (scheduledChangeMessage keys)

/-- The message or data of a log. -/
def DigestItem.payload : DigestItem → List UInt8
  | .other data => data
  | .consensus _ message => message
  | .seal _ message => message
  | .preRuntime _ message => message
  | .runtimeEnvironmentUpdated => []

/-- The lengths of a header that has an encoding are 32-bit numbers. -/
structure Header.Encodable (h : Header) : Prop where
  logs_lt : h.logs.length < 2 ^ 32
  payload_lt : ∀ log ∈ h.logs, log.payload.length < 2 ^ 32

/-- The position of the log after `before` in the encoding of a header. -/
def Header.logOffset (h : Header) (before : List DigestItem) : ℕ :=
  (h.parentHash.data ++ Compact.encode h.number.toNat ++ h.stateRoot.data ++ h.extrinsicsRoot.data ++
    Compact.encode h.logs.length ++ before.flatMap DigestItem.encode).length

/-- The first GRANDPA log of an epoch end header announces the authorities of the chain. -/
structure AnnouncesAuthorities {crypto : Crypto} (chain : EpochChain crypto) (b : UInt32)
    (keys : List Bytes32Variable) (before after : List DigestItem) : Prop where
  isEpochEnd : ∃ t, chain.toSetIds.IsEpochEnd t b.toNat
  authorities : getAuthorities chain b = some keys
  logs_eq : (chain.header b.toNat).logs = before ++ announcement keys :: after
  isFirst : ∀ log ∈ before, ∀ message, log ≠ .consensus consensusEngineIdBytes message
  encodable : (chain.header b.toNat).Encodable

end Headers

/-! ## The position of the log -/

section Position

@[simp] theorem assertEq_self {α : Type*} [DecidableEq α] (a : α) : assertEq a a = some () :=
  if_pos rfl

theorem checkedSub64_of_le {a b : UInt64} (h : b.toNat ≤ a.toNat) :
    ∃ c, checkedSub64 a b = some c ∧ c.toNat = a.toNat - b.toNat := by
  have hle : b ≤ a := UInt64.le_iff_toNat_le.mpr h
  exact ⟨a - b, by rw [checkedSub64, if_pos hle], UInt64.toNat_sub_of_le _ _ hle⟩

variable {keys : List Bytes32Variable}

@[simp] theorem length_scheduledChangeMessage :
    (scheduledChangeMessage keys).length =
      1 + (Compact.encode keys.length).length + 40 * keys.length + 4 := by
  have hdelay : expectedDelayBytes.data.length = 4 := rfl
  simp only [scheduledChangeMessage, List.length_append, List.length_singleton,
    length_encodeAuthorities, hdelay]
  omega

/-- The delay after the validators is no chunk. -/
theorem length_authorityChunks :
    (encodeAuthorities keys ++ expectedDelayBytes.data).length / VALIDATOR_LENGTH = keys.length := by
  have hdelay : expectedDelayBytes.data.length = 4 := rfl
  have hwidth : VALIDATOR_LENGTH = 40 := rfl
  rw [List.length_append, length_encodeAuthorities, hdelay, hwidth]
  omega

/-- The validators of an encoded list pass. -/
theorem checkAuthorityChunks_encodeAuthorities :
    checkAuthorityChunks keys (encodeAuthorities keys ++ expectedDelayBytes.data) = some () := by
  have hslices := (slice_encodeAuthorities (l := encodeAuthorities keys ++ expectedDelayBytes.data)
    keys 0).mp (by simp [slice])
  have hall : (List.range keys.length).mapM (fun i => do
      let authorityChunk := slice (encodeAuthorities keys ++ expectedDelayBytes.data)
        (i * VALIDATOR_LENGTH) VALIDATOR_LENGTH
      let authority ← keys[i]?
      assertEq (authorityChunk.take PUBKEY_LENGTH) authority.data
      assertEq (authorityChunk.drop PUBKEY_LENGTH) expectedWeightBytes.data) =
        some ((List.range keys.length).map fun _ => ()) := by
    rw [TreeReduce.mapM_eq_some_map]
    intro i hi
    have hlt : i < keys.length := List.mem_range.mp hi
    have hget := List.getElem?_eq_getElem hlt
    obtain ⟨hkey, hweight⟩ := hslices i _ hget
    rw [Nat.zero_add] at hkey hweight
    have htake : (slice (encodeAuthorities keys ++ expectedDelayBytes.data) (i * VALIDATOR_LENGTH)
        VALIDATOR_LENGTH).take PUBKEY_LENGTH = keys[i].data := by
      rw [Bytes.take_slice _ (by decide)]
      exact hkey
    have hdrop : (slice (encodeAuthorities keys ++ expectedDelayBytes.data) (i * VALIDATOR_LENGTH)
        VALIDATOR_LENGTH).drop PUBKEY_LENGTH = expectedWeightBytes.data := by
      rw [slice, List.drop_take, List.drop_drop]
      exact hweight
    simp only [hget, Option.bind_eq_bind, Option.bind_some, htake, hdrop, assertEq_self]
  rw [checkAuthorityChunks, length_authorityChunks, hall]
  rfl

/-- The message of the announcement passes. -/
theorem checkScheduledChange_scheduledChangeMessage :
    checkScheduledChange keys (Compact.encode keys.length).length (scheduledChangeMessage keys) =
      some () := by
  have hwidth : VALIDATOR_LENGTH = 40 := rfl
  have hdrop : (scheduledChangeMessage keys).drop (1 + (Compact.encode keys.length).length) =
      encodeAuthorities keys ++ expectedDelayBytes.data := by
    rw [scheduledChangeMessage, List.append_assoc]
    exact List.drop_left' (by simp [Nat.add_comm])
  have hend : slice (scheduledChangeMessage keys) (1 + (Compact.encode keys.length).length +
      keys.length * VALIDATOR_LENGTH) DELAY_LENGTH = expectedDelayBytes.data := by
    have hlen : ([1] ++ Compact.encode keys.length ++ encodeAuthorities keys).length =
        1 + (Compact.encode keys.length).length + keys.length * VALIDATOR_LENGTH := by
      simp only [List.length_append, List.length_singleton, length_encodeAuthorities, hwidth]
    have hslice := Bytes.slice_append_middle hlen expectedDelayBytes.length_data []
    rwa [List.append_nil] at hslice
  rw [checkScheduledChange]
  have hflag : (scheduledChangeMessage keys)[0]? = some 1 := rfl
  simp only [hflag, Option.bind_eq_bind, Option.bind_some, assertEq_self, hdrop,
    checkAuthorityChunks_encodeAuthorities, length_authorityChunks, hend]
  rw [if_neg (by rw [length_scheduledChangeMessage]; omega)]

/-- Earlier logs are skipped with their lengths. -/
theorem findScheduledChange_append (keys : List Bytes32Variable) {n : ℕ}
    {before : List DigestItem} (after : List DigestItem)
    (hfirst : ∀ log ∈ before, ∀ message, log ≠ .consensus consensusEngineIdBytes message)
    (hcheck : checkScheduledChange keys n (scheduledChangeMessage keys) = some ()) :
    ∀ position, findScheduledChange keys n position (before ++ announcement keys :: after) =
      some (position + (before.flatMap DigestItem.encode).length) := by
  induction before with
  | nil =>
    intro position
    rw [List.nil_append, announcement, findScheduledChange, if_pos rfl, hcheck]
    rfl
  | cons log before ih =>
    intro position
    have hnext := ih (fun log' hmem => hfirst log' (List.mem_cons_of_mem log hmem))
      (position + log.encode.length)
    rw [List.flatMap_cons, List.length_append, ← Nat.add_assoc, ← hnext, List.cons_append]
    cases log with
    | consensus consensusId value =>
      have hne : consensusId ≠ consensusEngineIdBytes := fun heq =>
        hfirst _ (List.mem_cons_self ..) value (by rw [heq])
      rw [findScheduledChange, if_neg hne]
    | _ => rfl

variable {crypto : Crypto} {chain : EpochChain crypto} {b : UInt32} {before after : List DigestItem}
  {HEADER_LENGTH MAX_AUTHORITY_SET_SIZE : ℕ}

/-- The number of authorities is a 32-bit number. -/
theorem AnnouncesAuthorities.message_lt (h : AnnouncesAuthorities chain b keys before after) :
    1 + (Compact.encode keys.length).length + 40 * keys.length + 4 < 2 ^ 32 := by
  have hpayload := h.encodable.payload_lt (announcement keys) (by rw [h.logs_eq]; simp)
  rwa [announcement, DigestItem.payload, length_scheduledChangeMessage] at hpayload

variable (DUMMY_PUBLIC_KEY : Bytes32Variable) (MAX_AUTHORITY_SET_SIZE : ℕ) in
/-- What the host returns for an epoch end header that fits. -/
theorem AnnouncesAuthorities.getHeaderRotate_eq
    (h : AnnouncesAuthorities chain b keys before after)
    (hfit : (chain.header b.toNat).encode.length ≤ HEADER_LENGTH) :
    ∃ data, getHeaderRotate chain DUMMY_PUBLIC_KEY HEADER_LENGTH MAX_AUTHORITY_SET_SIZE b = some data ∧
      data.headerBytes = (chain.header b.toNat).encode ++
        List.replicate (HEADER_LENGTH - (chain.header b.toNat).encode.length) 0 ∧
      data.headerSize = (chain.header b.toNat).encode.length ∧
      data.numAuthorities = keys.length ∧
      data.startPosition =
        96 + (Compact.encode b.toNat).length + (before.flatMap DigestItem.encode).length ∧
      data.paddedPubkeys =
        keys ++ List.replicate (MAX_AUTHORITY_SET_SIZE - keys.length) DUMMY_PUBLIC_KEY := by
  obtain ⟨t, hle, hpassage⟩ := h.isEpochEnd
  have hpos := hpassage.pos
  have hbefore := hpassage.before
  have hat := hpassage.at_eq
  have hone : (1 : UInt64).toNat = 1 := rfl
  obtain ⟨prev, hprev, hprevVal⟩ := checkedSub_one (a := b) (by omega)
  have hget := getAuthoritySetId_of_le _ hle
  have hgetPrev := getAuthoritySetId_of_le chain.toSetIds (b := prev) (by omega)
  rw [SetIds.id] at hat hbefore
  obtain ⟨expected, hexpected, hexpectedVal⟩ :=
    checkedSub64_of_le (a := chain.toSetIds.setId b.toNat) (b := 1) (by omega)
  obtain rfl : expected = chain.toSetIds.setId prev.toNat := by
    apply UInt64.toNat_inj.mp
    rw [hexpectedVal, hprevVal, hone, hat, hbefore]
    omega
  have hheader := getHeader_eq (chain.first_le b.toNat) hle
  have hnum : keys.length % 2 ^ 32 = keys.length :=
    Nat.mod_eq_of_lt (by have hlt := h.message_lt; omega)
  have hfind := findScheduledChange_append keys after h.isFirst
    checkScheduledChange_scheduledChangeMessage (HASH_SIZE + (Compact.encode b.toNat).length +
      HASH_SIZE + HASH_SIZE)
  rw [← h.logs_eq] at hfind
  have hhash : HASH_SIZE = 32 := rfl
  simp only [getHeaderRotate, hget, hprev, hgetPrev, hexpected, assertEq_self, hheader,
    if_neg (Nat.not_lt.mpr hfit), h.authorities, hnum, hfind, Option.bind_eq_bind, Option.bind_some]
  exact ⟨_, rfl, rfl, rfl, rfl, by simp only [hhash]; omega, rfl⟩

/-- The log starts at its offset in the encoding. -/
theorem AnnouncesAuthorities.exists_encode_eq (h : AnnouncesAuthorities chain b keys before after) :
    ∃ l r, (chain.header b.toNat).encode = l ++ (announcement keys).encode ++ r ∧
      l.length = (chain.header b.toNat).logOffset before := by
  refine ⟨_, after.flatMap DigestItem.encode ++ (chain.header b.toNat).extensionPrefix ++
    (chain.header b.toNat).dataRoot.data, ?_, rfl⟩
  simp only [Header.encode, Header.encodeTail, List.append_assoc]
  conv_lhs => rw [h.logs_eq, List.flatMap_append, List.flatMap_cons]
  rw [h.logs_eq]
  simp only [List.append_assoc]

/-- The position of the hint is right if the number of logs is encoded in one byte. -/
theorem AnnouncesAuthorities.startPosition_iff (h : AnnouncesAuthorities chain b keys before after) :
    96 + (Compact.encode b.toNat).length + (before.flatMap DigestItem.encode).length + 1 =
        (chain.header b.toNat).logOffset before ↔
      before.length + 1 + after.length < 64 := by
  obtain ⟨t, hle, -⟩ := h.isEpochEnd
  have hnumber := chain.number_eq b.toNat (chain.first_le _) hle
  have hlen : (chain.header b.toNat).logs.length = before.length + 1 + after.length := by
    rw [h.logs_eq, List.length_append, List.length_cons]
    omega
  rw [Header.logOffset, hnumber, hlen, ← Compact.length_encode_eq_one_iff]
  simp only [List.length_append, ArrayVariable.length_data]
  omega

end Position

/-! ## Agreement with the circuit -/

section Agreement

variable {crypto : Crypto}

/-- The hint points one byte before the log, and the circuit accepts the log there. -/
def HintAgrees (chain : EpochChain crypto) (DUMMY_PUBLIC_KEY : Bytes32Variable)
    (HEADER_LENGTH MAX_AUTHORITY_SET_SIZE : ℕ) (b : UInt32) (before : List DigestItem) : Prop :=
  ∃ data r, getHeaderRotate chain DUMMY_PUBLIC_KEY HEADER_LENGTH MAX_AUTHORITY_SET_SIZE b = some data ∧
    data.startPosition + 1 = (chain.header b.toNat).logOffset before ∧
    data.toRotateVariable HEADER_LENGTH MAX_AUTHORITY_SET_SIZE b = some r ∧
    ∀ hash, verifyEpochEndHeader crypto (MAX_AUTHORITY_SET_SIZE * VALIDATOR_LENGTH + DELAY_LENGTH)
      r.targetHeader hash r.targetHeaderNumAuthorities r.nextAuthoritySetStartPosition r.newPubkeys =
        some ()

/-- The window that the circuit reads after the prefix of the log ends inside the padded header. -/
def WindowFits (HEADER_LENGTH MAX_AUTHORITY_SET_SIZE : ℕ) (b : UInt32) (keys : List Bytes32Variable)
    (before : List DigestItem) : Prop :=
  96 + (Compact.encode b.toNat).length + (before.flatMap DigestItem.encode).length +
      (7 + (Compact.encode (scheduledChangeMessage keys).length).length +
        (Compact.encode keys.length).length) +
      (MAX_AUTHORITY_SET_SIZE * VALIDATOR_LENGTH + DELAY_LENGTH) ≤ HEADER_LENGTH

variable {chain : EpochChain crypto} {DUMMY_PUBLIC_KEY : Bytes32Variable} {b : UInt32}
  {keys : List Bytes32Variable} {before after : List DigestItem}
  {HEADER_LENGTH MAX_AUTHORITY_SET_SIZE : ℕ}

/-- What can be written for a rotation. -/
theorem HeaderRotateData.toRotateVariable_eq_some {data : HeaderRotateData}
    {r : RotateVariable HEADER_LENGTH MAX_AUTHORITY_SET_SIZE} :
    data.toRotateVariable HEADER_LENGTH MAX_AUTHORITY_SET_SIZE b = some r ↔
      r.epochEndBlockNumber = b ∧ r.targetHeader.headerBytes.data = data.headerBytes ∧
      r.targetHeader.headerSize = UInt32.ofNat data.headerSize ∧
      r.targetHeaderNumAuthorities = Variable.ofNat data.numAuthorities ∧
      r.nextAuthoritySetStartPosition = Variable.ofNat data.startPosition ∧
      r.newPubkeys.data = data.paddedPubkeys := by
  rw [HeaderRotateData.toRotateVariable, newArray, newArray]
  constructor
  · intro h
    split at h
    · split at h
      · obtain rfl := Option.some.inj h
        exact ⟨rfl, rfl, rfl, rfl, rfl, rfl⟩
      · exact absurd h (by simp)
    · exact absurd h (by simp)
  · rintro ⟨rfl, hbytes, hsize, hnum, hstart, hkeys⟩
    have hlen : data.headerBytes.length = HEADER_LENGTH := by
      rw [← hbytes, ArrayVariable.length_data]
    have hlen' : data.paddedPubkeys.length = MAX_AUTHORITY_SET_SIZE := by
      rw [← hkeys, ArrayVariable.length_data]
    rw [dif_pos hlen, dif_pos hlen']
    obtain ⟨number, ⟨⟨bytes, hbytesLen⟩, size⟩, num, start, ⟨pubkeys, hpubkeysLen⟩⟩ := r
    simp only at hbytes hsize hnum hstart hkeys
    subst hbytes hsize hnum hstart hkeys
    rfl

/-- The log, with the byte before it, as the parser reads it. -/
theorem exists_epochEndLog_of_logOffset {l r : List UInt8} {p : ℕ}
    (hlen : l.length = p + 1) :
    ∃ first, epochEndLog first (Compact.encode (scheduledChangeMessage keys).length)
      (Compact.encode keys.length) keys <+: (l ++ (announcement keys).encode ++ r).drop p := by
  obtain ⟨init, first, rfl⟩ : ∃ init first, l = init ++ [first] := by
    rcases List.eq_nil_or_concat l with rfl | ⟨init, first, rfl⟩
    · simp at hlen
    · exact ⟨init, first, List.concat_eq_append⟩
  have hinit : init.length = p := by simpa using hlen
  refine ⟨first, r, ?_⟩
  have hlog : [first] ++ (announcement keys).encode =
      epochEndLog first (Compact.encode (scheduledChangeMessage keys).length)
        (Compact.encode keys.length) keys := by
    simp only [epochEndLog, logHead, announcement, DigestItem.encode, encodeBytes,
      consensusEngineIdBytes, List.append_assoc, List.cons_append, List.nil_append]
    rw [scheduledChangeMessage]
    simp only [List.append_assoc, List.cons_append, List.nil_append]
  rw [← hlog, ← hinit]
  simp only [List.append_assoc, List.drop_left]

/-- Below 64 logs the prefix of the log is found where the circuit looks for it. -/
theorem AnnouncesAuthorities.exists_log (h : AnnouncesAuthorities chain b keys before after)
    (hcount : before.length + 1 + after.length < 64) (padding : List UInt8) :
    ∃ first, epochEndLog first (Compact.encode (scheduledChangeMessage keys).length)
      (Compact.encode keys.length) keys <+: ((chain.header b.toNat).encode ++ padding).drop
        (96 + (Compact.encode b.toNat).length + (before.flatMap DigestItem.encode).length) := by
  obtain ⟨l, r, hencode, hoffset⟩ := h.exists_encode_eq
  rw [hencode, List.append_assoc _ r]
  exact exists_epochEndLog_of_logOffset (hoffset.trans (h.startPosition_iff.mpr hcount).symm)

/-- Both lengths of an announcement have encodings. -/
theorem AnnouncesAuthorities.isEncoding (h : AnnouncesAuthorities chain b keys before after) :
    (∃ v, Compact.IsEncoding (Compact.encode (scheduledChangeMessage keys).length) v) ∧
      Compact.IsEncoding (Compact.encode keys.length) keys.length := by
  have hlt := h.message_lt
  refine ⟨⟨_, Compact.isEncoding_encode ?_⟩, Compact.isEncoding_encode (by omega)⟩
  rw [length_scheduledChangeMessage]
  exact hlt

/-- The hint can be written for at most as many authorities as there are slots. -/
theorem exists_toRotateVariable {data : HeaderRotateData}
    (hbytes : data.headerBytes.length = HEADER_LENGTH)
    (hkeys : data.paddedPubkeys.length = MAX_AUTHORITY_SET_SIZE) :
    ∃ r, data.toRotateVariable HEADER_LENGTH MAX_AUTHORITY_SET_SIZE b = some r :=
  ⟨⟨b, ⟨⟨data.headerBytes, hbytes⟩, UInt32.ofNat data.headerSize⟩, Variable.ofNat data.numAuthorities,
    Variable.ofNat data.startPosition, ⟨data.paddedPubkeys, hkeys⟩⟩,
    HeaderRotateData.toRotateVariable_eq_some.mpr ⟨rfl, rfl, rfl, rfl, rfl, rfl⟩⟩

/-- The position of a hint that agrees is right. -/
theorem AnnouncesAuthorities.lt_of_hintAgrees (h : AnnouncesAuthorities chain b keys before after)
    (hfit : (chain.header b.toNat).encode.length ≤ HEADER_LENGTH)
    (hagrees : HintAgrees chain DUMMY_PUBLIC_KEY HEADER_LENGTH MAX_AUTHORITY_SET_SIZE b before) :
    before.length + 1 + after.length < 64 := by
  obtain ⟨data, hdata, -, -, -, hstart, -⟩ := h.getHeaderRotate_eq DUMMY_PUBLIC_KEY
    MAX_AUTHORITY_SET_SIZE hfit
  obtain ⟨data', r, hdata', hposition, -⟩ := hagrees
  obtain rfl := Option.some.inj (hdata.symm.trans hdata')
  rw [hstart] at hposition
  exact h.startPosition_iff.mp hposition

/-- What the hint writes is the header of the chain, with the position of its log. -/
structure WritesLog (chain : EpochChain crypto) (b : UInt32) (keys : List Bytes32Variable)
    (before : List DigestItem) (r : RotateVariable HEADER_LENGTH MAX_AUTHORITY_SET_SIZE) : Prop where
  headerBytes : r.targetHeader.headerBytes.data = (chain.header b.toNat).encode ++
    List.replicate (HEADER_LENGTH - (chain.header b.toNat).encode.length) 0
  headerSize : r.targetHeader.headerSize = UInt32.ofNat (chain.header b.toNat).encode.length
  numAuthorities : r.targetHeaderNumAuthorities.val = keys.length
  length_le : keys.length ≤ MAX_AUTHORITY_SET_SIZE
  start : r.nextAuthoritySetStartPosition.val =
    96 + (Compact.encode b.toNat).length + (before.flatMap DigestItem.encode).length
  newPubkeys : r.newPubkeys.data.take keys.length = keys
  log : ∃ first, epochEndLog first (Compact.encode (scheduledChangeMessage keys).length)
    (Compact.encode keys.length) keys <+:
      (chain.header b.toNat).encode.drop r.nextAuthoritySetStartPosition.val

/-- Below 64 logs, this is what the hint writes. -/
theorem AnnouncesAuthorities.writesLog (h : AnnouncesAuthorities chain b keys before after)
    (hfit : (chain.header b.toNat).encode.length ≤ HEADER_LENGTH)
    (hcount : before.length + 1 + after.length < 64) (hfield : HEADER_LENGTH < GOLDILOCKS)
    {data : HeaderRotateData} {r : RotateVariable HEADER_LENGTH MAX_AUTHORITY_SET_SIZE}
    (hdata : getHeaderRotate chain DUMMY_PUBLIC_KEY HEADER_LENGTH MAX_AUTHORITY_SET_SIZE b = some data)
    (hr : data.toRotateVariable HEADER_LENGTH MAX_AUTHORITY_SET_SIZE b = some r) :
    WritesLog chain b keys before r := by
  obtain ⟨data', hdata', hbytes, hsize, hnum, hstart, hpadded⟩ := h.getHeaderRotate_eq
    DUMMY_PUBLIC_KEY MAX_AUTHORITY_SET_SIZE hfit
  obtain rfl := Option.some.inj (hdata'.symm.trans hdata)
  obtain ⟨-, hrBytes, hrSize, hrNum, hrStart, hrKeys⟩ := HeaderRotateData.toRotateVariable_eq_some.mp hr
  have hlt := h.message_lt
  have hgold := two_pow_32_lt_goldilocks
  have hlog := h.exists_log hcount []
  rw [List.append_nil] at hlog
  have hstartVal : r.nextAuthoritySetStartPosition.val = data'.startPosition := by
    obtain ⟨first, hprefix⟩ := hlog
    have hlen := hprefix.length_le
    rw [length_epochEndLog, List.length_drop, ← hstart] at hlen
    rw [hrStart, Variable.val_ofNat_of_lt (by omega)]
  exact {
    headerBytes := hrBytes.trans hbytes
    headerSize := by rw [hrSize, hsize]
    numAuthorities := by rw [hrNum, hnum, Variable.val_ofNat_of_lt (by omega)]
    length_le := by
      have hlen := r.newPubkeys.length_data
      rw [hrKeys, hpadded, List.length_append] at hlen
      omega
    start := hstartVal.trans hstart
    newPubkeys := by rw [hrKeys, hpadded, List.take_left]
    log := by rwa [hstartVal, hstart] }

section WritesLog

variable {r : RotateVariable HEADER_LENGTH MAX_AUTHORITY_SET_SIZE}

/-- The log in the padded header. -/
theorem WritesLog.log_headerBytes (hw : WritesLog chain b keys before r) :
    ∃ first, epochEndLog first (Compact.encode (scheduledChangeMessage keys).length)
      (Compact.encode keys.length) keys <+:
        r.targetHeader.headerBytes.data.drop r.nextAuthoritySetStartPosition.val := by
  obtain ⟨first, hprefix⟩ := hw.log
  refine ⟨first, hprefix.trans ?_⟩
  rw [hw.headerBytes, List.drop_append]
  exact List.prefix_append _ _

/-- The circuit reads inside the padded header. -/
theorem WritesLog.windowsInside (hw : WritesLog chain b keys before r)
    (h : AnnouncesAuthorities chain b keys before after) (hpos : 1 ≤ keys.length)
    (hroom : WindowFits HEADER_LENGTH MAX_AUTHORITY_SET_SIZE b keys before) :
    WindowsInside MAX_AUTHORITY_SET_SIZE r.targetHeader.headerBytes.data
      r.nextAuthoritySetStartPosition.val keys.length := by
  obtain ⟨hlength, hsize⟩ := h.isEncoding
  obtain ⟨first, hprefix⟩ := hw.log_headerBytes
  have hdelay : DELAY_LENGTH = 4 := rfl
  have hwidth : VALIDATOR_LENGTH = 40 := rfl
  have hwindow : MAX_PREFIX_LENGTH = 17 := rfl
  have hlen := r.targetHeader.headerBytes.length_data
  rw [WindowFits, ← hw.start, hwidth, hdelay] at hroom
  constructor
  · have hmax := hw.length_le
    have hpos₁ := Compact.length_encode_pos (scheduledChangeMessage keys).length
    have hpos₂ := Compact.length_encode_pos keys.length
    omega
  · intro length size hlength' hsize' hhead
    obtain ⟨rfl, rfl⟩ := logHead_unique hlength' hsize' hlength hsize hhead
      (logHead_of_epochEndLog hprefix)
    rw [hlen, hwidth, hdelay]
    exact hroom

end WritesLog

/-- A circuit that accepts the hint has a slot for each authority and reads inside the header. -/
theorem AnnouncesAuthorities.of_hintAgrees (h : AnnouncesAuthorities chain b keys before after)
    (hpast : crypto.RejectsPastEnd) (hfield : HEADER_LENGTH < GOLDILOCKS)
    (hfit : (chain.header b.toNat).encode.length ≤ HEADER_LENGTH)
    (hagrees : HintAgrees chain DUMMY_PUBLIC_KEY HEADER_LENGTH MAX_AUTHORITY_SET_SIZE b before) :
    1 ≤ keys.length ∧ keys.length ≤ MAX_AUTHORITY_SET_SIZE ∧
      WindowFits HEADER_LENGTH MAX_AUTHORITY_SET_SIZE b keys before := by
  have hcount := h.lt_of_hintAgrees hfit hagrees
  obtain ⟨data, r, hdata, -, hr, haccept⟩ := hagrees
  have hw := h.writesLog hfit hcount hfield hdata hr
  obtain ⟨length, size, hlog, -⟩ := exists_log_of_rejectsPastEnd hpast hfield (haccept emptyBytes32)
  have hpos := hlog.pos
  rw [hw.numAuthorities] at hpos
  refine ⟨hpos, hw.length_le, ?_⟩
  -- the prefix that the circuit reads is the one of the announcement
  obtain ⟨first, hprefix⟩ := hw.log_headerBytes
  obtain ⟨hlength, hsize⟩ := h.isEncoding
  obtain ⟨rfl, rfl⟩ := logHead_unique hlog.isEncoding_length hlog.isEncoding_size hlength hsize
    hlog.logHead_prefix (logHead_of_epochEndLog hprefix)
  have hroom := hlog.room
  rw [r.targetHeader.headerBytes.length_data, hw.start] at hroom
  exact hroom

/-- With fewer than 64 logs and enough room the circuit accepts the hint. -/
theorem AnnouncesAuthorities.hintAgrees (h : AnnouncesAuthorities chain b keys before after)
    (hfit : (chain.header b.toNat).encode.length ≤ HEADER_LENGTH)
    (hcount : before.length + 1 + after.length < 64) (hfield : HEADER_LENGTH < GOLDILOCKS)
    (hpos : 1 ≤ keys.length) (hmax : keys.length ≤ MAX_AUTHORITY_SET_SIZE)
    (hroom : WindowFits HEADER_LENGTH MAX_AUTHORITY_SET_SIZE b keys before) :
    HintAgrees chain DUMMY_PUBLIC_KEY HEADER_LENGTH MAX_AUTHORITY_SET_SIZE b before := by
  obtain ⟨data, hdata, hbytes, -, -, hstart, hpadded⟩ := h.getHeaderRotate_eq DUMMY_PUBLIC_KEY
    MAX_AUTHORITY_SET_SIZE hfit
  have hbytesLen : data.headerBytes.length = HEADER_LENGTH := by
    rw [hbytes, List.length_append, List.length_replicate, Nat.add_sub_cancel' hfit]
  obtain ⟨r, hr⟩ := exists_toRotateVariable (b := b) hbytesLen
    (show data.paddedPubkeys.length = MAX_AUTHORITY_SET_SIZE by
      rw [hpadded, List.length_append, List.length_replicate, Nat.add_sub_cancel' hmax])
  have hw := h.writesLog hfit hcount hfield hdata hr
  refine ⟨data, r, hdata, by rw [hstart]; exact h.startPosition_iff.mpr hcount, hr, fun hash => ?_⟩
  obtain ⟨hlength, hsize⟩ := h.isEncoding
  obtain ⟨first, hprefix⟩ := hw.log_headerBytes
  refine verifyEpochEndHeader_of_isEpochEndLog hfield (by rw [hw.numAuthorities]; exact hpos)
    (by rw [hw.numAuthorities]; exact hmax) (by rw [hw.numAuthorities]; exact hw.windowsInside h hpos hroom) ?_
  rw [hw.numAuthorities, hw.newPubkeys]
  exact ⟨first, _, _, hlength, hsize, hprefix⟩

end Agreement

/-- **Hint position.** Let the first GRANDPA log of an epoch end header announce the authorities of
the chain, and let the subarray gadget reject what leaves the array. The hint points to the log and
is accepted there if and only if the header has fewer than 64 logs, the circuit has a slot for each
of at least one authority, and the window of the circuit ends inside the padded header. -/
theorem hintAgrees_iff {crypto : Crypto} (chain : EpochChain crypto)
    (DUMMY_PUBLIC_KEY : Bytes32Variable) (HEADER_LENGTH MAX_AUTHORITY_SET_SIZE : ℕ) (b : UInt32)
    (keys : List Bytes32Variable) (before after : List DigestItem)
    (h : AnnouncesAuthorities chain b keys before after) (hpast : crypto.RejectsPastEnd)
    (hfield : HEADER_LENGTH < GOLDILOCKS)
    (hfit : (chain.header b.toNat).encode.length ≤ HEADER_LENGTH) :
    HintAgrees chain DUMMY_PUBLIC_KEY HEADER_LENGTH MAX_AUTHORITY_SET_SIZE b before ↔
      before.length + 1 + after.length < 64 ∧
        1 ≤ keys.length ∧ keys.length ≤ MAX_AUTHORITY_SET_SIZE ∧
        WindowFits HEADER_LENGTH MAX_AUTHORITY_SET_SIZE b keys before := by
  constructor
  · exact fun hagrees =>
      ⟨h.lt_of_hintAgrees hfit hagrees, h.of_hintAgrees hpast hfield hfit hagrees⟩
  · rintro ⟨hcount, hpos, hmax, hroom⟩
    exact h.hintAgrees hfit hcount hfield hpos hmax hroom

/-- The end of the first of two epochs, with the announcement of the second authority after the
given logs. -/
theorem announcesAuthorities_twoEpochChain (before : List DigestItem)
    (hfirst : ∀ log ∈ before, ∀ message, log ≠ .consensus consensusEngineIdBytes message)
    (hlen : before.length < 1000) (hpayload : ∀ log ∈ before, log.payload.length < 1000) :
    AnnouncesAuthorities (Reference.twoEpochChain [] (before ++ [announcement [Reference.pubkey₂]])) 2
      [Reference.pubkey₂] before [] where
  isEpochEnd := ⟨0, Reference.isEpochEnd_twoEpochs⟩
  authorities := rfl
  logs_eq := rfl
  isFirst := hfirst
  encodable := by
    have hlogs : ((Reference.twoEpochChain []
        (before ++ [announcement [Reference.pubkey₂]])).header (2 : UInt32).toNat).logs =
          before ++ [announcement [Reference.pubkey₂]] := rfl
    refine ⟨?_, fun log hlog => ?_⟩
    · rw [hlogs, List.length_append, List.length_singleton]
      omega
    · rw [hlogs, List.mem_append, List.mem_singleton] at hlog
      rcases hlog with hlog | rfl
      · exact Nat.lt_trans (hpayload log hlog) (by decide)
      · decide

/-- The condition for a header with the announcement alone. -/
theorem hintAgrees_iff_single :
    HintAgrees (Reference.twoEpochChain [] [announcement [Reference.pubkey₂]]) emptyBytes32 256 1 2 [] ↔
      0 + 1 + 0 < 64 ∧ 1 ≤ 1 ∧ 1 ≤ 1 ∧
        WindowFits 256 1 2 [Reference.pubkey₂] [] :=
  hintAgrees_iff (Reference.twoEpochChain [] [announcement [Reference.pubkey₂]]) emptyBytes32 256 1 2
    [Reference.pubkey₂] [] [] (announcesAuthorities_twoEpochChain [] (by simp) (by decide) (by simp))
    (Reference.rejectsPastEnd_crypto []) (by decide) (by decide +kernel)

/-- With 63 logs before the announcement the hint points one byte too far to the left. -/
theorem not_hintAgrees :
    ¬ ∀ (crypto : Crypto) (chain : EpochChain crypto) (DUMMY_PUBLIC_KEY : Bytes32Variable)
        (HEADER_LENGTH MAX_AUTHORITY_SET_SIZE : ℕ) (b : UInt32) (keys : List Bytes32Variable)
        (before after : List DigestItem), AnnouncesAuthorities chain b keys before after →
        (chain.header b.toNat).encode.length ≤ HEADER_LENGTH →
        HintAgrees chain DUMMY_PUBLIC_KEY HEADER_LENGTH MAX_AUTHORITY_SET_SIZE b before := by
  intro hclaim
  have hannounces := announcesAuthorities_twoEpochChain
    (List.replicate 63 .runtimeEnvironmentUpdated) (by simp) (by decide) (by simp [DigestItem.payload])
  have hfit : ((Reference.twoEpochChain [] (List.replicate 63 .runtimeEnvironmentUpdated ++
      [announcement [Reference.pubkey₂]])).header (2 : UInt32).toNat).encode.length ≤ 512 := by
    decide +kernel
  have hagrees := hclaim _ _ emptyBytes32 512 1 2 [Reference.pubkey₂] _ [] hannounces hfit
  have hcount := hannounces.lt_of_hintAgrees hfit hagrees
  rw [List.length_replicate, List.length_nil] at hcount
  omega

end VectorX
