import VectorX.Bin.FillBlockRange
import VectorX.Bin.IndexerAcceptance
import VectorX.Bin.Operator
import VectorX.Circuits.RotateCircuit

/-!
# The prover

Reference: `bin/rotate.rs`, `bin/header_range_256.rs` and `bin/header_range_512.rs`. The prover runs
a circuit with the values that its hints fetch from a node. What it proves is what the chain has,
and it proves whatever the chain has justified and the circuit has room for.
-/

namespace VectorX

open Plonky2x Plonky2x.CircuitBuilder
open Bytes (beBytes)
open Contract (rotateInput)

variable {crypto : Crypto}

/-! ## Definitions -/

section Definitions

variable (fetcher : RpcDataFetcher crypto) (DUMMY_PUBLIC_KEY : Bytes32Variable)
  (DUMMY_SIGNATURE : BytesVariable 64)

/-- `RotateCircuit`, with the values of its hints. -/
def proveRotate (MAX_HEADER_SIZE MAX_AUTHORITY_SET_SIZE MAX_SUBARRAY_SIZE : ℕ)
    (input : BytesVariable 40) : Option (List UInt8) := do
  let authoritySetId ← input.subarray 0 8
  let authoritySetId := U64Variable.decode authoritySetId.data
  let rotateVar ← rotateHint fetcher.toEpochChain DUMMY_PUBLIC_KEY MAX_HEADER_SIZE
    MAX_AUTHORITY_SET_SIZE authoritySetId
  let justification ← hintSimpleJustification fetcher DUMMY_PUBLIC_KEY DUMMY_SIGNATURE
    MAX_AUTHORITY_SET_SIZE rotateVar.epochEndBlockNumber authoritySetId
  rotateCircuit crypto MAX_SUBARRAY_SIZE input rotateVar justification

/-- `HeaderRangeCircuit`, with the values of its hints: one for each map job, and one for the
justification. -/
def proveHeaderRange (MAX_AUTHORITY_SET_SIZE MAX_NUM_HEADERS : ℕ) (input : BytesVariable 80) :
    Option (List UInt8) := do
  let trustedBlock ← input.subarray 0 4
  let authoritySetId ← input.subarray 36 8
  let targetBlock ← input.subarray 76 4
  let trustedBlock := U32Variable.decode trustedBlock.data
  let authoritySetId := U64Variable.decode authoritySetId.data
  let targetBlock := U32Variable.decode targetBlock.data
  let headers ← (List.range (numMapJobs MAX_NUM_HEADERS)).mapM
    (hintHeaders fetcher.toChain MAX_NUM_HEADERS trustedBlock targetBlock)
  let justification ← hintSimpleJustification fetcher DUMMY_PUBLIC_KEY DUMMY_SIGNATURE
    MAX_AUTHORITY_SET_SIZE targetBlock authoritySetId
  headerRangeCircuit crypto MAX_NUM_HEADERS input
    (fun j => headers.getD j (ArrayVariable.replicate HEADERS_PER_MAP (emptyHeader MAX_HEADER_SIZE)))
    justification

end Definitions

/-! ## Justified blocks -/

section Justified

variable {fetcher : RpcDataFetcher crypto} {DUMMY_PUBLIC_KEY : Bytes32Variable}
  {DUMMY_SIGNATURE : BytesVariable 64} {NUM_AUTHORITIES : ℕ} {b : UInt32}

variable (fetcher DUMMY_PUBLIC_KEY DUMMY_SIGNATURE NUM_AUTHORITIES b) in
/-- The hint for a block writes a justification by the set before it, which the circuit accepts. -/
def HintJustifies : Prop :=
  ∃ (justification : JustificationVariable NUM_AUTHORITIES) (hash : Bytes32Variable),
    hintSimpleJustification fetcher DUMMY_PUBLIC_KEY DUMMY_SIGNATURE NUM_AUTHORITIES b
      (fetcher.toSetIds.setId (b.toNat - 1)) = some justification ∧
    RpcDataFetcher.computeAuthoritySetHash fetcher.toEpochChain (b - 1) = some hash ∧
    verifySimpleJustification crypto b ((fetcher.header b.toNat).hash crypto)
      (fetcher.toSetIds.setId (b.toNat - 1)) hash justification = some ()

/-- The node has a finality proof for the block: its first precommit is for the block, every
signature is valid for this precommit, and more than two thirds of the authorities have signed. -/
structure Finalizes (fetcher : RpcDataFetcher crypto) (b : UInt32) (authorities : List Bytes32Variable)
    (justification : GrandpaJustification) (first : SignedPrecommit) : Prop where
  proof : fetcher.proveFinality b = some justification
  authorities_eq : getAuthorities fetcher.toEpochChain (b - 1) = some authorities
  first_eq : justification.commit.precommits[0]? = some first
  precommit : first.precommit = ⟨(fetcher.header b.toNat).hash crypto, b⟩
  signatures : ∀ precommit ∈ justification.commit.precommits, signatureValid crypto precommit.id
    (encodeSignerMessage first.precommit justification.round (fetcher.toSetIds.setId (b.toNat - 1)))
    precommit.signature = true
  threshold : 2 * authorities.length < 3 * authorities.countP fun pubkey =>
    justification.commit.precommits.any fun precommit => precommit.id = pubkey

/-- The signatures of a justification, by key. -/
def signatureOf (justification : GrandpaJustification) (pubkey : Bytes32Variable) :
    Option (BytesVariable 64) :=
  signatureMap (justification.commit.precommits.map fun precommit => (precommit.id, precommit.signature))
    pubkey

/-- A finality proof, as a record for the authorities. -/
def finalityRecord (DUMMY_SIGNATURE : BytesVariable 64) (b : UInt32) (authorities : List Bytes32Variable)
    (justification : GrandpaJustification) (signedMessage : List UInt8) : StoredJustificationData where
  blockNumber := b
  signedMessage
  pubkeys := authorities.map ArrayVariable.data
  signatures := authorities.map fun pubkey =>
    ((signatureOf justification pubkey).getD DUMMY_SIGNATURE).data
  validatorSigned := authorities.map fun pubkey => (signatureOf justification pubkey).isSome
  numAuthorities := authorities.length

theorem isSome_signatureOf_iff {justification : GrandpaJustification} {pubkey : Bytes32Variable} :
    (signatureOf justification pubkey).isSome ↔
      ∃ precommit ∈ justification.commit.precommits, precommit.id = pubkey := by
  rw [signatureOf, isSome_signatureMap_iff]
  simp only [List.mem_map, Prod.mk.injEq]
  constructor
  · rintro ⟨_, precommit, hmem, hid, -⟩
    exact ⟨precommit, hmem, hid⟩
  · rintro ⟨precommit, hmem, hid⟩
    exact ⟨_, precommit, hmem, hid, rfl⟩

variable {authorities : List Bytes32Variable} {justification : GrandpaJustification}
  {first : SignedPrecommit}

/-- The signatures of a finality proof are valid. -/
theorem Finalizes.signatureValid_of_mem (h : Finalizes fetcher b authorities justification first)
    {pubkey : Bytes32Variable} {signature : BytesVariable 64}
    (hsig : signatureOf justification pubkey = some signature) :
    signatureValid crypto pubkey (encodeSignerMessage first.precommit justification.round
      (fetcher.toSetIds.setId (b.toNat - 1))) signature = true := by
  obtain ⟨precommit, hmem, heq⟩ := List.mem_map.mp (mem_of_signatureMap hsig)
  obtain ⟨rfl, rfl⟩ := Prod.mk.inj heq
  exact h.signatures precommit hmem

/-- The flags of a finality proof count more than two thirds of the authorities. -/
theorem Finalizes.votes (h : Finalizes fetcher b authorities justification first) :
    2 * authorities.length <
      3 * (authorities.map fun pubkey => (signatureOf justification pubkey).isSome).count true := by
  have hcount : (authorities.map fun pubkey => (signatureOf justification pubkey).isSome).count true =
      authorities.countP fun pubkey =>
        justification.commit.precommits.any fun precommit => precommit.id = pubkey := by
    rw [List.count, List.countP_map]
    refine List.countP_congr fun pubkey _ => ?_
    simp only [Function.comp_apply, beq_true, isSome_signatureOf_iff, List.any_eq_true,
      decide_eq_true_eq]
  rw [hcount]
  exact h.threshold

/-- The branch of the host for an epoch end block. -/
theorem Finalizes.getFinalityProofData_eq (h : Finalizes fetcher b authorities justification first)
    (hpos : 1 ≤ b.toNat) (hhead : b.toNat ≤ fetcher.toSetIds.head.toNat)
    (hmax : authorities.length ≤ NUM_AUTHORITIES) :
    getFinalityProofData fetcher DUMMY_SIGNATURE NUM_AUTHORITIES b =
      some (storedData authorities (finalityRecord DUMMY_SIGNATURE b authorities justification
        (encodeSignerMessage first.precommit justification.round
          (fetcher.toSetIds.setId (b.toNat - 1))))) := by
  obtain ⟨prev, hprev, hprevVal⟩ := checkedSub_one hpos
  have hprevEq : prev = b - 1 := by
    rw [checkedSub, if_pos (UInt32.le_iff_toNat_le.mpr (show (1 : UInt32).toNat ≤ b.toNat from hpos))]
      at hprev
    exact (Option.some.inj hprev).symm
  have hget := getAuthoritySetId_of_le fetcher.toSetIds (b := prev) (by omega)
  rw [hprevVal] at hget
  have hall : (justification.commit.precommits.all fun precommit => signatureValid crypto precommit.id
      (encodeSignerMessage first.precommit justification.round (fetcher.toSetIds.setId (b.toNat - 1)))
      precommit.signature) = true :=
    List.all_eq_true.mpr h.signatures
  have hweight : authorities.countP (fun pubkey => (signatureOf justification pubkey).isSome) =
      (authorities.map fun pubkey => (signatureOf justification pubkey).isSome).count true := by
    rw [List.count, List.countP_map]
    exact List.countP_congr fun pubkey _ => by simp
  simp only [getFinalityProofData, verifySignature_eq, h.proof, hprev, hget,
    hprevEq ▸ h.authorities_eq, h.first_eq, hall,
    Option.bind_eq_bind, Option.bind_some, if_neg (Nat.not_lt.mpr hmax), not_true_eq_false, if_false]
  simp only [storedData, finalityRecord, ← hweight]
  rfl

variable (DUMMY_PUBLIC_KEY DUMMY_SIGNATURE) in
/-- The finality proof of an epoch end block is padded like a record. -/
theorem Finalizes.getJustificationFromBlock_eq
    (h : Finalizes fetcher b authorities justification first)
    (hend : ∃ t, fetcher.toSetIds.IsEpochEnd t b.toNat) (hmax : authorities.length ≤ NUM_AUTHORITIES) :
    getJustificationFromBlock fetcher DUMMY_PUBLIC_KEY DUMMY_SIGNATURE NUM_AUTHORITIES b =
      some (.ok (paddedRecord crypto authorities
        (fun pubkey => (signatureOf justification pubkey).getD DUMMY_SIGNATURE)
        (fun pubkey => (signatureOf justification pubkey).isSome) DUMMY_PUBLIC_KEY DUMMY_SIGNATURE
        NUM_AUTHORITIES (fetcher.toSetIds.setId (b.toNat - 1))
        (encodeSignerMessage first.precommit justification.round
          (fetcher.toSetIds.setId (b.toNat - 1))))) := by
  obtain ⟨t, hhead, hpos, hbefore, hat⟩ := hend
  rw [SetIds.id] at hbefore hat
  obtain ⟨prev, hprev, hprevVal⟩ := checkedSub_one hpos
  have hget := getAuthoritySetId_of_le fetcher.toSetIds hhead
  have hgetPrev := getAuthoritySetId_of_le fetcher.toSetIds (b := prev) (by omega)
  rw [hprevVal] at hgetPrev
  have hlt := (fetcher.toSetIds.setId b.toNat).toNat_lt
  obtain ⟨next, hnext, hnextVal⟩ := checkedAdd64_one
    (a := fetcher.toSetIds.setId (b.toNat - 1)) (by omega)
  have heq : fetcher.toSetIds.setId b.toNat = next := UInt64.toNat_inj.mp (by omega)
  have hrecord : IsRecordOf authorities
      (fun pubkey => (signatureOf justification pubkey).getD DUMMY_SIGNATURE)
      (fun pubkey => (signatureOf justification pubkey).isSome)
      (finalityRecord DUMMY_SIGNATURE b authorities justification
        (encodeSignerMessage first.precommit justification.round
          (fetcher.toSetIds.setId (b.toNat - 1)))) := ⟨rfl, rfl, rfl, rfl⟩
  have hdata : getJustificationData fetcher DUMMY_SIGNATURE NUM_AUTHORITIES b =
      some (.ok (storedData authorities (finalityRecord DUMMY_SIGNATURE b authorities justification
        (encodeSignerMessage first.precommit justification.round
          (fetcher.toSetIds.setId (b.toNat - 1)))))) := by
    simp only [getJustificationData, hget, hprev, hgetPrev, hnext, Option.bind_eq_bind,
      Option.bind_some, if_pos heq, h.getFinalityProofData_eq hpos hhead hmax]
  rw [getJustificationFromBlock, hdata]
  simp only [Option.bind_eq_bind, Option.bind_some, hprev, hgetPrev,
    hrecord.padJustification_eq h.votes]
  rfl

variable (DUMMY_PUBLIC_KEY DUMMY_SIGNATURE) in
/-- **Finality.** The hint justifies an epoch end block that the node has a finality proof for. -/
theorem Finalizes.hintJustifies (h : Finalizes fetcher b authorities justification first)
    (hend : ∃ t, fetcher.toSetIds.IsEpochEnd t b.toNat) (hmax : authorities.length ≤ NUM_AUTHORITIES)
    (hsmall : 3 * authorities.length < 2 ^ 32) :
    HintJustifies fetcher DUMMY_PUBLIC_KEY DUMMY_SIGNATURE NUM_AUTHORITIES b := by
  have hvalid : ∀ k ∈ authorities, (signatureOf justification k).isSome = true →
      signatureValid crypto k (encodeSignerMessage first.precommit justification.round
          (fetcher.toSetIds.setId (b.toNat - 1)))
        ((signatureOf justification k).getD DUMMY_SIGNATURE) = true := by
    intro k _ hsome
    obtain ⟨signature, hsig⟩ := Option.isSome_iff_exists.mp hsome
    rw [hsig, Option.getD_some]
    exact h.signatureValid_of_mem hsig
  have hprecommit := isPrecommit_encodeSignerMessage first.precommit justification.round
    (fetcher.toSetIds.setId (b.toNat - 1))
  rw [congrArg Precommit.targetHash h.precommit, congrArg Precommit.targetNumber h.precommit]
    at hprecommit
  obtain ⟨r, hhint, hr⟩ := exists_hint_of_paddedRecord
    (h.getJustificationFromBlock_eq DUMMY_PUBLIC_KEY DUMMY_SIGNATURE hend hmax)
    (length_encodeSignerMessage _ _ _) hvalid hmax
  have hvotes := h.votes
  obtain ⟨hash, hcommitment⟩ := (exists_authoritySetCommitment crypto (A := authorities)).mpr (by
    rintro rfl
    simp at hvotes)
  refine ⟨r, hash, hhint, ?_,
    hr.verifySimpleJustification_eq hcommitment hprecommit hvalid hsmall hvotes⟩
  rw [RpcDataFetcher.computeAuthoritySetHash, h.authorities_eq, Option.bind_eq_bind, Option.bind_some,
    hashAuthorities_eq]
  exact hcommitment

/-- The hint justifies a block that the store has an accepted record for. -/
theorem AcceptedByCircuit.hintJustifies {stored : StoredJustificationData}
    (h : AcceptedByCircuit fetcher.toEpochChain DUMMY_PUBLIC_KEY DUMMY_SIGNATURE stored)
    (hredis : fetcher.redisJustification stored.blockNumber = some stored)
    (hmax : stored.numAuthorities ≤ NUM_AUTHORITIES) (hsmall : 3 * stored.numAuthorities < 2 ^ 32) :
    HintJustifies fetcher DUMMY_PUBLIC_KEY DUMMY_SIGNATURE NUM_AUTHORITIES stored.blockNumber :=
  h fetcher NUM_AUTHORITIES rfl hredis hmax hsmall

end Justified

/-! ## Rotations -/

section Rotations

variable {chain : EpochChain crypto} {DUMMY_PUBLIC_KEY : Bytes32Variable} {b : UInt32}
  {HEADER_LENGTH MAX_AUTHORITY_SET_SIZE : ℕ}

/-- The data for a rotation are those of the chain at the epoch end block, which is not block 0. -/
theorem getHeaderRotate_eq_some {data : HeaderRotateData}
    (h : getHeaderRotate chain DUMMY_PUBLIC_KEY HEADER_LENGTH MAX_AUTHORITY_SET_SIZE b = some data) :
    1 ≤ b.toNat ∧ ∃ keys, getAuthorities chain b = some keys ∧
      (chain.header b.toNat).encode.length ≤ HEADER_LENGTH ∧
      data.headerBytes = (chain.header b.toNat).encode ++
        List.replicate (HEADER_LENGTH - (chain.header b.toNat).encode.length) 0 ∧
      data.headerSize = (chain.header b.toNat).encode.length ∧ data.numAuthorities = keys.length ∧
      data.paddedPubkeys =
        keys ++ List.replicate (MAX_AUTHORITY_SET_SIZE - keys.length) DUMMY_PUBLIC_KEY := by
  simp only [getHeaderRotate, Option.bind_eq_bind, Option.bind_eq_some_iff] at h
  obtain ⟨-, -, prev, hprev, -, -, -, -, -, -, header, hheader, h⟩ := h
  refine ⟨(checkedSub_eq_some hprev).1, ?_⟩
  split at h
  · exact absurd h (by simp)
  · rename_i hfit
    simp only [Option.bind_eq_some_iff, Option.some.injEq] at h
    obtain ⟨keys, hkeys, position, -, rfl⟩ := h
    rw [getHeader] at hheader
    split at hheader
    · cases hheader
      exact ⟨keys, hkeys, Nat.not_lt.mp hfit, rfl, rfl, rfl, rfl⟩
    · exact absurd hheader (by simp)

/-- The hint for a rotation writes the header of the last block that the set justifies, with the
authorities after it. -/
theorem carries_of_rotateHint {id : UInt64} {r : RotateVariable HEADER_LENGTH MAX_AUTHORITY_SET_SIZE}
    (hfield : MAX_AUTHORITY_SET_SIZE < GOLDILOCKS) (hlength : HEADER_LENGTH < 2 ^ 32)
    (h : rotateHint chain DUMMY_PUBLIC_KEY HEADER_LENGTH MAX_AUTHORITY_SET_SIZE id = some r) :
    ∃ b keys, lastJustifiedBlock chain.toSetIds id = some b ∧ getAuthorities chain b = some keys ∧
      r.epochEndBlockNumber = b ∧
      hashEncodedHeader crypto r.targetHeader = some ((chain.header b.toNat).hash crypto) ∧
      r.newPubkeys.data.take r.targetHeaderNumAuthorities.val = keys := by
  simp only [rotateHint, rotateHintAt, Option.bind_eq_bind, Option.bind_eq_some_iff] at h
  obtain ⟨b, hb, data, hdata, h⟩ := h
  split at h
  · exact absurd h (by simp)
  rename_i hmax
  obtain ⟨-, keys, hkeys, hfit, hbytes, hsize, hnum, hpadded⟩ := getHeaderRotate_eq_some hdata
  obtain ⟨hblock, hrBytes, hrSize, hrNum, -, hrKeys⟩ := HeaderRotateData.toRotateVariable_eq_some.mp h
  have hcarries : r.targetHeader.Carries
      ⟨(chain.header b.toNat).encode, hfit, Nat.lt_of_le_of_lt hfit hlength⟩ := by
    refine ⟨?_, ?_⟩
    · rw [hrSize, hsize, UInt32.toNat_ofNat', Nat.mod_eq_of_lt (Nat.lt_of_le_of_lt hfit hlength)]
    · rw [hrBytes, hbytes, List.take_left]
  have hnVal : r.targetHeaderNumAuthorities.val = keys.length := by
    rw [hrNum, hnum, Variable.val_ofNat_of_lt (by omega)]
  refine ⟨b, keys, hb, hkeys, hblock, hcarries.hashEncodedHeader_eq, ?_⟩
  rw [hnVal, hrKeys, hpadded, List.take_left]

variable {fetcher : RpcDataFetcher crypto} {DUMMY_SIGNATURE : BytesVariable 64}
  {MAX_SUBARRAY_SIZE : ℕ} {id : UInt64} {hash : Bytes32Variable} {input : BytesVariable 40}
  {bytes : List UInt8}

/-- The prover on an input that the contract has packed. -/
theorem proveRotate_rotateInput (hinput : input.data = rotateInput id hash) :
    proveRotate fetcher DUMMY_PUBLIC_KEY DUMMY_SIGNATURE HEADER_LENGTH MAX_AUTHORITY_SET_SIZE
        MAX_SUBARRAY_SIZE input = some bytes ↔
      ∃ r justification output,
        rotateHint fetcher.toEpochChain DUMMY_PUBLIC_KEY HEADER_LENGTH MAX_AUTHORITY_SET_SIZE id =
          some r ∧
        hintSimpleJustification fetcher DUMMY_PUBLIC_KEY DUMMY_SIGNATURE MAX_AUTHORITY_SET_SIZE
          r.epochEndBlockNumber id = some justification ∧
        rotate crypto MAX_SUBARRAY_SIZE id hash r justification = some output ∧
        bytes = output.data := by
  have hfirst : input.data = [] ++ beBytes 8 id.toNat ++ hash.data := hinput
  have hid := subarray_of_append hfirst List.length_nil (Bytes.length_beBytes _ _)
  simp only [proveRotate, hid, Option.bind_eq_bind, Option.bind_some, U64Variable.decode_beBytes,
    Option.bind_eq_some_iff, rotateCircuit_rotateInput hinput]
  constructor
  · rintro ⟨r, hr, justification, hjust, output, hrotate, rfl⟩
    exact ⟨r, justification, output, hr, hjust, hrotate, rfl⟩
  · rintro ⟨r, justification, output, hr, hjust, hrotate, rfl⟩
    exact ⟨r, hr, justification, hjust, output, hrotate, rfl⟩

/-- What the prover proves for a rotation is the hash of the authorities after the last block that
the set justifies, and there is such a block. -/
theorem proveRotate_canonical (hfield : MAX_AUTHORITY_SET_SIZE < GOLDILOCKS)
    (hinput : input.data = rotateInput id hash)
    (h : proveRotate fetcher DUMMY_PUBLIC_KEY DUMMY_SIGNATURE HEADER_LENGTH MAX_AUTHORITY_SET_SIZE
      MAX_SUBARRAY_SIZE input = some bytes) :
    ∃ (b : UInt32) (output : Bytes32Variable), fetcher.toSetIds.IsEpochEnd id.toNat b.toNat ∧
      RpcDataFetcher.computeAuthoritySetHash fetcher.toEpochChain b = some output ∧
      bytes = output.data := by
  obtain ⟨r, justification, output, hr, -, hrotate, rfl⟩ := (proveRotate_rotateInput hinput).mp h
  rw [rotateHint, Option.bind_eq_bind, Option.bind_eq_some_iff] at hr
  obtain ⟨b, hb, hr⟩ := hr
  refine ⟨b, output, ?_, rotate_of_rotateHintAt hfield hr hrotate, rfl⟩
  simp only [rotateHintAt, Option.bind_eq_bind, Option.bind_eq_some_iff] at hr
  obtain ⟨data, hdata, -⟩ := hr
  have hpos := (getHeaderRotate_eq_some hdata).1
  refine (lastJustifiedBlock_eq_some hb).resolve_right fun hzero => ?_
  rw [hzero.2.1] at hpos
  exact absurd hpos (by decide)

/-- The first GRANDPA log of the header announces the authorities after it, and the circuit has room
for the header and the log. -/
structure Announces (chain : EpochChain crypto) (HEADER_LENGTH MAX_AUTHORITY_SET_SIZE : ℕ) (b : UInt32)
    (keys : List Bytes32Variable) (before after : List DigestItem) : Prop where
  announces : AnnouncesAuthorities chain b keys before after
  fits : (chain.header b.toNat).encode.length ≤ HEADER_LENGTH
  count_lt : before.length + 1 + after.length < 64
  length_pos : 1 ≤ keys.length
  length_le : keys.length ≤ MAX_AUTHORITY_SET_SIZE
  window : WindowFits HEADER_LENGTH MAX_AUTHORITY_SET_SIZE b keys before

variable (DUMMY_PUBLIC_KEY) in
/-- The hint for a rotation writes the log of the epoch end block, and the circuit accepts it. -/
theorem Announces.exists_rotateHint {keys : List Bytes32Variable} {before after : List DigestItem}
    (h : Announces chain HEADER_LENGTH MAX_AUTHORITY_SET_SIZE b keys before after)
    (hfield : HEADER_LENGTH < GOLDILOCKS) (hlast : lastJustifiedBlock chain.toSetIds id = some b) :
    ∃ r, rotateHint chain DUMMY_PUBLIC_KEY HEADER_LENGTH MAX_AUTHORITY_SET_SIZE id = some r ∧
      ∀ hash, verifyEpochEndHeader crypto (MAX_AUTHORITY_SET_SIZE * VALIDATOR_LENGTH + DELAY_LENGTH)
        r.targetHeader hash r.targetHeaderNumAuthorities r.nextAuthoritySetStartPosition r.newPubkeys =
          some () := by
  have hagrees : HintAgrees chain DUMMY_PUBLIC_KEY HEADER_LENGTH MAX_AUTHORITY_SET_SIZE b before :=
    h.announces.hintAgrees h.fits h.count_lt hfield h.length_pos h.length_le h.window
  obtain ⟨data, r, hdata, -, hr, haccept⟩ := hagrees
  obtain ⟨-, keys', hkeys', -, -, -, hnum, -⟩ := getHeaderRotate_eq_some hdata
  obtain rfl := Option.some.inj (hkeys'.symm.trans h.announces.authorities)
  refine ⟨r, ?_, haccept⟩
  simp only [rotateHint, rotateHintAt, hlast, hdata, Option.bind_eq_bind, Option.bind_some]
  rw [if_neg (Nat.not_lt.mpr (hnum ▸ h.length_le))]
  exact hr

/-- **Rotation.** Where the hint justifies the last block of a set, the prover proves the rotation
to the authorities that the block announces. -/
theorem proveRotate_of_hintJustifies {keys : List Bytes32Variable} {before after : List DigestItem}
    (hannounces : Announces fetcher.toEpochChain HEADER_LENGTH MAX_AUTHORITY_SET_SIZE b keys before after)
    (hfield : MAX_AUTHORITY_SET_SIZE < GOLDILOCKS) (hlength : HEADER_LENGTH < 2 ^ 32)
    (hsubarray : MAX_SUBARRAY_SIZE = MAX_AUTHORITY_SET_SIZE * VALIDATOR_LENGTH + DELAY_LENGTH)
    (hlast : lastJustifiedBlock fetcher.toSetIds id = some b)
    (hid : fetcher.toSetIds.setId (b.toNat - 1) = id)
    (hjust : HintJustifies fetcher DUMMY_PUBLIC_KEY DUMMY_SIGNATURE MAX_AUTHORITY_SET_SIZE b)
    (hhash : RpcDataFetcher.computeAuthoritySetHash fetcher.toEpochChain (b - 1) = some hash)
    (hinput : input.data = rotateInput id hash) :
    ∃ output, RpcDataFetcher.computeAuthoritySetHash fetcher.toEpochChain b = some output ∧
      proveRotate fetcher DUMMY_PUBLIC_KEY DUMMY_SIGNATURE HEADER_LENGTH MAX_AUTHORITY_SET_SIZE
        MAX_SUBARRAY_SIZE input = some output.data := by
  obtain ⟨justification, hash', hhint, hhash', haccept⟩ := hjust
  obtain rfl := Option.some.inj (hhash'.symm.trans hhash)
  obtain ⟨r, hr, hlog⟩ := hannounces.exists_rotateHint DUMMY_PUBLIC_KEY
    (Nat.lt_trans hlength two_pow_32_lt_goldilocks) hlast
  obtain ⟨b', keys', hlast', hkeys', hblock, hheader, htake⟩ := carries_of_rotateHint hfield hlength hr
  obtain rfl := Option.some.inj (hlast'.symm.trans hlast)
  obtain rfl := Option.some.inj (hkeys'.symm.trans hannounces.announces.authorities)
  obtain ⟨output, hcommitment⟩ := (exists_authoritySetCommitment crypto (A := keys')).mpr
    (List.ne_nil_of_length_pos hannounces.length_pos)
  refine ⟨output, ?_, (proveRotate_rotateInput hinput).mpr ⟨r, justification, output, hr, ?_, ?_, rfl⟩⟩
  · rw [RpcDataFetcher.computeAuthoritySetHash, hkeys', Option.bind_eq_bind, Option.bind_some,
      hashAuthorities_eq]
    exact hcommitment
  · rw [hblock, ← hid]
    exact hhint
  · refine rotate_eq_some.mpr ⟨hsubarray, _, hheader, ?_, ?_, ?_⟩
    · rw [hblock, ← hid]
      exact haccept
    · rw [hsubarray]
      exact hlog _
    · rw [htake]
      exact hcommitment

end Rotations

/-! ## Header ranges -/

section HeaderRanges

variable {chain : Chain crypto} {MAX_NUM_HEADERS : ℕ} {T G : UInt32}

/-- The headers that the hints write, as the prover collects them. -/
theorem hintsWrite_of_mapM
    {headers : List (ArrayVariable (EncodedHeaderVariable MAX_HEADER_SIZE) HEADERS_PER_MAP)}
    (h : (List.range (numMapJobs MAX_NUM_HEADERS)).mapM (hintHeaders chain MAX_NUM_HEADERS T G) =
      some headers) (d : ArrayVariable (EncodedHeaderVariable MAX_HEADER_SIZE) HEADERS_PER_MAP) :
    HintsWrite chain MAX_NUM_HEADERS T G fun j => headers.getD j d := by
  intro j hj
  have hget := (TreeReduce.getElem?_of_mapM h).2 j
  rw [List.getElem?_range hj, Option.bind_some] at hget
  obtain ⟨hint, hhint⟩ := TreeReduce.exists_of_mapM h j (List.mem_range.mpr hj)
  rw [hhint] at hget ⊢
  show some hint = some (headers.getD j d)
  rw [List.getD_eq_getElem?_getD, hget, Option.getD_some]

/-- On the headers that the hints write, the circuit returns the commitments of the chain. -/
theorem HintsWrite.verifySubchain_eq
    {headers : ℕ → ArrayVariable (EncodedHeaderVariable MAX_HEADER_SIZE) HEADERS_PER_MAP}
    (h : HintsWrite chain MAX_NUM_HEADERS T G headers) (hlt : T.toNat < G.toNat)
    (hrange : G.toNat ≤ T.toNat + 8 * numMapJobs MAX_NUM_HEADERS)
    (hbound : T.toNat + 8 * numMapJobs MAX_NUM_HEADERS < 2 ^ 32)
    (hfirst : chain.first.toNat ≤ T.toNat) (hhead : G.toNat ≤ chain.head.toNat) :
    verifySubchain crypto MAX_NUM_HEADERS T ((chain.header T.toNat).hash crypto) G headers =
      some (chainOutput chain (treeDepth MAX_NUM_HEADERS) T G) := by
  have hk : T.toNat + (G.toNat - T.toNat) = G.toNat := Nat.add_sub_cancel' hlt.le
  have hread := h.readsSlots (by omega) hbound hk (by omega) hfirst hhead
  exact (verifySubchain_eq_some (by omega) (by omega) hread (by omega) hk).mpr
    ⟨by omega, isSubchain_honestBlock (by omega) hfirst (by omega), rfl⟩

variable {fetcher : RpcDataFetcher crypto} {DUMMY_PUBLIC_KEY : Bytes32Variable}
  {DUMMY_SIGNATURE : BytesVariable 64} {MAX_AUTHORITY_SET_SIZE : ℕ} {id : UInt64}
  {hash authoritySetHash : Bytes32Variable} {bytes : List UInt8}

/-- The prover on an input that the contract has packed. -/
theorem exists_of_proveHeaderRange
    (h : proveHeaderRange fetcher DUMMY_PUBLIC_KEY DUMMY_SIGNATURE MAX_AUTHORITY_SET_SIZE MAX_NUM_HEADERS
      (packHeaderRangeInput T hash id authoritySetHash G) = some bytes) :
    ∃ headers justification, HintsWrite fetcher.toChain MAX_NUM_HEADERS T G headers ∧
      hintSimpleJustification fetcher DUMMY_PUBLIC_KEY DUMMY_SIGNATURE MAX_AUTHORITY_SET_SIZE G id =
        some justification ∧
      headerRangeCircuit crypto MAX_NUM_HEADERS (packHeaderRangeInput T hash id authoritySetHash G)
        headers justification = some bytes := by
  obtain ⟨hT, -, hid, -, hG⟩ := subarray_packHeaderRangeInput
    (show (packHeaderRangeInput T hash id authoritySetHash G).data =
      (packHeaderRangeInput T hash id authoritySetHash G).data from rfl)
  simp only [proveHeaderRange, hT, hid, hG, Option.bind_eq_bind, Option.bind_some,
    U32Variable.decode_beBytes, U64Variable.decode_beBytes, Option.bind_eq_some_iff] at h
  obtain ⟨headers, hheaders, justification, hjust, haccept⟩ := h
  exact ⟨_, justification, hintsWrite_of_mapM hheaders _, hjust, haccept⟩

/-- What the prover proves for a header range are the commitments of the chain, up to its head. -/
theorem proveHeaderRange_canonical (hlt : T.toNat < G.toNat)
    (hbound : T.toNat + 8 * numMapJobs MAX_NUM_HEADERS < 2 ^ 32)
    (h : proveHeaderRange fetcher DUMMY_PUBLIC_KEY DUMMY_SIGNATURE MAX_AUTHORITY_SET_SIZE MAX_NUM_HEADERS
      (packHeaderRangeInput T ((fetcher.header T.toNat).hash crypto) id authoritySetHash G) =
        some bytes) :
    G.toNat ≤ fetcher.toSetIds.head.toNat ∧
      bytes = (chainOutput fetcher.toChain (treeDepth MAX_NUM_HEADERS) T G).bytes := by
  obtain ⟨headers, justification, hwrite, hhint, haccept⟩ := exists_of_proveHeaderRange h
  have hhead : G.toNat ≤ fetcher.toSetIds.head.toNat := by
    rw [hintSimpleJustification, Option.bind_eq_bind, Option.bind_eq_some_iff] at hhint
    obtain ⟨j, hj, -⟩ := hhint
    exact VectorXOperator.le_head_of_getJustificationFromBlock hj
  obtain ⟨o, hsubchain, -, rfl⟩ := headerRangeCircuit_pack.mp haccept
  obtain ⟨-, -, hle, -, -⟩ := exists_isSubchain (UInt32.lt_iff_toNat_lt.mpr hlt) hbound hsubchain
  have heq := hwrite.verifySubchain_eq hlt (by omega) hbound (fetcher.first_le _) hhead
  exact ⟨hhead, congrArg SubchainVerificationVariable.bytes
    (Option.some.inj (hsubchain.symm.trans heq))⟩

/-- **Header range.** Where the hint justifies the target, the prover proves the range, unless a
group of 200 requests that starts with the first header of the last batch overflows. -/
theorem proveHeaderRange_of_hintJustifies
    (hjust : HintJustifies fetcher DUMMY_PUBLIC_KEY DUMMY_SIGNATURE MAX_AUTHORITY_SET_SIZE G)
    (hid : fetcher.toSetIds.setId (G.toNat - 1) = id)
    (hset : RpcDataFetcher.computeAuthoritySetHash fetcher.toEpochChain (G - 1) = some authoritySetHash)
    (hlt : T.toNat < G.toNat) (hrange : G.toNat ≤ T.toNat + 8 * numMapJobs MAX_NUM_HEADERS)
    (hbound : T.toNat + 8 * numMapJobs MAX_NUM_HEADERS < 2 ^ 32)
    (hhead : G.toNat ≤ fetcher.toChain.head.toNat)
    (hfit : HeadersFit fetcher.toChain T.toNat G.toNat) :
    proveHeaderRange fetcher DUMMY_PUBLIC_KEY DUMMY_SIGNATURE MAX_AUTHORITY_SET_SIZE MAX_NUM_HEADERS
        (packHeaderRangeInput T ((fetcher.header T.toNat).hash crypto) id authoritySetHash G) =
      if T.toNat + 8 * ((G.toNat - T.toNat - 1) / 8) + 201 < 2 ^ 32 then
        some (chainOutput fetcher.toChain (treeDepth MAX_NUM_HEADERS) T G).bytes
      else none := by
  have hk : T.toNat + (G.toNat - T.toNat) = G.toNat := Nat.add_sub_cancel' hlt.le
  split
  · rename_i hover
    obtain ⟨justification, hash, hhint, hhash, haccept⟩ := hjust
    obtain rfl := Option.some.inj (hhash.symm.trans hset)
    rw [hid] at hhint haccept
    obtain ⟨headers, hheaders⟩ : ∃ headers, (List.range (numMapJobs MAX_NUM_HEADERS)).mapM
        (hintHeaders fetcher.toChain MAX_NUM_HEADERS T G) = some headers := by
      rw [← hk] at hfit
      refine TreeReduce.mapM_isSome _ fun j hj =>
        ⟨ofSlots (honestSlot fetcher.toChain T.toNat (G.toNat - T.toNat)) j, ?_⟩
      exact hintHeaders_eq (by omega) (by omega) hk (fetcher.first_le _) hhead hfit
        (List.mem_range.mp hj) fun hjk => by omega
    have hsubchain := (hintsWrite_of_mapM hheaders
      (ArrayVariable.replicate HEADERS_PER_MAP
        (emptyHeader MAX_HEADER_SIZE))).verifySubchain_eq hlt hrange
        hbound (fetcher.first_le _) hhead
    obtain ⟨hT, -, hidInput, -, hG⟩ := subarray_packHeaderRangeInput
      (show (packHeaderRangeInput T ((fetcher.header T.toNat).hash crypto) id hash G).data =
        (packHeaderRangeInput T ((fetcher.header T.toNat).hash crypto) id hash G).data from rfl)
    simp only [proveHeaderRange, hT, hidInput, hG, Option.bind_eq_bind, Option.bind_some,
      U32Variable.decode_beBytes, U64Variable.decode_beBytes, hheaders, hhint]
    refine headerRangeCircuit_pack.mpr ⟨_, hsubchain, ?_, rfl⟩
    rw [targetHeaderHash_chainOutput _ _ hlt]
    exact haccept
  · rename_i hover
    by_contra hne
    obtain ⟨bytes, hbytes⟩ := Option.ne_none_iff_exists'.mp hne
    obtain ⟨headers, -, hwrite, -, -⟩ := exists_of_proveHeaderRange hbytes
    have hlast := of_hintHeaders_eq_some (s := G.toNat - T.toNat - 1) (by omega) (by omega) hk
      (fetcher.first_le _) hhead (by omega) (by omega) (by omega)
      (hwrite ((G.toNat - T.toNat - 1) / 8) (by omega))
    omega

end HeaderRanges

/-! ## Main results -/

/-- **Provable rotations.** Let the node have a finality proof for the last block of a set, whose
log announces the next authorities, and let the circuit have room for both. Then the prover proves
the rotation from the hash of the set to the hash of the next one. -/
theorem proveRotate_of_finalizes {crypto : Crypto} (fetcher : RpcDataFetcher crypto)
    (DUMMY_PUBLIC_KEY : Bytes32Variable) (DUMMY_SIGNATURE : BytesVariable 64)
    (HEADER_LENGTH MAX_AUTHORITY_SET_SIZE : ℕ) (id : UInt64) (b : UInt32)
    (authorities keys : List Bytes32Variable) (before after : List DigestItem)
    (justification : GrandpaJustification) (first : SignedPrecommit)
    (hhead : fetcher.toSetIds.head.toNat < 2 ^ 31)
    (hend : fetcher.toSetIds.IsEpochEnd id.toNat b.toNat)
    (hfinal : Finalizes fetcher b authorities justification first)
    (hannounces : Announces fetcher.toEpochChain HEADER_LENGTH MAX_AUTHORITY_SET_SIZE b keys before after)
    (hmax : authorities.length ≤ MAX_AUTHORITY_SET_SIZE) (hsize : 3 * MAX_AUTHORITY_SET_SIZE < 2 ^ 32)
    (hlength : HEADER_LENGTH < 2 ^ 32) :
    ∃ hash output, RpcDataFetcher.computeAuthoritySetHash fetcher.toEpochChain (b - 1) = some hash ∧
      RpcDataFetcher.computeAuthoritySetHash fetcher.toEpochChain b = some output ∧
      ∀ input : BytesVariable 40, input.data = rotateInput id hash →
        proveRotate fetcher DUMMY_PUBLIC_KEY DUMMY_SIGNATURE HEADER_LENGTH MAX_AUTHORITY_SET_SIZE
          (MAX_AUTHORITY_SET_SIZE * VALIDATOR_LENGTH + DELAY_LENGTH) input = some output.data := by
  have hjust : HintJustifies fetcher DUMMY_PUBLIC_KEY DUMMY_SIGNATURE MAX_AUTHORITY_SET_SIZE b :=
    hfinal.hintJustifies DUMMY_PUBLIC_KEY DUMMY_SIGNATURE ⟨_, hend⟩ hmax (by omega)
  have ⟨_, hash, _, hhash, _⟩ := hjust
  have hlt := (fetcher.toSetIds.setId b.toNat).toNat_lt
  have hat := hend.2.at_eq
  have hbefore := hend.2.before
  rw [SetIds.id] at hat hbefore
  have hlast := lastJustifiedBlock_of_isEpochEnd (by omega) hhead hend
  have hgold := two_pow_32_lt_goldilocks
  have hprove : ∀ input : BytesVariable 40, input.data = rotateInput id hash → ∃ output,
      RpcDataFetcher.computeAuthoritySetHash fetcher.toEpochChain b = some output ∧
      proveRotate fetcher DUMMY_PUBLIC_KEY DUMMY_SIGNATURE HEADER_LENGTH MAX_AUTHORITY_SET_SIZE
        (MAX_AUTHORITY_SET_SIZE * VALIDATOR_LENGTH + DELAY_LENGTH) input = some output.data :=
    fun input hinput => proveRotate_of_hintJustifies hannounces (by omega) hlength rfl hlast
      (UInt64.toNat_inj.mp hbefore) hjust hhash hinput
  obtain ⟨output, houtput, -⟩ := hprove ⟨rotateInput id hash, by
    rw [rotateInput, List.length_append, Bytes.length_beBytes, hash.length_data]⟩ rfl
  refine ⟨hash, output, hhash, houtput, fun input hinput => ?_⟩
  obtain ⟨output', houtput', hproved⟩ := hprove input hinput
  rw [hproved, Option.some.inj (houtput'.symm.trans houtput)]

/-- The log at the end of the first of two epochs. -/
def epochEndLogs : List DigestItem := [announcement [Reference.pubkey₂]]

/-- The precommit for that block. -/
def epochEndPrecommit : Precommit where
  targetHash := Reference.blockHash (Reference.logHeader (fun n => if n = 2 then epochEndLogs else []) 2)
  targetNumber := 2

/-- The signature of the first authority on it, in round 0 of the first authority set. -/
def epochEndSignature : BytesVariable 64 :=
  ⟨[186, 87, 148, 227, 159, 152, 127, 57, 105, 198, 164, 117, 88, 219, 121, 100, 130, 43, 179, 6, 230,
    91, 226, 114, 114, 208, 203, 243, 81, 85, 145, 201, 227, 4, 145, 34, 64, 194, 200, 161, 102, 10, 137,
    202, 104, 17, 207, 173, 72, 114, 207, 241, 211, 142, 105, 13, 141, 52, 14, 81, 234, 243, 144, 6], rfl⟩

/-- The first authority has signed the end of its epoch. -/
def epochEndSigned : List Reference.SignedMessage :=
  [⟨Reference.pubkey₁, encodeSignerMessage epochEndPrecommit 0 0, signatureVariable epochEndSignature⟩]

theorem signatureValid_epochEndSignature :
    signatureValid (Reference.crypto epochEndSigned) Reference.pubkey₁
      (encodeSignerMessage epochEndPrecommit 0 0) epochEndSignature = true := by
  simp only [signatureValid, Reference.crypto, Reference.primitives, epochEndSigned,
    List.mem_cons_self, decide_true]

/-- The finality proof for the end of the first epoch. -/
def epochEndProof : GrandpaJustification where
  round := 0
  commit :=
    { targetHash := epochEndPrecommit.targetHash
      targetNumber := 2
      precommits := [⟨epochEndPrecommit, epochEndSignature, Reference.pubkey₁⟩] }

/-- A node that serves it. -/
def epochEndFetcher : RpcDataFetcher (Reference.crypto epochEndSigned) :=
  { Reference.twoEpochChain epochEndSigned epochEndLogs with
    proveFinality := fun b => if b = 2 then some epochEndProof else none
    redisJustification := fun _ => none }

/-- What the block announces does not depend on the signatures. -/
theorem announcesAuthorities_epochEndFetcher :
    AnnouncesAuthorities epochEndFetcher.toEpochChain 2 [Reference.pubkey₂] [] [] where
  isEpochEnd := ⟨0, Reference.isEpochEnd_twoEpochs⟩
  authorities := rfl
  logs_eq := rfl
  isFirst _ h := absurd h List.not_mem_nil
  encodable :=
    have h := (announcesAuthorities_twoEpochChain [] (by simp) (by decide) (by simp)).encodable
    ⟨h.logs_lt, h.payload_lt⟩

/-- The rotation at the end of the first of two epochs, with one slot for an authority. -/
theorem proveRotate_of_finalizes_twoEpochs :
    ∃ hash output,
      RpcDataFetcher.computeAuthoritySetHash epochEndFetcher.toEpochChain (2 - 1) = some hash ∧
      RpcDataFetcher.computeAuthoritySetHash epochEndFetcher.toEpochChain 2 = some output ∧
      ∀ input : BytesVariable 40, input.data = rotateInput 0 hash →
        proveRotate epochEndFetcher emptyBytes32 (ArrayVariable.replicate 64 0) 256 1
          (1 * VALIDATOR_LENGTH + DELAY_LENGTH) input = some output.data := by
  refine proveRotate_of_finalizes epochEndFetcher emptyBytes32 (ArrayVariable.replicate 64 0) 256 1 0 2
    [Reference.pubkey₁] [Reference.pubkey₂] [] [] epochEndProof
    ⟨epochEndPrecommit, epochEndSignature, Reference.pubkey₁⟩ (by decide)
    Reference.isEpochEnd_twoEpochs ⟨rfl, rfl, rfl, rfl, ?_, ?_⟩ ?_ (by decide) (by decide) (by decide)
  · intro precommit hmem
    have hid : epochEndFetcher.toSetIds.setId ((2 : UInt32).toNat - 1) = 0 := rfl
    rw [List.mem_singleton.mp hmem, hid]
    exact signatureValid_epochEndSignature
  · decide
  · exact ⟨announcesAuthorities_epochEndFetcher, by decide +kernel, by decide, by decide, by decide,
      by rw [WindowFits]; decide⟩

/-- **Provable ranges.** Let the indexer have stored a justification whose precommits support its
target, and let the circuit have room for the authorities and the headers. Then the prover proves
every range that ends in the target, unless a group of 200 requests that starts with the first
header of the last batch overflows. -/
theorem proveHeaderRange_of_supportsTarget {crypto : Crypto} (fetcher : RpcDataFetcher crypto)
    (DUMMY_PUBLIC_KEY : Bytes32Variable) (DUMMY_SIGNATURE : BytesVariable 64)
    (MAX_AUTHORITY_SET_SIZE MAX_NUM_HEADERS : ℕ) (T : UInt32) (justification : GrandpaJustification)
    (stored : StoredJustificationData)
    (hlisten : listenForJustification fetcher.toEpochChain DUMMY_SIGNATURE justification =
      some (some stored))
    (hsupports : SupportsTarget fetcher.toEpochChain justification)
    (hredis : fetcher.redisJustification stored.blockNumber = some stored)
    (hmax : stored.numAuthorities ≤ MAX_AUTHORITY_SET_SIZE) (hsize : 3 * MAX_AUTHORITY_SET_SIZE < 2 ^ 32)
    (hlt : T < stored.blockNumber)
    (hrange : stored.blockNumber.toNat ≤ T.toNat + 8 * numMapJobs MAX_NUM_HEADERS)
    (hbound : T.toNat + 8 * numMapJobs MAX_NUM_HEADERS < 2 ^ 32)
    (hfit : HeadersFit fetcher.toChain T.toNat stored.blockNumber.toNat) :
    ∃ hash, RpcDataFetcher.computeAuthoritySetHash fetcher.toEpochChain (stored.blockNumber - 1) =
        some hash ∧
      proveHeaderRange fetcher DUMMY_PUBLIC_KEY DUMMY_SIGNATURE MAX_AUTHORITY_SET_SIZE MAX_NUM_HEADERS
          (packHeaderRangeInput T ((fetcher.header T.toNat).hash crypto)
            (fetcher.toSetIds.setId (stored.blockNumber.toNat - 1)) hash stored.blockNumber) =
        if T.toNat + 8 * ((stored.blockNumber.toNat - T.toNat - 1) / 8) + 201 < 2 ^ 32 then
          some (chainOutput fetcher.toChain (treeDepth MAX_NUM_HEADERS) T stored.blockNumber).bytes
        else none := by
  have haccepted := FitsCircuit.accepted DUMMY_PUBLIC_KEY hlisten
    ((fitsCircuit_iff_supportsTarget hlisten).mpr hsupports)
  have hjust : HintJustifies fetcher DUMMY_PUBLIC_KEY DUMMY_SIGNATURE MAX_AUTHORITY_SET_SIZE
    stored.blockNumber := haccepted.hintJustifies hredis hmax (by omega)
  have ⟨_, hash, _, hhash, _⟩ := hjust
  obtain ⟨block, -, -, -, -, -, hnumber, -, hhead, -⟩ := listenForJustification_eq_some hlisten
  exact ⟨hash, hhash, proveHeaderRange_of_hintJustifies hjust rfl hhash
    (UInt32.lt_iff_toNat_lt.mp hlt) hrange hbound (hnumber ▸ hhead) hfit⟩

/-- A node that serves the record for block 1 of two epochs without logs. -/
def indexedFetcher : RpcDataFetcher (Reference.crypto indexedSigned) :=
  { indexedChain with
    proveFinality := fun _ => none
    redisJustification := fun b => if b = 1 then some (indexedRecord 1) else none }

/-- The range from block 0 to block 1, which the first authority has signed. -/
theorem proveHeaderRange_of_supportsTarget_one :
    ∃ hash, RpcDataFetcher.computeAuthoritySetHash indexedFetcher.toEpochChain (1 - 1) = some hash ∧
      proveHeaderRange indexedFetcher emptyBytes32 (ArrayVariable.replicate 64 0) 1 8
          (packHeaderRangeInput 0 ((indexedFetcher.header 0).hash (Reference.crypto indexedSigned))
            (indexedFetcher.toSetIds.setId (1 - 1)) hash 1) =
        if 0 + 8 * ((1 - 0 - 1) / 8) + 201 < 2 ^ 32 then
          some (chainOutput indexedFetcher.toChain (treeDepth 8) 0 1).bytes
        else none := by
  refine proveHeaderRange_of_supportsTarget indexedFetcher emptyBytes32 (ArrayVariable.replicate 64 0) 1 8
    0 (indexedJustification 1) (indexedRecord 1)
    (listenForJustification_indexedJustification (Or.inl rfl)) ?_ rfl (by decide) (by decide) (by decide)
    (by decide) (by decide) ?_
  · refine ⟨1, ⟨indexedPrecommit 1, indexedSignature 1, Reference.pubkey₁⟩, [Reference.pubkey₁],
      getBlockByHash_indexedChain, rfl, rfl, rfl, rfl, rfl, ?_⟩
    have hmem : (Reference.pubkey₁, indexedSignature 1) ∈ validValidators (Reference.crypto indexedSigned)
        (indexedJustification 1).commit.precommits (indexedMessage 1) := by
      rw [validValidators_indexedJustification (Or.inl rfl)]
      exact List.mem_cons_self
    obtain ⟨precommit, hprecommit, hkey, hsignature, hvalid⟩ := mem_validValidators.mp hmem
    have hsigners : signersAmong (Reference.crypto indexedSigned) [Reference.pubkey₁]
        (indexedJustification 1).commit.precommits (indexedMessage 1) = 1 := by
      rw [signersAmong, List.countP_cons_of_pos]
      · rfl
      · exact List.any_eq_true.mpr ⟨precommit, hprecommit,
          decide_eq_true ⟨hkey, hsignature ▸ hvalid⟩⟩
    exact Nat.lt_of_lt_of_eq (by decide) (congrArg (3 * ·) hsigners.symm)
  · intro n hn hn'
    obtain rfl : n = 1 := by
      have hone : (indexedRecord 1).blockNumber.toNat = 1 := rfl
      omega
    decide +kernel

end VectorX
