import VectorX.Circuits.EpochEndLog
import VectorX.Circuits.RotateCircuit
import VectorX.Contracts.Guardian
import VectorX.Contracts.LightClient
import VectorX.Contracts.Replay

/-!
# What the storage certifies

Blocks and authority sets are certified by derivations from the genesis parameters, whose rules are
the accepted witnesses of the two circuits. The contract stores nothing else: so a property of
blocks and sets that the circuits keep holds of everything that is stored.
-/

namespace VectorX.Contract

open Plonky2x Plonky2x.CircuitBuilder Solidity

/-! ## Derivations -/

section Derivations

/-- The const parameters of the two circuits. -/
structure CircuitSizes where
  MAX_HEADER_SIZE : ℕ
  MAX_AUTHORITY_SET_SIZE : ℕ
  MAX_SUBARRAY_SIZE : ℕ
  MAX_NUM_HEADERS : ℕ

variable (crypto : Crypto) (sizes : CircuitSizes) (params : InitParameters)

/-- The set is the first one, or an accepted rotation of the set before it returns its hash. -/
inductive CertifiedSet : UInt64 → Bytes32 → Prop
  | genesis : CertifiedSet params.authoritySetId params.authoritySetHash
  | rotate {id next : UInt64} {hash output : Bytes32}
      (r : RotateVariable sizes.MAX_HEADER_SIZE sizes.MAX_AUTHORITY_SET_SIZE)
      (justification : JustificationVariable sizes.MAX_AUTHORITY_SET_SIZE)
      (previous : CertifiedSet id hash)
      (next_eq : nextAuthoritySetId id = some next)
      (accepted : VectorX.rotate crypto sizes.MAX_SUBARRAY_SIZE id hash r justification = some output) :
      CertifiedSet next output

/-- The block is the first one, or the target of an accepted header range on top of a certified
block, justified by a certified set that is not before the one of that block. -/
inductive CertifiedBlock : UInt32 → Bytes32 → UInt64 → Prop
  | genesis : CertifiedBlock params.height params.header params.authoritySetId
  | extend {trustedBlock targetBlock : UInt32} {trustedHash authoritySetHash : Bytes32}
      {id authoritySetId : UInt64} {o : SubchainVerificationVariable}
      (headers : ℕ → ArrayVariable (EncodedHeaderVariable MAX_HEADER_SIZE) HEADERS_PER_MAP)
      (justification : JustificationVariable sizes.MAX_AUTHORITY_SET_SIZE)
      (trusted : CertifiedBlock trustedBlock trustedHash id) (lt : trustedBlock < targetBlock)
      (notOld : ¬authoritySetId < id)
      (authoritySet : CertifiedSet crypto sizes params
        authoritySetId authoritySetHash)
      (subchain : verifySubchain crypto sizes.MAX_NUM_HEADERS trustedBlock trustedHash targetBlock
        headers = some o)
      (justified : verifySimpleJustification crypto targetBlock o.targetHeaderHash authoritySetId
        authoritySetHash justification = some ()) :
      CertifiedBlock targetBlock o.targetHeaderHash authoritySetId

/-- Everything that is stored is certified. -/
structure Certified (s : State) : Prop where
  authoritySet : ∀ id, s.authoritySetIdToHash id ≠ emptyBytes32 →
    CertifiedSet crypto sizes params id (s.authoritySetIdToHash id)
  header : ∀ h, s.blockHeightToHeaderHash h ≠ emptyBytes32 →
    ∃ id, CertifiedBlock crypto sizes params h
      (s.blockHeightToHeaderHash h) id
  latest : CertifiedBlock crypto sizes params
    s.latestBlock (s.blockHeightToHeaderHash s.latestBlock) s.latestAuthoritySetId

/-- The settings that a light client cannot change. -/
structure SameFunctions (params : InitParameters) (s : State) : Prop where
  gateway : s.gateway = params.gateway
  headerRange : s.headerRangeFunctionId = params.headerRangeFunctionId
  rotate : s.rotateFunctionId = params.rotateFunctionId

/-- A verified call of the function reverts or returns an output of the rotate circuit on exactly
the input of the call. -/
def RotateVerified (gateway : Address) (functionId : Bytes32) (env : Env) : Prop :=
  ∀ input output, env.verifiedCall gateway functionId input = some output →
    ∃ (packed : BytesVariable 40)
      (r : RotateVariable sizes.MAX_HEADER_SIZE sizes.MAX_AUTHORITY_SET_SIZE)
      (justification : JustificationVariable sizes.MAX_AUTHORITY_SET_SIZE), packed.data = input ∧
      rotateCircuit crypto sizes.MAX_SUBARRAY_SIZE packed r justification = some output

/-- The gateway has verified the proofs of the circuits for all its outputs. -/
structure CircuitsVerified (env : Env) : Prop where
  headerRange : HeaderRangeVerified crypto sizes.MAX_AUTHORITY_SET_SIZE sizes.MAX_NUM_HEADERS
    params.gateway params.headerRangeFunctionId env
  rotate : RotateVerified crypto sizes params.gateway params.rotateFunctionId env

end Derivations

/-! ## Steps -/

section Steps

variable {crypto : Crypto} {keccak256 : List UInt8 → Bytes32} {sizes : CircuitSizes}
  {params : InitParameters} {c : Env × Call} {s s' : State} {es : List Event}

/-- The calls of a light client change no function. -/
theorem Effect.sameFunctions (h : Effect keccak256 c s s' es) (hc : c.2.IsLightClient)
    (hs : SameFunctions params s) : SameFunctions params s' := by
  cases h with
  | initializeContract call => exact absurd hc (by rw [call]; exact id)
  | setGenesis call => exact absurd hc (by rw [call]; exact id)
  | setRanges call => exact absurd hc (by rw [call]; exact id)
  | configure configures =>
    obtain ⟨env, call⟩ := c
    cases call with
    | updateFreeze frozen =>
      obtain rfl := Option.some.inj configures
      exact ⟨hs.gateway, hs.headerRange, hs.rotate⟩
    | updateFunctionIds | updateGateway => exact absurd hc id
    | _ => exact absurd configures (by simp [Call.configure])
  | request | commit | rotate => exact ⟨hs.gateway, hs.headerRange, hs.rotate⟩

/-- The rotation behind the word of an output. -/
theorem rotateCircuit_word {S MAX_AUTHORITY_SET_SIZE MAX_SUBARRAY_SIZE : ℕ} {id : UInt64}
    {hash word : Bytes32} {packed : BytesVariable 40} {output : List UInt8}
    {r : RotateVariable S MAX_AUTHORITY_SET_SIZE}
    {justification : JustificationVariable MAX_AUTHORITY_SET_SIZE}
    (hpacked : packed.data = rotateInput id hash)
    (hcircuit : rotateCircuit crypto MAX_SUBARRAY_SIZE packed r justification = some output)
    (hword : decodeWord output 0 = some word) :
    VectorX.rotate crypto MAX_SUBARRAY_SIZE id hash r justification = some word := by
  obtain ⟨o, hrotate, rfl⟩ := (rotateCircuit_rotateInput hpacked).mp hcircuit
  have hfirst := decodeWord_append [] o [] (i := 0) rfl
  rw [List.nil_append, List.append_nil] at hfirst
  obtain rfl := Option.some.inj (hfirst.symm.trans hword)
  exact hrotate

/-- The circuit behind the words of an output. -/
theorem headerRangeCircuit_words {MAX_AUTHORITY_SET_SIZE MAX_NUM_HEADERS : ℕ}
    {trustedBlock targetBlock : UInt32} {id : UInt64}
    {trustedHash authoritySetHash targetHeaderHash stateRoot dataRoot : Bytes32}
    {packed : BytesVariable 80} {output : List UInt8}
    {headers : ℕ → ArrayVariable (EncodedHeaderVariable MAX_HEADER_SIZE) HEADERS_PER_MAP}
    {justification : JustificationVariable MAX_AUTHORITY_SET_SIZE}
    (hpacked : packed.data =
      headerRangeInput trustedBlock trustedHash id authoritySetHash targetBlock)
    (hcircuit : headerRangeCircuit crypto MAX_NUM_HEADERS packed headers justification = some output)
    (hhash : decodeWord output 0 = some targetHeaderHash)
    (hstate : decodeWord output 1 = some stateRoot) (hdata : decodeWord output 2 = some dataRoot) :
    packed = packHeaderRangeInput trustedBlock trustedHash id authoritySetHash targetBlock ∧
      verifySubchain crypto MAX_NUM_HEADERS trustedBlock trustedHash targetBlock headers =
        some ⟨targetHeaderHash, stateRoot, dataRoot⟩ ∧
      verifySimpleJustification crypto targetBlock targetHeaderHash id authoritySetHash
        justification = some () := by
  obtain rfl : packed = packHeaderRangeInput trustedBlock trustedHash id authoritySetHash
      targetBlock := ArrayVariable.ext hpacked
  obtain ⟨o, hsubchain, hjust, rfl⟩ := headerRangeCircuit_pack.mp hcircuit
  obtain ⟨hhash', hstate', hdata'⟩ := decodeWord_bytes o
  obtain rfl := Option.some.inj (hhash'.symm.trans hhash)
  obtain rfl := Option.some.inj (hstate'.symm.trans hstate)
  obtain rfl := Option.some.inj (hdata'.symm.trans hdata)
  exact ⟨rfl, hsubchain, hjust⟩

/-- A call of a light client stores what the circuits certify. -/
theorem Effect.certified (h : Effect keccak256 c s s' es) (hc : c.2.IsLightClient)
    (hverified : CircuitsVerified crypto sizes params c.1) (hfunctions : SameFunctions params s)
    (hs : Certified crypto sizes params s) : Certified crypto sizes params s' := by
  cases h with
  | initializeContract call => exact absurd hc (by rw [call]; exact id)
  | setGenesis call => exact absurd hc (by rw [call]; exact id)
  | setRanges call => exact absurd hc (by rw [call]; exact id)
  | configure | request => exact ⟨hs.authoritySet, hs.header, hs.latest⟩
  | commit call notFrozen known notOld lt verified =>
    rename_i authoritySetId targetBlock targetHeaderHash stateRoot dataRoot
    have hrange := hverified.headerRange
    rw [← hfunctions.gateway, ← hfunctions.headerRange] at hrange
    obtain ⟨output, hcall, hhash, hstate, hdata⟩ := verified
    obtain ⟨packed, headers, justification, hpacked, hcircuit⟩ := hrange _ _ hcall
    obtain ⟨-, hsubchain, hjust⟩ := headerRangeCircuit_words hpacked hcircuit hhash hstate hdata
    have hblock := CertifiedBlock.extend headers justification hs.latest lt notOld
      (hs.authoritySet authoritySetId known) hsubchain hjust
    refine ⟨hs.authoritySet, ?_, ?_⟩
    · exact Updates.forall_update
        (P := fun h hash => ∃ id, CertifiedBlock crypto sizes params h hash id) hs.header ⟨_, hblock⟩
    · simpa only [storeRange, Function.update_self] using hblock
  | rotate call notFrozen known next_eq unknown verified word =>
    rename_i id next output hash
    have hrotate := hverified.rotate
    rw [← hfunctions.gateway, ← hfunctions.rotate] at hrotate
    obtain ⟨packed, r, justification, hpacked, hcircuit⟩ := hrotate _ _ verified
    have hset := CertifiedSet.rotate r justification (hs.authoritySet id known) next_eq
      (rotateCircuit_word hpacked hcircuit word)
    exact ⟨Updates.forall_update hs.authoritySet hset, hs.header, hs.latest⟩

variable (keccak256) in
/-- **Step.** A call of a light client keeps the storage certified. -/
theorem certified_step (hc : c.2.IsLightClient)
    (hverified : CircuitsVerified crypto sizes params c.1)
    (hs : SameFunctions params s ∧ Certified crypto sizes params s) :
    SameFunctions params (step keccak256 s c).1 ∧
      Certified crypto sizes params (step keccak256 s c).1 := by
  obtain ⟨hfunctions, hcertified⟩ := hs
  rcases step_effect keccak256 c s with hsame | heffect
  · rw [hsame]
    exact ⟨hfunctions, hcertified⟩
  · exact ⟨heffect.sameFunctions hc hfunctions,
      heffect.certified hc hverified hfunctions hcertified⟩

end Steps

/-! ## Runs -/

section Runs

theorem certified_genesis {crypto : Crypto} {sizes : CircuitSizes} {params : InitParameters} :
    Certified crypto sizes params (State.genesis params) where
  authoritySet := Updates.forall_update (fun _ h => absurd rfl h) .genesis
  header := Updates.forall_update
    (P := fun h hash => ∃ id, CertifiedBlock crypto sizes params h hash id)
    (fun _ h => absurd rfl h) ⟨_, .genesis⟩
  latest := by
    simpa only [State.genesis, Function.update_self] using .genesis

/-- **Certification.** If verified calls return outputs of the two circuits only, then in every
reachable state each stored set and each stored block has a derivation from the genesis parameters
by accepted witnesses, and the latest block has one that ends with the latest set. -/
theorem lightClient_certified (crypto : Crypto) (keccak256 : List UInt8 → Bytes32)
    (sizes : CircuitSizes) (env : Env) (params : InitParameters) (calls : List (Env × Call))
    (hcalls : ∀ c ∈ calls, c.2.IsLightClient)
    (hverified : ∀ c ∈ calls, CircuitsVerified crypto sizes params c.1) :
    Certified crypto sizes params (runFrom keccak256 env params calls).1 := by
  rw [runFrom_eq]
  exact (Run.run_invariant_state
    (fun s => SameFunctions params s ∧ Certified crypto sizes params s)
    (fun c : Env × Call => c.2.IsLightClient ∧ CircuitsVerified crypto sizes params c.1)
    (fun _ _ hc hs => certified_step keccak256 hc.1 hc.2 hs)
    ⟨⟨rfl, rfl, rfl⟩, certified_genesis⟩ fun c hc => ⟨hcalls c hc, hverified c hc⟩).2

end Runs

/-! ### A rotation and two commits -/

/-- Circuits for four authorities and 16 headers. -/
def signedSizes : CircuitSizes where
  MAX_HEADER_SIZE := 320
  MAX_AUTHORITY_SET_SIZE := 4
  MAX_SUBARRAY_SIZE := 164
  MAX_NUM_HEADERS := 16

/-- Block 1 announces the second and the third authority. -/
def signedRotate : RotateVariable 320 4 where
  epochEndBlockNumber := 1
  targetHeader := {
    headerBytes := ⟨(Reference.signedHeader 1).encode ++
        List.replicate (320 - (Reference.signedHeader 1).encode.length) 0, by
      have hlen := Reference.length_encode_signedHeader 1
      rw [List.length_append, List.length_replicate, Nat.add_sub_cancel' (by omega)]⟩
    headerSize := UInt32.ofNat (Reference.signedHeader 1).encode.length }
  targetHeaderNumAuthorities := Variable.ofNat 2
  nextAuthoritySetStartPosition := Variable.ofNat 97
  newPubkeys := ⟨[Reference.pubkey₂, Reference.pubkey₃, emptyBytes32, emptyBytes32], rfl⟩

theorem toNat_headerSize_signedRotate : signedRotate.targetHeader.headerSize.toNat =
    (Reference.signedHeader 1).encode.length := by
  have hlen := Reference.length_encode_signedHeader 1
  rw [signedRotate, UInt32.toNat_ofNat', Nat.mod_eq_of_lt (by omega)]

/-- The header is hashed without its padding. -/
theorem take_headerBytes_signedRotate : signedRotate.targetHeader.headerBytes.data.take
    signedRotate.targetHeader.headerSize.toNat = (Reference.signedHeader 1).encode := by
  rw [toNat_headerSize_signedRotate, signedRotate, List.take_left]

theorem windowsInside_signedRotate :
    WindowsInside 4 signedRotate.targetHeader.headerBytes.data 97 2 :=
  windowsInside_of_le (by rw [signedRotate.targetHeader.headerBytes.length_data]; decide)

/-- The log of block 1. -/
theorem isEpochEndLog_signedRotate :
    IsEpochEndLog signedRotate.targetHeader.headerBytes.data 97
      [Reference.pubkey₂, Reference.pubkey₃] := by
  refine ⟨4, Compact.encode 86, Compact.encode 2, ⟨86, Compact.isEncoding_encode (by decide)⟩,
    Compact.isEncoding_encode (by decide), ?_⟩
  decide +kernel

theorem hashEncodedHeader_signedRotate :
    hashEncodedHeader Reference.signedCrypto signedRotate.targetHeader =
      some (Reference.blockHash (Reference.signedHeader 1)) := by
  refine curtaBlake2bVariable_eq_some.mpr ⟨?_, ?_⟩
  · have hlen := Reference.length_encode_signedHeader 1
    rw [toNat_headerSize_signedRotate, signedRotate.targetHeader.headerBytes.length_data]
    omega
  · rw [take_headerBytes_signedRotate, Reference.blake2b_encode]

theorem rotate_signedRotate :
    VectorX.rotate Reference.signedCrypto 164 298 firstSetHash signedRotate
      Reference.justification₁ = some nextSetHash := by
  refine rotate_eq_some.mpr ⟨rfl, Reference.blockHash (Reference.signedHeader 1),
    hashEncodedHeader_signedRotate, ?_, ?_, ?_⟩
  · exact Reference.verifySimpleJustification_pair (Reference.isPrecommit_precommitMessage _ _ _)
      (by simp [Reference.chainSigned]) (by simp [Reference.chainSigned])
  · exact verifyEpochEndHeader_of_isEpochEndLog (by decide) (by decide) (by decide)
      windowsInside_signedRotate isEpochEndLog_signedRotate
  · rw [signedRotate, Variable.val_ofNat_of_lt (by decide)]
    rfl

/-- What the gateway has verified for the other function. -/
theorem of_verifiedCall_rotate {gateway : Address} {input output : List UInt8}
    (h : signedEnv.verifiedCall gateway genesisParams.rotateFunctionId input = some output) :
    input = rotateInput 298 firstSetHash ∧ output = nextSetHash.data := by
  simp only [signedEnv, if_true] at h
  split at h
  · rename_i heq
    exact ⟨heq, (Option.some.inj h).symm⟩
  · exact absurd h (by simp)

theorem rotateCircuit_signedRotate :
    rotateCircuit Reference.signedCrypto 164 ⟨rotateInput 298 firstSetHash, length_rotateInput⟩
      signedRotate Reference.justification₁ = some nextSetHash.data :=
  (rotateCircuit_rotateInput rfl).mpr ⟨nextSetHash, rotate_signedRotate, rfl⟩

theorem circuitsVerified_signedEnv :
    CircuitsVerified Reference.signedCrypto signedSizes signedParams signedEnv where
  headerRange := headerRangeVerified_signedEnv _
  rotate := by
    intro input output h
    obtain ⟨rfl, rfl⟩ := of_verifiedCall_rotate h
    exact ⟨_, signedRotate, Reference.justification₁, rfl, rotateCircuit_signedRotate⟩

/-- The storage after the rotation and both commits. -/
theorem lightClient_certified_signed :
    Certified Reference.signedCrypto signedSizes signedParams
      (runFrom Reference.keccak256 signedEnv signedParams signedCalls).1 := by
  refine lightClient_certified Reference.signedCrypto Reference.keccak256 signedSizes signedEnv
    signedParams signedCalls isLightClient_signedCalls fun c hc => ?_
  simp only [signedCalls, List.mem_cons, List.not_mem_nil, or_false] at hc
  rcases hc with rfl | rfl | rfl <;> exact circuitsVerified_signedEnv

end VectorX.Contract
