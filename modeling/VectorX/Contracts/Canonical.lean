import VectorX.Contracts.Certified
import VectorX.Contracts.Finality

/-!
# The canonical chain

Let more than two thirds of every trusted set sign blocks of one chain only, and let these blocks
announce trusted sets only. Then the contract stores the hashes of that chain, and the commitments
to its data and state roots: the headers in between are not signed, but every one of them is tied by
its hash to the next.
-/

namespace VectorX.Contract

open Plonky2x Plonky2x.CircuitBuilder Solidity
open HashChain (CollisionFree)

/-! ## One header range -/

section Range

variable {crypto : Crypto} (chain : Chain crypto)

/-- The messages hashed for the headers of a range: those of the prover and those of the chain. -/
def rangeMessages (trustedBlock targetBlock : UInt32)
    (headers : ℕ → ArrayVariable (EncodedHeaderVariable MAX_HEADER_SIZE) HEADERS_PER_MAP) :
    List (List UInt8) :=
  (List.range (targetBlock.toNat - trustedBlock.toNat)).map (hashedBytes headers) ++
    (List.range (targetBlock.toNat - trustedBlock.toNat)).map fun s =>
      (chain.header (trustedBlock.toNat + 1 + s)).encode

variable {chain} {MAX_NUM_HEADERS T k n : ℕ} {trustedBlock targetBlock : U32Variable}
  {trustedHeaderHash : Bytes32Variable}
  {headers : ℕ → ArrayVariable (EncodedHeaderVariable MAX_HEADER_SIZE) HEADERS_PER_MAP}
  {b : ℕ → Block} {o : SubchainVerificationVariable}

end Range

/-! ## Steps -/

section Steps

/-- A verified call returns an output of the header range circuit, on honest votes and on headers
that do not collide with those of the chain. -/
def HeaderRangeProved {crypto : Crypto} (chain : Chain crypto) (sizes : CircuitSizes)
    (Trusted : UInt64 → List Bytes32 → Prop) (gateway : Address) (functionId : Bytes32) (env : Env) :
    Prop :=
  ∀ input output, env.verifiedCall gateway functionId input = some output →
    ∃ (packed : BytesVariable 80)
      (headers : ℕ → ArrayVariable (EncodedHeaderVariable MAX_HEADER_SIZE) HEADERS_PER_MAP)
      (justification : JustificationVariable sizes.MAX_AUTHORITY_SET_SIZE), packed.data = input ∧
      headerRangeCircuit crypto sizes.MAX_NUM_HEADERS packed headers justification = some output ∧
      ∀ trustedBlock trustedHash id authoritySetHash targetBlock,
        packed = packHeaderRangeInput trustedBlock trustedHash id authoritySetHash targetBlock →
        HonestVotes crypto Trusted id justification ∧
          CollisionFree crypto.blake2b (rangeMessages chain trustedBlock targetBlock headers)

/-- A verified call returns an output of the rotate circuit, on honest votes and on a log in the
hashed bytes of a header that does not collide with that of the chain. -/
def RotateProved {crypto : Crypto} (chain : Chain crypto) (sizes : CircuitSizes)
    (Trusted : UInt64 → List Bytes32 → Prop) (gateway : Address) (functionId : Bytes32) (env : Env) :
    Prop :=
  ∀ input output, env.verifiedCall gateway functionId input = some output →
    ∃ (packed : BytesVariable 40)
      (r : RotateVariable sizes.MAX_HEADER_SIZE sizes.MAX_AUTHORITY_SET_SIZE)
      (justification : JustificationVariable sizes.MAX_AUTHORITY_SET_SIZE), packed.data = input ∧
      rotateCircuit crypto sizes.MAX_SUBARRAY_SIZE packed r justification = some output ∧
      ReadsHashedLog crypto r ∧
      CollisionFree crypto.blake2b
        [r.targetHeader.hashed, (chain.header r.epochEndBlockNumber.toNat).encode] ∧
      ∀ id hash, packed.data = rotateInput id hash → HonestVotes crypto Trusted id justification

/-- The gateway has verified the proofs of both circuits, by honest provers. -/
structure CircuitsProved {crypto : Crypto} (chain : Chain crypto) (sizes : CircuitSizes)
    (Trusted : UInt64 → List Bytes32 → Prop) (params : InitParameters) (env : Env) : Prop where
  headerRange : HeaderRangeProved chain sizes Trusted params.gateway params.headerRangeFunctionId env
  rotate : RotateProved chain sizes Trusted params.gateway params.rotateFunctionId env

/-- The stored hashes are those of blocks of the chain and of trusted sets. -/
structure Canonical {crypto : Crypto} (chain : Chain crypto)
    (Trusted : UInt64 → List Bytes32 → Prop) (params : InitParameters) (s : State) : Prop where
  functions : SameFunctions params s
  authoritySet : ∀ id, s.authoritySetIdToHash id ≠ emptyBytes32 →
    TrustedHash crypto Trusted id (s.authoritySetIdToHash id)
  header : ∀ h, s.blockHeightToHeaderHash h ≠ emptyBytes32 →
    s.blockHeightToHeaderHash h = (chain.header h.toNat).hash crypto
  latest : s.blockHeightToHeaderHash s.latestBlock = (chain.header s.latestBlock.toNat).hash crypto
  le_latest : params.height ≤ s.latestBlock
  latest_le : s.latestBlock ≤ chain.head

variable {crypto : Crypto} {chain : Chain crypto} {keccak256 : List UInt8 → Bytes32}
  {sizes : CircuitSizes} {Trusted : UInt64 → List Bytes32 → Prop} {params : InitParameters}
  {c : Env × Call} {s s' : State} {es : List Event} {targetBlock : UInt32}
  {targetHeaderHash stateRoot dataRoot : Bytes32}

/-- **Effect.** What a light client stores is of the chain. -/
theorem Effect.canonical (h : Effect keccak256 c s s' es) (hc : c.2.IsLightClient)
    (hproved : CircuitsProved chain sizes Trusted params c.1)
    (hhonest : HonestAuthorities chain Trusted) (hslots : 3 * sizes.MAX_AUTHORITY_SET_SIZE < 2 ^ 32)
    (hfield : sizes.MAX_HEADER_SIZE < GOLDILOCKS) (hs : Canonical chain Trusted params s) :
    Canonical chain Trusted params s' := by
  have hfunctions := h.sameFunctions hc hs.functions
  cases h with
  | initializeContract call => exact absurd hc (by rw [call]; exact id)
  | setGenesis call => exact absurd hc (by rw [call]; exact id)
  | setRanges call => exact absurd hc (by rw [call]; exact id)
  | configure | request =>
    exact ⟨hfunctions, hs.authoritySet, hs.header, hs.latest, hs.le_latest, hs.latest_le⟩
  | commit call notFrozen known notOld lt verified =>
    rename_i authoritySetId targetBlock targetHeaderHash stateRoot dataRoot
    have hrange := hproved.headerRange
    rw [← hs.functions.gateway, ← hs.functions.headerRange] at hrange
    obtain ⟨output, hcall, hhash, hstate, hdata⟩ := verified
    obtain ⟨packed, headers, justification, hpacked, hcircuit, hprover⟩ := hrange _ _ hcall
    obtain ⟨rfl, -, hjust⟩ := headerRangeCircuit_words hpacked hcircuit hhash hstate hdata
    -- the target block is signed by the set that is stored under the id
    obtain ⟨A, hA, hfinal⟩ := exists_finalizedBy (hs.authoritySet authoritySetId known)
      (hprover _ _ _ _ _ rfl).1 hslots hjust
    obtain ⟨hhead, rfl⟩ := hhonest.signed _ A _ _ hA hfinal
    refine ⟨hfunctions, hs.authoritySet, ?_, ?_, le_trans hs.le_latest (le_of_lt lt), hhead⟩
    · exact Updates.forall_update
        (P := fun (h : UInt32) hash => hash = (chain.header h.toNat).hash crypto) hs.header rfl
    · simp only [storeRange, Function.update_self]
  | rotate call notFrozen known next_eq unknown verified word =>
    rename_i id next output hash
    have hrotate := hproved.rotate
    rw [← hs.functions.gateway, ← hs.functions.rotate] at hrotate
    obtain ⟨packed, r, justification, hpacked, hcircuit, hreads, hfree, hprover⟩ := hrotate _ _ verified
    have hnext := trustedHash_of_rotate hhonest (hs.authoritySet id known) next_eq hfield hslots
      (hprover _ _ hpacked) hreads hfree (rotateCircuit_word hpacked hcircuit word)
    exact ⟨hfunctions, Updates.forall_update hs.authoritySet hnext, hs.header, hs.latest,
      hs.le_latest, hs.latest_le⟩

end Steps

/-! ## Main result -/

end VectorX.Contract
