import VectorX.Circuits.HeaderRange
import VectorX.Contracts.Bookkeeping

/-!
# The light client over whole runs

The contract follows a chain of headers, if every answer of the gateway for the header range
function is an output of the circuit on the input of the call. The invariant holds together the
storage of the contract and the list of the headers that have been proved.
-/

namespace VectorX.Contract

open Plonky2x Plonky2x.CircuitBuilder Solidity
open HashChain (CollisionFree)
open Bytes (slice)

/-! ## Definitions -/

/-- The calls of anybody and the freeze. -/
def Call.IsLightClient : Call → Prop
  | .requestHeaderRange _ _ => True
  | .commitHeaderRange _ _ => True
  | .requestRotate _ => True
  | .rotate _ => True
  | .updateFreeze _ => True
  | _ => False

/-- A verified call of the function reverts or returns an output of the header range circuit on
exactly the input of the call. -/
def HeaderRangeVerified (crypto : Crypto) (MAX_AUTHORITY_SET_SIZE MAX_NUM_HEADERS : ℕ)
    (gateway : Address) (functionId : Bytes32) (env : Env) : Prop :=
  ∀ input output, env.verifiedCall gateway functionId input = some output →
    ∃ (packed : BytesVariable 80)
      (headers : ℕ → ArrayVariable (EncodedHeaderVariable MAX_HEADER_SIZE) HEADERS_PER_MAP)
      (justification : JustificationVariable MAX_AUTHORITY_SET_SIZE), packed.data = input ∧
      headerRangeCircuit crypto MAX_NUM_HEADERS packed headers justification = some output

/-- The storage follows the chain `blocks` on top of the genesis block at height `g`. The ranges are
those of the log, and the mappings hold nothing but what the log names (`Contracts/EventLog`). -/
structure FollowsChain (crypto : Crypto) (keccak256 : List UInt8 → Bytes32) (depth : ℕ) (g : UInt32)
    (genesisHash : Bytes32) (s : State) (es : List Event) (blocks : List Block) : Prop where
  length : g.toNat + blocks.length = s.latestBlock.toNat
  read : ∀ block ∈ blocks,
    ∃ encoded : EncodedHeaderVariable MAX_HEADER_SIZE, readBlock crypto encoded = some block
  chain : HeaderChain g.toNat genesisHash blocks
  latest : s.blockHeightToHeaderHash s.latestBlock = lastHash genesisHash blocks
  header : ∀ h, g < h → s.blockHeightToHeaderHash h ≠ emptyBytes32 →
    (blocks.map Block.hash)[h.toNat - (g.toNat + 1)]? = some (s.blockHeightToHeaderHash h)
  dataRoot : ∀ r ∈ storedRanges es, s.dataRootCommitments (rangeKey keccak256 r.1 r.2) =
    paddedRoot crypto depth ((slice blocks (r.1.toNat - g.toNat) (r.2.toNat - r.1.toNat)).map
      fun b => b.header.dataRoot)
  stateRoot : ∀ r ∈ storedRanges es, s.stateRootCommitments (rangeKey keccak256 r.1 r.2) =
    paddedRoot crypto depth ((slice blocks (r.1.toNat - g.toNat) (r.2.toNat - r.1.toNat)).map
      fun b => b.header.stateRoot)

/-! ## One commit -/

theorem Call.IsLightClient.isRegular {call : Call} (h : call.IsLightClient) : call.IsRegular := by
  cases call with
  | initializeContract | updateGenesisState | updateBlockRangeData => exact absurd h id
  | _ => exact trivial

/-- The words of the output of the circuit. -/
theorem decodeWord_bytes (o : SubchainVerificationVariable) :
    decodeWord o.bytes 0 = some o.targetHeaderHash ∧
      decodeWord o.bytes 1 = some o.stateRootMerkleRoot ∧
      decodeWord o.bytes 2 = some o.dataRootMerkleRoot := by
  have hone : o.targetHeaderHash.data.length = 32 * 1 := o.targetHeaderHash.length_data
  have htwo : (o.targetHeaderHash.data ++ o.stateRootMerkleRoot.data).length = 32 * 2 := by
    rw [List.length_append, ArrayVariable.length_data, ArrayVariable.length_data]
  have hfirst := decodeWord_append [] o.targetHeaderHash
    (o.stateRootMerkleRoot.data ++ o.dataRootMerkleRoot.data) (i := 0) rfl
  have hsecond := decodeWord_append _ o.stateRootMerkleRoot o.dataRootMerkleRoot.data hone
  have hthird := decodeWord_append _ o.dataRootMerkleRoot [] htwo
  rw [List.nil_append, ← List.append_assoc] at hfirst
  rw [List.append_nil] at hthird
  exact ⟨hfirst, hsecond, hthird⟩

section Commit

variable {crypto : Crypto} {keccak256 : List UInt8 → Bytes32}
  {MAX_AUTHORITY_SET_SIZE MAX_NUM_HEADERS : ℕ} {g : UInt32} {genesisHash : Bytes32}
  {c : Env × Call} {s s' : State} {es es' : List Event} {blocks : List Block}
  {targetBlock : UInt32} {targetHeaderHash stateRoot dataRoot : Bytes32}

/-- What the circuit guarantees for a commit: a chain on top of the latest header, and its roots. -/
theorem exists_commitsTo_of_commitsRange
    (h : CommitsRange keccak256 c s s' es' targetBlock targetHeaderHash stateRoot dataRoot)
    (hverified : HeaderRangeVerified crypto MAX_AUTHORITY_SET_SIZE MAX_NUM_HEADERS s.gateway
      s.headerRangeFunctionId c.1)
    (hbound : s.latestBlock.toNat + 8 * numMapJobs MAX_NUM_HEADERS < 2 ^ 32) :
    ∃ blocks, (∀ block ∈ blocks, ∃ encoded : EncodedHeaderVariable MAX_HEADER_SIZE,
        readBlock crypto encoded = some block) ∧
      CommitsTo crypto (treeDepth MAX_NUM_HEADERS) s.latestBlock.toNat targetBlock.toNat
        (s.blockHeightToHeaderHash s.latestBlock) blocks
        ⟨targetHeaderHash, stateRoot, dataRoot⟩ := by
  obtain ⟨authoritySetId, -, output, hcall, hhash, hstate, hdata⟩ := h.call
  obtain ⟨packed, headers, justification, hpacked, hcircuit⟩ := hverified _ _ hcall
  have heq : packed = packHeaderRangeInput s.latestBlock (s.blockHeightToHeaderHash s.latestBlock)
      authoritySetId (s.authoritySetIdToHash authoritySetId) targetBlock :=
    ArrayVariable.ext hpacked
  rw [heq] at hcircuit
  obtain ⟨o, hsubchain, -, rfl⟩ := headerRangeCircuit_pack.mp hcircuit
  obtain ⟨hhash', hstate', hdata'⟩ := decodeWord_bytes o
  obtain rfl := Option.some.inj (hhash'.symm.trans hhash)
  obtain rfl := Option.some.inj (hstate'.symm.trans hstate)
  obtain rfl := Option.some.inj (hdata'.symm.trans hdata)
  obtain ⟨blocks, hread, hcommits⟩ := exists_commitsTo h.lt hbound hsubchain
  refine ⟨blocks, fun block hblock => ?_, hcommits⟩
  obtain ⟨i, hi, rfl⟩ := List.mem_iff_getElem.mp hblock
  exact ⟨slotHeader headers i, hread i hi⟩

theorem lastHash_eq_getElem? (hash : Bytes32Variable) (hpos : 0 < blocks.length) :
    (blocks.map Block.hash)[blocks.length - 1]? = some (lastHash hash blocks) := by
  have hne : blocks.map Block.hash ≠ [] := by
    rw [ne_eq, List.map_eq_nil_iff]
    exact List.ne_nil_of_length_pos hpos
  have hget : (blocks.map Block.hash).getLast? = (blocks.map Block.hash)[blocks.length - 1]? := by
    rw [List.getLast?_eq_getElem?, List.length_map]
  rw [lastHash, List.getLastD_eq_getLast?, ← hget, List.getLast?_eq_some_getLast hne,
    Option.getD_some]

/-- Only the blocks and the ranges of the storage matter. -/
theorem FollowsChain.congr {depth : ℕ}
    (hf : FollowsChain crypto keccak256 depth g genesisHash s es blocks) (h : SameRanges s s')
    (hstored : storedRanges es' = storedRanges es) :
    FollowsChain crypto keccak256 depth g genesisHash s' es' blocks where
  length := h.latestBlock ▸ hf.length
  read := hf.read
  chain := hf.chain
  latest := by rw [h.latestBlock, h.header, hf.latest]
  header := h.header ▸ hf.header
  dataRoot := by
    rw [hstored, h.dataRoot]
    exact hf.dataRoot
  stateRoot := by
    rw [hstored, h.stateRoot]
    exact hf.stateRoot

/-- The commit extends the chain by the blocks that are proved. -/
theorem FollowsChain.commit {new : List Block} {depth : ℕ}
    (h : CommitsRange keccak256 c s s' es' targetBlock targetHeaderHash stateRoot dataRoot)
    (hf : FollowsChain crypto keccak256 depth g genesisHash s es blocks)
    (hb : Bookkeeping keccak256 g s es)
    (hkept : Kept keccak256 g s es s')
    (hread : ∀ block ∈ new, ∃ encoded : EncodedHeaderVariable MAX_HEADER_SIZE,
      readBlock crypto encoded = some block)
    (hnew : CommitsTo crypto depth s.latestBlock.toNat targetBlock.toNat
      (s.blockHeightToHeaderHash s.latestBlock) new ⟨targetHeaderHash, stateRoot, dataRoot⟩) :
    FollowsChain crypto keccak256 depth g genesisHash s' (es ++ es') (blocks ++ new) := by
  have hlt := UInt32.lt_iff_toNat_lt.mp h.lt
  have hlen := hf.length
  have hlen' := hnew.length
  have hranges : storedRanges (es ++ es') = storedRanges es ++ [(s.latestBlock, targetBlock)] := by
    rw [storedRanges_append, h.stored]
  have hhash : targetHeaderHash = lastHash (s.blockHeightToHeaderHash s.latestBlock) new :=
    hnew.targetHeaderHash
  -- the blocks of an old range, and of the new one
  have hold : ∀ r ∈ storedRanges es, slice (blocks ++ new) (r.1.toNat - g.toNat)
      (r.2.toNat - r.1.toNat) = slice blocks (r.1.toNat - g.toNat) (r.2.toNat - r.1.toNat) := by
    intro r hr
    obtain ⟨hstart, hr', hend⟩ := hb.contiguous.mem hr
    rw [UInt32.le_iff_toNat_le] at hstart hend
    rw [UInt32.lt_iff_toNat_lt] at hr'
    exact Bytes.slice_append_left (by omega)
  have hslice : slice (blocks ++ new) (s.latestBlock.toNat - g.toNat)
      (targetBlock.toNat - s.latestBlock.toNat) = new := by
    rw [show s.latestBlock.toNat - g.toNat = blocks.length + 0 by omega,
      Bytes.slice_append_right, ← hlen', Bytes.slice_zero_length]
  refine ⟨?_, ?_, ?_, ?_, ?_, ?_, ?_⟩
  · rw [h.latestBlock, List.length_append]
    omega
  · intro block hblock
    exact (List.mem_append.mp hblock).elim (hf.read block) (hread block)
  · rw [headerChain_append, hlen, ← hf.latest]
    exact ⟨hf.chain, hnew.chain⟩
  · rw [h.latestBlock, h.header, Function.update_self, lastHash_append, ← hf.latest, hhash]
  · intro x hx hne
    rw [List.map_append]
    by_cases heq : x = targetBlock
    · rw [heq, h.header, Function.update_self, hhash,
        List.getElem?_append_right (by rw [List.length_map]; omega), List.length_map,
        show targetBlock.toNat - (g.toNat + 1) - blocks.length = new.length - 1 by omega]
      exact lastHash_eq_getElem? _ (by omega)
    · rw [h.header, Function.update_of_ne heq] at hne ⊢
      have hle := (hb.contiguous.mem_heights (hb.header x hne)).2
      rw [UInt32.le_iff_toNat_le] at hle
      rw [UInt32.lt_iff_toNat_lt] at hx
      rw [List.getElem?_append_left (by rw [List.length_map]; omega)]
      exact hf.header x (UInt32.lt_iff_toNat_lt.mpr hx) hne
  · intro r hr
    rw [hranges] at hr
    rcases List.mem_append.mp hr with hr | hr
    · rw [(hkept.range _ (List.mem_map_of_mem hr)).1, hf.dataRoot r hr, hold r hr]
    · obtain rfl := List.mem_singleton.mp hr
      rw [h.dataRoot, Function.update_self, hslice]
      exact hnew.dataRoot
  · intro r hr
    rw [hranges] at hr
    rcases List.mem_append.mp hr with hr | hr
    · rw [(hkept.range _ (List.mem_map_of_mem hr)).2.1, hf.stateRoot r hr, hold r hr]
    · obtain rfl := List.mem_singleton.mp hr
      rw [h.stateRoot, Function.update_self, hslice]
      exact hnew.stateRoot

end Commit

/-! ## Runs -/

/-- The state of a run: the gateway and the function are those of the initialization, and as long as
the keys do not collide and the latest block is below the bound, the storage follows a chain. -/
def LightClientInv (crypto : Crypto) (keccak256 : List UInt8 → Bytes32) (MAX_NUM_HEADERS : ℕ)
    (params : InitParameters) (s : State) (es : List Event) : Prop :=
  s.gateway = params.gateway ∧ s.headerRangeFunctionId = params.headerRangeFunctionId ∧
    (CollisionFree keccak256 (rangePreimages (storedRanges es)) →
      8 * numMapJobs MAX_NUM_HEADERS + s.latestBlock.toNat < 2 ^ 32 →
      Bookkeeping keccak256 params.height s es ∧
        ∃ blocks, FollowsChain crypto keccak256 (treeDepth MAX_NUM_HEADERS) params.height
          params.header s es blocks)

section Runs

variable {crypto : Crypto} {keccak256 : List UInt8 → Bytes32}
  {MAX_AUTHORITY_SET_SIZE MAX_NUM_HEADERS : ℕ} {params : InitParameters} {c : Env × Call}
  {s : State} {es : List Event}

variable (keccak256 s) in
/-- No call of a light client changes the gateway or the function. -/
theorem step_config (hc : c.2.IsLightClient) :
    (step keccak256 s c).1.gateway = s.gateway ∧
      (step keccak256 s c).1.headerRangeFunctionId = s.headerRangeFunctionId := by
  obtain ⟨env, call⟩ := c
  rw [step]
  cases hexec : exec keccak256 env s call with
  | error e => exact ⟨rfl, rfl⟩
  | ok r =>
    obtain ⟨s', es⟩ := r
    cases call with
    | initializeContract | updateFunctionIds | updateGateway | updateGenesisState
    | updateBlockRangeData => exact absurd hc id
    | updateFreeze freeze =>
      obtain ⟨-, rfl, -⟩ := updateFreeze_eq_ok.mp hexec
      exact ⟨rfl, rfl⟩
    | requestHeaderRange authoritySetId requestedBlock =>
      obtain ⟨-, -, -, input, -, -, rfl, -⟩ := requestHeaderRange_eq_ok.mp hexec
      exact ⟨rfl, rfl⟩
    | requestRotate currentAuthoritySetId =>
      obtain ⟨-, next, -, -, input, -, -, rfl, -⟩ := requestRotate_eq_ok.mp hexec
      exact ⟨rfl, rfl⟩
    | rotate currentAuthoritySetId =>
      obtain ⟨-, -, next, -, -, output, -, hash, -, rfl, -⟩ := rotate_eq_ok.mp hexec
      exact ⟨rfl, rfl⟩
    | commitHeaderRange authoritySetId targetBlock =>
      obtain ⟨-, -, -, -, -, hash, stateRoot, dataRoot, -, rfl, -⟩ :=
        commitHeaderRange_eq_ok.mp hexec
      exact ⟨rfl, rfl⟩

theorem followsChain_genesis (params : InitParameters) (depth : ℕ) :
    FollowsChain crypto keccak256 depth params.height params.header (State.genesis params) [] [] where
  length := rfl
  read block hblock := absurd hblock (by simp)
  chain := trivial
  latest := by
    have hself := Function.update_self params.height params.header fun _ => emptyBytes32
    exact hself
  header h hlt hne := by
    have hzero := Function.update_of_ne (ne_of_gt hlt) params.header fun _ => emptyBytes32
    exact absurd hzero hne
  dataRoot r hr := absurd hr (by simp)
  stateRoot r hr := absurd hr (by simp)

/-- **Step.** A call of a light client keeps the invariant. -/
theorem lightClientInv_step (hc : c.2.IsLightClient)
    (hverified : HeaderRangeVerified crypto MAX_AUTHORITY_SET_SIZE MAX_NUM_HEADERS params.gateway
      params.headerRangeFunctionId c.1)
    (hinv : LightClientInv crypto keccak256 MAX_NUM_HEADERS params s es) :
    LightClientInv crypto keccak256 MAX_NUM_HEADERS params (step keccak256 s c).1
      (es ++ (step keccak256 s c).2) := by
  obtain ⟨hgateway, hfunction, hchain⟩ := hinv
  obtain ⟨hgateway', hfunction'⟩ := step_config keccak256 s hc
  refine ⟨hgateway'.trans hgateway, hfunction'.trans hfunction, fun hfree hbound => ?_⟩
  have hfree' := hfree
  rw [storedRanges_append] at hfree'
  rcases step_cases keccak256 s hc.isRegular with ⟨hsame, hstored⟩ |
    ⟨targetBlock, targetHeaderHash, stateRoot, dataRoot, hcommit⟩
  · rw [hsame.latestBlock] at hbound
    obtain ⟨hb, blocks, hf⟩ := hchain (collisionFree_of_append hfree') hbound
    refine ⟨(bookkeeping_step hc.isRegular hb hfree).1, blocks, hf.congr hsame ?_⟩
    rw [storedRanges_append, hstored, List.append_nil]
  · have hlt := UInt32.lt_iff_toNat_lt.mp hcommit.lt
    rw [hcommit.latestBlock] at hbound
    obtain ⟨hb, blocks, hf⟩ := hchain (collisionFree_of_append hfree') (by omega)
    rw [← hgateway, ← hfunction] at hverified
    obtain ⟨new, hread, hnew⟩ :=
      exists_commitsTo_of_commitsRange hcommit hverified (by omega)
    exact ⟨hcommit.bookkeeping hb hfree, _, hf.commit hcommit hb (hcommit.kept hb hfree) hread hnew⟩

variable (keccak256) in
/-- **Run.** Calls of a light client keep the invariant. -/
theorem lightClientInv_run {calls : List (Env × Call)} (hcalls : ∀ c ∈ calls, c.2.IsLightClient)
    (hverified : ∀ c ∈ calls, HeaderRangeVerified crypto MAX_AUTHORITY_SET_SIZE MAX_NUM_HEADERS
      params.gateway params.headerRangeFunctionId c.1) :
    LightClientInv crypto keccak256 MAX_NUM_HEADERS params
      (Run.run (step keccak256) (State.genesis params) calls).1
      (Run.run (step keccak256) (State.genesis params) calls).2 := by
  have hinit : LightClientInv crypto keccak256 MAX_NUM_HEADERS params (State.genesis params) [] :=
    ⟨rfl, rfl, fun _ _ => ⟨bookkeeping_genesis params, [], followsChain_genesis params _⟩⟩
  have hrun := Run.run_invariant (LightClientInv crypto keccak256 MAX_NUM_HEADERS params)
    (fun c => c.2.IsLightClient ∧ HeaderRangeVerified crypto MAX_AUTHORITY_SET_SIZE MAX_NUM_HEADERS
      params.gateway params.headerRangeFunctionId c.1)
    (fun s es c hc hinv => lightClientInv_step hc.1 hc.2 hinv) hinit
    fun c hc => ⟨hcalls c hc, hverified c hc⟩
  rwa [List.nil_append] at hrun

end Runs

/-! ## Main result -/

/-- **Refinement.** If verified calls return outputs of the circuit only, then in every reachable
state below the bound there is a chain of headers on top of the genesis header up to the latest
block, whose hashes are the stored ones and whose roots are the commitments of the committed
ranges. -/
theorem lightClient_followsChain (crypto : Crypto) (keccak256 : List UInt8 → Bytes32)
    (MAX_AUTHORITY_SET_SIZE MAX_NUM_HEADERS : ℕ) (env : Env) (params : InitParameters)
    (calls : List (Env × Call)) (hcalls : ∀ c ∈ calls, c.2.IsLightClient)
    (hverified : ∀ c ∈ calls, HeaderRangeVerified crypto MAX_AUTHORITY_SET_SIZE MAX_NUM_HEADERS
      params.gateway params.headerRangeFunctionId c.1)
    (hfree : CollisionFree keccak256
      (rangePreimages (storedRanges (runFrom keccak256 env params calls).2)))
    (hbound : 8 * numMapJobs MAX_NUM_HEADERS +
      (runFrom keccak256 env params calls).1.latestBlock.toNat < 2 ^ 32) :
    ∃ blocks depth, 2 ^ depth = 8 * numMapJobs MAX_NUM_HEADERS ∧
      FollowsChain crypto keccak256 depth params.height params.header
        (runFrom keccak256 env params calls).1 (runFrom keccak256 env params calls).2 blocks := by
  obtain ⟨-, -, hchain⟩ := lightClientInv_run keccak256 hcalls hverified
  obtain ⟨-, blocks, hf⟩ := hchain hfree hbound
  exact ⟨blocks, treeDepth MAX_NUM_HEADERS, two_pow_treeDepth MAX_NUM_HEADERS, hf⟩

/-! ### A rotation and two commits -/

/-- The commitments to the two sets of the signed chain. -/
def firstSetHash : Bytes32 := Reference.pairHash Reference.pubkey₁ Reference.pubkey₂

def nextSetHash : Bytes32 := Reference.pairHash Reference.pubkey₂ Reference.pubkey₃

/-- Genesis at block 0 of the signed chain. -/
def signedParams : InitParameters :=
  { genesisParams with
    header := Reference.blockHash (Reference.signedHeader 0)
    authoritySetHash := firstSetHash }

/-- The input for blocks 1 to 9. -/
def nineInput : BytesVariable 80 :=
  packHeaderRangeInput 0 (Reference.blockHash (Reference.signedHeader 0)) 299 nextSetHash 9

/-- The input for block 10. -/
def tenInput : BytesVariable 80 :=
  packHeaderRangeInput 9 (Reference.blockHash (Reference.signedHeader 9)) 299 nextSetHash 10

/-- The output for block 10. -/
def tenOutput : SubchainVerificationVariable :=
  subchainOutput Reference.signedCrypto (honestBlock Reference.signedChain 9 1) 1 (treeDepth 16)

/-- A gateway that has verified the proofs for the rotation at block 1 and for both ranges. -/
def signedEnv : Env :=
  { constantEnv [] with
    verifiedCall := fun _ functionId input =>
      if functionId = genesisParams.rotateFunctionId then
        if input = rotateInput 298 firstSetHash then some nextSetHash.data else none
      else if input = nineInput.data then some nineOutput.bytes
      else if input = tenInput.data then some tenOutput.bytes
      else none }

def signedCalls : List (Env × Call) :=
  [(signedEnv, .rotate 298), (signedEnv, .commitHeaderRange 299 9),
    (signedEnv, .commitHeaderRange 299 10)]

theorem functionId_ne : genesisParams.headerRangeFunctionId ≠ genesisParams.rotateFunctionId := by
  decide

theorem tenInput_ne : tenInput.data ≠ nineInput.data := fun heq =>
  absurd (of_pack_eq (ArrayVariable.ext heq)).1 (by decide)

theorem verifiedCall_rotate (gateway : Address) :
    signedEnv.verifiedCall gateway genesisParams.rotateFunctionId (rotateInput 298 firstSetHash) =
      some nextSetHash.data := by
  simp only [signedEnv, if_true]

theorem verifiedCall_nine (gateway : Address) :
    signedEnv.verifiedCall gateway genesisParams.headerRangeFunctionId nineInput.data =
      some nineOutput.bytes := by
  simp only [signedEnv, functionId_ne, if_false, if_true]

theorem verifiedCall_ten (gateway : Address) :
    signedEnv.verifiedCall gateway genesisParams.headerRangeFunctionId tenInput.data =
      some tenOutput.bytes := by
  simp only [signedEnv, functionId_ne, tenInput_ne, if_false, if_true]

/-- What the gateway has verified. -/
theorem verifiedCall_signedEnv {gateway : Address} {input output : List UInt8}
    (h : signedEnv.verifiedCall gateway genesisParams.headerRangeFunctionId input = some output) :
    (input = nineInput.data ∧ output = nineOutput.bytes) ∨
      (input = tenInput.data ∧ output = tenOutput.bytes) := by
  simp only [signedEnv, functionId_ne, if_false] at h
  split at h
  · rename_i hnine
    exact Or.inl ⟨hnine, (Option.some.inj h).symm⟩
  · split at h
    · rename_i hten
      exact Or.inr ⟨hten, (Option.some.inj h).symm⟩
    · exact absurd h (by simp)

theorem verifySubchain_tenHeaders :
    verifySubchain Reference.signedCrypto 16 9 (Reference.blockHash (Reference.signedHeader 9)) 10
      (paddedHeaders Reference.signedChain 0 9 1) = some tenOutput := by
  have hnine : (9 : UInt32).toNat = 9 := rfl
  have haccept := verifySubchain_paddedHeaders Reference.signedChain 1 16 9 10 0 (by decide)
    (by decide) (by decide) (by decide) (by decide) (by decide) length_encode_signedChain
  rw [hnine, Reference.hash_signedChain] at haccept
  exact haccept

theorem headerRangeCircuit_nine :
    headerRangeCircuit Reference.signedCrypto 16 nineInput (nineHeaders 0)
      Reference.justification₉ = some nineOutput.bytes := by
  refine headerRangeCircuit_pack.mpr ⟨nineOutput, verifySubchain_nineHeaders 0, ?_, rfl⟩
  rw [targetHeaderHash_nineOutput]
  exact Reference.verifySimpleJustification_pair (Reference.isPrecommit_precommitMessage _ _ _)
    (by simp [Reference.chainSigned]) (by simp [Reference.chainSigned])

theorem targetHeaderHash_tenOutput :
    tenOutput.targetHeaderHash = Reference.blockHash (Reference.signedHeader 10) := by
  rw [tenOutput, subchainOutput, hash_honestBlock (by decide), Reference.hash_signedChain]

theorem headerRangeCircuit_ten :
    headerRangeCircuit Reference.signedCrypto 16 tenInput
      (paddedHeaders Reference.signedChain 0 9 1) Reference.justification₁₀ =
        some tenOutput.bytes := by
  refine headerRangeCircuit_pack.mpr ⟨tenOutput, verifySubchain_tenHeaders, ?_, rfl⟩
  rw [targetHeaderHash_tenOutput]
  exact Reference.verifySimpleJustification_pair (Reference.isPrecommit_precommitMessage _ _ _)
    (by simp [Reference.chainSigned]) (by simp [Reference.chainSigned])

theorem headerRangeVerified_signedEnv (gateway : Address) :
    HeaderRangeVerified Reference.signedCrypto 4 16 gateway signedParams.headerRangeFunctionId
      signedEnv := by
  intro input output h
  rcases verifiedCall_signedEnv h with ⟨rfl, rfl⟩ | ⟨rfl, rfl⟩
  · exact ⟨nineInput, nineHeaders 0, Reference.justification₉, rfl, headerRangeCircuit_nine⟩
  · exact ⟨tenInput, paddedHeaders Reference.signedChain 0 9 1, Reference.justification₁₀, rfl,
      headerRangeCircuit_ten⟩

/-- The storage after the rotation, after the first and after the second commit. -/
def rotatedState : State :=
  let s := State.genesis signedParams
  { s with authoritySetIdToHash := Function.update s.authoritySetIdToHash 299 nextSetHash }

def nineState : State :=
  { storeRange Reference.keccak256 rotatedState 0 9 nineOutput.targetHeaderHash
      nineOutput.dataRootMerkleRoot nineOutput.stateRootMerkleRoot with
    latestBlock := 9
    latestAuthoritySetId := 299 }

def tenState : State :=
  { storeRange Reference.keccak256 nineState 9 10 tenOutput.targetHeaderHash
      tenOutput.dataRootMerkleRoot tenOutput.stateRootMerkleRoot with
    latestBlock := 10
    latestAuthoritySetId := 299 }

theorem step_rotate_signed :
    step Reference.keccak256 (State.genesis signedParams) (signedEnv, .rotate 298) =
      (rotatedState, [.authoritySetStored 299 nextSetHash]) := by
  have hset : (State.genesis signedParams).authoritySetIdToHash 298 = firstSetHash := rfl
  have hword := decodeWord_append [] nextSetHash [] (i := 0) rfl
  rw [List.nil_append, List.append_nil] at hword
  refine step_of_exec (rotate_eq_ok.mpr ⟨rfl, ?_, 299, rfl, rfl, nextSetHash.data, ?_,
    nextSetHash, hword, rfl, rfl⟩)
  · rw [hset]
    exact Reference.pairHash_ne.1
  · rw [hset]
    exact verifiedCall_rotate _

/-- A commit of what the gateway has verified. -/
theorem step_commitHeaderRange {env : Env} {s : State} {id : UInt64} {targetBlock : UInt32}
    {o : SubchainVerificationVariable} (hfrozen : s.frozen = false)
    (hheader : s.blockHeightToHeaderHash s.latestBlock ≠ emptyBytes32)
    (hset : s.authoritySetIdToHash id ≠ emptyBytes32) (hold : ¬id < s.latestAuthoritySetId)
    (hlt : s.latestBlock < targetBlock)
    (hcall : env.verifiedCall s.gateway s.headerRangeFunctionId (headerRangeInput s.latestBlock
      (s.blockHeightToHeaderHash s.latestBlock) id (s.authoritySetIdToHash id) targetBlock) =
        some o.bytes) :
    step Reference.keccak256 s (env, .commitHeaderRange id targetBlock) =
      ({ storeRange Reference.keccak256 s s.latestBlock targetBlock o.targetHeaderHash
          o.dataRootMerkleRoot o.stateRootMerkleRoot with
          latestBlock := targetBlock
          latestAuthoritySetId :=
            if id > s.latestAuthoritySetId then id else s.latestAuthoritySetId },
        rangeEvents s s.latestBlock targetBlock o.targetHeaderHash o.dataRootMerkleRoot
          o.stateRootMerkleRoot) := by
  obtain ⟨hhash, hstate, hdata⟩ := decodeWord_bytes o
  exact step_of_exec (commitHeaderRange_eq_ok.mpr ⟨hfrozen, hheader, hset, hold, hlt, _, _, _,
    ⟨o.bytes, hcall, hhash, hstate, hdata⟩, rfl, rfl⟩)

theorem step_nine : step Reference.keccak256 rotatedState (signedEnv, .commitHeaderRange 299 9) =
    (nineState, rangeEvents rotatedState 0 9 nineOutput.targetHeaderHash
      nineOutput.dataRootMerkleRoot nineOutput.stateRootMerkleRoot) := by
  have hheader : rotatedState.blockHeightToHeaderHash rotatedState.latestBlock =
      Reference.blockHash (Reference.signedHeader 0) := rfl
  have hset : rotatedState.authoritySetIdToHash 299 = nextSetHash := rfl
  refine step_commitHeaderRange rfl ?_ ?_ (by decide) (by decide) ?_
  · rw [hheader]
    exact Reference.blockHash_signedHeader_ne (by decide)
  · rw [hset]
    exact Reference.pairHash_ne.2
  · rw [hheader, hset]
    exact verifiedCall_nine _

theorem step_ten : step Reference.keccak256 nineState (signedEnv, .commitHeaderRange 299 10) =
    (tenState, rangeEvents nineState 9 10 tenOutput.targetHeaderHash
      tenOutput.dataRootMerkleRoot tenOutput.stateRootMerkleRoot) := by
  have hheader : nineState.blockHeightToHeaderHash nineState.latestBlock =
      Reference.blockHash (Reference.signedHeader 9) := by
    simp only [nineState, storeRange, Function.update_self, targetHeaderHash_nineOutput]
  have hset : nineState.authoritySetIdToHash 299 = nextSetHash := by
    simp only [nineState, storeRange, rotatedState, Function.update_self]
  refine step_commitHeaderRange rfl ?_ ?_ (by decide) (by decide) ?_
  · rw [hheader]
    exact Reference.blockHash_signedHeader_ne (by decide)
  · rw [hset]
    exact Reference.pairHash_ne.2
  · rw [hheader, hset]
    exact verifiedCall_ten _

theorem runFrom_signed : runFrom Reference.keccak256 signedEnv signedParams signedCalls =
    (tenState, [.authoritySetStored 299 nextSetHash] ++
      (rangeEvents rotatedState 0 9 nineOutput.targetHeaderHash nineOutput.dataRootMerkleRoot
        nineOutput.stateRootMerkleRoot ++
      (rangeEvents nineState 9 10 tenOutput.targetHeaderHash tenOutput.dataRootMerkleRoot
        tenOutput.stateRootMerkleRoot ++ []))) := by
  rw [runFrom_eq, signedCalls]
  rw [Run.run_cons, step_rotate_signed, Run.run_cons, step_nine, Run.run_cons, step_ten, Run.run_nil]

theorem storedRanges_signed :
    storedRanges (runFrom Reference.keccak256 signedEnv signedParams signedCalls).2 =
      [(0, 9), (9, 10)] := by
  rw [runFrom_signed]
  rfl

theorem latestBlock_signed :
    (runFrom Reference.keccak256 signedEnv signedParams signedCalls).1.latestBlock = 10 := by
  rw [runFrom_signed]
  rfl

theorem collisionFree_rangePreimages_signed :
    CollisionFree Reference.keccak256 (rangePreimages
      (storedRanges (runFrom Reference.keccak256 signedEnv signedParams signedCalls).2)) := by
  rw [storedRanges_signed]
  exact HashChain.collisionFree_pair (by decide +kernel)

theorem isLightClient_signedCalls : ∀ c ∈ signedCalls, c.2.IsLightClient := by
  intro c hc
  simp only [signedCalls, List.mem_cons, List.not_mem_nil, or_false] at hc
  rcases hc with rfl | rfl | rfl <;> exact trivial

/-- After both commits, the storage follows a chain of ten headers. -/
theorem lightClient_followsChain_signed :
    ∃ blocks depth, 2 ^ depth = 8 * numMapJobs 16 ∧
      FollowsChain Reference.signedCrypto Reference.keccak256 depth signedParams.height
        signedParams.header
        (runFrom Reference.keccak256 signedEnv signedParams signedCalls).1
        (runFrom Reference.keccak256 signedEnv signedParams signedCalls).2 blocks := by
  refine lightClient_followsChain Reference.signedCrypto Reference.keccak256 4 16 signedEnv
    signedParams signedCalls isLightClient_signedCalls ?_ collisionFree_rangePreimages_signed ?_
  · intro c hc
    simp only [signedCalls, List.mem_cons, List.not_mem_nil, or_false] at hc
    rcases hc with rfl | rfl | rfl <;> exact headerRangeVerified_signedEnv _
  · rw [latestBlock_signed]
    decide

end VectorX.Contract
