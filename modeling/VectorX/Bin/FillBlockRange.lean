import VectorX.Contracts.BlockRangeData
import VectorX.Contracts.LightClient
import VectorX.Input.HeaderRotate

/-!
# Filling a block range

Reference: `bin/fill_block_range.rs`. The program cuts the blocks above the latest one into ranges
of the tree size, computes the commitments of each range from a node, and posts them to the contract
as the guardian. For every range the contract then holds what an honest proof would have committed.
-/

namespace VectorX

open Plonky2x Plonky2x.CircuitBuilder Solidity
open Ranges (Contiguous strides chunks)
open HashChain (CollisionFree)
open Contract (State Env Outcome BlockRange rangeKey rangePreimages SameLengths)

/-! ## Definitions -/

section Definitions

variable {crypto : Crypto} (chain : EpochChain crypto)

structure BlockRangeData where
  startBlocks : List UInt32
  endBlocks : List UInt32
  headerHashes : List Bytes32
  dataRootCommitments : List Bytes32
  stateRootCommitments : List Bytes32
  endAuthoritySetId : UInt64
  endAuthoritySetHash : Bytes32

/-- `(start_block..end_block).step_by(step)`, which panics if the step is 0. -/
def stepBy (startBlock endBlock step : UInt32) : Option (List UInt32) :=
  if step = 0 then none
  else some ((strides startBlock.toNat endBlock.toNat step.toNat).map UInt32.ofNat)

/-- The loop body of `get_block_range_data`: what is pushed for the range from `i` on. -/
def blockRangeFrom (headerRangeCommitmentTreeSize endBlock i : UInt32) : Option BlockRange := do
  let next ← checkedAdd i headerRangeCommitmentTreeSize
  let blockRangeEnd := if next ≤ endBlock then next else endBlock
  let header ← getHeader chain.toChain blockRangeEnd.toNat
  let (stateRootCommitment, dataRootCommitment) ←
    getMerkleRootCommitments chain.toChain headerRangeCommitmentTreeSize i blockRangeEnd
  let dataRootCommitment ← newArray 32 dataRootCommitment
  let stateRootCommitment ← newArray 32 stateRootCommitment
  some {
    startBlock := i
    endBlock := blockRangeEnd
    headerHash := header.hash crypto
    dataRootCommitment
    stateRootCommitment }

/-- `get_block_range_data`. -/
def getBlockRangeData (headerRangeCommitmentTreeSize startBlock endBlock : UInt32) :
    Option BlockRangeData := do
  let starts ← stepBy startBlock endBlock headerRangeCommitmentTreeSize
  let ranges ← starts.mapM (blockRangeFrom chain headerRangeCommitmentTreeSize endBlock)
  let endAuthoritySetId ← getAuthoritySetId chain.toSetIds endBlock
  let endAuthoritySetHash ← RpcDataFetcher.computeAuthoritySetHash chain endBlock
  some {
    startBlocks := ranges.map BlockRange.startBlock
    endBlocks := ranges.map BlockRange.endBlock
    headerHashes := ranges.map BlockRange.headerHash
    dataRootCommitments := ranges.map BlockRange.dataRootCommitment
    stateRootCommitments := ranges.map BlockRange.stateRootCommitment
    endAuthoritySetId
    endAuthoritySetHash }

/-- The transaction of `main`. -/
def BlockRangeData.post (data : BlockRangeData) (keccak256 : List UInt8 → Bytes32) (env : Env)
    (s : State) : Outcome :=
  Contract.updateBlockRangeData keccak256 env s data.startBlocks data.endBlocks data.headerHashes
    data.dataRootCommitments data.stateRootCommitments data.endAuthoritySetId
    data.endAuthoritySetHash

end Definitions

/-! ## The commitments of a range -/

section Ranges

variable {crypto : Crypto}

/-- What a proof for the blocks after `T` up to `G` returns, with trees of depth `d`. -/
def chainOutput (chain : Chain crypto) (d : ℕ) (T G : UInt32) : SubchainVerificationVariable :=
  subchainOutput crypto (honestBlock chain T.toNat (G.toNat - T.toNat)) (G.toNat - T.toNat) d

/-- The range with these commitments. -/
def chainRange (chain : Chain crypto) (d : ℕ) (T G : UInt32) : BlockRange where
  startBlock := T
  endBlock := G
  headerHash := (chainOutput chain d T G).targetHeaderHash
  dataRootCommitment := (chainOutput chain d T G).dataRootMerkleRoot
  stateRootCommitment := (chainOutput chain d T G).stateRootMerkleRoot

/-- The end of the range from `i` on. -/
def rangeEnd (treeSize endBlock i : UInt32) : UInt32 :=
  UInt32.ofNat (min (i.toNat + treeSize.toNat) endBlock.toNat)

theorem toNat_rangeEnd (treeSize endBlock i : UInt32) :
    (rangeEnd treeSize endBlock i).toNat = min (i.toNat + treeSize.toNat) endBlock.toNat := by
  have hend : endBlock.toNat < 2 ^ 32 := endBlock.toNat_lt
  rw [rangeEnd, UInt32.toNat_ofNat', Nat.mod_eq_of_lt (by omega)]

theorem newArray_data {V : Type*} {N : ℕ} (a : ArrayVariable V N) : newArray N a.data = some a :=
  newArray_eq_some_iff.mpr rfl

theorem targetHeaderHash_chainOutput (chain : Chain crypto) (d : ℕ) {T G : UInt32}
    (hlt : T.toNat < G.toNat) :
    (chainOutput chain d T G).targetHeaderHash = (chain.header G.toNat).hash crypto := by
  rw [chainOutput, subchainOutput, hash_honestBlock (by omega), Nat.add_sub_cancel' hlt.le]

variable {chain : EpochChain crypto} {treeSize endBlock i : UInt32} {d : ℕ}

/-- The roots of a range of at most `2 ^ d` blocks, which can be computed below block number
`2 ^ 32 - 201` only. -/
theorem getMerkleRootCommitments_chainOutput {chain : Chain crypto} {T G : UInt32}
    (htree : treeSize.toNat = 2 ^ d) (hlt : T.toNat < G.toNat) (hle : G.toNat ≤ T.toNat + 2 ^ d)
    (hbound : G.toNat + treeSize.toNat < 2 ^ 32) (hfirst : chain.first.toNat ≤ T.toNat)
    (hhead : G.toNat ≤ chain.head.toNat) :
    getMerkleRootCommitments chain treeSize T G =
      if T.toNat + 201 < 2 ^ 32 then
        some ((chainOutput chain d T G).stateRootMerkleRoot.data,
          (chainOutput chain d T G).dataRootMerkleRoot.data)
      else none := by
  rw [getMerkleRootCommitments_eq htree (Nat.add_sub_cancel' hlt.le) (by omega) (by omega) hfirst
    hhead]
  -- a second group of requests is needed for trees of more than 200 leaves only
  refine if_congr ⟨fun h => by omega, fun h => ?_⟩ rfl rfl
  omega

/-- The loop body pushes the honest range. -/
theorem blockRangeFrom_eq (htree : treeSize.toNat = 2 ^ d) (hi : i.toNat < endBlock.toNat)
    (hbound : endBlock.toNat + treeSize.toNat < 2 ^ 32) (hhead : endBlock.toNat ≤ chain.head.toNat) :
    blockRangeFrom chain treeSize endBlock i =
      if i.toNat + 201 < 2 ^ 32 then
        some (chainRange chain.toChain d i (rangeEnd treeSize endBlock i))
      else none := by
  have hpow := Nat.two_pow_pos d
  obtain ⟨next, hadd, hnext⟩ := checkedAdd_of_lt (a := i) (b := treeSize) (by omega)
  have hend := toNat_rangeEnd treeSize endBlock i
  have hmin : (if next ≤ endBlock then next else endBlock) = rangeEnd treeSize endBlock i := by
    rw [← UInt32.toNat_inj, toNat_ite_le, hend, hnext]
  have hheader := getHeader_eq (chain.first_le (rangeEnd treeSize endBlock i).toNat) (by omega)
  have hhash := targetHeaderHash_chainOutput chain.toChain d
    (show i.toNat < (rangeEnd treeSize endBlock i).toNat by omega)
  have hroots : getMerkleRootCommitments chain.toChain treeSize i (rangeEnd treeSize endBlock i) = _ :=
    getMerkleRootCommitments_chainOutput htree (by omega) (by omega) (by omega) (chain.first_le _)
      (by omega)
  rw [blockRangeFrom]
  simp only [hadd, hmin, hheader, hroots, Option.bind_eq_bind, Option.bind_some]
  split
  · simp only [Option.bind_some, newArray_data, chainRange, hhash]
  · rfl

end Ranges

/-! ## The data -/

section Data

/-- The bounds of the ranges. -/
def rangeBounds (treeSize startBlock endBlock : UInt32) : List (UInt32 × UInt32) :=
  ((strides startBlock.toNat endBlock.toNat treeSize.toNat).map UInt32.ofNat).map fun i =>
    (i, rangeEnd treeSize endBlock i)

/-- The start of the last range. -/
def lastStart (treeSize startBlock endBlock : UInt32) : ℕ :=
  startBlock.toNat +
    treeSize.toNat * ((endBlock.toNat - startBlock.toNat - 1) / treeSize.toNat)

variable {treeSize startBlock endBlock i : UInt32}

/-- Block numbers below the end block survive the conversion. -/
theorem toNat_ofNat_of_lt_endBlock {n : ℕ} (hn : n < endBlock.toNat) : (UInt32.ofNat n).toNat = n := by
  have hend : endBlock.toNat < 2 ^ 32 := endBlock.toNat_lt
  rw [UInt32.toNat_ofNat', Nat.mod_eq_of_lt (by omega)]

/-- The ranges tile the blocks after the start block. -/
theorem contiguous_rangeBounds (htree : 0 < treeSize.toNat) (hle : startBlock.toNat ≤ endBlock.toNat) :
    Contiguous startBlock (rangeBounds treeSize startBlock endBlock) endBlock := by
  have hend : endBlock.toNat < 2 ^ 32 := endBlock.toNat_lt
  have hchunks := (Ranges.contiguous_chunks htree hle).map (f := UInt32.ofNat) fun x y _ hy hxy => by
    rw [UInt32.lt_iff_toNat_lt, UInt32.toNat_ofNat', UInt32.toNat_ofNat']
    omega
  have hbounds : (chunks startBlock.toNat endBlock.toNat treeSize.toNat).map
      (fun r => (UInt32.ofNat r.1, UInt32.ofNat r.2)) = rangeBounds treeSize startBlock endBlock := by
    rw [chunks, rangeBounds, List.map_map, List.map_map]
    refine List.map_congr_left fun i hi => ?_
    obtain ⟨t, rfl, hlt⟩ := (Ranges.mem_strides htree).mp hi
    simp only [Function.comp_apply, rangeEnd, toNat_ofNat_of_lt_endBlock hlt]
  rwa [hbounds, UInt32.ofNat_toNat, UInt32.ofNat_toNat] at hchunks

/-- Every range has at least one block and at most as many as the tree has leaves, up to the end
block. -/
theorem of_mem_rangeBounds (htree : 0 < treeSize.toNat) (hle : startBlock.toNat ≤ endBlock.toNat)
    {r : UInt32 × UInt32} (hr : r ∈ rangeBounds treeSize startBlock endBlock) :
    r.1.toNat < r.2.toNat ∧ r.2.toNat ≤ r.1.toNat + treeSize.toNat ∧ r.2.toNat ≤ endBlock.toNat := by
  obtain ⟨-, hlt, hend⟩ := (contiguous_rangeBounds htree hle).mem hr
  rw [UInt32.lt_iff_toNat_lt] at hlt
  rw [UInt32.le_iff_toNat_le] at hend
  obtain ⟨i, -, rfl⟩ := List.mem_map.mp hr
  have hmin := toNat_rangeEnd treeSize endBlock i
  exact ⟨hlt, by simp only [hmin]; omega, hend⟩

variable {crypto : Crypto} {chain : EpochChain crypto} {d : ℕ}

/-- The ranges with their commitments. -/
def chainRanges (chain : Chain crypto) (d : ℕ) (treeSize startBlock endBlock : UInt32) :
    List BlockRange :=
  (rangeBounds treeSize startBlock endBlock).map fun r => chainRange chain d r.1 r.2

theorem map_bounds_chainRanges (chain : Chain crypto) (d : ℕ) (treeSize startBlock endBlock : UInt32) :
    (chainRanges chain d treeSize startBlock endBlock).map BlockRange.bounds =
      rangeBounds treeSize startBlock endBlock := by
  rw [chainRanges, List.map_map]
  exact List.map_id _

/-- The loop pushes the honest ranges, unless the last one starts too close to the largest block
number. -/
theorem mapM_blockRangeFrom (htree : treeSize.toNat = 2 ^ d) (hlt : startBlock.toNat < endBlock.toNat)
    (hbound : endBlock.toNat + treeSize.toNat < 2 ^ 32) (hhead : endBlock.toNat ≤ chain.head.toNat) :
    ((strides startBlock.toNat endBlock.toNat treeSize.toNat).map UInt32.ofNat).mapM
        (blockRangeFrom chain treeSize endBlock) =
      if lastStart treeSize startBlock endBlock + 201 < 2 ^ 32 then
        some (chainRanges chain.toChain d treeSize startBlock endBlock)
      else none := by
  have hpos : 0 < treeSize.toNat := htree ▸ Nat.two_pow_pos d
  -- what the body pushes for each start
  have hbody : ∀ n ∈ strides startBlock.toNat endBlock.toNat treeSize.toNat,
      n ≤ lastStart treeSize startBlock endBlock ∧
        blockRangeFrom chain treeSize endBlock (UInt32.ofNat n) = if n + 201 < 2 ^ 32 then
          some (chainRange chain.toChain d (UInt32.ofNat n)
            (rangeEnd treeSize endBlock (UInt32.ofNat n))) else none := by
    intro n hn
    obtain ⟨t, -, hn'⟩ := (Ranges.mem_strides hpos).mp hn
    have hnum := toNat_ofNat_of_lt_endBlock hn'
    refine ⟨Ranges.le_last_of_mem_strides hpos hn, ?_⟩
    rw [blockRangeFrom_eq htree (by omega) hbound hhead, hnum]
  split
  · rename_i hover
    rw [chainRanges, rangeBounds, List.map_map, TreeReduce.mapM_eq_some_map]
    intro i hi
    obtain ⟨n, hn, rfl⟩ := List.mem_map.mp hi
    obtain ⟨hle, heq⟩ := hbody n hn
    rw [heq, if_pos (by omega)]
    rfl
  · rename_i hover
    rw [Option.eq_none_iff_forall_ne_some]
    intro ranges hranges
    have hlast : lastStart treeSize startBlock endBlock ∈
        strides startBlock.toNat endBlock.toNat treeSize.toNat := Ranges.last_mem_strides hpos hlt
    obtain ⟨r, hr⟩ := TreeReduce.exists_of_mapM hranges _ (List.mem_map_of_mem hlast)
    rw [(hbody _ hlast).2, if_neg hover] at hr
    exact absurd hr (by simp)

/-- The data for the ranges. -/
def chainData (chain : EpochChain crypto) (d : ℕ) (treeSize startBlock endBlock : UInt32)
    (endAuthoritySetHash : Bytes32) : BlockRangeData where
  startBlocks := (chainRanges chain.toChain d treeSize startBlock endBlock).map BlockRange.startBlock
  endBlocks := (chainRanges chain.toChain d treeSize startBlock endBlock).map BlockRange.endBlock
  headerHashes := (chainRanges chain.toChain d treeSize startBlock endBlock).map BlockRange.headerHash
  dataRootCommitments :=
    (chainRanges chain.toChain d treeSize startBlock endBlock).map BlockRange.dataRootCommitment
  stateRootCommitments :=
    (chainRanges chain.toChain d treeSize startBlock endBlock).map BlockRange.stateRootCommitment
  endAuthoritySetId := chain.setId endBlock.toNat
  endAuthoritySetHash

/-- The data is that of the honest ranges, with the authorities at the end block. -/
theorem getBlockRangeData_eq_some (htree : treeSize.toNat = 2 ^ d)
    (hlt : startBlock.toNat < endBlock.toNat) (hbound : endBlock.toNat + treeSize.toNat < 2 ^ 32)
    (hhead : endBlock.toNat ≤ chain.head.toNat) {data : BlockRangeData} :
    getBlockRangeData chain treeSize startBlock endBlock = some data ↔
      lastStart treeSize startBlock endBlock + 201 < 2 ^ 32 ∧
        ∃ hash, RpcDataFetcher.computeAuthoritySetHash chain endBlock = some hash ∧
          data = chainData chain d treeSize startBlock endBlock hash := by
  have hpos : 0 < treeSize.toNat := htree ▸ Nat.two_pow_pos d
  have hstep : treeSize ≠ 0 := by
    rintro rfl
    exact absurd hpos (by decide)
  have hid : getAuthoritySetId chain.toSetIds endBlock = some (chain.setId endBlock.toNat) := by
    rw [getAuthoritySetId, if_pos (UInt32.le_iff_toNat_le.mpr hhead)]
  rw [getBlockRangeData, stepBy, if_neg hstep]
  simp only [Option.bind_eq_bind, Option.bind_some, mapM_blockRangeFrom htree hlt hbound hhead, hid]
  split
  · rename_i hover
    simp only [Option.bind_some, Option.bind_eq_some_iff, Option.some.injEq, chainData, hover, true_and]
    exact exists_congr fun hash => and_congr_right fun _ => eq_comm
  · rename_i hover
    simp only [Option.bind_none, reduceCtorEq, hover, false_and]

end Data

/-! ## Honest proofs -/

section Honest

variable {crypto : Crypto}

/-- The output of an honest proof for the blocks after `T` up to `G`, with commitment trees of
`treeSize` leaves: of a circuit with trees of that size, on the headers that its hints write, or of
the dummy program. -/
inductive HonestOutput (chain : Chain crypto) (treeSize T G : UInt32) (trustedHeaderHash : Bytes32)
    (authoritySetId : UInt64) (authoritySetHash : Bytes32) (output : List UInt8) : Prop
  | circuit {MAX_AUTHORITY_SET_SIZE MAX_NUM_HEADERS : ℕ}
      {headers : ℕ → ArrayVariable (EncodedHeaderVariable MAX_HEADER_SIZE) HEADERS_PER_MAP}
      {justification : JustificationVariable MAX_AUTHORITY_SET_SIZE}
      (leaves : 8 * numMapJobs MAX_NUM_HEADERS = treeSize.toNat)
      (hints : HintsWrite chain MAX_NUM_HEADERS T G headers)
      (accepted : headerRangeCircuit crypto MAX_NUM_HEADERS (packHeaderRangeInput T trustedHeaderHash
        authoritySetId authoritySetHash G) headers justification = some output)
  | dummy (run : dummyHeaderRange chain treeSize.toNat (packHeaderRangeInput T trustedHeaderHash
      authoritySetId authoritySetHash G).data = some output)

/-- An honest proof returns the commitments of the chain. -/
theorem HonestOutput.eq_bytes {chain : Chain crypto} {treeSize T G : UInt32}
    {trustedHeaderHash authoritySetHash : Bytes32} {authoritySetId : UInt64} {output : List UInt8}
    {d : ℕ} (h : HonestOutput chain treeSize T G trustedHeaderHash authoritySetId authoritySetHash output)
    (htree : treeSize.toNat = 2 ^ d) (hlt : T.toNat < G.toNat)
    (hle : G.toNat ≤ T.toNat + treeSize.toNat) (hbound : G.toNat + treeSize.toNat < 2 ^ 32)
    (hfirst : chain.first.toNat ≤ T.toNat) (hhead : G.toNat ≤ chain.head.toNat) :
    output = (chainOutput chain d T G).bytes := by
  cases h with
  | circuit leaves hints accepted =>
    rename_i _ MAX_NUM_HEADERS headers _
    obtain ⟨o, hsubchain, -, rfl⟩ := headerRangeCircuit_pack.mp accepted
    have hk : T.toNat + (G.toNat - T.toNat) = G.toNat := Nat.add_sub_cancel' hlt.le
    have hread := hints.readsSlots (by omega) (by omega) hk (by omega) hfirst hhead
    obtain ⟨-, -, rfl⟩ := (verifySubchain_eq_some (by omega) (by omega) hread (by omega) hk).mp hsubchain
    have hdepth : treeDepth MAX_NUM_HEADERS = d :=
      Nat.pow_right_injective (le_refl 2) ((two_pow_treeDepth _).trans (leaves.trans htree))
    rw [hdepth]
    rfl
  | dummy run =>
    have hheader := getHeader_eq (hfirst.trans hlt.le) hhead
    rw [dummyHeaderRange_pack, UInt32.ofNat_toNat, hheader, Option.bind_some,
      getMerkleRootCommitments_chainOutput htree hlt (by omega) hbound hfirst hhead] at run
    split at run
    · rw [Option.bind_some, ← targetHeaderHash_chainOutput chain d hlt] at run
      exact (Option.some.inj run).symm
    · exact absurd run (by simp)

/-- What `s` holds for the blocks after `T` up to `G` is what any commit of an honest proof
stores. -/
def StoresHonestRange (keccak256 : List UInt8 → Bytes32) (chain : Chain crypto) (treeSize : UInt32)
    (s : State) (T G : UInt32) : Prop :=
  ∀ (env : Env) (s₁ s₂ : State) (es : List Contract.Event) (authoritySetId : UInt64),
    s₁.latestBlock = T →
    (∀ output, env.verifiedCall s₁.gateway s₁.headerRangeFunctionId (Contract.headerRangeInput T
        (s₁.blockHeightToHeaderHash T) authoritySetId (s₁.authoritySetIdToHash authoritySetId) G) =
          some output →
      HonestOutput chain treeSize T G (s₁.blockHeightToHeaderHash T) authoritySetId
        (s₁.authoritySetIdToHash authoritySetId) output) →
    Contract.commitHeaderRange keccak256 env s₁ authoritySetId G = .ok (s₂, es) →
    s.blockHeightToHeaderHash G = s₂.blockHeightToHeaderHash G ∧
      s.dataRootCommitments (rangeKey keccak256 T G) =
        s₂.dataRootCommitments (rangeKey keccak256 T G) ∧
      s.stateRootCommitments (rangeKey keccak256 T G) =
        s₂.stateRootCommitments (rangeKey keccak256 T G) ∧
      s.rangeStartBlocks (rangeKey keccak256 T G) = s₂.rangeStartBlocks (rangeKey keccak256 T G)

/-- Honest proofs store the commitments of the chain. -/
theorem storesHonestRange_of_chainRange {keccak256 : List UInt8 → Bytes32} {chain : Chain crypto}
    {treeSize T G : UInt32} {s : State} {d : ℕ} (htree : treeSize.toNat = 2 ^ d)
    (hlt : T.toNat < G.toNat) (hle : G.toNat ≤ T.toNat + treeSize.toNat)
    (hbound : G.toNat + treeSize.toNat < 2 ^ 32) (hfirst : chain.first.toNat ≤ T.toNat)
    (hhead : G.toNat ≤ chain.head.toNat)
    (hheader : s.blockHeightToHeaderHash G = (chainRange chain d T G).headerHash)
    (hdata : s.dataRootCommitments (rangeKey keccak256 T G) =
      (chainRange chain d T G).dataRootCommitment)
    (hstate : s.stateRootCommitments (rangeKey keccak256 T G) =
      (chainRange chain d T G).stateRootCommitment)
    (hstart : s.rangeStartBlocks (rangeKey keccak256 T G) = T) :
    StoresHonestRange keccak256 chain treeSize s T G := by
  rintro env s₁ s₂ es authoritySetId rfl hhonest hcommit
  obtain ⟨-, -, -, -, -, hash, stateRoot, dataRoot, hverified, rfl, -⟩ :=
    Contract.commitHeaderRange_eq_ok.mp hcommit
  obtain ⟨output, hcall, hhash, hstateRoot, hdataRoot⟩ := hverified.verified
  obtain rfl := (hhonest output hcall).eq_bytes htree hlt hle hbound hfirst hhead
  obtain ⟨hhash', hstateRoot', hdataRoot'⟩ :=
    Contract.decodeWord_bytes (chainOutput chain d s₁.latestBlock G)
  obtain rfl := Option.some.inj (hhash'.symm.trans hhash)
  obtain rfl := Option.some.inj (hstateRoot'.symm.trans hstateRoot)
  obtain rfl := Option.some.inj (hdataRoot'.symm.trans hdataRoot)
  refine ⟨hheader.trans ?_, hdata.trans ?_, hstate.trans ?_, hstart.trans ?_⟩
  · exact (Function.update_self G _ s₁.blockHeightToHeaderHash).symm
  · exact (Function.update_self _ _ s₁.dataRootCommitments).symm
  · exact (Function.update_self _ _ s₁.stateRootCommitments).symm
  · exact (Function.update_self _ _ s₁.rangeStartBlocks).symm

end Honest

/-! ## Main result -/

section Filling

variable {crypto : Crypto} (keccak256 : List UInt8 → Bytes32) (chain : EpochChain crypto)
  (treeSize endBlock : UInt32) (env : Env) (s : State)

/-- The state `s'` holds the ranges of the data: they have at most `treeSize` blocks each and tile
the blocks after the latest one up to `endBlock`, and their commitments are those of honest
proofs. -/
structure BlockRangeFilled (data : BlockRangeData) (s' : State) : Prop where
  sameLengths : SameLengths data.startBlocks data.endBlocks data.headerHashes data.dataRootCommitments
    data.stateRootCommitments
  contiguous : Contiguous s.latestBlock (data.startBlocks.zip data.endBlocks) endBlock
  length : ∀ r ∈ data.startBlocks.zip data.endBlocks,
    1 ≤ r.2.toNat - r.1.toNat ∧ r.2.toNat - r.1.toNat ≤ treeSize.toNat
  latestBlock : s'.latestBlock = endBlock
  stored : ∀ r ∈ data.startBlocks.zip data.endBlocks,
    StoresHonestRange keccak256 chain.toChain treeSize s' r.1 r.2

/-- The program returns data that the contract accepts, and the contract then holds its ranges. -/
def FillsBlockRange : Prop :=
  ∃ data s' es, getBlockRangeData chain treeSize s.latestBlock endBlock = some data ∧
    data.post keccak256 env s = .ok (s', es) ∧
    BlockRangeFilled keccak256 chain treeSize endBlock s data s'

variable {keccak256 chain treeSize endBlock env s} {d : ℕ}

/-- Once the ranges are written, each of them is held as a commit of an honest proof stores it. -/
theorem storesHonestRange_withRanges (htree : treeSize.toNat = 2 ^ d)
    (hle : s.latestBlock.toNat ≤ endBlock.toNat) (hbound : endBlock.toNat + treeSize.toNat < 2 ^ 32)
    (hhead : endBlock.toNat ≤ chain.head.toNat)
    (hfree : CollisionFree keccak256
      (rangePreimages (rangeBounds treeSize s.latestBlock endBlock))) {r : UInt32 × UInt32}
    (hr : r ∈ rangeBounds treeSize s.latestBlock endBlock) :
    StoresHonestRange keccak256 chain.toChain treeSize
      (s.withRanges keccak256 (chainRanges chain.toChain d treeSize s.latestBlock endBlock)) r.1 r.2 := by
  have hpos : 0 < treeSize.toNat := htree ▸ Nat.two_pow_pos d
  have hends := (contiguous_rangeBounds hpos hle).nodup_ends
  obtain ⟨hlt, hlength, hend⟩ := of_mem_rangeBounds hpos hle hr
  rw [← map_bounds_chainRanges chain.toChain d] at hends hfree
  rw [List.map_map] at hends
  have hmem : chainRange chain.toChain d r.1 r.2 ∈
      chainRanges chain.toChain d treeSize s.latestBlock endBlock :=
    List.mem_map_of_mem (f := fun r => chainRange chain.toChain d r.1 r.2) hr
  obtain ⟨hheader, hdata, hstate, hstart⟩ := Contract.withRanges_of_mem (s := s) hends hfree hmem
  exact storesHonestRange_of_chainRange htree hlt hlength (by omega) (chain.first_le _) (by omega)
    hheader hdata hstate hstart

/-- The contract accepts the data of the honest ranges. -/
theorem post_chainData (hguardian : env.isGuardian env.sender = true) (htree : treeSize.toNat = 2 ^ d)
    (hlt : s.latestBlock < endBlock) (hbound : endBlock.toNat + treeSize.toNat < 2 ^ 32)
    (hhead : endBlock.toNat ≤ chain.head.toNat)
    (hfree : CollisionFree keccak256
      (rangePreimages (rangeBounds treeSize s.latestBlock endBlock))) (hash : Bytes32) :
    ∃ s' es, (chainData chain d treeSize s.latestBlock endBlock hash).post keccak256 env s =
        .ok (s', es) ∧
      BlockRangeFilled keccak256 chain treeSize endBlock s
        (chainData chain d treeSize s.latestBlock endBlock hash) s' := by
  have hpos : 0 < treeSize.toNat := htree ▸ Nat.two_pow_pos d
  have hle := (UInt32.lt_iff_toNat_lt.mp hlt).le
  have hcontiguous := contiguous_rangeBounds hpos hle
  have hbounds := map_bounds_chainRanges chain.toChain d treeSize s.latestBlock endBlock
  have hzip : (chainData chain d treeSize s.latestBlock endBlock hash).startBlocks.zip
      (chainData chain d treeSize s.latestBlock endBlock hash).endBlocks =
        rangeBounds treeSize s.latestBlock endBlock := (List.zip_map' ..).trans hbounds
  refine ⟨_, _, Contract.updateBlockRangeData_map hguardian (hbounds.symm ▸ hcontiguous) hlt, ?_⟩
  constructor
  case sameLengths =>
    exact Contract.sameLengths_map fun hnil => hcontiguous.ne_nil hlt (by rw [← hbounds, hnil]; rfl)
  case contiguous =>
    rw [hzip]
    exact hcontiguous
  case length =>
    intro r hr
    rw [hzip] at hr
    obtain ⟨hpos', hlength, -⟩ := of_mem_rangeBounds hpos hle hr
    omega
  case latestBlock => rfl
  case stored =>
    intro r hr
    rw [hzip] at hr
    exact storesHonestRange_withRanges htree hle hbound hhead hfree hr

end Filling

/-- **Filling.** On a chain with the blocks up to `endBlock`, the guardian fills the ranges above
the latest block if and only if the last range starts below block `2 ^ 32 - 201` and the authorities
at the end block pass the check of their weights. -/
theorem fillsBlockRange_iff (crypto : Crypto) (keccak256 : List UInt8 → Bytes32)
    (chain : EpochChain crypto) (treeSize endBlock : UInt32) (env : Env) (s : State) (d : ℕ)
    (hguardian : env.isGuardian env.sender = true) (htree : treeSize.toNat = 2 ^ d)
    (hlt : s.latestBlock < endBlock) (hbound : endBlock.toNat + treeSize.toNat < 2 ^ 32)
    (hhead : endBlock ≤ chain.head)
    (hfree : CollisionFree keccak256
      (rangePreimages (rangeBounds treeSize s.latestBlock endBlock))) :
    FillsBlockRange keccak256 chain treeSize endBlock env s ↔
      lastStart treeSize s.latestBlock endBlock + 201 < 2 ^ 32 ∧
        chain.grandpaAuthorities endBlock.toNat ≠ [] ∧
        ∀ a ∈ chain.grandpaAuthorities endBlock.toNat, a.2 = 1 := by
  have hlt' := UInt32.lt_iff_toNat_lt.mp hlt
  have hhead' := UInt32.le_iff_toNat_le.mp hhead
  have hauthorities := exists_computeAuthoritySetHash_iff chain endBlock
  rw [and_iff_right hhead] at hauthorities
  rw [← hauthorities]
  constructor
  · rintro ⟨data, s', es, hdata, -⟩
    obtain ⟨hover, hash, hhash, -⟩ := (getBlockRangeData_eq_some htree hlt' hbound hhead').mp hdata
    exact ⟨hover, hash, hhash⟩
  · rintro ⟨hover, hash, hhash⟩
    obtain ⟨s', es, hok, hfilled⟩ := post_chainData hguardian htree hlt hbound hhead' hfree hash
    exact ⟨_, s', es, (getBlockRangeData_eq_some htree hlt' hbound hhead').mpr
      ⟨hover, hash, hhash, rfl⟩, hok, hfilled⟩

/-- With a tree of two leaves, the guardian fills the first three blocks of the reference chain as
two ranges. -/
theorem fillsBlockRange_iff_twoRanges :
    rangeBounds 2 0 3 = [(0, 2), (2, 3)] ∧
      FillsBlockRange Reference.keccak256 (Reference.twoEpochChain [] []) 2 3 Contract.guardianEnv
        (State.genesis Contract.genesisParams) := by
  have hranges : rangeBounds 2 0 3 = [(0, 2), (2, 3)] := by decide
  have hfree : CollisionFree Reference.keccak256 (rangePreimages (rangeBounds 2 0 3)) := by
    rw [hranges]
    exact HashChain.collisionFree_pair (by decide +kernel)
  refine ⟨hranges, (fillsBlockRange_iff (Reference.crypto []) Reference.keccak256
    (Reference.twoEpochChain [] []) 2 3 Contract.guardianEnv (State.genesis Contract.genesisParams) 1
    rfl (by decide) (by decide) (by decide) (by decide) hfree).mpr ⟨by decide, ?_, ?_⟩⟩
  · exact List.cons_ne_nil _ _
  · intro a ha
    rw [List.mem_singleton.mp ha]

/-! ### The highest block numbers -/

/-- A chain of one epoch whose head is the highest block that a tree of 8 leaves allows. -/
def highestChain : EpochChain (Reference.crypto []) :=
  Reference.epochChain []
    { head := 4294967287, setId := fun _ => 0, setId_zero := rfl, setId_succ := fun _ _ => .inl rfl }
    (fun _ => [(Reference.pubkey₁, 1)]) fun _ => []

/-- With a tree of 8 leaves, block 4294967281 cannot be filled in after the one before it: the
fetching of its header adds 200 to its number. -/
theorem not_fillsBlockRange : ¬∀ (crypto : Crypto) (keccak256 : List UInt8 → Bytes32)
    (chain : EpochChain crypto) (treeSize endBlock : UInt32) (env : Env) (s : State) (d : ℕ),
    env.isGuardian env.sender = true → treeSize.toNat = 2 ^ d → s.latestBlock < endBlock →
    chain.head.toNat + treeSize.toNat < 2 ^ 32 → endBlock ≤ chain.head →
    CollisionFree keccak256 (rangePreimages (rangeBounds treeSize s.latestBlock endBlock)) →
    chain.grandpaAuthorities endBlock.toNat ≠ [] →
    (∀ a ∈ chain.grandpaAuthorities endBlock.toNat, a.2 = 1) →
    FillsBlockRange keccak256 chain treeSize endBlock env s := by
  intro hclaim
  have hfree : CollisionFree Reference.keccak256
      (rangePreimages (rangeBounds 8 4294967280 4294967281)) := by
    have hsingle : rangeBounds 8 4294967280 4294967281 = [(4294967280, 4294967281)] := by decide
    rw [hsingle]
    exact HashChain.collisionFree_singleton _ _
  obtain ⟨data, s', es, hdata, -⟩ := hclaim (Reference.crypto []) Reference.keccak256 highestChain 8
    4294967281 Contract.guardianEnv
    (State.genesis { Contract.genesisParams with height := 4294967280 }) 3 rfl (by decide) (by decide)
    (by decide) (by decide) hfree (List.cons_ne_nil _ _) (by
      intro a ha
      rw [List.mem_singleton.mp ha])
  have hover := ((getBlockRangeData_eq_some (d := 3) (by decide) (by decide) (by decide)
    (by decide)).mp hdata).1
  exact absurd hover (by decide)

end VectorX
