import VectorX.Circuits.Decoder

/-!
# Verification of a chain of headers

Reference: `circuits/builder/subchain_verification.rs`. A map job checks one batch of headers, a
reduce step joins two neighbouring subchains, and the root must connect the trusted block with the
target block.
-/

namespace VectorX

open Plonky2x Plonky2x.CircuitBuilder

structure SubchainVerificationCtx where
  globalStartBlock : U32Variable
  globalEndBlock : U32Variable
deriving DecidableEq

/-- What is known about the blocks of a subtree. -/
structure MapReduceSubchainVariable where
  numBlocks : Variable
  startBlock : U32Variable
  startHeaderHash : Bytes32Variable
  startParent : Bytes32Variable
  endBlock : U32Variable
  endHeaderHash : Bytes32Variable
  stateMerkleRoot : Bytes32Variable
  dataMerkleRoot : Bytes32Variable
deriving DecidableEq

/-! ## The map stage -/

/-- The header fields and the hash of one slot. -/
structure Block where
  hash : Bytes32Variable
  header : HeaderVariable
deriving DecidableEq

/-- Hash and decode the header of a slot. -/
def readBlock (crypto : Crypto) {S : ℕ} (encoded : EncodedHeaderVariable S) : Option Block := do
  let hash ← hashEncodedHeader crypto encoded
  let header ← decodeHeader crypto encoded hash
  some { hash, header }

/-- The variables of the loop over the headers of a batch. -/
structure BatchLoop where
  blockNums : List U32Variable
  blockHashes : List Bytes32Variable
  blockParentHashes : List Bytes32Variable
  blockStateRoots : List Bytes32Variable
  blockDataRoots : List Bytes32Variable
  endBlockNum : U32Variable
  endHeaderHash : Bytes32Variable
  numHeaders : Variable
  currBlockNoop : BoolVariable
  nbEnabledLeaves : Variable

/-- The loop variables before the first header. -/
def BatchLoop.init (isBatchDisabled : BoolVariable) : BatchLoop where
  blockNums := []
  blockHashes := []
  blockParentHashes := []
  blockStateRoots := []
  blockDataRoots := []
  endBlockNum := 0
  endHeaderHash := emptyBytes32
  numHeaders := 0
  currBlockNoop := isBatchDisabled
  nbEnabledLeaves := 0

/-- The link check between a block and the one before it, if there is one. -/
def BatchLoop.checkLink (s : BatchLoop) (block : Block) : Option Unit :=
  match s.blockHashes.getLast?, s.blockNums.getLast? with
  | some prevHash, some prevNum => do
    let hashesLinked := isEqual block.header.parentHash prevHash
    let expectedBlockNum := prevNum + 1
    let numsSequential := isEqual block.header.blockNumber expectedBlockNum
    let headerCorrectlyLinked := hashesLinked && numsSequential
    -- a no-op block need not be linked
    let linkCheck := s.currBlockNoop || headerCorrectlyLinked
    assertIsEqual linkCheck true
  | _, _ => some ()

/-- The loop variables after one more block. -/
def BatchLoop.push (ctx : SubchainVerificationCtx) (s : BatchLoop) (block : Block) : BatchLoop where
  blockNums := s.blockNums ++ [block.header.blockNumber]
  blockHashes := s.blockHashes ++ [block.hash]
  blockParentHashes := s.blockParentHashes ++ [block.header.parentHash]
  blockStateRoots := s.blockStateRoots ++ [block.header.stateRoot]
  blockDataRoots := s.blockDataRoots ++ [block.header.dataRoot]
  endBlockNum := select s.currBlockNoop s.endBlockNum block.header.blockNumber
  endHeaderHash := select s.currBlockNoop s.endHeaderHash block.hash
  numHeaders := s.numHeaders + select s.currBlockNoop 0 1
  nbEnabledLeaves := s.nbEnabledLeaves + select s.currBlockNoop 0 1
  -- blocks after the target block are no-ops
  currBlockNoop := s.currBlockNoop || isEqual block.header.blockNumber ctx.globalEndBlock

/-- One iteration of the loop over the headers of a batch. -/
def batchStep (crypto : Crypto) (ctx : SubchainVerificationCtx) {S : ℕ} (s : BatchLoop)
    (encoded : EncodedHeaderVariable S) : Option BatchLoop := do
  let block ← readBlock crypto encoded
  s.checkLink block
  some (s.push ctx block)

/-- `ArrayVariable::new`: a list of exactly `N` variables. -/
def newArray {V : Type*} (N : ℕ) (l : List V) : Option (ArrayVariable V N) :=
  if h : l.length = N then some ⟨l, h⟩ else none

theorem newArray_eq_some_iff {V : Type*} {N : ℕ} {l : List V} {a : ArrayVariable V N} :
    newArray N l = some a ↔ a.data = l := by
  rw [newArray]
  constructor
  · intro h
    split at h
    · exact congrArg ArrayVariable.data (Option.some.inj h).symm
    · exact absurd h (by simp)
  · rintro rfl
    exact dif_pos a.length_data

/-- The map stage, on the untrusted `headers`. -/
def mapStage (crypto : Crypto) {S : ℕ} (ctx : SubchainVerificationCtx)
    (relativeBlockNums : List U32Variable)
    (headers : ArrayVariable (EncodedHeaderVariable S) HEADERS_PER_MAP) :
    Option MapReduceSubchainVariable := do
  let firstRelative ← relativeBlockNums[0]?
  let lastRelative ← relativeBlockNums[HEADERS_PER_MAP - 1]?
  let batchStartBlock := ctx.globalStartBlock + firstRelative
  let batchEndBlock := ctx.globalStartBlock + lastRelative
  let isBatchDisabled := decide (ctx.globalEndBlock < batchStartBlock)
  let s ← headers.data.foldlM (batchStep crypto ctx) (BatchLoop.init isBatchDisabled)
  let startBlock ← s.blockNums[0]?
  let startHeaderHash ← s.blockHashes[0]?
  let startParent ← s.blockParentHashes[0]?
  let firstBlockNbCheck := isEqual startBlock batchStartBlock || isBatchDisabled
  assertIsEqual firstBlockNbCheck true
  let lastBlockNbCheck := isEqual s.endBlockNum batchEndBlock || s.currBlockNoop
  assertIsEqual lastBlockNbCheck true
  let stateRoots ← newArray HEADERS_PER_MAP s.blockStateRoots
  let dataRoots ← newArray HEADERS_PER_MAP s.blockDataRoots
  some {
    numBlocks := s.numHeaders
    startBlock
    startHeaderHash
    startParent
    endBlock := s.endBlockNum
    endHeaderHash := s.endHeaderHash
    stateMerkleRoot := crypto.getRootFromHashedLeaves stateRoots s.nbEnabledLeaves
    dataMerkleRoot := crypto.getRootFromHashedLeaves dataRoots s.nbEnabledLeaves }

/-! ## The reduce stage -/

/-- The reduce stage. -/
def reduceStage (crypto : Crypto) (left right : MapReduceSubchainVariable) :
    Option MapReduceSubchainVariable := do
  let areSubchainsLinked := isEqual left.endHeaderHash right.startParent
  let expectedLeftEndBlockNumber := right.startBlock - 1
  let areSubchainsSequential := isEqual left.endBlock expectedLeftEndBlockNumber
  let areSubchainsLinked := areSubchainsLinked && areSubchainsSequential
  let isRightSubchainInactive := isZero right.numBlocks
  let isSubchainLinkValid := isRightSubchainInactive || areSubchainsLinked
  assertIsEqual isSubchainLinkValid true
  some {
    numBlocks := left.numBlocks + right.numBlocks
    startBlock := left.startBlock
    startHeaderHash := left.startHeaderHash
    startParent := left.startParent
    endBlock := select isRightSubchainInactive left.endBlock right.endBlock
    endHeaderHash := select isRightSubchainInactive left.endHeaderHash right.endHeaderHash
    stateMerkleRoot := hashNode crypto left.stateMerkleRoot right.stateMerkleRoot
    dataMerkleRoot := hashNode crypto left.dataMerkleRoot right.dataMerkleRoot }

/-! ## The whole chain -/

/-- The number of map jobs. -/
def numMapJobs (MAX_NUM_HEADERS : ℕ) : ℕ :=
  Merkle.nextPowerOfTwo (MAX_NUM_HEADERS / HEADERS_PER_MAP)

/-- The block numbers relative to the trusted block, `1 .. num_map_jobs * 8`, in wrapping 32-bit
arithmetic. -/
def relativeBlockNums (numMapJobs : ℕ) : List U32Variable :=
  let stop := UInt32.ofNat numMapJobs * UInt32.ofNat HEADERS_PER_MAP + 1
  (List.range' 1 (stop.toNat - 1)).map UInt32.ofNat

/-- `verify_subchain`, on the untrusted headers of the map jobs. -/
def verifySubchain (crypto : Crypto) (MAX_NUM_HEADERS : ℕ) (trustedBlock : U32Variable)
    (trustedHeaderHash : Bytes32Variable) (targetBlock : U32Variable)
    (headers : ℕ → ArrayVariable (EncodedHeaderVariable MAX_HEADER_SIZE) HEADERS_PER_MAP) :
    Option SubchainVerificationVariable := do
  let ctx : SubchainVerificationCtx :=
    { globalStartBlock := trustedBlock, globalEndBlock := targetBlock }
  let output ← crypto.mapreduce ctx HEADERS_PER_MAP (relativeBlockNums (numMapJobs MAX_NUM_HEADERS))
    headers (mapStage crypto) fun _ => reduceStage crypto
  assertIsEqual trustedHeaderHash output.startParent
  assertIsEqual targetBlock output.endBlock
  some {
    targetHeaderHash := output.endHeaderHash
    stateRootMerkleRoot := output.stateMerkleRoot
    dataRootMerkleRoot := output.dataMerkleRoot }

end VectorX
