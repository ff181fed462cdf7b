import VectorX.Contracts.Solidity
import VectorX.Common.Run

/-!
# The light client contract

Reference: `contracts/src/VectorX.sol`. A call maps the storage to the new storage and what it
emits, or reverts. The gateway and the roles of the upgrades library are not part of the contract:
their answers come with each call.
-/

namespace VectorX.Contract

open Plonky2x Solidity
open Bytes (beBytes)

/-! ## Storage, environment and effects -/

structure State where
  /-- Set by the first call of an initializer. -/
  initialized : Bool
  frozen : Bool
  gateway : Address
  latestBlock : UInt32
  latestAuthoritySetId : UInt64
  headerRangeFunctionId : Bytes32
  rotateFunctionId : Bytes32
  blockHeightToHeaderHash : UInt32 → Bytes32
  authoritySetIdToHash : UInt64 → Bytes32
  dataRootCommitments : Bytes32 → Bytes32
  stateRootCommitments : Bytes32 → Bytes32
  rangeStartBlocks : Bytes32 → UInt32
  headerRangeCommitmentTreeSize : UInt32

/-- The storage of a contract that has not been initialized. -/
def State.fresh : State where
  initialized := false
  frozen := false
  gateway := ArrayVariable.replicate 20 0
  latestBlock := 0
  latestAuthoritySetId := 0
  headerRangeFunctionId := emptyBytes32
  rotateFunctionId := emptyBytes32
  blockHeightToHeaderHash _ := emptyBytes32
  authoritySetIdToHash _ := emptyBytes32
  dataRootCommitments _ := emptyBytes32
  stateRootCommitments _ := emptyBytes32
  rangeStartBlocks _ := 0
  headerRangeCommitmentTreeSize := 0

structure InitParameters where
  gateway : Address
  height : UInt32
  header : Bytes32
  authoritySetId : UInt64
  authoritySetHash : Bytes32
  headerRangeFunctionId : Bytes32
  rotateFunctionId : Bytes32
  headerRangeCommitmentTreeSize : UInt32

/-- What the outside answers during a call. The gateway may behave differently in every call. -/
structure Env where
  sender : Address
  /-- The check of `onlyGuardian`. -/
  isGuardian : Address → Bool
  /-- Whether a gateway takes a request: function id, input and callback. -/
  requestCall : Address → Bytes32 → List UInt8 → List UInt8 → Bool
  /-- The output of a verified call of a gateway: function id and input. The call is static. -/
  verifiedCall : Address → Bytes32 → List UInt8 → Option (List UInt8)

inductive Revert
  | nextAuthoritySetExists
  | contractFrozen
  | trustedHeaderNotFound
  | authoritySetNotFound
  | oldAuthoritySetId
  /-- A `require` without message. -/
  | require
  /-- A failed `assert`, an overflow or an index out of bounds. -/
  | panic
  | alreadyInitialized
  | onlyGuardian
  | gateway
  | abiDecode
deriving DecidableEq

/-- A log, or a request to the gateway. -/
inductive Event
  | headerRangeRequested (trustedBlock : UInt32) (trustedHeader : Bytes32) (authoritySetId : UInt64)
      (authoritySetHash : Bytes32) (targetBlock : UInt32)
  | rotateRequested (currentAuthoritySetId : UInt64) (currentAuthoritySetHash : Bytes32)
  | headUpdate (blockNumber : UInt32) (headerHash : Bytes32)
  | headerRangeCommitmentStored (startBlock endBlock : UInt32) (dataCommitment : Bytes32)
      (stateCommitment : Bytes32) (headerRangeCommitmentTreeSize : UInt32)
  | authoritySetStored (authoritySetId : UInt64) (authoritySetHash : Bytes32)
  | requestCall (gateway : Address) (functionId : Bytes32) (input callback : List UInt8)
deriving DecidableEq

/-- The outcome of a call. -/
abbrev Outcome := Except Revert (State × List Event)

/-! ## Encodings -/

section Encodings

variable (keccak256 : List UInt8 → Bytes32)

/-- `abi.encode(startBlock, endBlock)`. -/
def rangePreimage (startBlock endBlock : UInt32) : List UInt8 :=
  encodeUint startBlock.toNat ++ encodeUint endBlock.toNat

/-- The key of the range `(startBlock, endBlock]`. -/
def rangeKey (startBlock endBlock : UInt32) : Bytes32 :=
  keccak256 (rangePreimage startBlock endBlock)

/--
`abi.encodePacked(latestBlock, trustedHeader, _authoritySetId, authoritySetHash, _targetBlock)`. -/
def headerRangeInput (latestBlock : UInt32) (trustedHeader : Bytes32) (authoritySetId : UInt64)
    (authoritySetHash : Bytes32) (targetBlock : UInt32) : List UInt8 :=
  beBytes 4 latestBlock.toNat ++ trustedHeader.data ++ beBytes 8 authoritySetId.toNat ++
    authoritySetHash.data ++ beBytes 4 targetBlock.toNat

/-- `abi.encodePacked(_currentAuthoritySetId, currentAuthoritySetHash)`. -/
def rotateInput (currentAuthoritySetId : UInt64) (currentAuthoritySetHash : Bytes32) : List UInt8 :=
  beBytes 8 currentAuthoritySetId.toNat ++ currentAuthoritySetHash.data

/-- The callback of a header range request. -/
def commitHeaderRangeData (authoritySetId : UInt64) (targetBlock : UInt32) : List UInt8 :=
  selector keccak256 "commitHeaderRange(uint64,uint32)" ++ encodeUint authoritySetId.toNat ++
    encodeUint targetBlock.toNat

/-- The callback of a rotate request. -/
def rotateData (currentAuthoritySetId : UInt64) : List UInt8 :=
  selector keccak256 "rotate(uint64)" ++ encodeUint currentAuthoritySetId.toNat

/-- `_currentAuthoritySetId + 1`, with the overflow check of Solidity. -/
def nextAuthoritySetId (currentAuthoritySetId : UInt64) : Option UInt64 :=
  if currentAuthoritySetId.toNat + 1 < 2 ^ 64 then some (currentAuthoritySetId + 1) else none

end Encodings

/-! ## Functions -/

section Functions

variable (keccak256 : List UInt8 → Bytes32) (env : Env) (s : State)

/-- `initialize`; the roles of the guardian are set up in the upgrades library. -/
def initializeContract (params : InitParameters) : Outcome := do
  revertIf s.initialized .alreadyInitialized
  .ok ({ s with
    initialized := true
    gateway := params.gateway
    blockHeightToHeaderHash :=
      Function.update s.blockHeightToHeaderHash params.height params.header
    authoritySetIdToHash :=
      Function.update s.authoritySetIdToHash params.authoritySetId params.authoritySetHash
    latestAuthoritySetId := params.authoritySetId
    latestBlock := params.height
    rotateFunctionId := params.rotateFunctionId
    headerRangeFunctionId := params.headerRangeFunctionId
    headerRangeCommitmentTreeSize := params.headerRangeCommitmentTreeSize }, [])

def updateFreeze (freeze : Bool) : Outcome := do
  require (env.isGuardian env.sender) .onlyGuardian
  .ok ({ s with frozen := freeze }, [])

def updateFunctionIds (headerRangeFunctionId rotateFunctionId : Bytes32)
    (headerRangeCommitmentTreeSize : UInt32) : Outcome := do
  require (env.isGuardian env.sender) .onlyGuardian
  .ok ({ s with headerRangeFunctionId, rotateFunctionId, headerRangeCommitmentTreeSize }, [])

def updateGateway (gateway : Address) : Outcome := do
  require (env.isGuardian env.sender) .onlyGuardian
  .ok ({ s with gateway }, [])

def updateGenesisState (height : UInt32) (header : Bytes32) (authoritySetId : UInt64)
    (authoritySetHash : Bytes32) : Outcome := do
  require (env.isGuardian env.sender) .onlyGuardian
  .ok ({ s with
    blockHeightToHeaderHash := Function.update s.blockHeightToHeaderHash height header
    latestBlock := height
    authoritySetIdToHash := Function.update s.authoritySetIdToHash authoritySetId authoritySetHash
    latestAuthoritySetId := authoritySetId }, [])

/-- The writes for the range `(startBlock, endBlock]`. -/
def storeRange (startBlock endBlock : UInt32) (headerHash dataCommitment stateCommitment : Bytes32) :
    State :=
  let key := rangeKey keccak256 startBlock endBlock
  { s with
    blockHeightToHeaderHash := Function.update s.blockHeightToHeaderHash endBlock headerHash
    dataRootCommitments := Function.update s.dataRootCommitments key dataCommitment
    stateRootCommitments := Function.update s.stateRootCommitments key stateCommitment
    rangeStartBlocks := Function.update s.rangeStartBlocks key startBlock }

/-- The logs for the range `(startBlock, endBlock]`. -/
def rangeEvents (startBlock endBlock : UInt32) (headerHash dataCommitment stateCommitment : Bytes32) :
    List Event :=
  [.headUpdate endBlock headerHash,
    .headerRangeCommitmentStored startBlock endBlock dataCommitment stateCommitment
      s.headerRangeCommitmentTreeSize]

/-- The argument arrays of `updateBlockRangeData` at one index. -/
structure BlockRange where
  startBlock : UInt32
  endBlock : UInt32
  headerHash : Bytes32
  dataRootCommitment : Bytes32
  stateRootCommitment : Bytes32

/-- The loop of `updateBlockRangeData`. -/
def storeBlockRanges (s : State) : List BlockRange → Outcome
  | [] => .ok (s, [])
  | r :: rs => do
    match rs with
    | [] => .ok ()
    | r' :: _ => require (r.endBlock = r'.startBlock) .require
    let s' := storeRange keccak256 s r.startBlock r.endBlock r.headerHash r.dataRootCommitment
      r.stateRootCommitment
    let (s'', es) ← storeBlockRanges s' rs
    .ok (s'', rangeEvents s r.startBlock r.endBlock r.headerHash r.dataRootCommitment
      r.stateRootCommitment ++ es)

def updateBlockRangeData (startBlocks endBlocks : List UInt32)
    (headerHashes dataRootCommitments stateRootCommitments : List Bytes32)
    (endAuthoritySetId : UInt64) (endAuthoritySetHash : Bytes32) : Outcome := do
  require (env.isGuardian env.sender) .onlyGuardian
  require (startBlocks.length > 0 ∧ startBlocks.length = endBlocks.length ∧
    endBlocks.length = headerHashes.length ∧ headerHashes.length = dataRootCommitments.length ∧
    dataRootCommitments.length = stateRootCommitments.length) .panic
  require (startBlocks.head? = some s.latestBlock) .require
  let ranges := (startBlocks.zip (endBlocks.zip (headerHashes.zip
    (dataRootCommitments.zip stateRootCommitments)))).map fun (a, b, h, d, r) =>
      (⟨a, b, h, d, r⟩ : BlockRange)
  let (s', es) ← storeBlockRanges keccak256 s ranges
  let latestBlock ← orRevert endBlocks.getLast? .panic
  .ok ({ s' with
    latestBlock
    authoritySetIdToHash :=
      Function.update s'.authoritySetIdToHash endAuthoritySetId endAuthoritySetHash
    latestAuthoritySetId := endAuthoritySetId }, es)

/-- The request leaves the storage as it is; what the gateway calls back is a call of its own. -/
def requestHeaderRange (authoritySetId : UInt64) (requestedBlock : UInt32) : Outcome := do
  let trustedHeader := s.blockHeightToHeaderHash s.latestBlock
  revertIf (trustedHeader = emptyBytes32) .authoritySetNotFound
  let authoritySetHash := s.authoritySetIdToHash authoritySetId
  revertIf (authoritySetHash = emptyBytes32) .authoritySetNotFound
  require (requestedBlock > s.latestBlock) .require
  let input :=
    headerRangeInput s.latestBlock trustedHeader authoritySetId authoritySetHash requestedBlock
  let data := commitHeaderRangeData keccak256 authoritySetId requestedBlock
  require (env.requestCall s.gateway s.headerRangeFunctionId input data) .gateway
  .ok (s, [.requestCall s.gateway s.headerRangeFunctionId input data,
    .headerRangeRequested s.latestBlock trustedHeader authoritySetId authoritySetHash requestedBlock])

def commitHeaderRange (authoritySetId : UInt64) (targetBlock : UInt32) : Outcome := do
  revertIf s.frozen .contractFrozen
  let trustedHeader := s.blockHeightToHeaderHash s.latestBlock
  revertIf (trustedHeader = emptyBytes32) .trustedHeaderNotFound
  let authoritySetHash := s.authoritySetIdToHash authoritySetId
  revertIf (authoritySetHash = emptyBytes32) .authoritySetNotFound
  revertIf (authoritySetId < s.latestAuthoritySetId) .oldAuthoritySetId
  let s := { s with latestAuthoritySetId :=
    if authoritySetId > s.latestAuthoritySetId then authoritySetId else s.latestAuthoritySetId }
  require (targetBlock > s.latestBlock) .require
  let input :=
    headerRangeInput s.latestBlock trustedHeader authoritySetId authoritySetHash targetBlock
  let output ← orRevert (env.verifiedCall s.gateway s.headerRangeFunctionId input) .gateway
  let targetHeaderHash ← orRevert (decodeWord output 0) .abiDecode
  let stateRootCommitment ← orRevert (decodeWord output 1) .abiDecode
  let dataRootCommitment ← orRevert (decodeWord output 2) .abiDecode
  let s' := storeRange keccak256 s s.latestBlock targetBlock targetHeaderHash dataRootCommitment
    stateRootCommitment
  .ok ({ s' with latestBlock := targetBlock }, rangeEvents s s.latestBlock targetBlock
    targetHeaderHash dataRootCommitment stateRootCommitment)

/-- The request leaves the storage as it is. -/
def requestRotate (currentAuthoritySetId : UInt64) : Outcome := do
  let currentAuthoritySetHash := s.authoritySetIdToHash currentAuthoritySetId
  revertIf (currentAuthoritySetHash = emptyBytes32) .authoritySetNotFound
  let next ← orRevert (nextAuthoritySetId currentAuthoritySetId) .panic
  let nextAuthoritySetHash := s.authoritySetIdToHash next
  revertIf (nextAuthoritySetHash ≠ emptyBytes32) .nextAuthoritySetExists
  let input := rotateInput currentAuthoritySetId currentAuthoritySetHash
  let data := rotateData keccak256 currentAuthoritySetId
  require (env.requestCall s.gateway s.rotateFunctionId input data) .gateway
  .ok (s, [.requestCall s.gateway s.rotateFunctionId input data,
    .rotateRequested currentAuthoritySetId currentAuthoritySetHash])

def rotate (currentAuthoritySetId : UInt64) : Outcome := do
  revertIf s.frozen .contractFrozen
  let currentAuthoritySetHash := s.authoritySetIdToHash currentAuthoritySetId
  revertIf (currentAuthoritySetHash = emptyBytes32) .authoritySetNotFound
  let next ← orRevert (nextAuthoritySetId currentAuthoritySetId) .panic
  let nextAuthoritySetHash := s.authoritySetIdToHash next
  revertIf (nextAuthoritySetHash ≠ emptyBytes32) .nextAuthoritySetExists
  let input := rotateInput currentAuthoritySetId currentAuthoritySetHash
  let output ← orRevert (env.verifiedCall s.gateway s.rotateFunctionId input) .gateway
  let newAuthoritySetHash ← orRevert (decodeWord output 0) .abiDecode
  .ok ({ s with
      authoritySetIdToHash := Function.update s.authoritySetIdToHash next newAuthoritySetHash },
    [.authoritySetStored next newAuthoritySetHash])

end Functions

/-! ## Successful calls -/

section Successful

variable {keccak256 : List UInt8 → Bytes32} {env : Env} {s s' : State} {es : List Event}

/-- A successful update by the guardian. -/
theorem updateFreeze_eq_ok {freeze : Bool} :
    updateFreeze env s freeze = .ok (s', es) ↔
      env.isGuardian env.sender = true ∧ s' = { s with frozen := freeze } ∧ es = [] := by
  simp only [updateFreeze, bind_eq_ok, require_eq_ok, exists_const, Except.ok.injEq, Prod.mk.injEq,
    @eq_comm _ s', @eq_comm _ es]

theorem updateFunctionIds_eq_ok {headerRangeFunctionId rotateFunctionId : Bytes32}
    {treeSize : UInt32} :
    updateFunctionIds env s headerRangeFunctionId rotateFunctionId treeSize = .ok (s', es) ↔
      env.isGuardian env.sender = true ∧ s' = { s with
        headerRangeFunctionId, rotateFunctionId, headerRangeCommitmentTreeSize := treeSize } ∧
      es = [] := by
  simp only [updateFunctionIds, bind_eq_ok, require_eq_ok, exists_const, Except.ok.injEq, Prod.mk.injEq,
    @eq_comm _ s', @eq_comm _ es]

theorem updateGateway_eq_ok {gateway : Address} :
    updateGateway env s gateway = .ok (s', es) ↔
      env.isGuardian env.sender = true ∧ s' = { s with gateway } ∧ es = [] := by
  simp only [updateGateway, bind_eq_ok, require_eq_ok, exists_const, Except.ok.injEq, Prod.mk.injEq,
    @eq_comm _ s', @eq_comm _ es]

/-- A successful request for a header range. -/
theorem requestHeaderRange_eq_ok {authoritySetId : UInt64} {requestedBlock : UInt32} :
    requestHeaderRange keccak256 env s authoritySetId requestedBlock = .ok (s', es) ↔
      s.blockHeightToHeaderHash s.latestBlock ≠ emptyBytes32 ∧
      s.authoritySetIdToHash authoritySetId ≠ emptyBytes32 ∧ s.latestBlock < requestedBlock ∧
      ∃ input, input = headerRangeInput s.latestBlock (s.blockHeightToHeaderHash s.latestBlock)
          authoritySetId (s.authoritySetIdToHash authoritySetId) requestedBlock ∧
        env.requestCall s.gateway s.headerRangeFunctionId input
          (commitHeaderRangeData keccak256 authoritySetId requestedBlock) = true ∧
        s' = s ∧
        es = [.requestCall s.gateway s.headerRangeFunctionId input
            (commitHeaderRangeData keccak256 authoritySetId requestedBlock),
          .headerRangeRequested s.latestBlock (s.blockHeightToHeaderHash s.latestBlock)
            authoritySetId (s.authoritySetIdToHash authoritySetId) requestedBlock] := by
  simp only [requestHeaderRange, bind_eq_ok, revertIf_eq_ok, require_eq_ok, exists_const,
    exists_eq_left, gt_iff_lt, ne_eq, Except.ok.injEq, Prod.mk.injEq, @eq_comm _ s', @eq_comm _ es]

/-- A successful request for a rotation. -/
theorem requestRotate_eq_ok {currentAuthoritySetId : UInt64} :
    requestRotate keccak256 env s currentAuthoritySetId = .ok (s', es) ↔
      s.authoritySetIdToHash currentAuthoritySetId ≠ emptyBytes32 ∧
      ∃ next, nextAuthoritySetId currentAuthoritySetId = some next ∧
        s.authoritySetIdToHash next = emptyBytes32 ∧
        ∃ input, input =
            rotateInput currentAuthoritySetId (s.authoritySetIdToHash currentAuthoritySetId) ∧
          env.requestCall s.gateway s.rotateFunctionId input
            (rotateData keccak256 currentAuthoritySetId) = true ∧
          s' = s ∧
          es = [.requestCall s.gateway s.rotateFunctionId input
              (rotateData keccak256 currentAuthoritySetId),
            .rotateRequested currentAuthoritySetId
              (s.authoritySetIdToHash currentAuthoritySetId)] := by
  simp only [requestRotate, bind_eq_ok, revertIf_eq_ok, require_eq_ok, orRevert_eq_ok, exists_const,
    exists_eq_left, ne_eq, not_not, Except.ok.injEq, Prod.mk.injEq, @eq_comm _ s', @eq_comm _ es]

/-- A successful rotation. -/
theorem rotate_eq_ok {currentAuthoritySetId : UInt64} :
    rotate env s currentAuthoritySetId = .ok (s', es) ↔
      s.frozen = false ∧ s.authoritySetIdToHash currentAuthoritySetId ≠ emptyBytes32 ∧
      ∃ next, nextAuthoritySetId currentAuthoritySetId = some next ∧
        s.authoritySetIdToHash next = emptyBytes32 ∧
        ∃ output, env.verifiedCall s.gateway s.rotateFunctionId (rotateInput currentAuthoritySetId
            (s.authoritySetIdToHash currentAuthoritySetId)) = some output ∧
          ∃ newAuthoritySetHash, decodeWord output 0 = some newAuthoritySetHash ∧
            s' = { s with authoritySetIdToHash :=
              Function.update s.authoritySetIdToHash next newAuthoritySetHash } ∧
            es = [.authoritySetStored next newAuthoritySetHash] := by
  simp only [rotate, bind_eq_ok, revertIf_eq_ok, orRevert_eq_ok, exists_const, Bool.not_eq_true,
    ne_eq, not_not, Except.ok.injEq, Prod.mk.injEq, @eq_comm _ s', @eq_comm _ es]

/-- What a successful commit reads from the gateway: the output for the input that is packed from
the storage, and its three words. -/
structure VerifiedOutput (env : Env) (s : State) (authoritySetId : UInt64) (targetBlock : UInt32)
    (targetHeaderHash stateRootCommitment dataRootCommitment : Bytes32) : Prop where
  verified : ∃ output, env.verifiedCall s.gateway s.headerRangeFunctionId
      (headerRangeInput s.latestBlock (s.blockHeightToHeaderHash s.latestBlock) authoritySetId
        (s.authoritySetIdToHash authoritySetId) targetBlock) = some output ∧
    decodeWord output 0 = some targetHeaderHash ∧ decodeWord output 1 = some stateRootCommitment ∧
    decodeWord output 2 = some dataRootCommitment

/-- A successful commit of a header range. -/
theorem commitHeaderRange_eq_ok {authoritySetId : UInt64} {targetBlock : UInt32} :
    commitHeaderRange keccak256 env s authoritySetId targetBlock = .ok (s', es) ↔
      s.frozen = false ∧ s.blockHeightToHeaderHash s.latestBlock ≠ emptyBytes32 ∧
      s.authoritySetIdToHash authoritySetId ≠ emptyBytes32 ∧
      ¬authoritySetId < s.latestAuthoritySetId ∧ s.latestBlock < targetBlock ∧
      ∃ targetHeaderHash stateRootCommitment dataRootCommitment,
        VerifiedOutput env s authoritySetId targetBlock targetHeaderHash stateRootCommitment
          dataRootCommitment ∧
        s' = { storeRange keccak256 s s.latestBlock targetBlock targetHeaderHash dataRootCommitment
            stateRootCommitment with
          latestBlock := targetBlock
          latestAuthoritySetId := if authoritySetId > s.latestAuthoritySetId then authoritySetId
            else s.latestAuthoritySetId } ∧
        es = rangeEvents s s.latestBlock targetBlock targetHeaderHash dataRootCommitment
          stateRootCommitment := by
  simp only [commitHeaderRange, bind_eq_ok, revertIf_eq_ok, require_eq_ok, orRevert_eq_ok,
    exists_const, Bool.not_eq_true, gt_iff_lt, Except.ok.injEq, Prod.mk.injEq]
  constructor
  · rintro ⟨hfrozen, htrusted, hauthority, hid, hlt, output, hcall, h, hh, r, hr, d, hd, rfl, rfl⟩
    exact ⟨hfrozen, htrusted, hauthority, hid, hlt, h, r, d, ⟨output, hcall, hh, hr, hd⟩, rfl, rfl⟩
  · rintro ⟨hfrozen, htrusted, hauthority, hid, hlt, h, r, d, ⟨output, hcall, hh, hr, hd⟩, rfl, rfl⟩
    exact ⟨hfrozen, htrusted, hauthority, hid, hlt, output, hcall, h, hh, r, hr, d, hd, rfl, rfl⟩

end Successful

/-! ## Calls -/

inductive Call
  | initializeContract (params : InitParameters)
  | updateFreeze (freeze : Bool)
  | updateFunctionIds (headerRangeFunctionId rotateFunctionId : Bytes32)
      (headerRangeCommitmentTreeSize : UInt32)
  | updateGateway (gateway : Address)
  | updateGenesisState (height : UInt32) (header : Bytes32) (authoritySetId : UInt64)
      (authoritySetHash : Bytes32)
  | updateBlockRangeData (startBlocks endBlocks : List UInt32)
      (headerHashes dataRootCommitments stateRootCommitments : List Bytes32)
      (endAuthoritySetId : UInt64) (endAuthoritySetHash : Bytes32)
  | requestHeaderRange (authoritySetId : UInt64) (requestedBlock : UInt32)
  | commitHeaderRange (authoritySetId : UInt64) (targetBlock : UInt32)
  | requestRotate (currentAuthoritySetId : UInt64)
  | rotate (currentAuthoritySetId : UInt64)

/-- Execute a call. -/
def exec (keccak256 : List UInt8 → Bytes32) (env : Env) (s : State) : Call → Outcome
  | .initializeContract params => initializeContract s params
  | .updateFreeze freeze => updateFreeze env s freeze
  | .updateFunctionIds headerRangeFunctionId rotateFunctionId headerRangeCommitmentTreeSize =>
    updateFunctionIds env s headerRangeFunctionId rotateFunctionId headerRangeCommitmentTreeSize
  | .updateGateway gateway => updateGateway env s gateway
  | .updateGenesisState height header authoritySetId authoritySetHash =>
    updateGenesisState env s height header authoritySetId authoritySetHash
  | .updateBlockRangeData startBlocks endBlocks headerHashes dataRootCommitments
      stateRootCommitments endAuthoritySetId endAuthoritySetHash =>
    updateBlockRangeData keccak256 env s startBlocks endBlocks headerHashes dataRootCommitments
      stateRootCommitments endAuthoritySetId endAuthoritySetHash
  | .requestHeaderRange authoritySetId requestedBlock =>
    requestHeaderRange keccak256 env s authoritySetId requestedBlock
  | .commitHeaderRange authoritySetId targetBlock =>
    commitHeaderRange keccak256 env s authoritySetId targetBlock
  | .requestRotate currentAuthoritySetId => requestRotate keccak256 env s currentAuthoritySetId
  | .rotate currentAuthoritySetId => rotate env s currentAuthoritySetId

/-- A transaction: a reverted call changes and emits nothing. -/
def step (keccak256 : List UInt8 → Bytes32) (s : State) (c : Env × Call) : State × List Event :=
  match exec keccak256 c.1 s c.2 with
  | .ok r => r
  | .error _ => (s, [])

theorem step_of_exec {keccak256 : List UInt8 → Bytes32} {env : Env} {s : State} {call : Call}
    {r : State × List Event} (h : exec keccak256 env s call = .ok r) :
    step keccak256 s (env, call) = r := by
  rw [step, h]

/-- The storage after the initialization. -/
def State.genesis (params : InitParameters) : State :=
  { State.fresh with
    initialized := true
    gateway := params.gateway
    blockHeightToHeaderHash :=
      Function.update (fun _ => emptyBytes32) params.height params.header
    authoritySetIdToHash :=
      Function.update (fun _ => emptyBytes32) params.authoritySetId params.authoritySetHash
    latestAuthoritySetId := params.authoritySetId
    latestBlock := params.height
    rotateFunctionId := params.rotateFunctionId
    headerRangeFunctionId := params.headerRangeFunctionId
    headerRangeCommitmentTreeSize := params.headerRangeCommitmentTreeSize }

/-- The run of a contract that is initialized first. -/
def runFrom (keccak256 : List UInt8 → Bytes32) (env : Env) (params : InitParameters)
    (calls : List (Env × Call)) : State × List Event :=
  Run.run (step keccak256) State.fresh ((env, .initializeContract params) :: calls)

/-- A run continues from the storage after the initialization. -/
theorem runFrom_eq (keccak256 : List UInt8 → Bytes32) (env : Env) (params : InitParameters)
    (calls : List (Env × Call)) :
    runFrom keccak256 env params calls =
      Run.run (step keccak256) (State.genesis params) calls := rfl

end VectorX.Contract
