import VectorX.Contracts.BlockRangeData

/-!
# What a call does

One rule for each way in which a successful call changes the storage, those of the guardian
included. What holds of all calls is derived from these rules.
-/

namespace VectorX.Contract

open Plonky2x Solidity
open Updates (updates)

/-! ## The rules -/

section Rules

/-- The settings that only the guardian changes. -/
structure Settings where
  frozen : Bool
  gateway : Address
  headerRangeFunctionId : Bytes32
  rotateFunctionId : Bytes32
  headerRangeCommitmentTreeSize : UInt32

def State.settings (s : State) : Settings where
  frozen := s.frozen
  gateway := s.gateway
  headerRangeFunctionId := s.headerRangeFunctionId
  rotateFunctionId := s.rotateFunctionId
  headerRangeCommitmentTreeSize := s.headerRangeCommitmentTreeSize

def State.withSettings (s : State) (settings : Settings) : State := { s with
  frozen := settings.frozen
  gateway := settings.gateway
  headerRangeFunctionId := settings.headerRangeFunctionId
  rotateFunctionId := settings.rotateFunctionId
  headerRangeCommitmentTreeSize := settings.headerRangeCommitmentTreeSize }

/-- The settings after a call that changes them. -/
def Call.configure (settings : Settings) : Call → Option Settings
  | .updateFreeze frozen => some { settings with frozen }
  | .updateFunctionIds headerRangeFunctionId rotateFunctionId headerRangeCommitmentTreeSize =>
    some { settings with headerRangeFunctionId, rotateFunctionId, headerRangeCommitmentTreeSize }
  | .updateGateway gateway => some { settings with gateway }
  | _ => none

/-- The calls that request an output from the gateway. -/
def Call.IsRequest : Call → Prop
  | .requestHeaderRange _ _ => True
  | .requestRotate _ => True
  | _ => False

/-- A request to the gateway and its log. -/
def Event.IsRequest : Event → Prop
  | .headerRangeRequested _ _ _ _ _ => True
  | .rotateRequested _ _ => True
  | .requestCall _ _ _ _ => True
  | _ => False

/-- The ways in which a call can succeed, with the storage and the events after it. -/
inductive Effect (keccak256 : List UInt8 → Bytes32) (c : Env × Call) (s : State) :
    State → List Event → Prop
  | initializeContract {params : InitParameters} (call : c.2 = .initializeContract params)
      (fresh : s.initialized = false) :
      Effect keccak256 c s { s with
        initialized := true
        gateway := params.gateway
        blockHeightToHeaderHash :=
          Function.update s.blockHeightToHeaderHash params.height params.header
        authoritySetIdToHash :=
          Function.update s.authoritySetIdToHash params.authoritySetId params.authoritySetHash
        latestAuthoritySetId := params.authoritySetId
        latestBlock := params.height
        rotateFunctionId := params.rotateFunctionId
        headerRangeFunctionId := params.headerRangeFunctionId
        headerRangeCommitmentTreeSize := params.headerRangeCommitmentTreeSize } []
  | configure {settings : Settings} (configures : c.2.configure s.settings = some settings)
      (guardian : c.1.isGuardian c.1.sender = true) :
      Effect keccak256 c s (s.withSettings settings) []
  | setGenesis {height : UInt32} {header : Bytes32} {authoritySetId : UInt64}
      {authoritySetHash : Bytes32}
      (call : c.2 = .updateGenesisState height header authoritySetId authoritySetHash)
      (guardian : c.1.isGuardian c.1.sender = true) :
      Effect keccak256 c s { s with
        blockHeightToHeaderHash := Function.update s.blockHeightToHeaderHash height header
        latestBlock := height
        authoritySetIdToHash :=
          Function.update s.authoritySetIdToHash authoritySetId authoritySetHash
        latestAuthoritySetId := authoritySetId } []
  | setRanges {startBlocks endBlocks : List UInt32}
      {headerHashes dataRootCommitments stateRootCommitments : List Bytes32}
      {endAuthoritySetId : UInt64} {endAuthoritySetHash : Bytes32} {latestBlock : UInt32}
      (call : c.2 = .updateBlockRangeData startBlocks endBlocks headerHashes dataRootCommitments
        stateRootCommitments endAuthoritySetId endAuthoritySetHash)
      (guardian : c.1.isGuardian c.1.sender = true)
      (lengths : SameLengths startBlocks endBlocks headerHashes dataRootCommitments
        stateRootCommitments)
      (last : endBlocks.getLast? = some latestBlock) :
      Effect keccak256 c s { s.withRanges keccak256 (blockRanges startBlocks endBlocks headerHashes
          dataRootCommitments stateRootCommitments) with
        latestBlock
        authoritySetIdToHash :=
          Function.update s.authoritySetIdToHash endAuthoritySetId endAuthoritySetHash
        latestAuthoritySetId := endAuthoritySetId }
        ((blockRanges startBlocks endBlocks headerHashes dataRootCommitments
          stateRootCommitments).flatMap (BlockRange.events s))
  | request {es : List Event} (request : c.2.IsRequest) (requests : ∀ e ∈ es, e.IsRequest) :
      Effect keccak256 c s s es
  | commit {authoritySetId : UInt64} {targetBlock : UInt32}
      {targetHeaderHash stateRoot dataRoot : Bytes32}
      (call : c.2 = .commitHeaderRange authoritySetId targetBlock)
      (notFrozen : s.frozen = false)
      (known : s.authoritySetIdToHash authoritySetId ≠ emptyBytes32)
      (notOld : ¬authoritySetId < s.latestAuthoritySetId) (lt : s.latestBlock < targetBlock)
      (verified : VerifiedOutput c.1 s authoritySetId targetBlock targetHeaderHash stateRoot
        dataRoot) :
      Effect keccak256 c s { storeRange keccak256 s s.latestBlock targetBlock targetHeaderHash
          dataRoot stateRoot with
        latestBlock := targetBlock
        latestAuthoritySetId := authoritySetId }
        (rangeEvents s s.latestBlock targetBlock targetHeaderHash dataRoot stateRoot)
  | rotate {id next : UInt64} {output : List UInt8} {hash : Bytes32} (call : c.2 = .rotate id)
      (notFrozen : s.frozen = false) (known : s.authoritySetIdToHash id ≠ emptyBytes32)
      (next_eq : nextAuthoritySetId id = some next)
      (unknown : s.authoritySetIdToHash next = emptyBytes32)
      (verified : c.1.verifiedCall s.gateway s.rotateFunctionId
        (rotateInput id (s.authoritySetIdToHash id)) = some output)
      (word : decodeWord output 0 = some hash) :
      Effect keccak256 c s
        { s with authoritySetIdToHash := Function.update s.authoritySetIdToHash next hash }
        [.authoritySetStored next hash]

end Rules

/-! ## Every successful call -/

section Calls

variable {keccak256 : List UInt8 → Bytes32} {c : Env × Call} {s s' : State} {es : List Event}

/-- A commit that is not for an old set makes its set the latest one. -/
theorem latestAuthoritySetId_of_not_lt {id latest : UInt64} (h : ¬id < latest) :
    (if id > latest then id else latest) = id := by
  rw [UInt64.lt_iff_toNat_lt, Nat.not_lt] at h
  split
  · rfl
  · rename_i hle
    rw [gt_iff_lt, UInt64.lt_iff_toNat_lt, Nat.not_lt] at hle
    exact UInt64.toNat_inj.mp (Nat.le_antisymm h hle)

/-- **Inversion.** A successful call follows one of the rules. -/
theorem effect_of_exec (h : exec keccak256 c.1 s c.2 = .ok (s', es)) : Effect keccak256 c s s' es := by
  obtain ⟨env, call⟩ := c
  cases call with
  | initializeContract params =>
    simp only [exec, initializeContract, bind_eq_ok, revertIf_eq_ok, exists_const, Bool.not_eq_true,
      Except.ok.injEq, Prod.mk.injEq] at h
    obtain ⟨hfresh, rfl, rfl⟩ := h
    exact .initializeContract rfl hfresh
  | updateFreeze freeze =>
    obtain ⟨hguardian, rfl, rfl⟩ := updateFreeze_eq_ok.mp h
    exact .configure rfl hguardian
  | updateFunctionIds headerRangeFunctionId rotateFunctionId headerRangeCommitmentTreeSize =>
    obtain ⟨hguardian, rfl, rfl⟩ := updateFunctionIds_eq_ok.mp h
    exact .configure rfl hguardian
  | updateGateway gateway =>
    obtain ⟨hguardian, rfl, rfl⟩ := updateGateway_eq_ok.mp h
    exact .configure rfl hguardian
  | updateGenesisState height header authoritySetId authoritySetHash =>
    simp only [exec, updateGenesisState, bind_eq_ok, require_eq_ok, exists_const, Except.ok.injEq,
      Prod.mk.injEq] at h
    obtain ⟨hguardian, rfl, rfl⟩ := h
    exact .setGenesis rfl hguardian
  | updateBlockRangeData startBlocks endBlocks headerHashes dataRoots stateRoots id hash =>
    obtain ⟨hguardian, hlengths, -, -, latestBlock, hlast, rfl, rfl⟩ :=
      updateBlockRangeData_eq_ok.mp h
    exact .setRanges rfl hguardian hlengths hlast
  | requestHeaderRange authoritySetId requestedBlock =>
    obtain ⟨-, -, -, input, -, -, rfl, rfl⟩ := requestHeaderRange_eq_ok.mp h
    exact .request trivial (by simp [Event.IsRequest])
  | requestRotate currentAuthoritySetId =>
    obtain ⟨-, next, -, -, input, -, -, rfl, rfl⟩ := requestRotate_eq_ok.mp h
    exact .request trivial (by simp [Event.IsRequest])
  | commitHeaderRange authoritySetId targetBlock =>
    obtain ⟨hfrozen, -, hknown, hold, hlt, headerHash, stateRoot, dataRoot, hverified, rfl, rfl⟩ :=
      commitHeaderRange_eq_ok.mp h
    rw [latestAuthoritySetId_of_not_lt hold]
    exact .commit rfl hfrozen hknown hold hlt hverified
  | rotate currentAuthoritySetId =>
    obtain ⟨hfrozen, hknown, next, hnext, hunknown, output, hverified, hash, hword, rfl, rfl⟩ :=
      rotate_eq_ok.mp h
    exact .rotate rfl hfrozen hknown hnext hunknown hverified hword

variable (keccak256 c s) in
/-- A transaction reverts and changes nothing, or follows one of the rules. -/
theorem step_effect : step keccak256 s c = (s, []) ∨
    Effect keccak256 c s (step keccak256 s c).1 (step keccak256 s c).2 := by
  rw [step]
  cases hexec : exec keccak256 c.1 s c.2 with
  | error e => exact Or.inl rfl
  | ok r => exact Or.inr (effect_of_exec hexec)

end Calls

end VectorX.Contract
