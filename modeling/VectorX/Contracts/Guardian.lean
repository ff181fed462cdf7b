import VectorX.Contracts.Effects
import VectorX.Contracts.Requests

/-!
# What the guardian alone can change

Calls of anybody else keep the settings, and they only append: a hash that is stored stays, up to
the latest block, and the latest block and the latest set do not go back. The guardian can go back.
If it supplies hashes that are not zero, the light client can always go on from the latest block.
-/

namespace VectorX.Contract

open Plonky2x Solidity
open Ranges (Contiguous)

/-! ## Without the guardian -/

/-- From `s` to `s'` the storage has only been appended to, by the ranges of the log. -/
structure Appends (s : State) (es : List Event) (s' : State) : Prop where
  initialized : s'.initialized = s.initialized
  settings : s'.settings = s.settings
  contiguous : Contiguous s.latestBlock (storedRanges es) s'.latestBlock
  header : ∀ h, h ≤ s.latestBlock → s'.blockHeightToHeaderHash h = s.blockHeightToHeaderHash h
  authorities : AuthoritiesKept s s'

section Unprivileged

variable {keccak256 : List UInt8 → Bytes32} {c : Env × Call} {s s' s'' : State} {es es' : List Event}

theorem Appends.latestBlock (h : Appends s es s') : s.latestBlock ≤ s'.latestBlock :=
  h.contiguous.le

theorem Appends.refl : Appends s [] s :=
  ⟨rfl, rfl, rfl, fun _ _ => rfl, .refl⟩

theorem Appends.trans (h : Appends s es s') (h' : Appends s' es' s'') :
    Appends s (es ++ es') s'' where
  initialized := h'.initialized.trans h.initialized
  settings := h'.settings.trans h.settings
  contiguous := by
    rw [storedRanges_append]
    exact h.contiguous.append h'.contiguous
  header height hle :=
    (h'.header height (le_trans hle h.latestBlock)).trans (h.header height hle)
  authorities := h.authorities.trans h'.authorities

/-- Of a call of an initialized contract by somebody else, the rules of the guardian do not
apply. -/
theorem Effect.appends (h : Effect keccak256 c s s' es) (hinit : s.initialized = true)
    (hguardian : c.1.isGuardian c.1.sender = false) : Appends s es s' := by
  cases h with
  | initializeContract call fresh => exact absurd fresh (by simp [hinit])
  | configure configures guardian => exact absurd guardian (by simp [hguardian])
  | setGenesis call guardian => exact absurd guardian (by simp [hguardian])
  | setRanges call guardian => exact absurd guardian (by simp [hguardian])
  | request request requests =>
    have hstored : storedRanges es = [] := List.filterMap_eq_nil_iff.mpr fun e he => by
      have := requests e he
      cases e <;> simp_all [Event.IsRequest]
    exact ⟨rfl, rfl, hstored ▸ rfl, fun _ _ => rfl, .refl⟩
  | commit call notFrozen known notOld lt verified =>
    refine ⟨rfl, rfl, ⟨rfl, lt, rfl⟩, fun height hle => ?_, ⟨fun _ _ => rfl, ?_⟩⟩
    · exact Function.update_of_ne (ne_of_lt (lt_of_le_of_lt hle lt)) _ _
    · exact Nat.le_of_not_lt fun h => notOld (UInt64.lt_iff_toNat_lt.mpr h)
  | rotate call notFrozen known next_eq unknown verified word =>
    refine ⟨rfl, rfl, rfl, fun _ _ => rfl, ⟨fun id hid => ?_, le_refl _⟩⟩
    exact Function.update_of_ne (fun heq => hid (by rw [heq, unknown])) _ _

/-- A frozen contract does not change without the guardian. -/
theorem Effect.eq_of_frozen (h : Effect keccak256 c s s' es) (hinit : s.initialized = true)
    (hguardian : c.1.isGuardian c.1.sender = false) (hfrozen : s.frozen = true) : s' = s := by
  cases h with
  | initializeContract call fresh => exact absurd fresh (by simp [hinit])
  | configure configures guardian => exact absurd guardian (by simp [hguardian])
  | setGenesis call guardian => exact absurd guardian (by simp [hguardian])
  | setRanges call guardian => exact absurd guardian (by simp [hguardian])
  | request => rfl
  | commit call notFrozen => exact absurd notFrozen (by simp [hfrozen])
  | rotate call notFrozen => exact absurd notFrozen (by simp [hfrozen])

variable (keccak256) in
/-- **Step.** A call of somebody else only appends. -/
theorem appends_step (hinit : s.initialized = true) (hguardian : c.1.isGuardian c.1.sender = false) :
    Appends s (step keccak256 s c).2 (step keccak256 s c).1 := by
  rcases step_effect keccak256 c s with hsame | heffect
  · rw [hsame]
    exact .refl
  · exact heffect.appends hinit hguardian

/-- **Unprivileged calls.** From an initialized contract on, the calls of everybody but the guardian
keep the settings and only append to the storage. If the contract is frozen, they change nothing. -/
theorem unprivileged_appends (keccak256 : List UInt8 → Bytes32) (s : State)
    (hinit : s.initialized = true) (calls : List (Env × Call))
    (hcalls : ∀ c ∈ calls, c.1.isGuardian c.1.sender = false) :
    Appends s (Run.run (step keccak256) s calls).2 (Run.run (step keccak256) s calls).1 ∧
      (s.frozen = true → (Run.run (step keccak256) s calls).1 = s) := by
  constructor
  · refine Run.run_rel (fun s es s' => s.initialized = true → Appends s es s')
      (fun c : Env × Call => c.1.isGuardian c.1.sender = false) (fun _ _ => .refl) ?_
      (fun _ _ hc hinit => appends_step keccak256 hinit hc) s hcalls hinit
    intro s es s' es' s'' h h' hinit
    exact (h hinit).trans (h' ((h hinit).initialized.trans hinit))
  · intro hfrozen
    refine Run.run_invariant_state (fun s' => s' = s)
      (fun c : Env × Call => c.1.isGuardian c.1.sender = false) (fun s' c hc heq => ?_) rfl hcalls
    subst heq
    rcases step_effect keccak256 c s' with hsame | heffect
    · rw [hsame]
    · exact heffect.eq_of_frozen hinit hc hfrozen

/-- Two commits by somebody else, from genesis on. -/
theorem unprivileged_appends_commits :
    Appends (State.genesis genesisParams)
        (Run.run (step Reference.keccak256) (State.genesis genesisParams) arbitraryCommits).2
        (Run.run (step Reference.keccak256) (State.genesis genesisParams) arbitraryCommits).1 ∧
      ((State.genesis genesisParams).frozen = true →
        (Run.run (step Reference.keccak256) (State.genesis genesisParams) arbitraryCommits).1 =
          State.genesis genesisParams) := by
  refine unprivileged_appends Reference.keccak256 (State.genesis genesisParams) rfl arbitraryCommits ?_
  intro c hc
  simp only [arbitraryCommits, List.mem_cons, List.not_mem_nil, or_false] at hc
  rcases hc with rfl | rfl | rfl <;> rfl

end Unprivileged

/-! ## The latest block can always be extended -/

section Extendable

/-- The hashes that a call supplies for the latest block and the latest set are not zero. -/
def SuppliesNonzero (c : Env × Call) : Prop :=
  match c.2 with
  | .initializeContract params =>
    params.header ≠ emptyBytes32 ∧ params.authoritySetHash ≠ emptyBytes32
  | .updateGenesisState _ header _ authoritySetHash =>
    header ≠ emptyBytes32 ∧ authoritySetHash ≠ emptyBytes32
  | .updateBlockRangeData _ _ headerHashes _ _ _ endAuthoritySetHash =>
    headerHashes.getLast? ≠ some emptyBytes32 ∧ endAuthoritySetHash ≠ emptyBytes32
  | .commitHeaderRange _ _ => ∀ gateway functionId input output,
    c.1.verifiedCall gateway functionId input = some output →
      decodeWord output 0 ≠ some emptyBytes32
  | _ => True

/-- The hashes of the latest block and of the latest set are stored. -/
structure Extendable (s : State) : Prop where
  header : s.blockHeightToHeaderHash s.latestBlock ≠ emptyBytes32
  authoritySet : s.authoritySetIdToHash s.latestAuthoritySetId ≠ emptyBytes32

variable {keccak256 : List UInt8 → Bytes32} {c : Env × Call} {s s' : State} {es : List Event}

/-- The end blocks and the hashes of the ranges that the guardian stores. -/
theorem map_endBlock_headerHash_blockRanges {startBlocks endBlocks : List UInt32}
    {headerHashes dataRootCommitments stateRootCommitments : List Bytes32}
    (hlengths : SameLengths startBlocks endBlocks headerHashes dataRootCommitments
      stateRootCommitments) :
    (blockRanges startBlocks endBlocks headerHashes dataRootCommitments stateRootCommitments).map
        (fun r => (r.endBlock, r.headerHash)) = endBlocks.zip headerHashes := by
  obtain ⟨-, hstart, hends, hhashes, hdata⟩ := hlengths
  have hfst : (headerHashes.zip (dataRootCommitments.zip stateRootCommitments)).map Prod.fst =
      headerHashes := List.map_fst_zip (by simp only [List.length_zip]; omega)
  have hsnd : (startBlocks.zip (endBlocks.zip (headerHashes.zip
      (dataRootCommitments.zip stateRootCommitments)))).map Prod.snd =
        endBlocks.zip (headerHashes.zip (dataRootCommitments.zip stateRootCommitments)) :=
    List.map_snd_zip (by simp only [List.length_zip]; omega)
  conv_rhs => rw [← hfst, List.zip_map_right, ← hsnd]
  rw [blockRanges, List.map_map, List.map_map]
  rfl

variable (keccak256) in
/-- The hash of the latest block is the last one that the guardian stores. -/
theorem getLast?_headerHashes {startBlocks endBlocks : List UInt32}
    {headerHashes dataRootCommitments stateRootCommitments : List Bytes32} {latestBlock : UInt32}
    (hlengths : SameLengths startBlocks endBlocks headerHashes dataRootCommitments
      stateRootCommitments) (hlast : endBlocks.getLast? = some latestBlock) :
    headerHashes.getLast? = some ((s.withRanges keccak256 (blockRanges startBlocks endBlocks
      headerHashes dataRootCommitments stateRootCommitments)).blockHeightToHeaderHash
        latestBlock) := by
  have hwrites := map_endBlock_headerHash_blockRanges hlengths
  have hfst : (endBlocks.zip headerHashes).map Prod.fst = endBlocks :=
    List.map_fst_zip (le_of_eq hlengths.2.2.1)
  have hsnd : (endBlocks.zip headerHashes).map Prod.snd = headerHashes :=
    List.map_snd_zip (le_of_eq hlengths.2.2.1.symm)
  rw [← hfst, List.getLast?_map, Option.map_eq_some_iff] at hlast
  obtain ⟨w, hw, rfl⟩ := hlast
  conv_lhs => rw [← hsnd]
  rw [List.getLast?_map, hw]
  exact congrArg some (hwrites ▸ Updates.updates_of_getLast? _ hw).symm

/-- A call that supplies hashes that are not zero keeps those of the latest block and set. -/
theorem Effect.extendable (h : Effect keccak256 c s s' es) (hc : SuppliesNonzero c)
    (hs : s.initialized = true → Extendable s) : s'.initialized = true → Extendable s' := by
  cases h with
  | initializeContract call fresh =>
    rw [SuppliesNonzero, call] at hc
    refine fun _ => ⟨?_, ?_⟩
    · simpa only [Function.update_self] using hc.1
    · simpa only [Function.update_self] using hc.2
  | configure => exact fun hinit => ⟨(hs hinit).header, (hs hinit).authoritySet⟩
  | setGenesis call guardian =>
    rw [SuppliesNonzero, call] at hc
    refine fun _ => ⟨?_, ?_⟩
    · simpa only [Function.update_self] using hc.1
    · simpa only [Function.update_self] using hc.2
  | setRanges call guardian lengths last =>
    rw [SuppliesNonzero, call] at hc
    refine fun _ => ⟨fun hzero => hc.1 ?_, ?_⟩
    · exact (getLast?_headerHashes keccak256 lengths last).trans (congrArg some hzero)
    · simpa only [Function.update_self] using hc.2
  | request => exact hs
  | commit call notFrozen known notOld lt verified =>
    rw [SuppliesNonzero, call] at hc
    obtain ⟨output, houtput, hheader, -⟩ := verified
    refine fun _ => ⟨?_, known⟩
    show Function.update _ _ _ _ ≠ _
    rw [Function.update_self]
    rintro rfl
    exact hc _ _ _ _ houtput hheader
  | rotate call notFrozen known next_eq unknown =>
    refine fun hinit => ⟨(hs hinit).header, ?_⟩
    show Function.update _ _ _ _ ≠ _
    rw [Function.update_of_ne]
    · exact (hs hinit).authoritySet
    · exact fun heq => (hs hinit).authoritySet (by rw [heq, unknown])

variable (keccak256) in
/-- **Run.** Calls that supply hashes that are not zero keep the light client extendable. -/
theorem extendable_stateAfter {calls : List (Env × Call)} (hcalls : ∀ c ∈ calls, SuppliesNonzero c)
    (hinit : (stateAfter keccak256 calls).initialized = true) :
    Extendable (stateAfter keccak256 calls) := by
  refine Run.run_invariant_state (fun s => s.initialized = true → Extendable s) SuppliesNonzero
    (fun s c hc hs => ?_) (fun h => absurd h (by decide)) hcalls hinit
  rcases step_effect keccak256 c s with hsame | heffect
  · rw [hsame]
    exact hs
  · exact heffect.extendable hc hs

/-- **Extension.** Whatever the guardian and others call, as long as they supply hashes that are not
zero, a request for a block above the latest one with the latest set is accepted by every gateway
that takes requests, and unless the contract is frozen, it can be fulfilled. -/
theorem latestBlock_extendable (keccak256 : List UInt8 → Bytes32) (calls : List (Env × Call))
    (hcalls : ∀ c ∈ calls, SuppliesNonzero c) {s : State} (hs : s = stateAfter keccak256 calls)
    (hinit : s.initialized = true) (env : Env)
    (hgateway : ∀ gateway functionId input data, env.requestCall gateway functionId input data = true)
    (requestedBlock : UInt32) (hlt : s.latestBlock < requestedBlock) :
    ∃ es, exec keccak256 env s (.requestHeaderRange s.latestAuthoritySetId requestedBlock) =
        .ok (s, es) ∧
      (s.frozen = false →
        Fulfillable keccak256 s es 96 (.commitHeaderRange s.latestAuthoritySetId requestedBlock)) := by
  subst hs
  have hextendable := extendable_stateAfter keccak256 hcalls hinit
  have hrequest := requestHeaderRange_eq_ok.mpr ⟨hextendable.header, hextendable.authoritySet, hlt,
    _, rfl, hgateway _ _ _ (commitHeaderRangeData keccak256 _ requestedBlock), rfl, rfl⟩
  refine ⟨_, hrequest, fun hfrozen => ?_⟩
  exact (requestHeaderRange_fulfillable_iff hfrozen hrequest).mpr (UInt64.lt_irrefl _)

/-- After the commit of block 5, block 7 can be requested and committed. -/
theorem latestBlock_extendable_secondSet :
    ∃ es, exec Reference.keccak256 (constantEnv []) secondSet
        (.requestHeaderRange secondSet.latestAuthoritySetId 7) = .ok (secondSet, es) ∧
      (secondSet.frozen = false → Fulfillable Reference.keccak256 secondSet es 96
        (.commitHeaderRange secondSet.latestAuthoritySetId 7)) := by
  refine latestBlock_extendable Reference.keccak256 secondSetCalls ?_ rfl (by decide +kernel)
    (constantEnv []) (fun _ _ _ _ => rfl) 7 (by decide +kernel)
  intro c hc
  simp only [secondSetCalls, List.mem_cons, List.not_mem_nil, or_false] at hc
  rcases hc with rfl | rfl | rfl
  · exact ⟨by decide +kernel, by decide +kernel⟩
  · exact trivial
  · rintro gateway functionId input output ⟨⟩
    decide +kernel

end Extendable

end VectorX.Contract
