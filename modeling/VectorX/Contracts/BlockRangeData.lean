import VectorX.Contracts.Bookkeeping
import VectorX.Common.Updates

/-!
# Ranges stored by the guardian

`updateBlockRangeData` checks that the first range starts at the latest block and that neighbours
share an end point. It does not check that a range ends after it starts, as `commitHeaderRange`
does: the stored ranges are contiguous exactly if the end blocks increase.
-/

namespace VectorX.Contract

open Plonky2x Solidity
open Updates (updates)
open Ranges (Contiguous heights)
open HashChain (CollisionFree)

/-! ## The loop -/

section Loop

variable (keccak256 : List UInt8 → Bytes32)

/-- The key of a range. -/
def BlockRange.key (r : BlockRange) : Bytes32 := rangeKey keccak256 r.startBlock r.endBlock

/-- The logs of a range. -/
def BlockRange.events (s : State) (r : BlockRange) : List Event :=
  rangeEvents s r.startBlock r.endBlock r.headerHash r.dataRootCommitment r.stateRootCommitment

/-- The storage after the writes for the ranges, in order. -/
def State.withRanges (s : State) (rs : List BlockRange) : State := { s with
  blockHeightToHeaderHash :=
    updates s.blockHeightToHeaderHash (rs.map fun r => (r.endBlock, r.headerHash))
  dataRootCommitments :=
    updates s.dataRootCommitments (rs.map fun r => (r.key keccak256, r.dataRootCommitment))
  stateRootCommitments :=
    updates s.stateRootCommitments (rs.map fun r => (r.key keccak256, r.stateRootCommitment))
  rangeStartBlocks :=
    updates s.rangeStartBlocks (rs.map fun r => (r.key keccak256, r.startBlock)) }

/-- One iteration writes its range, and the rest of the loop the others. -/
theorem withRanges_cons (s : State) (r : BlockRange) (rs : List BlockRange) :
    s.withRanges keccak256 (r :: rs) =
      (storeRange keccak256 s r.startBlock r.endBlock r.headerHash r.dataRootCommitment
        r.stateRootCommitment).withRanges keccak256 rs := rfl

/-- The ranges of the argument arrays. -/
def blockRanges (startBlocks endBlocks : List UInt32)
    (headerHashes dataRootCommitments stateRootCommitments : List Bytes32) : List BlockRange :=
  (startBlocks.zip (endBlocks.zip (headerHashes.zip
    (dataRootCommitments.zip stateRootCommitments)))).map fun (a, b, h, d, r) => ⟨a, b, h, d, r⟩

variable {keccak256} {s s' : State} {es : List Event}

/-- One iteration: the check against the next range, and the rest of the loop. -/
theorem storeBlockRanges_cons_eq_ok {r : BlockRange} {rs : List BlockRange} :
    storeBlockRanges keccak256 s (r :: rs) = .ok (s', es) ↔
      (∀ r' ∈ rs.head?, r.endBlock = r'.startBlock) ∧
        ∃ es', storeBlockRanges keccak256 (storeRange keccak256 s r.startBlock r.endBlock r.headerHash
          r.dataRootCommitment r.stateRootCommitment) rs = .ok (s', es') ∧ es = r.events s ++ es' := by
  -- the check stands before the same steps in both branches of the match
  have hsteps : ∀ check : Except Revert Unit,
      (∀ u, check = .ok u ↔ ∀ r' ∈ rs.head?, r.endBlock = r'.startBlock) →
      ((do
        check
        let stored ← storeBlockRanges keccak256 (storeRange keccak256 s r.startBlock r.endBlock
          r.headerHash r.dataRootCommitment r.stateRootCommitment) rs
        .ok (stored.1, r.events s ++ stored.2)) = Except.ok (s', es) ↔
        (∀ r' ∈ rs.head?, r.endBlock = r'.startBlock) ∧
          ∃ es', storeBlockRanges keccak256 (storeRange keccak256 s r.startBlock r.endBlock
            r.headerHash r.dataRootCommitment r.stateRootCommitment) rs = .ok (s', es') ∧
              es = r.events s ++ es') := by
    intro check hcheck
    simp only [bind_eq_ok, hcheck, exists_const, Prod.exists, Except.ok.injEq, Prod.mk.injEq]
    refine and_congr_right fun _ => ⟨?_, ?_⟩
    · rintro ⟨s₁, es', hrest, rfl, rfl⟩
      exact ⟨es', hrest, rfl⟩
    · rintro ⟨es', hrest, rfl⟩
      exact ⟨s', es', hrest, rfl, rfl⟩
  cases rs with
  | nil => exact hsteps (.ok ()) (by simp)
  | cons r' rs => exact hsteps (require (r.endBlock = r'.startBlock) .require) (by simp)

/-- The loop succeeds if neighbours share an end point. -/
theorem storeBlockRanges_eq_ok {rs : List BlockRange} :
    storeBlockRanges keccak256 s rs = .ok (s', es) ↔
      rs.IsChain (fun r r' => r.endBlock = r'.startBlock) ∧ s' = s.withRanges keccak256 rs ∧
        es = rs.flatMap (BlockRange.events s) := by
  induction rs generalizing s s' es with
  | nil =>
    rw [storeBlockRanges, Except.ok.injEq, Prod.mk.injEq, eq_comm (a := s), eq_comm (a := [])]
    exact (and_iff_right List.isChain_nil).symm
  | cons r rs ih =>
    rw [storeBlockRanges_cons_eq_ok, List.isChain_cons, withRanges_cons, List.flatMap_cons, and_assoc]
    refine and_congr_right fun _ => ?_
    constructor
    · rintro ⟨es', hrest, rfl⟩
      obtain ⟨hchain, rfl, rfl⟩ := ih.mp hrest
      exact ⟨hchain, rfl, rfl⟩
    · rintro ⟨hchain, rfl, rfl⟩
      exact ⟨_, ih.mpr ⟨hchain, rfl, rfl⟩, rfl⟩

/-- The bounds of a range. -/
def BlockRange.bounds (r : BlockRange) : UInt32 × UInt32 := (r.startBlock, r.endBlock)

/-- If the ranges end at different blocks and their keys do not collide, each of them can be read
back. -/
theorem withRanges_of_mem {rs : List BlockRange} (hnodup : (rs.map BlockRange.endBlock).Nodup)
    (hfree : CollisionFree keccak256 (rangePreimages (rs.map BlockRange.bounds))) {r : BlockRange}
    (hr : r ∈ rs) :
    (s.withRanges keccak256 rs).blockHeightToHeaderHash r.endBlock = r.headerHash ∧
      (s.withRanges keccak256 rs).dataRootCommitments (r.key keccak256) = r.dataRootCommitment ∧
      (s.withRanges keccak256 rs).stateRootCommitments (r.key keccak256) = r.stateRootCommitment ∧
      (s.withRanges keccak256 rs).rangeStartBlocks (r.key keccak256) = r.startBlock := by
  have hkeys : (rs.map (BlockRange.key keccak256)).Nodup := by
    refine hnodup.of_map.map_on fun r hr r' hr' hkey => ?_
    have hbounds := eq_of_rangeKey_eq hfree (List.mem_map_of_mem hr) (List.mem_map_of_mem hr') hkey
    exact List.inj_on_of_nodup_map hnodup hr hr' (congrArg Prod.snd hbounds)
  have hfst : ∀ {κ ν : Type} (f : BlockRange → κ) (g : BlockRange → ν), (rs.map f).Nodup →
      ((rs.map fun r => (f r, g r)).map Prod.fst).Nodup := by
    intro κ ν f g hf
    rwa [List.map_map]
  exact ⟨Updates.updates_of_mem _ (hfst _ _ hnodup) (List.mem_map_of_mem hr),
    Updates.updates_of_mem _ (hfst _ _ hkeys) (List.mem_map_of_mem hr),
    Updates.updates_of_mem _ (hfst _ _ hkeys) (List.mem_map_of_mem hr),
    Updates.updates_of_mem _ (hfst _ _ hkeys) (List.mem_map_of_mem hr)⟩

/-- The ranges are those whose fields are in the arrays. -/
theorem blockRanges_map (rs : List BlockRange) :
    blockRanges (rs.map BlockRange.startBlock) (rs.map BlockRange.endBlock)
      (rs.map BlockRange.headerHash) (rs.map BlockRange.dataRootCommitment)
      (rs.map BlockRange.stateRootCommitment) = rs := by
  induction rs with
  | nil => rfl
  | cons r rs ih => exact congrArg (r :: ·) ih

end Loop

/-! ## The arguments -/

section Arguments

variable {startBlocks endBlocks : List UInt32}
  {headerHashes dataRootCommitments stateRootCommitments : List Bytes32}

/-- The arrays have one length, and are not empty. -/
def SameLengths (startBlocks endBlocks : List UInt32)
    (headerHashes dataRootCommitments stateRootCommitments : List Bytes32) : Prop :=
  startBlocks.length > 0 ∧ startBlocks.length = endBlocks.length ∧
    endBlocks.length = headerHashes.length ∧ headerHashes.length = dataRootCommitments.length ∧
    dataRootCommitments.length = stateRootCommitments.length

/-- The bounds of the ranges are those of the first two arrays. -/
theorem map_bounds_blockRanges (h : SameLengths startBlocks endBlocks headerHashes dataRootCommitments
      stateRootCommitments) :
    (blockRanges startBlocks endBlocks headerHashes dataRootCommitments stateRootCommitments).map
        BlockRange.bounds = startBlocks.zip endBlocks := by
  obtain ⟨-, -, hends, hhashes, hdata⟩ := h
  have hlen : endBlocks.length ≤
      (headerHashes.zip (dataRootCommitments.zip stateRootCommitments)).length := by
    simp only [List.length_zip]
    omega
  have hfst : (endBlocks.zip (headerHashes.zip (dataRootCommitments.zip stateRootCommitments))).map
      Prod.fst = endBlocks := List.map_fst_zip hlen
  rw [blockRanges, List.map_map]
  conv_rhs => rw [← hfst, List.zip_map_right]
  rfl

variable {keccak256 : List UInt8 → Bytes32} {env : Env} {s s' : State} {es : List Event}
  {endAuthoritySetId : UInt64} {endAuthoritySetHash : Bytes32}

/-- A successful update of the ranges. -/
theorem updateBlockRangeData_eq_ok :
    updateBlockRangeData keccak256 env s startBlocks endBlocks headerHashes dataRootCommitments
        stateRootCommitments endAuthoritySetId endAuthoritySetHash = .ok (s', es) ↔
      env.isGuardian env.sender = true ∧
      SameLengths startBlocks endBlocks headerHashes dataRootCommitments stateRootCommitments ∧
      startBlocks.head? = some s.latestBlock ∧
      (startBlocks.zip endBlocks).IsChain (fun r r' => r.2 = r'.1) ∧
      ∃ latestBlock, endBlocks.getLast? = some latestBlock ∧
        s' = { s.withRanges keccak256 (blockRanges startBlocks endBlocks headerHashes
            dataRootCommitments stateRootCommitments) with
          latestBlock
          authoritySetIdToHash :=
            Function.update s.authoritySetIdToHash endAuthoritySetId endAuthoritySetHash
          latestAuthoritySetId := endAuthoritySetId } ∧
        es = (blockRanges startBlocks endBlocks headerHashes dataRootCommitments
          stateRootCommitments).flatMap (BlockRange.events s) := by
  simp only [updateBlockRangeData, bind_eq_ok, require_eq_ok, orRevert_eq_ok, exists_const,
    Prod.exists, Except.ok.injEq, Prod.mk.injEq]
  refine and_congr_right fun _ => and_congr_right fun hlen => and_congr_right fun _ => ?_
  rw [← map_bounds_blockRanges hlen, List.isChain_map]
  constructor
  · rintro ⟨s₁, es₁, hloop, latestBlock, hlast, rfl, rfl⟩
    obtain ⟨hchain, rfl, rfl⟩ := storeBlockRanges_eq_ok.mp hloop
    exact ⟨hchain, latestBlock, hlast, rfl, rfl⟩
  · rintro ⟨hchain, latestBlock, hlast, rfl, rfl⟩
    exact ⟨_, _, storeBlockRanges_eq_ok.mpr ⟨hchain, rfl, rfl⟩, latestBlock, hlast, rfl, rfl⟩

/-- The fields of a non-empty list of ranges. -/
theorem sameLengths_map {rs : List BlockRange} (hne : rs ≠ []) :
    SameLengths (rs.map BlockRange.startBlock) (rs.map BlockRange.endBlock)
      (rs.map BlockRange.headerHash) (rs.map BlockRange.dataRootCommitment)
      (rs.map BlockRange.stateRootCommitment) := by
  simp only [SameLengths, List.length_map, and_self, and_true]
  exact List.length_pos_iff.mpr hne

/-- The guardian can store contiguous ranges above the latest block. -/
theorem updateBlockRangeData_map {rs : List BlockRange} {endBlock : UInt32}
    (hguardian : env.isGuardian env.sender = true)
    (hcontiguous : Contiguous s.latestBlock (rs.map BlockRange.bounds) endBlock)
    (hlt : s.latestBlock < endBlock) :
    updateBlockRangeData keccak256 env s (rs.map BlockRange.startBlock) (rs.map BlockRange.endBlock)
        (rs.map BlockRange.headerHash) (rs.map BlockRange.dataRootCommitment)
        (rs.map BlockRange.stateRootCommitment) endAuthoritySetId endAuthoritySetHash =
      .ok ({ s.withRanges keccak256 rs with
        latestBlock := endBlock
        authoritySetIdToHash :=
          Function.update s.authoritySetIdToHash endAuthoritySetId endAuthoritySetHash
        latestAuthoritySetId := endAuthoritySetId }, rs.flatMap (BlockRange.events s)) := by
  have hfirst := hcontiguous.head?_starts hlt
  have hlast := hcontiguous.getLast?_ends hlt
  have hzip : (rs.map BlockRange.startBlock).zip (rs.map BlockRange.endBlock) =
      rs.map BlockRange.bounds := List.zip_map' ..
  have hne : rs ≠ [] := fun hnil => hcontiguous.ne_nil hlt (List.map_eq_nil_iff.mpr hnil)
  rw [List.map_map] at hfirst hlast
  refine updateBlockRangeData_eq_ok.mpr
    ⟨hguardian, sameLengths_map hne, hfirst, hzip ▸ hcontiguous.isChain, endBlock, hlast, ?_, ?_⟩
  · rw [blockRanges_map]
  · rw [blockRanges_map]

/-- The logs name the ranges, in order. -/
theorem storedRanges_flatMap_events (s : State) (rs : List BlockRange) :
    storedRanges (rs.flatMap (BlockRange.events s)) = rs.map BlockRange.bounds := by
  induction rs with
  | nil => rfl
  | cons r rs ih =>
    rw [List.flatMap_cons, storedRanges_append, ih]
    rfl

end Arguments

/-! ## Main result -/

/-- The stored ranges end after they start, they are contiguous from the old to the new latest
block, the latest block increases, and no hash up to the old latest block changes. The ranges are
those of the log, which the guardian's calls write as they write the mappings
(`Contracts/EventLog`). -/
structure ExtendsRanges (s s' : State) (es : List Event) : Prop where
  lt : ∀ r ∈ storedRanges es, r.1 < r.2
  contiguous : Contiguous s.latestBlock (storedRanges es) s'.latestBlock
  latestBlock : s.latestBlock < s'.latestBlock
  header : ∀ h, h ≤ s.latestBlock → s'.blockHeightToHeaderHash h = s.blockHeightToHeaderHash h

/-- **Stored ranges.** A successful update of the guardian extends the contiguous ranges exactly if
the end blocks increase from the latest block on. -/
theorem updateBlockRangeData_extendsRanges_iff (keccak256 : List UInt8 → Bytes32) (env : Env)
    (s s' : State) (es : List Event) (startBlocks endBlocks : List UInt32)
    (headerHashes dataRootCommitments stateRootCommitments : List Bytes32)
    (endAuthoritySetId : UInt64) (endAuthoritySetHash : Bytes32)
    (h : updateBlockRangeData keccak256 env s startBlocks endBlocks headerHashes dataRootCommitments
      stateRootCommitments endAuthoritySetId endAuthoritySetHash = .ok (s', es)) :
    ExtendsRanges s s' es ↔ (s.latestBlock :: endBlocks).Pairwise (· < ·) := by
  obtain ⟨-, hlen, hfirst, hchain, latestBlock, hlast, rfl, rfl⟩ := updateBlockRangeData_eq_ok.mp h
  have hstored := storedRanges_flatMap_events s (blockRanges startBlocks endBlocks headerHashes
    dataRootCommitments stateRootCommitments)
  rw [map_bounds_blockRanges hlen] at hstored
  have hheights : heights s.latestBlock (startBlocks.zip endBlocks) = s.latestBlock :: endBlocks := by
    rw [heights, List.map_snd_zip hlen.2.1.ge]
  constructor
  · intro hext
    have hcontiguous := hext.contiguous
    rw [hstored] at hcontiguous
    exact hheights ▸ hcontiguous.pairwise_heights
  · intro hlt
    have hhead : ∀ r ∈ (startBlocks.zip endBlocks).head?, r.1 = s.latestBlock := by
      intro r hr
      have hstart := congrArg (Option.map Prod.fst) hr
      rw [← List.head?_map, List.map_fst_zip hlen.2.1.le, hfirst] at hstart
      exact (Option.some.inj hstart).symm
    have hcontiguous : Contiguous s.latestBlock (startBlocks.zip endBlocks) latestBlock := by
      refine Ranges.contiguous_of_isChain hhead hchain (hheights ▸ hlt) ?_
      rw [hheights, List.getLast?_cons, hlast, Option.getD_some]
    obtain ⟨hgt, -⟩ := List.pairwise_cons.mp hlt
    refine ⟨fun r hr => ?_, hstored ▸ hcontiguous, hgt _ (List.mem_of_getLast? hlast), fun x hx => ?_⟩
    · rw [hstored] at hr
      exact (hcontiguous.mem hr).2.1
    · refine Updates.updates_of_notMem _ fun hmem => ?_
      rw [List.map_map] at hmem
      obtain ⟨r, hr, rfl⟩ := List.mem_map.mp hmem
      have hbounds : r.bounds ∈ startBlocks.zip endBlocks := by
        rw [← map_bounds_blockRanges hlen]
        exact List.mem_map_of_mem hr
      exact absurd (lt_of_lt_of_le (hgt _ (List.of_mem_zip hbounds).2) hx) (lt_irrefl _)

/-! ### A range that goes back -/

/-- A call by the guardian. -/
def guardianEnv : Env := { constantEnv [] with isGuardian := fun _ => true }

/-- From height 0, the guardian stores the ranges `(0, 5]` and `(5, 9]`. -/
def storeTwoRanges : Outcome :=
  updateBlockRangeData Reference.keccak256 guardianEnv (State.genesis genesisParams) [0, 5] [5, 9]
    [Reference.precommitHash, Reference.precommitHash] [emptyBytes32, emptyBytes32]
    [emptyBytes32, emptyBytes32] 298 Reference.pubkey₁

theorem updateBlockRangeData_extendsRanges_iff_two :
    ∃ s' es, storeTwoRanges = .ok (s', es) ∧ (ExtendsRanges (State.genesis genesisParams) s' es ↔
      [(State.genesis genesisParams).latestBlock, 5, 9].Pairwise (· < ·)) := by
  obtain ⟨s', es, hok⟩ : ∃ s' es, storeTwoRanges = .ok (s', es) :=
    ⟨_, _, updateBlockRangeData_eq_ok.mpr
      ⟨rfl, ⟨by decide, rfl, rfl, rfl, rfl⟩, rfl, by simp, 9, rfl, rfl, rfl⟩⟩
  exact ⟨s', es, hok, updateBlockRangeData_extendsRanges_iff _ _ _ _ _ _ _ _ _ _ _ _ hok⟩

/-- From height 5, the guardian stores the range from 5 to 3. -/
theorem not_extendsRanges_back : ¬∀ (keccak256 : List UInt8 → Bytes32) (env : Env) (s s' : State)
    (es : List Event) (startBlocks endBlocks : List UInt32)
    (headerHashes dataRootCommitments stateRootCommitments : List Bytes32)
    (endAuthoritySetId : UInt64) (endAuthoritySetHash : Bytes32),
    updateBlockRangeData keccak256 env s startBlocks endBlocks headerHashes dataRootCommitments
      stateRootCommitments endAuthoritySetId endAuthoritySetHash = .ok (s', es) →
    ExtendsRanges s s' es := by
  intro hclaim
  have hback := (hclaim Reference.keccak256 guardianEnv
    (State.genesis { genesisParams with height := 5 }) _ _ [5] [3] [Reference.precommitHash]
    [emptyBytes32] [emptyBytes32] 298 Reference.pubkey₁ rfl).latestBlock
  exact absurd hback (by decide)

end VectorX.Contract
