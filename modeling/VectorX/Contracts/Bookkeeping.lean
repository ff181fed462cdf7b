import VectorX.Contracts.VectorX
import VectorX.Common.HashChain
import VectorX.Common.Ranges
import VectorX.Reference.Crypto

/-!
# The block bookkeeping of the contract

The ranges that are committed form one contiguous sequence from the genesis height to the latest
block, whatever the gateway answers. What is stored for them is written once.
-/

namespace VectorX.Contract

open Plonky2x Solidity
open HashChain (CollisionFree)
open Ranges (Contiguous heights)

/-! ## Committed ranges -/

section CommittedRanges

/-- The ranges of the commitments that are stored, in order. -/
def storedRanges (es : List Event) : List (UInt32 × UInt32) :=
  es.filterMap fun
    | .headerRangeCommitmentStored startBlock endBlock _ _ _ => some (startBlock, endBlock)
    | _ => none

@[simp] theorem storedRanges_nil : storedRanges [] = [] := rfl

@[simp] theorem storedRanges_append (es es' : List Event) :
    storedRanges (es ++ es') = storedRanges es ++ storedRanges es' := List.filterMap_append

variable (keccak256 : List UInt8 → Bytes32)

/-- The messages that are hashed to the keys of the ranges. -/
def rangePreimages (rs : List (UInt32 × UInt32)) : List (List UInt8) :=
  rs.map fun r => rangePreimage r.1 r.2

/-- The keys of the ranges. -/
def rangeKeys (rs : List (UInt32 × UInt32)) : List Bytes32 :=
  rs.map fun r => rangeKey keccak256 r.1 r.2

theorem encodeUint_injective {a b : UInt32} (h : encodeUint a.toNat = encodeUint b.toNat) : a = b := by
  have hlt : ∀ x : UInt32, x.toNat < 256 ^ 32 := fun x => Nat.lt_trans x.toNat_lt (by decide)
  exact UInt32.toNat_inj.mp (Bytes.beBytes_inj (hlt a) (hlt b) h)

/-- A range is determined by its encoding. -/
theorem rangePreimage_injective {r r' : UInt32 × UInt32}
    (h : rangePreimage r.1 r.2 = rangePreimage r'.1 r'.2) : r = r' := by
  have hlen : (encodeUint r.1.toNat).length = (encodeUint r'.1.toNat).length := by
    rw [encodeUint, encodeUint, Bytes.length_beBytes, Bytes.length_beBytes]
  obtain ⟨hstart, hend⟩ := List.append_inj h hlen
  exact Prod.ext (encodeUint_injective hstart) (encodeUint_injective hend)

variable {keccak256}

/-- Ranges without colliding keys are determined by their keys. -/
theorem eq_of_rangeKey_eq {rs : List (UInt32 × UInt32)}
    (hfree : CollisionFree keccak256 (rangePreimages rs)) {r r' : UInt32 × UInt32} (hr : r ∈ rs)
    (hr' : r' ∈ rs) (h : rangeKey keccak256 r.1 r.2 = rangeKey keccak256 r'.1 r'.2) : r = r' :=
  rangePreimage_injective
    (hfree _ (List.mem_map_of_mem hr) _ (List.mem_map_of_mem hr') h)

theorem collisionFree_of_append {rs rs' : List (UInt32 × UInt32)}
    (h : CollisionFree keccak256 (rangePreimages (rs ++ rs'))) :
    CollisionFree keccak256 (rangePreimages rs) := by
  refine h.mono fun m hm => ?_
  rw [rangePreimages, List.map_append]
  exact List.mem_append_left _ hm

end CommittedRanges

/-! ## The calls of a light client -/

/-- The calls that neither initialize nor overwrite the ranges by the guardian. -/
def Call.IsRegular : Call → Prop
  | .initializeContract _ => False
  | .updateGenesisState _ _ _ _ => False
  | .updateBlockRangeData _ _ _ _ _ _ _ => False
  | _ => True

/-- The two states store the same blocks and ranges. -/
structure SameRanges (s s' : State) : Prop where
  latestBlock : s'.latestBlock = s.latestBlock
  header : s'.blockHeightToHeaderHash = s.blockHeightToHeaderHash
  dataRoot : s'.dataRootCommitments = s.dataRootCommitments
  stateRoot : s'.stateRootCommitments = s.stateRootCommitments
  rangeStart : s'.rangeStartBlocks = s.rangeStartBlocks

/-- The step commits the range up to `targetBlock`. -/
structure CommitsRange (keccak256 : List UInt8 → Bytes32) (c : Env × Call) (s s' : State)
    (es : List Event) (targetBlock : UInt32) (targetHeaderHash stateRoot dataRoot : Bytes32) : Prop where
  call : ∃ authoritySetId, c.2 = .commitHeaderRange authoritySetId targetBlock ∧
    VerifiedOutput c.1 s authoritySetId targetBlock targetHeaderHash stateRoot dataRoot
  lt : s.latestBlock < targetBlock
  latestBlock : s'.latestBlock = targetBlock
  header : s'.blockHeightToHeaderHash =
    Function.update s.blockHeightToHeaderHash targetBlock targetHeaderHash
  dataRoot : s'.dataRootCommitments =
    Function.update s.dataRootCommitments (rangeKey keccak256 s.latestBlock targetBlock) dataRoot
  stateRoot : s'.stateRootCommitments =
    Function.update s.stateRootCommitments (rangeKey keccak256 s.latestBlock targetBlock) stateRoot
  rangeStart : s'.rangeStartBlocks =
    Function.update s.rangeStartBlocks (rangeKey keccak256 s.latestBlock targetBlock) s.latestBlock
  stored : storedRanges es = [(s.latestBlock, targetBlock)]

section Steps

variable {keccak256 : List UInt8 → Bytes32} {c : Env × Call} {s s' : State} {es : List Event}

/-- A successful regular call either commits a range or leaves the ranges alone. -/
theorem exec_cases (hc : c.2.IsRegular) (h : exec keccak256 c.1 s c.2 = .ok (s', es)) :
    (SameRanges s s' ∧ storedRanges es = [] ∧
        ∀ authoritySetId targetBlock, c.2 ≠ .commitHeaderRange authoritySetId targetBlock) ∨
      ∃ targetBlock targetHeaderHash stateRoot dataRoot,
        CommitsRange keccak256 c s s' es targetBlock targetHeaderHash stateRoot dataRoot := by
  obtain ⟨env, call⟩ := c
  cases call with
  | initializeContract params => exact absurd hc id
  | updateGenesisState height header authoritySetId authoritySetHash => exact absurd hc id
  | updateBlockRangeData startBlocks endBlocks headerHashes dataRoots stateRoots id hash =>
    exact absurd hc fun h => h
  | updateFreeze freeze =>
    obtain ⟨-, rfl, rfl⟩ := updateFreeze_eq_ok.mp h
    exact Or.inl ⟨⟨rfl, rfl, rfl, rfl, rfl⟩, rfl, fun _ _ => by simp⟩
  | updateFunctionIds headerRangeFunctionId rotateFunctionId treeSize =>
    obtain ⟨-, rfl, rfl⟩ := updateFunctionIds_eq_ok.mp h
    exact Or.inl ⟨⟨rfl, rfl, rfl, rfl, rfl⟩, rfl, fun _ _ => by simp⟩
  | updateGateway gateway =>
    obtain ⟨-, rfl, rfl⟩ := updateGateway_eq_ok.mp h
    exact Or.inl ⟨⟨rfl, rfl, rfl, rfl, rfl⟩, rfl, fun _ _ => by simp⟩
  | requestHeaderRange authoritySetId requestedBlock =>
    obtain ⟨-, -, -, input, -, -, rfl, rfl⟩ := requestHeaderRange_eq_ok.mp h
    exact Or.inl ⟨⟨rfl, rfl, rfl, rfl, rfl⟩, rfl, fun _ _ => by simp⟩
  | requestRotate currentAuthoritySetId =>
    obtain ⟨-, next, -, -, input, -, -, rfl, rfl⟩ := requestRotate_eq_ok.mp h
    exact Or.inl ⟨⟨rfl, rfl, rfl, rfl, rfl⟩, rfl, fun _ _ => by simp⟩
  | rotate currentAuthoritySetId =>
    obtain ⟨-, -, next, -, -, output, -, hash, -, rfl, rfl⟩ := rotate_eq_ok.mp h
    exact Or.inl ⟨⟨rfl, rfl, rfl, rfl, rfl⟩, rfl, fun _ _ => by simp⟩
  | commitHeaderRange authoritySetId targetBlock =>
    obtain ⟨-, -, -, -, hlt, headerHash, stateRoot, dataRoot, hverified, rfl, rfl⟩ :=
      commitHeaderRange_eq_ok.mp h
    exact Or.inr ⟨targetBlock, headerHash, stateRoot, dataRoot, ⟨authoritySetId, rfl, hverified⟩,
      hlt, rfl, rfl, rfl, rfl, rfl, rfl⟩

variable (keccak256 s) in
/-- A regular step, reverted or not. -/
theorem step_cases (hc : c.2.IsRegular) :
    (SameRanges s (step keccak256 s c).1 ∧ storedRanges (step keccak256 s c).2 = []) ∨
      ∃ targetBlock targetHeaderHash stateRoot dataRoot,
        CommitsRange keccak256 c s (step keccak256 s c).1 (step keccak256 s c).2 targetBlock
          targetHeaderHash stateRoot dataRoot := by
  rw [step]
  cases hexec : exec keccak256 c.1 s c.2 with
  | error e => exact Or.inl ⟨⟨rfl, rfl, rfl, rfl, rfl⟩, rfl⟩
  | ok r =>
    rcases exec_cases hc hexec with ⟨hsame, hstored, -⟩ | hcommit
    · exact Or.inl ⟨hsame, hstored⟩
    · exact Or.inr hcommit

end Steps

/-! ## The invariant -/

/-- The storage and the ranges that have been committed so far, from genesis height `g` on. The
ranges are read off the log of each commit. That the mappings hold at every key what the last log
with that key names, and nothing else, is proved in `Contracts/EventLog`. -/
structure Bookkeeping (keccak256 : List UInt8 → Bytes32) (g : UInt32) (s : State) (es : List Event) :
    Prop where
  contiguous : Contiguous g (storedRanges es) s.latestBlock
  header : ∀ h, s.blockHeightToHeaderHash h ≠ emptyBytes32 → h ∈ heights g (storedRanges es)
  nodup_keys : (rangeKeys keccak256 (storedRanges es)).Nodup
  rangeStart : ∀ r ∈ storedRanges es, s.rangeStartBlocks (rangeKey keccak256 r.1 r.2) = r.1
  unwritten : ∀ key, key ∉ rangeKeys keccak256 (storedRanges es) →
    s.dataRootCommitments key = emptyBytes32 ∧ s.stateRootCommitments key = emptyBytes32 ∧
      s.rangeStartBlocks key = 0

/-- What has been written in `s` is the same in `s'`. -/
structure Kept (keccak256 : List UInt8 → Bytes32) (g : UInt32) (s : State) (es : List Event)
    (s' : State) : Prop where
  header : ∀ h ∈ heights g (storedRanges es),
    s'.blockHeightToHeaderHash h = s.blockHeightToHeaderHash h
  range : ∀ key ∈ rangeKeys keccak256 (storedRanges es),
    s'.dataRootCommitments key = s.dataRootCommitments key ∧
      s'.stateRootCommitments key = s.stateRootCommitments key ∧
      s'.rangeStartBlocks key = s.rangeStartBlocks key

section Invariant

variable {keccak256 : List UInt8 → Bytes32} {g : UInt32} {c : Env × Call} {s s' s'' : State}
  {es es' : List Event}

theorem Kept.refl : Kept keccak256 g s es s := ⟨fun _ _ => rfl, fun _ _ => ⟨rfl, rfl, rfl⟩⟩

theorem Kept.trans (h : Kept keccak256 g s es s') (h' : Kept keccak256 g s' (es ++ es') s'') :
    Kept keccak256 g s es s'' := by
  refine ⟨fun x hx => ?_, fun key hkey => ?_⟩
  · rw [h'.header x, h.header x hx]
    rw [storedRanges_append, Ranges.heights_append]
    exact List.mem_append_left _ hx
  · obtain ⟨hdata, hstate, hstart⟩ := h.range key hkey
    obtain ⟨hdata', hstate', hstart'⟩ := h'.range key (by
      rw [storedRanges_append, rangeKeys, List.map_append]
      exact List.mem_append_left _ hkey)
    exact ⟨hdata'.trans hdata, hstate'.trans hstate, hstart'.trans hstart⟩

theorem SameRanges.kept (h : SameRanges s s') : Kept keccak256 g s es s' :=
  ⟨fun x _ => by rw [h.header],
    fun key _ => ⟨by rw [h.dataRoot], by rw [h.stateRoot], by rw [h.rangeStart]⟩⟩

theorem SameRanges.bookkeeping (h : SameRanges s s') (hb : Bookkeeping keccak256 g s es) :
    Bookkeeping keccak256 g s' es where
  contiguous := h.latestBlock ▸ hb.contiguous
  header := h.header ▸ hb.header
  nodup_keys := hb.nodup_keys
  rangeStart := h.rangeStart ▸ hb.rangeStart
  unwritten := by
    rw [h.dataRoot, h.stateRoot, h.rangeStart]
    exact hb.unwritten

variable {targetBlock : UInt32} {targetHeaderHash stateRoot dataRoot : Bytes32}

/-- The key of a new range is a new key. -/
theorem Bookkeeping.rangeKey_notMem (hb : Bookkeeping keccak256 g s es)
    (hlt : s.latestBlock < targetBlock)
    (hfree : CollisionFree keccak256
      (rangePreimages (storedRanges es ++ [(s.latestBlock, targetBlock)]))) :
    rangeKey keccak256 s.latestBlock targetBlock ∉ rangeKeys keccak256 (storedRanges es) := by
  intro hmem
  obtain ⟨r, hr, hkey⟩ := List.mem_map.mp hmem
  have heq : r = (s.latestBlock, targetBlock) :=
    eq_of_rangeKey_eq hfree (List.mem_append_left _ hr) (by simp) hkey
  have hle := (hb.contiguous.mem hr).2.2
  rw [heq] at hle
  exact absurd (lt_of_lt_of_le hlt hle) (lt_irrefl _)

/-- The height of a new range is a new height. -/
theorem Bookkeeping.notMem_heights (hb : Bookkeeping keccak256 g s es)
    (hlt : s.latestBlock < targetBlock) : targetBlock ∉ heights g (storedRanges es) := by
  intro hmem
  exact absurd (lt_of_lt_of_le hlt (hb.contiguous.mem_heights hmem).2) (lt_irrefl _)

theorem CommitsRange.kept
    (h : CommitsRange keccak256 c s s' es' targetBlock targetHeaderHash stateRoot dataRoot)
    (hb : Bookkeeping keccak256 g s es)
    (hfree : CollisionFree keccak256 (rangePreimages (storedRanges (es ++ es')))) :
    Kept keccak256 g s es s' := by
  rw [storedRanges_append, h.stored] at hfree
  refine ⟨fun x hx => ?_, fun key hkey => ?_⟩
  · have hne : x ≠ targetBlock := fun heq => hb.notMem_heights h.lt (heq ▸ hx)
    rw [h.header, Function.update_of_ne hne]
  · have hne : key ≠ rangeKey keccak256 s.latestBlock targetBlock :=
      fun heq => hb.rangeKey_notMem h.lt hfree (heq ▸ hkey)
    rw [h.dataRoot, h.stateRoot, h.rangeStart, Function.update_of_ne hne,
      Function.update_of_ne hne, Function.update_of_ne hne]
    exact ⟨rfl, rfl, rfl⟩

theorem CommitsRange.bookkeeping
    (h : CommitsRange keccak256 c s s' es' targetBlock targetHeaderHash stateRoot dataRoot)
    (hb : Bookkeeping keccak256 g s es)
    (hfree : CollisionFree keccak256 (rangePreimages (storedRanges (es ++ es')))) :
    Bookkeeping keccak256 g s' (es ++ es') := by
  have hkept := h.kept hb hfree
  rw [storedRanges_append, h.stored] at hfree
  have hkey := hb.rangeKey_notMem h.lt hfree
  have hranges : storedRanges (es ++ es') = storedRanges es ++ [(s.latestBlock, targetBlock)] := by
    rw [storedRanges_append, h.stored]
  have hkeys : rangeKeys keccak256 (storedRanges (es ++ es')) =
      rangeKeys keccak256 (storedRanges es) ++ [rangeKey keccak256 s.latestBlock targetBlock] := by
    rw [hranges, rangeKeys, List.map_append]
    rfl
  refine ⟨?_, fun x hx => ?_, ?_, fun r hr => ?_, fun key hnot => ?_⟩
  · rw [hranges, h.latestBlock]
    exact Ranges.contiguous_concat hb.contiguous h.lt
  · rw [hranges, Ranges.heights_append]
    by_cases heq : x = targetBlock
    · exact List.mem_append_right _ (List.mem_singleton.mpr heq)
    · rw [h.header, Function.update_of_ne heq] at hx
      exact List.mem_append_left _ (hb.header x hx)
  · rw [hkeys]
    exact hb.nodup_keys.append (List.nodup_singleton _) (List.disjoint_singleton.mpr hkey)
  · rw [hranges] at hr
    rcases List.mem_append.mp hr with hr | hr
    · rw [(hkept.range _ (List.mem_map_of_mem hr)).2.2, hb.rangeStart r hr]
    · obtain rfl := List.mem_singleton.mp hr
      rw [h.rangeStart, Function.update_self]
  · rw [hkeys] at hnot
    have hne : key ≠ rangeKey keccak256 s.latestBlock targetBlock := fun heq => hnot (by simp [heq])
    rw [h.dataRoot, h.stateRoot, h.rangeStart, Function.update_of_ne hne,
      Function.update_of_ne hne, Function.update_of_ne hne]
    exact hb.unwritten key fun hmem => hnot (List.mem_append_left _ hmem)

/-- **Step.** A regular step keeps the books, and what has been written. -/
theorem bookkeeping_step (hc : c.2.IsRegular) (hb : Bookkeeping keccak256 g s es)
    (hfree : CollisionFree keccak256
      (rangePreimages (storedRanges (es ++ (step keccak256 s c).2)))) :
    Bookkeeping keccak256 g (step keccak256 s c).1 (es ++ (step keccak256 s c).2) ∧
      Kept keccak256 g s es (step keccak256 s c).1 := by
  rcases step_cases keccak256 s hc with ⟨hsame, hstored⟩ |
    ⟨targetBlock, targetHeaderHash, stateRoot, dataRoot, hcommit⟩
  · have hb' := hsame.bookkeeping hb
    refine ⟨⟨?_, ?_, ?_, ?_, ?_⟩, hsame.kept⟩ <;>
      rw [storedRanges_append, hstored, List.append_nil]
    · exact hb'.contiguous
    · exact hb'.header
    · exact hb'.nodup_keys
    · exact hb'.rangeStart
    · exact hb'.unwritten
  · exact ⟨hcommit.bookkeeping hb hfree, hcommit.kept hb hfree⟩

end Invariant

/-! ## Runs -/

section Runs

variable {keccak256 : List UInt8 → Bytes32} {g : UInt32} {s : State} {es : List Event}

theorem bookkeeping_genesis (params : InitParameters) :
    Bookkeeping keccak256 params.height (State.genesis params) [] where
  contiguous := rfl
  header h hne := by
    by_contra hnot
    have hother : h ≠ params.height := fun heq => hnot (by simp [heights, heq])
    have hzero := Function.update_of_ne hother params.header fun _ => emptyBytes32
    exact hne hzero
  nodup_keys := List.nodup_nil
  rangeStart r hr := absurd hr (by simp)
  unwritten key _ := ⟨rfl, rfl, rfl⟩

/-- **Run.** Regular calls keep the books, and what had been written before. -/
theorem bookkeeping_run {calls : List (Env × Call)} (hcalls : ∀ c ∈ calls, c.2.IsRegular)
    (hb : Bookkeeping keccak256 g s es)
    (hfree : CollisionFree keccak256
      (rangePreimages (storedRanges (es ++ (Run.run (step keccak256) s calls).2)))) :
    Bookkeeping keccak256 g (Run.run (step keccak256) s calls).1
        (es ++ (Run.run (step keccak256) s calls).2) ∧
      Kept keccak256 g s es (Run.run (step keccak256) s calls).1 := by
  -- the invariant of the run assumes that the keys up to now do not collide
  have hrun := Run.run_invariant
    (fun s' es' => CollisionFree keccak256 (rangePreimages (storedRanges es')) →
      Bookkeeping keccak256 g s' es' ∧ Kept keccak256 g s es s' ∧ ∃ new, es' = es ++ new)
    (fun c => c.2.IsRegular) ?_ (fun _ => ⟨hb, Kept.refl, [], by simp⟩) hcalls hfree
  · exact ⟨hrun.1, hrun.2.1⟩
  · intro s' es' c hc hinv hfree'
    have hfree'' := hfree'
    rw [storedRanges_append] at hfree''
    obtain ⟨hb', hkept, new, rfl⟩ := hinv (collisionFree_of_append hfree'')
    obtain ⟨hnext, hkept'⟩ := bookkeeping_step hc hb' hfree'
    exact ⟨hnext, hkept.trans hkept', new ++ (step keccak256 s' c).2, by rw [List.append_assoc]⟩

end Runs

/-! ## Main result -/

/-- A call advances the latest block if it is a successful commit, and otherwise keeps it. -/
def AdvancesByCommit (keccak256 : List UInt8 → Bytes32) (s : State) (c : Env × Call) : Prop :=
  (∀ authoritySetId targetBlock r, c.2 = .commitHeaderRange authoritySetId targetBlock →
      exec keccak256 c.1 s c.2 = .ok r → s.latestBlock < (step keccak256 s c).1.latestBlock) ∧
    ((∀ authoritySetId targetBlock, c.2 ≠ .commitHeaderRange authoritySetId targetBlock) ∨
        (∃ e, exec keccak256 c.1 s c.2 = .error e) →
      (step keccak256 s c).1.latestBlock = s.latestBlock)

theorem advancesByCommit (keccak256 : List UInt8 → Bytes32) (s : State) (c : Env × Call)
    (hc : c.2.IsRegular) : AdvancesByCommit keccak256 s c := by
  refine ⟨fun authoritySetId targetBlock r hcall hexec => ?_, ?_⟩
  · obtain ⟨s', es⟩ := r
    rcases exec_cases hc hexec with ⟨-, -, hne⟩ |
      ⟨target, hash, stateRoot, dataRoot, hcommit⟩
    · exact absurd hcall (hne authoritySetId targetBlock)
    · rw [step, hexec]
      exact lt_of_lt_of_eq hcommit.lt hcommit.latestBlock.symm
  · rintro (hne | ⟨e, herror⟩)
    · rcases step_cases keccak256 s hc with ⟨hsame, -⟩ |
        ⟨target, hash, stateRoot, dataRoot, ⟨authoritySetId, hcall, -⟩, -⟩
      · exact hsame.latestBlock
      · exact absurd hcall (hne authoritySetId target)
    · rw [step, herror]

/-- **Bookkeeping.** In every reachable state, the committed ranges are contiguous from the genesis
height to the latest block, hashes are stored at their end points only, every key belongs to one
range and holds its start, and whatever calls follow, nothing that is written changes again. -/
theorem block_bookkeeping (keccak256 : List UInt8 → Bytes32) (env : Env) (params : InitParameters)
    (calls calls' : List (Env × Call)) (hcalls : ∀ c ∈ calls ++ calls', c.2.IsRegular)
    (hfree : CollisionFree keccak256 (rangePreimages
      (storedRanges (runFrom keccak256 env params (calls ++ calls')).2))) :
    Bookkeeping keccak256 params.height (runFrom keccak256 env params calls).1
        (runFrom keccak256 env params calls).2 ∧
      (heights params.height (storedRanges (runFrom keccak256 env params calls).2)).Pairwise (· < ·) ∧
      Kept keccak256 params.height (runFrom keccak256 env params calls).1
        (runFrom keccak256 env params calls).2
        (runFrom keccak256 env params (calls ++ calls')).1 ∧
      ∀ c, c.2.IsRegular → AdvancesByCommit keccak256 (runFrom keccak256 env params calls).1 c := by
  rw [runFrom_eq, Run.run_append] at hfree
  rw [runFrom_eq, runFrom_eq, Run.run_append]
  have hfirst := hfree
  rw [storedRanges_append] at hfirst
  obtain ⟨hb, -⟩ := bookkeeping_run
    (fun c hc => hcalls c (List.mem_append_left _ hc)) (bookkeeping_genesis params)
    (collisionFree_of_append hfirst)
  obtain ⟨-, hkept⟩ := bookkeeping_run (fun c hc => hcalls c (List.mem_append_right _ hc)) hb hfree
  exact ⟨hb, hb.contiguous.pairwise_heights, hkept,
    fun c hc => advancesByCommit keccak256 _ c hc⟩

/-- A gateway that gives the same answer to everything. -/
def constantEnv (output : List UInt8) : Env where
  sender := ArrayVariable.replicate 20 0
  isGuardian _ := false
  requestCall _ _ _ _ := true
  verifiedCall _ _ _ := some output

/-- Genesis at height 0 with the first authority. -/
def genesisParams : InitParameters where
  gateway := ArrayVariable.replicate 20 1
  height := 0
  header := Reference.precommitHash
  authoritySetId := 298
  authoritySetHash := Reference.pubkey₁
  headerRangeFunctionId := ArrayVariable.replicate 32 1
  rotateFunctionId := ArrayVariable.replicate 32 2
  headerRangeCommitmentTreeSize := 256

/-- Two commits of arbitrary output, to blocks 5 and 9. -/
def arbitraryCommits : List (Env × Call) :=
  [(constantEnv (List.replicate 96 7), .commitHeaderRange 298 5),
    (constantEnv (List.replicate 100 8), .commitHeaderRange 299 7),
    (constantEnv (List.replicate 100 8), .commitHeaderRange 298 9)]

/-- The books between the two commits; the call in between reverts. -/
theorem bookkeeping_arbitraryCommits :
    Bookkeeping Reference.keccak256 0
        (runFrom Reference.keccak256 (constantEnv []) genesisParams (arbitraryCommits.take 2)).1
        (runFrom Reference.keccak256 (constantEnv []) genesisParams (arbitraryCommits.take 2)).2 ∧
      (heights 0 (storedRanges (runFrom Reference.keccak256 (constantEnv []) genesisParams
        (arbitraryCommits.take 2)).2)).Pairwise (· < ·) ∧
      Kept Reference.keccak256 0
        (runFrom Reference.keccak256 (constantEnv []) genesisParams (arbitraryCommits.take 2)).1
        (runFrom Reference.keccak256 (constantEnv []) genesisParams (arbitraryCommits.take 2)).2
        (runFrom Reference.keccak256 (constantEnv []) genesisParams
          (arbitraryCommits.take 2 ++ arbitraryCommits.drop 2)).1 ∧
      ∀ c, c.2.IsRegular → AdvancesByCommit Reference.keccak256
        (runFrom Reference.keccak256 (constantEnv []) genesisParams (arbitraryCommits.take 2)).1 c := by
  have hranges : storedRanges (runFrom Reference.keccak256 (constantEnv []) genesisParams
      (arbitraryCommits.take 2 ++ arbitraryCommits.drop 2)).2 = [(0, 5), (5, 9)] := by
    decide +kernel
  refine block_bookkeeping Reference.keccak256 (constantEnv []) genesisParams (arbitraryCommits.take 2)
    (arbitraryCommits.drop 2) ?_ ?_
  · intro c hc
    simp only [arbitraryCommits, List.take, List.drop, List.cons_append, List.nil_append,
      List.mem_cons, List.not_mem_nil, or_false] at hc
    rcases hc with rfl | rfl | rfl <;> exact trivial
  · rw [hranges]
    exact HashChain.collisionFree_pair (by decide +kernel)

end VectorX.Contract
