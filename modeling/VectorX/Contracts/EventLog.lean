import VectorX.Contracts.Effects

/-!
# The log of the contract

The storage can be rebuilt from the log. Every write to the tables of the ranges is logged, whoever
calls; the block hashes are logged unless the guardian sets the genesis state, and the authority
sets unless the guardian stores ranges.
-/

namespace VectorX.Contract

open Plonky2x Solidity
open Updates (updates)
open HashChain (CollisionFree)

/-! ## The writes that a log names -/

section Writes

/-- The block and the hash of a head update. -/
def Event.headerWrite : Event → Option (UInt32 × Bytes32)
  | .headUpdate blockNumber headerHash => some (blockNumber, headerHash)
  | _ => none

/-- The range of a stored commitment, with its data and its state commitment. -/
def Event.rangeWrite : Event → Option ((UInt32 × UInt32) × Bytes32 × Bytes32)
  | .headerRangeCommitmentStored startBlock endBlock dataCommitment stateCommitment _ =>
    some ((startBlock, endBlock), dataCommitment, stateCommitment)
  | _ => none

/-- The id and the hash of a stored authority set. -/
def Event.authorityWrite : Event → Option (UInt64 × Bytes32)
  | .authoritySetStored authoritySetId authoritySetHash => some (authoritySetId, authoritySetHash)
  | _ => none

def headerWrites (es : List Event) : List (UInt32 × Bytes32) := es.filterMap Event.headerWrite

def rangeWrites (es : List Event) : List ((UInt32 × UInt32) × Bytes32 × Bytes32) :=
  es.filterMap Event.rangeWrite

def authorityWrites (es : List Event) : List (UInt64 × Bytes32) := es.filterMap Event.authorityWrite

/-- A table of the ranges after the writes, for one of the values that are stored under their
keys. -/
def updateRanges {ν : Type} (keccak256 : List UInt8 → Bytes32)
    (value : (UInt32 × UInt32) × Bytes32 × Bytes32 → ν) (m : Bytes32 → ν)
    (ws : List ((UInt32 × UInt32) × Bytes32 × Bytes32)) : Bytes32 → ν :=
  updates m (ws.map fun w => (rangeKey keccak256 w.1.1 w.1.2, value w))

/-- The tables of the ranges in `s'` are those in `s` after the writes of the log. -/
structure RangesReplay (keccak256 : List UInt8 → Bytes32) (s : State) (es : List Event) (s' : State) :
    Prop where
  dataRoot : s'.dataRootCommitments =
    updateRanges keccak256 (fun w => w.2.1) s.dataRootCommitments (rangeWrites es)
  stateRoot : s'.stateRootCommitments =
    updateRanges keccak256 (fun w => w.2.2) s.stateRootCommitments (rangeWrites es)
  rangeStart : s'.rangeStartBlocks =
    updateRanges keccak256 (fun w => w.1.1) s.rangeStartBlocks (rangeWrites es)

/-- The block hashes in `s'` are those in `s` after the head updates of the log, the last of which
is for the latest block. -/
structure BlocksReplay (s : State) (es : List Event) (s' : State) : Prop where
  header : s'.blockHeightToHeaderHash = updates s.blockHeightToHeaderHash (headerWrites es)
  latestBlock : s'.latestBlock = ((headerWrites es).map Prod.fst).getLastD s.latestBlock

/-- The authority sets in `s'` are those in `s` after the writes of the log. -/
def AuthoritiesReplay (s : State) (es : List Event) (s' : State) : Prop :=
  s'.authoritySetIdToHash = updates s.authoritySetIdToHash (authorityWrites es)

/-- The calls that do not set the genesis state. -/
def Call.IsLogged : Call → Prop
  | .initializeContract _ => False
  | .updateGenesisState _ _ _ _ => False
  | _ => True

end Writes

/-! ## Composition -/

section Composition

variable {keccak256 : List UInt8 → Bytes32} {s s' s'' : State} {es es' : List Event}

theorem updateRanges_append {ν : Type} (value : (UInt32 × UInt32) × Bytes32 × Bytes32 → ν)
    (m : Bytes32 → ν) (ws vs : List ((UInt32 × UInt32) × Bytes32 × Bytes32)) :
    updateRanges keccak256 value m (ws ++ vs) =
      updateRanges keccak256 value (updateRanges keccak256 value m ws) vs := by
  rw [updateRanges, List.map_append, Updates.updates_append]
  rfl

theorem RangesReplay.refl : RangesReplay keccak256 s [] s := ⟨rfl, rfl, rfl⟩

theorem RangesReplay.trans (h : RangesReplay keccak256 s es s')
    (h' : RangesReplay keccak256 s' es' s'') : RangesReplay keccak256 s (es ++ es') s'' := by
  have hwrites : rangeWrites (es ++ es') = rangeWrites es ++ rangeWrites es' :=
    List.filterMap_append
  refine ⟨?_, ?_, ?_⟩
  · rw [hwrites, updateRanges_append, ← h.dataRoot, h'.dataRoot]
  · rw [hwrites, updateRanges_append, ← h.stateRoot, h'.stateRoot]
  · rw [hwrites, updateRanges_append, ← h.rangeStart, h'.rangeStart]

theorem BlocksReplay.refl : BlocksReplay s [] s := ⟨rfl, rfl⟩

theorem BlocksReplay.trans (h : BlocksReplay s es s') (h' : BlocksReplay s' es' s'') :
    BlocksReplay s (es ++ es') s'' := by
  have hwrites : headerWrites (es ++ es') = headerWrites es ++ headerWrites es' :=
    List.filterMap_append
  refine ⟨?_, ?_⟩
  · rw [hwrites, Updates.updates_append, ← h.header, h'.header]
  · rw [hwrites, List.map_append, List.getLastD_eq_getLast?, List.getLast?_append, Option.getD_or,
      ← List.getLastD_eq_getLast?, ← List.getLastD_eq_getLast?, ← h.latestBlock, h'.latestBlock]

theorem AuthoritiesReplay.trans (h : AuthoritiesReplay s es s') (h' : AuthoritiesReplay s' es' s'') :
    AuthoritiesReplay s (es ++ es') s'' := by
  have hwrites : authorityWrites (es ++ es') = authorityWrites es ++ authorityWrites es' :=
    List.filterMap_append
  rw [AuthoritiesReplay, hwrites, Updates.updates_append, ← h, h']

end Composition

/-! ## Steps -/

section Steps

variable {keccak256 : List UInt8 → Bytes32} {c : Env × Call} {s s' : State} {es : List Event}

/-- The writes in the logs of the ranges that the guardian stores. -/
theorem filterMap_flatMap_events {β : Type} {f : Event → Option β} {g : BlockRange → β}
    (h : ∀ r : BlockRange, (r.events s).filterMap f = [g r]) (rs : List BlockRange) :
    (rs.flatMap (BlockRange.events s)).filterMap f = rs.map g := by
  induction rs with
  | nil => rfl
  | cons r rs ih => rw [List.flatMap_cons, List.filterMap_append, ih, h, List.map_cons]; rfl

/-- Requests name no writes. -/
theorem filterMap_eq_nil_of_isRequest {β : Type} {f : Event → Option β}
    (hf : ∀ e : Event, e.IsRequest → f e = none) (h : ∀ e ∈ es, e.IsRequest) :
    es.filterMap f = [] :=
  List.filterMap_eq_nil_iff.mpr fun e he => hf e (h e he)

/-- Every successful call logs its writes to the tables of the ranges. -/
theorem Effect.rangesReplay (h : Effect keccak256 c s s' es) : RangesReplay keccak256 s es s' := by
  cases h with
  | initializeContract | configure | setGenesis => exact ⟨rfl, rfl, rfl⟩
  | request request requests =>
    have hnil : rangeWrites es = [] :=
      filterMap_eq_nil_of_isRequest
        (fun e he => by cases e <;> simp_all [Event.IsRequest, Event.rangeWrite])
        requests
    exact ⟨by rw [hnil]; rfl, by rw [hnil]; rfl, by rw [hnil]; rfl⟩
  | commit | rotate => exact ⟨rfl, rfl, rfl⟩
  | setRanges call guardian lengths last =>
    have hwrites := fun rs => filterMap_flatMap_events (f := Event.rangeWrite) (s := s)
      (g := fun r => (r.bounds, r.dataRootCommitment, r.stateRootCommitment)) (fun _ => rfl) rs
    refine ⟨?_, ?_, ?_⟩
    · rw [rangeWrites, hwrites, updateRanges, List.map_map]
      rfl
    · rw [rangeWrites, hwrites, updateRanges, List.map_map]
      rfl
    · rw [rangeWrites, hwrites, updateRanges, List.map_map]
      rfl

/-- Every successful call but those that set the genesis state logs the block hashes. -/
theorem Effect.blocksReplay (h : Effect keccak256 c s s' es) (hc : c.2.IsLogged) :
    BlocksReplay s es s' := by
  cases h with
  | initializeContract call => exact absurd hc (by rw [call]; exact id)
  | setGenesis call => exact absurd hc (by rw [call]; exact id)
  | configure | commit | rotate => exact ⟨rfl, rfl⟩
  | request request requests =>
    have hnil : headerWrites es = [] :=
      filterMap_eq_nil_of_isRequest
        (fun e he => by cases e <;> simp_all [Event.IsRequest, Event.headerWrite])
        requests
    exact ⟨by rw [hnil]; rfl, by rw [hnil]; rfl⟩
  | setRanges call guardian lengths last =>
    rename_i startBlocks endBlocks _ _ _ _ _ latestBlock
    have hwrites := fun rs => filterMap_flatMap_events (f := Event.headerWrite) (s := s)
      (g := fun r => (r.endBlock, r.headerHash)) (fun _ => rfl) rs
    refine ⟨?_, ?_⟩
    · rw [headerWrites, hwrites]
      rfl
    · have hends := congrArg (List.map Prod.snd) (map_bounds_blockRanges lengths)
      rw [List.map_snd_zip (le_of_eq lengths.2.1.symm), List.map_map] at hends
      rw [headerWrites, hwrites, List.map_map, List.getLastD_eq_getLast?]
      rw [show Prod.fst ∘ (fun r : BlockRange => (r.endBlock, r.headerHash)) =
        Prod.snd ∘ BlockRange.bounds from rfl, hends, last]
      rfl

/-- Every regular call logs the authority sets. -/
theorem Effect.authoritiesReplay (h : Effect keccak256 c s s' es) (hc : c.2.IsRegular) :
    AuthoritiesReplay s es s' := by
  cases h with
  | initializeContract call => exact absurd hc (by rw [call]; exact id)
  | setGenesis call => exact absurd hc (by rw [call]; exact id)
  | setRanges call => exact absurd hc (by rw [call]; exact id)
  | configure | commit | rotate => rfl
  | request request requests =>
    have hnil : authorityWrites es = [] :=
      filterMap_eq_nil_of_isRequest
        (fun e he => by cases e <;> simp_all [Event.IsRequest, Event.authorityWrite]) requests
    rw [AuthoritiesReplay, hnil]
    rfl

end Steps

/-! ## Runs -/

section Runs

variable (keccak256 : List UInt8 → Bytes32) (s : State) {calls : List (Env × Call)}

/-- **Run.** Whoever calls, the tables of the ranges follow the log. -/
theorem rangesReplay_run (calls : List (Env × Call)) :
    RangesReplay keccak256 s (Run.run (step keccak256) s calls).2
      (Run.run (step keccak256) s calls).1 := by
  refine Run.run_rel (fun s es s' => RangesReplay keccak256 s es s') (fun _ => True)
    (fun _ => .refl) (fun _ _ _ _ _ => .trans) (fun s c _ => ?_) s (fun _ _ => trivial)
  rcases step_effect keccak256 c s with hsame | heffect
  · rw [hsame]
    exact .refl
  · exact heffect.rangesReplay

/-- **Run.** Logged calls let the block hashes follow the log. -/
theorem blocksReplay_run (hcalls : ∀ c ∈ calls, c.2.IsLogged) :
    BlocksReplay s (Run.run (step keccak256) s calls).2 (Run.run (step keccak256) s calls).1 := by
  refine Run.run_rel BlocksReplay (fun c : Env × Call => c.2.IsLogged)
    (fun _ => .refl) (fun _ _ _ _ _ => .trans) (fun s c hc => ?_) s hcalls
  rcases step_effect keccak256 c s with hsame | heffect
  · rw [hsame]
    exact .refl
  · exact heffect.blocksReplay hc

/-- **Run.** Regular calls let the authority sets follow the log. -/
theorem authoritiesReplay_run (hcalls : ∀ c ∈ calls, c.2.IsRegular) :
    AuthoritiesReplay s (Run.run (step keccak256) s calls).2
      (Run.run (step keccak256) s calls).1 := by
  refine Run.run_rel AuthoritiesReplay (fun c : Env × Call => c.2.IsRegular)
    (fun _ => rfl) (fun _ _ _ _ _ => .trans) (fun s c hc => ?_) s hcalls
  rcases step_effect keccak256 c s with hsame | heffect
  · rw [hsame]
    rfl
  · exact heffect.authoritiesReplay hc

end Runs

/-! ## Reading a range -/

section Reading

variable {keccak256 : List UInt8 → Bytes32} {ν : Type}

/-- The bounds of the writes of a log are the ranges stored in it. -/
theorem map_fst_rangeWrites (es : List Event) : (rangeWrites es).map Prod.fst = storedRanges es := by
  rw [rangeWrites, storedRanges, List.map_filterMap]
  congr 1
  funext e
  cases e <;> rfl

/-- The last write of a log for the range `r`. -/
def lastWrite (es : List Event) (r : UInt32 × UInt32) :
    Option ((UInt32 × UInt32) × Bytes32 × Bytes32) :=
  ((rangeWrites es).filter fun w => w.1 = r).getLast?

/-- If the keys do not collide, a table holds for a range what its last write names. -/
theorem updateRanges_rangeKey (value : (UInt32 × UInt32) × Bytes32 × Bytes32 → ν) (m : Bytes32 → ν)
    {es : List Event} {r : UInt32 × UInt32}
    (hfree : CollisionFree keccak256 (rangePreimages (r :: storedRanges es))) :
    updateRanges keccak256 value m (rangeWrites es) (rangeKey keccak256 r.1 r.2) =
      ((lastWrite es r).map value).getD (m (rangeKey keccak256 r.1 r.2)) := by
  have hkeys : ∀ w ∈ rangeWrites es,
      decide (rangeKey keccak256 w.1.1 w.1.2 = rangeKey keccak256 r.1 r.2) = decide (w.1 = r) := by
    intro w hw
    have hmem : w.1 ∈ storedRanges es := map_fst_rangeWrites es ▸ List.mem_map_of_mem hw
    refine decide_eq_decide.mpr ⟨fun h => ?_, fun h => by rw [h]⟩
    exact eq_of_rangeKey_eq hfree (List.mem_cons_of_mem _ hmem) List.mem_cons_self h
  rw [updateRanges, Updates.updates_eq_getLast?, lastWrite, List.filter_map, List.map_map,
    ← List.filter_congr hkeys, List.getLast?_map]
  rfl

end Reading

/-! ## Main results -/

/-- **Replay.** From any state, the tables of the ranges are what the log makes of them, whatever
calls are made. So are the block hashes and the latest block, if none of the calls sets the genesis
state, and the authority sets, if moreover the guardian stores no ranges. -/
theorem storage_eq_replay (keccak256 : List UInt8 → Bytes32) (s : State) (calls : List (Env × Call)) :
    RangesReplay keccak256 s (Run.run (step keccak256) s calls).2
        (Run.run (step keccak256) s calls).1 ∧
      ((∀ c ∈ calls, c.2.IsLogged) → BlocksReplay s (Run.run (step keccak256) s calls).2
        (Run.run (step keccak256) s calls).1) ∧
      ((∀ c ∈ calls, c.2.IsRegular) → AuthoritiesReplay s (Run.run (step keccak256) s calls).2
        (Run.run (step keccak256) s calls).1) :=
  ⟨rangesReplay_run keccak256 s calls, blocksReplay_run keccak256 s, authoritiesReplay_run keccak256 s⟩

/-- The tables hold for the range `r` what its last log names, and nothing if it has not been
logged. -/
structure HoldsLastWrite (keccak256 : List UInt8 → Bytes32) (s : State) (es : List Event)
    (r : UInt32 × UInt32) : Prop where
  dataRoot : s.dataRootCommitments (rangeKey keccak256 r.1 r.2) =
    ((lastWrite es r).map fun w => w.2.1).getD emptyBytes32
  stateRoot : s.stateRootCommitments (rangeKey keccak256 r.1 r.2) =
    ((lastWrite es r).map fun w => w.2.2).getD emptyBytes32
  rangeStart : s.rangeStartBlocks (rangeKey keccak256 r.1 r.2) =
    ((lastWrite es r).map fun w => w.1.1).getD 0

/-- **Reading.** After any calls from the deployment on, the tables hold for every range what its
last log names. -/
theorem ranges_holdsLastWrite (keccak256 : List UInt8 → Bytes32) (calls : List (Env × Call))
    (r : UInt32 × UInt32) (hfree : CollisionFree keccak256
      (rangePreimages (r :: storedRanges (Run.run (step keccak256) State.fresh calls).2))) :
    HoldsLastWrite keccak256 (Run.run (step keccak256) State.fresh calls).1
      (Run.run (step keccak256) State.fresh calls).2 r := by
  have hreplay := rangesReplay_run keccak256 State.fresh calls
  refine ⟨?_, ?_, ?_⟩
  · rw [hreplay.dataRoot, updateRanges_rangeKey _ _ hfree]
    rfl
  · rw [hreplay.stateRoot, updateRanges_rangeKey _ _ hfree]
    rfl
  · rw [hreplay.rangeStart, updateRanges_rangeKey _ _ hfree]
    rfl

/-! ### A range that is stored twice -/

/-- The guardian stores the range `(0, 5]` and goes back to height 0, and the range is committed. -/
def rewoundCalls : List (Env × Call) :=
  [(constantEnv [], .initializeContract genesisParams),
    (guardianEnv, .updateBlockRangeData [0] [5] [Reference.precommitHash] [Reference.pubkey₁]
      [Reference.pubkey₁] 298 Reference.pubkey₁),
    (guardianEnv, .updateGenesisState 0 Reference.precommitHash 298 Reference.pubkey₁),
    (constantEnv (List.replicate 96 7), .commitHeaderRange 298 5)]

/-- What is stored for the range is the committed output. -/
theorem ranges_holdsLastWrite_rewound :
    storedRanges (Run.run (step Reference.keccak256) State.fresh rewoundCalls).2 = [(0, 5), (0, 5)] ∧
      (Run.run (step Reference.keccak256) State.fresh rewoundCalls).1.dataRootCommitments
        (rangeKey Reference.keccak256 0 5) = ArrayVariable.replicate 32 7 := by
  have hstored : storedRanges (Run.run (step Reference.keccak256) State.fresh rewoundCalls).2 =
      [(0, 5), (0, 5)] := by decide +kernel
  have hfree : CollisionFree Reference.keccak256 (rangePreimages ((0, 5) ::
      storedRanges (Run.run (step Reference.keccak256) State.fresh rewoundCalls).2)) := by
    rw [hstored]
    refine (HashChain.collisionFree_singleton _ (rangePreimage 0 5)).mono fun m hm => ?_
    simpa [rangePreimages] using hm
  refine ⟨hstored, ?_⟩
  rw [(ranges_holdsLastWrite Reference.keccak256 rewoundCalls (0, 5) hfree).dataRoot]
  decide +kernel

end VectorX.Contract
