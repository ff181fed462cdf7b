import VectorX.Contracts.Effects

/-!
# Verified outputs are read once

A commit moves the latest block, which is a part of its input, and a rotation stores the set after
the one in its input. So without the guardian no call reads the output for an input that has been
read before. The contract takes a zero hash for a set that is not stored, and repeats a rotation
that stores it.
-/

namespace VectorX.Contract

open Plonky2x Solidity
open Bytes (beBytes)

/-! ## The reads of a run -/

section Reads

/-- A verified output that has been read, and the input that it is for. -/
structure VerifiedRead where
  gateway : Address
  functionId : Bytes32
  input : List UInt8
  output : List UInt8

/-- The output for an input. -/
def readVerified (env : Env) (gateway : Address) (functionId : Bytes32) (input : List UInt8) :
    Option VerifiedRead :=
  (env.verifiedCall gateway functionId input).map fun output => ⟨gateway, functionId, input, output⟩

/-- What a call reads if it succeeds. -/
def verifiedRead (env : Env) (s : State) : Call → Option VerifiedRead
  | .commitHeaderRange authoritySetId targetBlock =>
    readVerified env s.gateway s.headerRangeFunctionId (headerRangeInput s.latestBlock
      (s.blockHeightToHeaderHash s.latestBlock) authoritySetId (s.authoritySetIdToHash authoritySetId)
      targetBlock)
  | .rotate currentAuthoritySetId =>
    readVerified env s.gateway s.rotateFunctionId
      (rotateInput currentAuthoritySetId (s.authoritySetIdToHash currentAuthoritySetId))
  | _ => none

/-- A transaction, with the output that it reads. -/
def readStep (keccak256 : List UInt8 → Bytes32) (s : State) (c : Env × Call) :
    State × List VerifiedRead :=
  match exec keccak256 c.1 s c.2 with
  | .ok (s', _) => (s', (verifiedRead c.1 s c.2).toList)
  | .error _ => (s, [])

/-- The read is for the rotation of a set to a zero hash. -/
def VerifiedRead.IsEmptyRotation (r : VerifiedRead) : Prop :=
  ∃ authoritySetId authoritySetHash, r.input = rotateInput authoritySetId authoritySetHash ∧
    decodeWord r.output 0 = some emptyBytes32

end Reads

/-! ## Inputs -/

section Inputs

variable {b b' t t' : UInt32} {h h' k k' : Bytes32} {id id' : UInt64}

theorem length_headerRangeInput : (headerRangeInput b h id k t).length = 80 := by
  simp [headerRangeInput, h.length_data, k.length_data]

theorem length_rotateInput : (rotateInput id h).length = 40 := by
  simp [rotateInput, h.length_data]

/-- An input for a header range is not one for a rotation. -/
theorem headerRangeInput_ne_rotateInput : headerRangeInput b h id k t ≠ rotateInput id' h' := by
  intro heq
  have hlen := congrArg List.length heq
  rw [length_headerRangeInput, length_rotateInput] at hlen
  exact absurd hlen (by decide)

/-- The trusted block is read off the input. -/
theorem block_eq_of_headerRangeInput_eq
    (heq : headerRangeInput b h id k t = headerRangeInput b' h' id' k' t') : b = b' := by
  simp only [headerRangeInput, List.append_assoc] at heq
  have hbytes := List.append_inj_left heq (by simp)
  exact UInt32.toNat_inj.mp (Bytes.beBytes_inj b.toNat_lt b'.toNat_lt hbytes)

/-- The id is read off the input. -/
theorem id_eq_of_rotateInput_eq (heq : rotateInput id h = rotateInput id' h') : id = id' := by
  have hbytes := List.append_inj_left heq (by simp)
  exact UInt64.toNat_inj.mp (Bytes.beBytes_inj id.toNat_lt id'.toNat_lt hbytes)

end Inputs

/-! ## Steps -/

section Steps

variable {keccak256 : List UInt8 → Bytes32} {c : Env × Call} {s s' : State} {es : List Event}

/-- The input of the read cannot be used again in `s`: its trusted block is not the latest one any
more, or the set after the one that it rotates is stored, unless with a zero hash. -/
def Spent (s : State) (r : VerifiedRead) : Prop :=
  (∃ b h id k t, r.input = headerRangeInput b h id k t ∧ b < s.latestBlock) ∨
    ∃ id next h, r.input = rotateInput id h ∧ nextAuthoritySetId id = some next ∧
      (s.authoritySetIdToHash next = emptyBytes32 → decodeWord r.output 0 = some emptyBytes32)

/-- A regular call moves the latest block up and keeps the sets that are stored. -/
theorem Effect.kept_of_isRegular (h : Effect keccak256 c s s' es) (hc : c.2.IsRegular) :
    s.latestBlock ≤ s'.latestBlock ∧ ∀ id, s.authoritySetIdToHash id ≠ emptyBytes32 →
      s'.authoritySetIdToHash id = s.authoritySetIdToHash id := by
  cases h with
  | initializeContract call => exact absurd hc (by rw [call]; exact id)
  | setGenesis call => exact absurd hc (by rw [call]; exact id)
  | setRanges call => exact absurd hc (by rw [call]; exact id)
  | configure | request => exact ⟨UInt32.le_refl _, fun _ _ => rfl⟩
  | commit call notFrozen known notOld lt => exact ⟨le_of_lt lt, fun _ _ => rfl⟩
  | rotate call notFrozen known next_eq unknown =>
    refine ⟨UInt32.le_refl _, fun id hid => ?_⟩
    exact Function.update_of_ne (fun heq => hid (by rw [heq, unknown])) _ _

/-- A step with reads is a step. -/
theorem readStep_fst : (readStep keccak256 s c).1 = (step keccak256 s c).1 := by
  rw [readStep, step]
  cases exec keccak256 c.1 s c.2 <;> rfl

/-- A change of the settings reads no output. -/
theorem verifiedRead_of_configure {env : Env} {call : Call} {settings settings' : Settings}
    (h : call.configure settings = some settings') : verifiedRead env s call = none := by
  cases call with
  | commitHeaderRange | rotate => exact absurd h (by simp [Call.configure])
  | _ => rfl

/-- A request reads no output. -/
theorem verifiedRead_of_isRequest {env : Env} {call : Call} (h : call.IsRequest) :
    verifiedRead env s call = none := by
  cases call with
  | commitHeaderRange | rotate => exact h.elim
  | _ => rfl

/-- A call reads the output of a commit, which moves the latest block of its input, or of a
rotation, which stores its first word for a set that has not been stored. -/
theorem mem_readStep {r : VerifiedRead} (hr : r ∈ (readStep keccak256 s c).2) :
    (∃ h id k t, r.input = headerRangeInput s.latestBlock h id k t ∧
        s.latestBlock < (step keccak256 s c).1.latestBlock) ∨
      ∃ id next h hash, r.input = rotateInput id h ∧ nextAuthoritySetId id = some next ∧
        s.authoritySetIdToHash next = emptyBytes32 ∧
        (step keccak256 s c).1.authoritySetIdToHash next = hash ∧
        decodeWord r.output 0 = some hash := by
  rw [readStep] at hr
  rw [step]
  cases hexec : exec keccak256 c.1 s c.2 with
  | error e => simp [hexec] at hr
  | ok q =>
    obtain ⟨s', es⟩ := q
    simp only [hexec, Option.mem_toList] at hr
    cases effect_of_exec hexec with
    | initializeContract call | setGenesis call | setRanges call => simp [verifiedRead, call] at hr
    | configure configures => simp [verifiedRead_of_configure configures] at hr
    | request request => simp [verifiedRead_of_isRequest request] at hr
    | commit call notFrozen known notOld lt =>
      rw [call, verifiedRead, readVerified, Option.map_eq_some_iff] at hr
      obtain ⟨output, -, rfl⟩ := hr
      exact Or.inl ⟨_, _, _, _, rfl, lt⟩
    | rotate call notFrozen known next_eq unknown verified word =>
      rw [call, verifiedRead, readVerified, verified] at hr
      obtain rfl := Option.some.inj hr
      exact Or.inr ⟨_, _, _, _, rfl, next_eq, unknown, Function.update_self _ _ _, word⟩

/-- **Step.** What has been spent stays spent. -/
theorem Spent.step {r : VerifiedRead} (h : Spent s r) (hc : c.2.IsRegular) :
    Spent (readStep keccak256 s c).1 r := by
  rw [readStep_fst]
  rcases step_effect keccak256 c s with hsame | heffect
  · rw [hsame]
    exact h
  · obtain ⟨hle, hkept⟩ := heffect.kept_of_isRegular hc
    rcases h with ⟨b, h, id, k, t, hinput, hlt⟩ | ⟨id, next, h, hinput, hnext, hzero⟩
    · exact Or.inl ⟨b, h, id, k, t, hinput, lt_of_lt_of_le hlt hle⟩
    · refine Or.inr ⟨id, next, h, hinput, hnext, fun hempty => hzero ?_⟩
      by_contra hne
      exact hne ((hkept next hne).symm.trans hempty)

/-- **Step.** What is read is spent. -/
theorem spent_of_mem_readStep {r : VerifiedRead} (hr : r ∈ (readStep keccak256 s c).2) :
    Spent (readStep keccak256 s c).1 r := by
  rw [readStep_fst]
  rcases mem_readStep hr with ⟨h, id, k, t, hinput, hlt⟩ |
    ⟨id, next, h, hash, hinput, hnext, -, hstored, hword⟩
  · exact Or.inl ⟨_, _, _, _, _, hinput, hlt⟩
  · exact Or.inr ⟨id, next, h, hinput, hnext, fun hempty => by rw [hword, ← hstored, hempty]⟩

/-- The input of a call has not been spent, except for a rotation to a zero hash. -/
theorem Spent.input_ne {r r' : VerifiedRead} (h : Spent s r)
    (hr' : r' ∈ (readStep keccak256 s c).2) (heq : r.input = r'.input) : r.IsEmptyRotation := by
  rcases h with ⟨b, h, id, k, t, hinput, hlt⟩ | ⟨id, next, h, hinput, hnext, hzero⟩
  · rcases mem_readStep hr' with ⟨h', id', k', t', hinput', -⟩ | ⟨id', _, h', _, hinput', -⟩
    · rw [hinput, hinput'] at heq
      obtain rfl := block_eq_of_headerRangeInput_eq heq
      exact absurd hlt (UInt32.lt_irrefl _)
    · rw [hinput, hinput'] at heq
      exact absurd heq headerRangeInput_ne_rotateInput
  · rcases mem_readStep hr' with ⟨h', id', k', t', hinput', -⟩ |
      ⟨id', next', h', _, hinput', hnext', hempty, -⟩
    · rw [hinput, hinput'] at heq
      exact absurd heq.symm headerRangeInput_ne_rotateInput
    · rw [hinput, hinput'] at heq
      obtain rfl := id_eq_of_rotateInput_eq heq
      obtain rfl : next = next' := Option.some.inj (hnext.symm.trans hnext')
      exact ⟨id, h, hinput, hzero hempty⟩

end Steps

/-! ## Main result -/

/-- **Replay.** In a run without the guardian's calls for the genesis state and the ranges, from any
state, no two reads are for the same input, unless the earlier one rotates a set to a zero hash. -/
theorem verifiedReads_pairwise (keccak256 : List UInt8 → Bytes32) (s : State)
    (calls : List (Env × Call)) (hcalls : ∀ c ∈ calls, c.2.IsRegular) :
    (Run.run (readStep keccak256) s calls).1 = (Run.run (step keccak256) s calls).1 ∧
      (Run.run (readStep keccak256) s calls).2.Pairwise fun r r' =>
        r.input = r'.input → r.IsEmptyRotation := by
  refine ⟨Run.run_fst_congr _ (fun _ _ => readStep_fst) s calls, ?_⟩
  refine Run.run_pairwise Spent _ (fun c : Env × Call => c.2.IsRegular) (fun s c r hc h => h.step hc)
    (fun s c _ r hr => spent_of_mem_readStep hr) (fun s c r _ h r' hr' heq => h.input_ne hr' heq)
    (fun s c _ => ?_) s hcalls
  rw [readStep]
  split
  · cases verifiedRead c.1 s c.2 <;> simp
  · exact .nil

/-- The reads of two commits. -/
theorem verifiedReads_pairwise_commits :
    (Run.run (readStep Reference.keccak256) (State.genesis genesisParams) arbitraryCommits).1 =
        (Run.run (step Reference.keccak256) (State.genesis genesisParams) arbitraryCommits).1 ∧
      (Run.run (readStep Reference.keccak256) (State.genesis genesisParams)
        arbitraryCommits).2.Pairwise fun r r' => r.input = r'.input → r.IsEmptyRotation := by
  refine verifiedReads_pairwise Reference.keccak256 (State.genesis genesisParams) arbitraryCommits ?_
  intro c hc
  simp only [arbitraryCommits, List.mem_cons, List.not_mem_nil, or_false] at hc
  rcases hc with rfl | rfl | rfl <;> exact trivial

end VectorX.Contract
