import VectorX.Contracts.Bookkeeping

/-!
# The authority sets of the contract

The ids with a stored hash form one interval, which only a rotation at its upper end extends. The
latest id moves up inside of it.
-/

namespace VectorX.Contract

open Plonky2x Solidity

/-! ## The invariant -/

/-- The ids with a hash are those from `a` to `top`, and the latest id is one of them. -/
structure AuthoritySets (a top : UInt64) (s : State) : Prop where
  stored : ∀ id, s.authoritySetIdToHash id ≠ emptyBytes32 ↔
    a.toNat ≤ id.toNat ∧ id.toNat ≤ top.toNat
  le_latest : a.toNat ≤ s.latestAuthoritySetId.toNat
  latest_le : s.latestAuthoritySetId.toNat ≤ top.toNat

/-- From `s` to `s'`, no hash is overwritten and the latest id does not decrease. -/
structure AuthoritiesKept (s s' : State) : Prop where
  hash : ∀ id, s.authoritySetIdToHash id ≠ emptyBytes32 →
    s'.authoritySetIdToHash id = s.authoritySetIdToHash id
  latest : s.latestAuthoritySetId.toNat ≤ s'.latestAuthoritySetId.toNat

/-- The call rotates the set of the id to a hash that the gateway has verified, and that is not
zero. -/
structure RotatesTo (c : Env × Call) (s : State) (id : UInt64) (hash : Bytes32) : Prop where
  call : c.2 = .rotate id
  notFrozen : s.frozen = false
  verified : ∃ output, c.1.verifiedCall s.gateway s.rotateFunctionId
      (rotateInput id (s.authoritySetIdToHash id)) = some output ∧ decodeWord output 0 = some hash
  hash_ne : hash ≠ emptyBytes32

/-- How a call changes the interval up to `top`: only a successful rotation of the id `top` writes a
hash, and it writes it for the next id. If the hash is not zero, it extends the interval. -/
structure AuthorityStep (keccak256 : List UInt8 → Bytes32) (c : Env × Call) (s : State)
    (top top' : UInt64) : Prop where
  extends_or : top' = top ∨ c.2 = .rotate top ∧ top'.toNat = top.toNat + 1
  extends_of : ∀ next hash, nextAuthoritySetId top = some next → RotatesTo c s top hash → top' = next
  written : ∀ id, (step keccak256 s c).1.authoritySetIdToHash id ≠ s.authoritySetIdToHash id →
    c.2 = .rotate top ∧ id.toNat = top.toNat + 1

section Steps

variable {keccak256 : List UInt8 → Bytes32} {c : Env × Call} {a top : UInt64} {s s' s'' : State}
  {es : List Event}

theorem AuthoritiesKept.refl : AuthoritiesKept s s := ⟨fun _ _ => rfl, Nat.le_refl _⟩

theorem AuthoritiesKept.trans (h : AuthoritiesKept s s') (h' : AuthoritiesKept s' s'') :
    AuthoritiesKept s s'' := by
  refine ⟨fun id hid => ?_, Nat.le_trans h.latest h'.latest⟩
  rw [h'.hash id (by rwa [h.hash id hid]), h.hash id hid]

theorem nextAuthoritySetId_eq_some {id next : UInt64} :
    nextAuthoritySetId id = some next ↔ next.toNat = id.toNat + 1 := by
  rw [nextAuthoritySetId]
  by_cases h : id.toNat + 1 < 2 ^ 64
  · have hadd : (id + 1).toNat = id.toNat + 1 := by
      rw [UInt64.toNat_add]
      exact Nat.mod_eq_of_lt h
    rw [if_pos h, Option.some.injEq, ← UInt64.toNat_inj, hadd]
    exact eq_comm
  · have hlt := next.toNat_lt
    rw [if_neg h]
    constructor
    · exact fun h' => nomatch h'
    · intro h'
      omega

/-- A successful regular call keeps the hashes, raising the latest id to one with a hash or not, or
it is a rotation. -/
theorem exec_authority_cases (hc : c.2.IsRegular) (h : exec keccak256 c.1 s c.2 = .ok (s', es)) :
    (s'.authoritySetIdToHash = s.authoritySetIdToHash ∧
      (s'.latestAuthoritySetId = s.latestAuthoritySetId ∨
        s.latestAuthoritySetId < s'.latestAuthoritySetId ∧
          s.authoritySetIdToHash s'.latestAuthoritySetId ≠ emptyBytes32)) ∨
      ∃ id next hash, c.2 = .rotate id ∧ s.authoritySetIdToHash id ≠ emptyBytes32 ∧
        next.toNat = id.toNat + 1 ∧ s.authoritySetIdToHash next = emptyBytes32 ∧
        s'.authoritySetIdToHash = Function.update s.authoritySetIdToHash next hash ∧
        s'.latestAuthoritySetId = s.latestAuthoritySetId := by
  obtain ⟨env, call⟩ := c
  cases call with
  | initializeContract | updateGenesisState | updateBlockRangeData => exact absurd hc id
  | updateFreeze freeze =>
    obtain ⟨-, rfl, -⟩ := updateFreeze_eq_ok.mp h
    exact Or.inl ⟨rfl, Or.inl rfl⟩
  | updateFunctionIds headerRangeFunctionId rotateFunctionId treeSize =>
    obtain ⟨-, rfl, -⟩ := updateFunctionIds_eq_ok.mp h
    exact Or.inl ⟨rfl, Or.inl rfl⟩
  | updateGateway gateway =>
    obtain ⟨-, rfl, -⟩ := updateGateway_eq_ok.mp h
    exact Or.inl ⟨rfl, Or.inl rfl⟩
  | requestHeaderRange authoritySetId requestedBlock =>
    obtain ⟨-, -, -, input, -, -, rfl, -⟩ := requestHeaderRange_eq_ok.mp h
    exact Or.inl ⟨rfl, Or.inl rfl⟩
  | requestRotate currentAuthoritySetId =>
    obtain ⟨-, next, -, -, input, -, -, rfl, -⟩ := requestRotate_eq_ok.mp h
    exact Or.inl ⟨rfl, Or.inl rfl⟩
  | commitHeaderRange authoritySetId targetBlock =>
    obtain ⟨-, -, hhash, -, -, headerHash, stateRoot, dataRoot, -, rfl, -⟩ :=
      commitHeaderRange_eq_ok.mp h
    refine Or.inl ⟨rfl, ?_⟩
    by_cases hlt : authoritySetId > s.latestAuthoritySetId
    · exact Or.inr ⟨by simp [hlt], by simpa [hlt] using hhash⟩
    · exact Or.inl (by simp [hlt])
  | rotate currentAuthoritySetId =>
    obtain ⟨-, hcurrent, next, hnext, hempty, output, -, hash, -, rfl, -⟩ := rotate_eq_ok.mp h
    exact Or.inr ⟨currentAuthoritySetId, next, hash, rfl, hcurrent,
      nextAuthoritySetId_eq_some.mp hnext, hempty, rfl, rfl⟩

variable (keccak256) in
/-- A regular call keeps the interval or extends it by one id at the upper end, where alone it
writes. -/
theorem exists_top_step (hc : c.2.IsRegular) (h : AuthoritySets a top s) :
    AuthoritiesKept s (step keccak256 s c).1 ∧
      ∃ top', AuthoritySets a top' (step keccak256 s c).1 ∧
        (top' = top ∨ c.2 = .rotate top ∧ top'.toNat = top.toNat + 1) ∧
        ∀ id, (step keccak256 s c).1.authoritySetIdToHash id ≠ s.authoritySetIdToHash id →
          c.2 = .rotate top ∧ id.toNat = top.toNat + 1 := by
  cases hexec : exec keccak256 c.1 s c.2 with
  | error e =>
    have hstep : step keccak256 s c = (s, []) := by rw [step, hexec]
    refine ⟨?_, top, ?_, Or.inl rfl, fun id hne => ?_⟩
    · rw [hstep]
      exact AuthoritiesKept.refl
    · rw [hstep]
      exact h
    · rw [hstep] at hne
      exact absurd rfl hne
  | ok r =>
    obtain ⟨s', es⟩ := r
    have hstep : step keccak256 s c = (s', es) := by rw [step, hexec]
    rcases exec_authority_cases hc hexec with ⟨hhash, hlatest⟩ |
      ⟨id, next, hash, hcall, hid, hnext, hempty, hhash, hlatest⟩
    · -- the hashes stay, and a raised latest id has one of them
      have hmono : s.latestAuthoritySetId.toNat ≤ s'.latestAuthoritySetId.toNat := by
        rcases hlatest with heq | ⟨hlt, -⟩
        · rw [heq]
        · exact Nat.le_of_lt (UInt64.lt_iff_toNat_lt.mp hlt)
      have htop : s'.latestAuthoritySetId.toNat ≤ top.toNat := by
        rcases hlatest with heq | ⟨-, hne⟩
        · rw [heq]
          exact h.latest_le
        · exact ((h.stored _).mp hne).2
      refine ⟨?_, top, ?_, Or.inl rfl, fun id hne => ?_⟩
      · rw [hstep]
        exact ⟨fun id _ => by rw [hhash], hmono⟩
      · rw [hstep]
        exact ⟨by rw [hhash]; exact h.stored, Nat.le_trans h.le_latest hmono, htop⟩
      · rw [hstep, hhash] at hne
        exact absurd rfl hne
    · -- the id has a hash and the next one has none, so it is the upper end
      obtain ⟨hle, hge⟩ := (h.stored id).mp hid
      have hnot : ¬(a.toNat ≤ next.toNat ∧ next.toNat ≤ top.toNat) :=
        fun hmem => (h.stored next).mpr hmem hempty
      obtain rfl : id = top := UInt64.toNat_inj.mp (by omega)
      have hkept : AuthoritiesKept s s' := by
        refine ⟨fun x hx => ?_, by rw [hlatest]⟩
        have hne : x ≠ next := fun heq => hx (heq ▸ hempty)
        rw [hhash, Function.update_of_ne hne]
      have hwritten : ∀ x, (step keccak256 s c).1.authoritySetIdToHash x ≠
          s.authoritySetIdToHash x → c.2 = .rotate id ∧ x.toNat = id.toNat + 1 := by
        intro x hne
        by_cases hx : x = next
        · exact ⟨hcall, hx ▸ hnext⟩
        · rw [hstep, hhash, Function.update_of_ne hx] at hne
          exact absurd rfl hne
      refine ⟨hstep ▸ hkept, ?_⟩
      by_cases hzero : hash = emptyBytes32
      · -- a zero hash stores nothing
        refine ⟨id, ?_, Or.inl rfl, hwritten⟩
        have hsame : s'.authoritySetIdToHash = s.authoritySetIdToHash := by
          rw [hhash, hzero, ← hempty, Function.update_eq_self]
        rw [hstep]
        exact ⟨by rw [hsame]; exact h.stored, hlatest ▸ h.le_latest, hlatest ▸ h.latest_le⟩
      · refine ⟨next, ?_, Or.inr ⟨hcall, hnext⟩, hwritten⟩
        have hlow := h.le_latest
        have hhigh := h.latest_le
        rw [hstep]
        refine ⟨fun x => ?_, by rw [hlatest]; exact hlow, by rw [hlatest]; omega⟩
        by_cases hx : x = next
        · rw [hhash, hx, Function.update_self]
          exact iff_of_true hzero (by omega)
        · have hne : x.toNat ≠ next.toNat := fun heq => hx (UInt64.toNat_inj.mp heq)
          rw [hhash, Function.update_of_ne hx, h.stored x]
          omega

variable (keccak256) in
/-- A rotation at the upper end stores its hash. -/
theorem RotatesTo.stored {next : UInt64} {hash : Bytes32} (hrotates : RotatesTo c s top hash)
    (h : AuthoritySets a top s) (hnext : nextAuthoritySetId top = some next) :
    (step keccak256 s c).1.authoritySetIdToHash next = hash := by
  obtain ⟨env, call⟩ := c
  obtain rfl : call = .rotate top := hrotates.call
  have hval := nextAuthoritySetId_eq_some.mp hnext
  have htop : s.authoritySetIdToHash top ≠ emptyBytes32 :=
    (h.stored top).mpr ⟨Nat.le_trans h.le_latest h.latest_le, Nat.le_refl _⟩
  have hempty : s.authoritySetIdToHash next = emptyBytes32 := by
    by_contra hne
    have hmem := (h.stored next).mp hne
    omega
  obtain ⟨output, hcall, hword⟩ := hrotates.verified
  have hexec : exec keccak256 env s (.rotate top) =
      .ok ({ s with authoritySetIdToHash := Function.update s.authoritySetIdToHash next hash },
        [.authoritySetStored next hash]) :=
    rotate_eq_ok.mpr ⟨hrotates.notFrozen, htop, next, hnext, hempty, output, hcall, hash, hword, rfl,
      rfl⟩
  rw [step_of_exec hexec]
  exact Function.update_self ..

variable (keccak256) in
/-- **Step.** A regular call keeps the interval or extends it by one id at the upper end. -/
theorem authoritySets_step (hc : c.2.IsRegular) (h : AuthoritySets a top s) :
    AuthoritiesKept s (step keccak256 s c).1 ∧
      ∃ top', AuthoritySets a top' (step keccak256 s c).1 ∧
        AuthorityStep keccak256 c s top top' := by
  obtain ⟨hkept, top', h', hextends, hwritten⟩ := exists_top_step keccak256 hc h
  refine ⟨hkept, top', h', hextends, fun next hash hnext hrotates => ?_, hwritten⟩
  -- the next id has a hash now, so it is in the interval
  have hval := nextAuthoritySetId_eq_some.mp hnext
  have hmem := (h'.stored next).mp (by
    rw [hrotates.stored keccak256 h hnext]
    exact hrotates.hash_ne)
  rcases hextends with rfl | ⟨-, htop'⟩
  · omega
  · exact UInt64.toNat_inj.mp (htop'.trans hval.symm)

end Steps

/-! ## Runs -/

section Runs

variable {keccak256 : List UInt8 → Bytes32} {a : UInt64}

theorem authoritySets_genesis (params : InitParameters)
    (hhash : params.authoritySetHash ≠ emptyBytes32) :
    AuthoritySets params.authoritySetId params.authoritySetId (State.genesis params) where
  stored id := by
    by_cases heq : id = params.authoritySetId
    · have hself := Function.update_self params.authoritySetId params.authoritySetHash
        fun _ => emptyBytes32
      rw [heq]
      exact iff_of_true (fun hzero => hhash (hself.symm.trans hzero)) ⟨Nat.le_refl _, Nat.le_refl _⟩
    · have hzero := Function.update_of_ne heq params.authoritySetHash fun _ => emptyBytes32
      have hne : id.toNat ≠ params.authoritySetId.toNat := fun h => heq (UInt64.toNat_inj.mp h)
      exact iff_of_false (fun h => h hzero) (by omega)
  le_latest := Nat.le_refl _
  latest_le := Nat.le_refl _

variable (keccak256) in
/-- **Run.** Regular calls keep an interval, and every hash in it. -/
theorem authoritySets_run {calls : List (Env × Call)} (hcalls : ∀ c ∈ calls, c.2.IsRegular)
    {s : State} {top : UInt64} (h : AuthoritySets a top s) :
    AuthoritiesKept s (Run.run (step keccak256) s calls).1 ∧
      ∃ top', top.toNat ≤ top'.toNat ∧
        AuthoritySets a top' (Run.run (step keccak256) s calls).1 := by
  refine Run.run_invariant_state (fun s' => AuthoritiesKept s s' ∧
      ∃ top', top.toNat ≤ top'.toNat ∧ AuthoritySets a top' s')
    (fun c : Env × Call => c.2.IsRegular) ?_ ⟨AuthoritiesKept.refl, top, Nat.le_refl _, h⟩ hcalls
  rintro s' c hc ⟨hkept, top', hle, h'⟩
  obtain ⟨hkept', top'', h'', hstep⟩ := authoritySets_step keccak256 hc h'
  refine ⟨hkept.trans hkept', top'', ?_, h''⟩
  rcases hstep.extends_or with heq | ⟨-, heq⟩
  · rw [heq]
    exact hle
  · omega

end Runs

/-! ## Main result -/

/-- **Authority sets.** In every reachable state the ids with a hash form an interval that contains
the latest id. A further call extends it by at most one id, at the upper end, where a verified
rotation does so, and whatever calls follow, no hash is overwritten and the latest id does not
decrease. -/
theorem authority_sets_interval (keccak256 : List UInt8 → Bytes32) (env : Env)
    (params : InitParameters) (hhash : params.authoritySetHash ≠ emptyBytes32)
    (calls calls' : List (Env × Call)) (hcalls : ∀ c ∈ calls ++ calls', c.2.IsRegular) :
    ∃ top, AuthoritySets params.authoritySetId top (runFrom keccak256 env params calls).1 ∧
      (∀ c, c.2.IsRegular → ∃ top',
        AuthoritySets params.authoritySetId top'
          (step keccak256 (runFrom keccak256 env params calls).1 c).1 ∧
        AuthorityStep keccak256 c (runFrom keccak256 env params calls).1 top top') ∧
      AuthoritiesKept (runFrom keccak256 env params calls).1
        (runFrom keccak256 env params (calls ++ calls')).1 := by
  rw [runFrom_eq, runFrom_eq, Run.run_append]
  obtain ⟨-, top, -, h⟩ := authoritySets_run keccak256
    (fun c hc => hcalls c (List.mem_append_left _ hc)) (authoritySets_genesis params hhash)
  obtain ⟨hkept, -⟩ := authoritySets_run keccak256
    (fun c hc => hcalls c (List.mem_append_right _ hc)) h
  exact ⟨top, h, fun c hc => (authoritySets_step keccak256 hc h).2, hkept⟩

/-- The interval after a rotation of the first set to an arbitrary hash. -/
theorem authority_sets_interval_rotate :
    ∃ top, AuthoritySets 298 top (runFrom Reference.keccak256 (constantEnv []) genesisParams
        [(constantEnv (List.replicate 32 7), .rotate 298)]).1 ∧
      (∀ c, c.2.IsRegular → ∃ top',
        AuthoritySets 298 top' (step Reference.keccak256 (runFrom Reference.keccak256
          (constantEnv []) genesisParams
          [(constantEnv (List.replicate 32 7), .rotate 298)]).1 c).1 ∧
        AuthorityStep Reference.keccak256 c (runFrom Reference.keccak256 (constantEnv []) genesisParams
          [(constantEnv (List.replicate 32 7), .rotate 298)]).1 top top') ∧
      AuthoritiesKept
        (runFrom Reference.keccak256 (constantEnv []) genesisParams
          [(constantEnv (List.replicate 32 7), .rotate 298)]).1
        (runFrom Reference.keccak256 (constantEnv []) genesisParams
          ([(constantEnv (List.replicate 32 7), .rotate 298)] ++ arbitraryCommits)).1 := by
  refine authority_sets_interval Reference.keccak256 (constantEnv []) genesisParams (by decide)
    [(constantEnv (List.replicate 32 7), .rotate 298)] arbitraryCommits ?_
  intro c hc
  simp only [arbitraryCommits, List.cons_append, List.nil_append, List.mem_cons, List.not_mem_nil,
    or_false] at hc
  rcases hc with rfl | rfl | rfl | rfl <;> exact trivial

end VectorX.Contract
