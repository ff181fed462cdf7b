import VectorX.Bin.Operator

/-!
# The search for a block to step to

`find_block_to_step_to` computes the largest valid block, the smaller one of the head and the end of
the range, and starts a search at a multiple of the interval below it. The loop of the search only
stops after the end of the range: without a justification it goes past the head.
-/

namespace VectorX.VectorXOperator

open Plonky2x Solidity

variable {crypto : Crypto}

/-! ## The blocks that are asked for -/

section Search

variable (config : Config) (fetcher : RpcDataFetcher crypto)

/-- `get_justification_from_block` in the operator. -/
def askJustification (block : UInt32) : Option (Except Unit CircuitJustification) :=
  getJustificationFromBlock fetcher config.DUMMY_PUBLIC_KEY config.DUMMY_SIGNATURE
    config.MAX_AUTHORITY_SET_SIZE block

/-- The loop of `find_block_to_step_to`: the blocks it asks a justification for, and its result. -/
def justifiedBlockSearch (limit : UInt32) : ℕ → UInt32 → List UInt32 × Option (Option UInt32)
  | 0, _ => ([], none)
  | fuel + 1, blockToStepTo =>
    if blockToStepTo > limit then ([], some none)
    else
      match askJustification config fetcher blockToStepTo with
      | none => ([blockToStepTo], none)
      | some (.ok _) => ([blockToStepTo], some (some blockToStepTo))
      | some (.error _) =>
        match checkedAdd blockToStepTo 1 with
        | none => ([blockToStepTo], none)
        | some next =>
          let (asked, result) := justifiedBlockSearch limit fuel next
          (blockToStepTo :: asked, result)

/-- `find_block_to_step_to`: the blocks it asks a justification for, and its result. -/
def stepSearch (idealBlockInterval headerRangeCommitmentTreeSize vectorxCurrentBlock
    availCurrentBlock : UInt32) (authoritySetId : UInt64) : List UInt32 × Option (Option UInt32) :=
  match lastJustifiedBlock fetcher.toSetIds authoritySetId,
      checkedAdd vectorxCurrentBlock headerRangeCommitmentTreeSize with
  | some lastJustified, some limit =>
    if lastJustified ≠ 0 ∧ lastJustified ≤ limit then ([], some (some lastJustified))
    else
      let maxValidBlock := if limit ≤ availCurrentBlock then limit else availCurrentBlock
      if idealBlockInterval = 0 then ([], none)
      else
        let blockToStepTo := maxValidBlock - maxValidBlock % idealBlockInterval
        if blockToStepTo ≤ vectorxCurrentBlock then ([], some none)
        else if config.isDummyOperator then ([], some (some blockToStepTo))
        else justifiedBlockSearch config fetcher limit (limit.toNat + 2 - blockToStepTo.toNat)
          blockToStepTo
  | _, _ => ([], none)

/-- The search returns what the loop returns. -/
theorem justifiedBlockSearch_snd (limit : UInt32) (fuel : ℕ) (start : UInt32) :
    (justifiedBlockSearch config fetcher limit fuel start).2 =
      justifiedBlockLoop config fetcher limit fuel start := by
  induction fuel generalizing start with
  | zero => rfl
  | succ fuel ih =>
    rw [justifiedBlockSearch, justifiedBlockLoop, ← askJustification]
    split
    · rfl
    · rcases askJustification config fetcher start with - | - | -
      · rfl
      · rcases hnext : checkedAdd start 1 with - | next
        · rfl
        · exact ih next
      · rfl

/-- The search returns what `find_block_to_step_to` returns. -/
theorem stepSearch_snd (interval size current avail : UInt32) (id : UInt64) :
    (stepSearch config fetcher interval size current avail id).2 =
      findBlockToStepTo config fetcher interval size current avail id := by
  rw [stepSearch, findBlockToStepTo]
  rcases lastJustifiedBlock fetcher.toSetIds id with - | e
  · rfl
  rcases checkedAdd current size with - | limit
  · rfl
  simp only [Option.bind_eq_bind, Option.bind_some]
  repeat' split
  all_goals first | rfl | exact justifiedBlockSearch_snd config fetcher _ _ _

end Search

/-! ## The loop -/

section Loop

variable {config : Config} {fetcher : RpcDataFetcher crypto} {limit : UInt32}

/-- There is no stored justification for the block. -/
def Unjustified (config : Config) (fetcher : RpcDataFetcher crypto) (block : UInt32) : Prop :=
  askJustification config fetcher block = some (.error ())

/-- One round of the loop: it is over, it stops at the start, or it goes on with the next block. -/
theorem justifiedBlockSearch_cases (fuel : ℕ) (start : UInt32) :
    (limit.toNat < start.toNat ∧
        justifiedBlockSearch config fetcher limit (fuel + 1) start = ([], some none)) ∨
      start.toNat ≤ limit.toNat ∧
        ((¬(Unjustified config fetcher start ∧ start.toNat + 1 < 2 ^ 32) ∧ ∃ result,
            justifiedBlockSearch config fetcher limit (fuel + 1) start = ([start], result) ∧
              (Unjustified config fetcher start → result = none)) ∨
          Unjustified config fetcher start ∧ ∃ next, next.toNat = start.toNat + 1 ∧
            justifiedBlockSearch config fetcher limit (fuel + 1) start =
              (start :: (justifiedBlockSearch config fetcher limit fuel next).1,
                (justifiedBlockSearch config fetcher limit fuel next).2)) := by
  rw [justifiedBlockSearch]
  split
  · rename_i hlimit
    exact Or.inl ⟨UInt32.lt_iff_toNat_lt.mp hlimit, rfl⟩
  rename_i hlimit
  rw [gt_iff_lt, UInt32.lt_iff_toNat_lt, Nat.not_lt] at hlimit
  refine Or.inr ⟨hlimit, ?_⟩
  rw [Unjustified]
  rcases askJustification config fetcher start with - | e | j
  · exact Or.inl ⟨by simp, _, rfl, fun _ => rfl⟩
  · rcases Nat.lt_or_ge (start.toNat + 1) (2 ^ 32) with hlt | hge
    · obtain ⟨next, hnext, hnextVal⟩ := checkedAdd_one (a := start) hlt
      exact Or.inr ⟨rfl, next, hnextVal, by simp only [hnext]⟩
    · rw [checkedAdd_of_le (a := start) (b := 1) hge]
      exact Or.inl ⟨fun h => by omega, _, rfl, fun _ => rfl⟩
  · exact Or.inl ⟨by simp, _, rfl, by simp⟩

/-- The loop asks for the blocks from the start on up to the limit, until one is not unjustified. -/
theorem mem_justifiedBlockSearch {fuel : ℕ} {start b : UInt32}
    (hfuel : limit.toNat + 2 ≤ fuel + start.toNat) :
    b ∈ (justifiedBlockSearch config fetcher limit fuel start).1 ↔
      start.toNat ≤ b.toNat ∧ b.toNat ≤ limit.toNat ∧
        ∀ x : UInt32, start.toNat ≤ x.toNat → x.toNat < b.toNat → Unjustified config fetcher x := by
  induction fuel generalizing start with
  | zero =>
    have hempty : (justifiedBlockSearch config fetcher limit 0 start).1 = [] := rfl
    rw [hempty]
    exact iff_of_false List.not_mem_nil fun h => by omega
  | succ fuel ih =>
    rcases justifiedBlockSearch_cases fuel start with
      ⟨hlt, heq⟩ | ⟨hle, ⟨hstop, result, heq, -⟩ | ⟨hask, next, hnext, heq⟩⟩
    · rw [heq]
      exact iff_of_false List.not_mem_nil fun h => by omega
    · rw [heq, List.mem_singleton]
      constructor
      · rintro rfl
        exact ⟨Nat.le_refl _, hle, fun x hx hxb => by omega⟩
      · rintro ⟨hstart, -, hbefore⟩
        by_contra hne
        have hne' : start.toNat ≠ b.toNat := fun heq => hne (UInt32.toNat_inj.mp heq.symm)
        have hb := b.toNat_lt
        exact hstop ⟨hbefore start (Nat.le_refl _) (by omega), by omega⟩
    · rw [heq, List.mem_cons, ih (by omega), hnext]
      constructor
      · rintro (rfl | ⟨hstart, hb, hbefore⟩)
        · exact ⟨Nat.le_refl _, hle, fun x hx hxb => by omega⟩
        · refine ⟨by omega, hb, fun x hx hxb => ?_⟩
          rcases Nat.lt_or_ge start.toNat x.toNat with hgt | hx'
          · exact hbefore x hgt hxb
          · obtain rfl : start = x := UInt32.toNat_inj.mp (by omega)
            exact hask
      · rintro ⟨hstart, hb, hbefore⟩
        by_cases heq : b = start
        · exact Or.inl heq
        · have hne : b.toNat ≠ start.toNat := fun h => heq (UInt32.toNat_inj.mp h)
          exact Or.inr ⟨by omega, hb, fun x hx => hbefore x (by omega)⟩

/-- Without a justification up to the limit the loop returns `None`, unless the number after the
limit overflows. -/
theorem justifiedBlockSearch_snd_of_unjustified {fuel : ℕ} {start : UInt32}
    (hfuel : limit.toNat + 2 ≤ fuel + start.toNat) (hstart : start.toNat ≤ limit.toNat + 1)
    (hall : ∀ x : UInt32, start.toNat ≤ x.toNat → x.toNat ≤ limit.toNat →
      Unjustified config fetcher x) :
    (justifiedBlockSearch config fetcher limit fuel start).2 =
      if limit.toNat + 1 < 2 ^ 32 then some none else none := by
  induction fuel generalizing start with
  | zero => omega
  | succ fuel ih =>
    have hstart32 := start.toNat_lt
    rcases justifiedBlockSearch_cases fuel start with
      ⟨hlt, heq⟩ | ⟨hle, ⟨hstop, result, heq, hnone⟩ | ⟨-, next, hnext, heq⟩⟩
    · rw [heq, if_pos (by omega)]
    · have hask := hall start (Nat.le_refl _) hle
      rw [heq, hnone hask, if_neg fun h => hstop ⟨hask, by omega⟩]
    · rw [heq]
      exact ih (by omega) (by omega) fun x hx => hall x (by omega)

end Loop

/-! ## The start of the search -/

/-- The search starts at `start`: no last justified block of the set is in range, and the multiple
of the interval below the largest valid block is after the current block. -/
structure StartsSearch (config : Config) (ids : SetIds) (interval size current avail : UInt32)
    (id : UInt64) (start : UInt32) : Prop where
  last : ∃ e, lastJustifiedBlock ids id = some e ∧
    (e = 0 ∨ current.toNat + size.toNat < e.toNat)
  limit_lt : current.toNat + size.toNat < 2 ^ 32
  start_eq : start.toNat = min (current.toNat + size.toNat) avail.toNat -
    min (current.toNat + size.toNat) avail.toNat % interval.toNat
  current_lt : current.toNat < start.toNat
  not_dummy : config.isDummyOperator = false

section Start

variable {config : Config} {fetcher : RpcDataFetcher crypto}
  {interval size current avail start : UInt32} {id : UInt64}

/-- When the search starts, it is the loop from the start on. -/
theorem StartsSearch.stepSearch_eq
    (h : StartsSearch config fetcher.toSetIds interval size current avail id start) :
    ∃ limit fuel, limit.toNat = current.toNat + size.toNat ∧
      limit.toNat + 2 ≤ fuel + start.toNat ∧
      stepSearch config fetcher interval size current avail id =
        justifiedBlockSearch config fetcher limit fuel start := by
  obtain ⟨e, he, hbeyond⟩ := h.last
  obtain ⟨limit, hlimit, hlimitVal⟩ := checkedAdd_of_lt h.limit_lt
  have hstart : (if limit ≤ avail then limit else avail) -
      (if limit ≤ avail then limit else avail) % interval = start := by
    refine UInt32.toNat_inj.mp ?_
    rw [toNat_sub_mod, toNat_ite_le, hlimitVal, h.start_eq]
  have hnotLast : ¬(e ≠ 0 ∧ e ≤ limit) := by
    rintro ⟨hne, hle⟩
    rw [UInt32.le_iff_toNat_le] at hle
    exact hbeyond.elim hne fun hlt => by omega
  have hinterval : interval ≠ 0 := by
    rintro rfl
    have hstartVal := h.start_eq
    have hcurrent := h.current_lt
    have hzero : (0 : UInt32).toNat = 0 := rfl
    rw [hzero, Nat.mod_zero, Nat.sub_self] at hstartVal
    omega
  have hafter : ¬start ≤ current := by
    rw [UInt32.le_iff_toNat_le, Nat.not_le]
    exact h.current_lt
  refine ⟨limit, limit.toNat + 2 - start.toNat, hlimitVal, by omega, ?_⟩
  rw [stepSearch, he, hlimit]
  simp only [if_neg hnotLast, if_neg hinterval, hstart, if_neg hafter, h.not_dummy]
  rfl

/-- When the search does not start, no justification is asked for. -/
theorem stepSearch_fst_of_not_startsSearch
    (h : ¬∃ start, StartsSearch config fetcher.toSetIds interval size current avail id start) :
    (stepSearch config fetcher interval size current avail id).1 = [] := by
  rw [stepSearch]
  split
  swap
  · rfl
  rename_i e limit he hlimit
  have hlimitVal := checkedAdd_eq_some hlimit
  split
  · rfl
  rename_i hnotLast
  have hmax : (if limit ≤ avail then limit else avail).toNat =
      min (current.toNat + size.toNat) avail.toNat := hlimitVal ▸ toNat_ite_le limit avail
  simp only
  generalize (if limit ≤ avail then limit else avail) = m at hmax ⊢
  split
  · rfl
  split
  · rfl
  rename_i hafter
  split
  · rfl
  rename_i hdummy
  -- all conditions for the start hold
  refine absurd ⟨m - m % interval, ⟨e, he, ?_⟩, ?_, ?_, ?_, by simpa using hdummy⟩ h
  · by_cases hzero : e = 0
    · exact Or.inl hzero
    · have hlt := mt (fun hle => And.intro hzero hle) hnotLast
      rw [UInt32.le_iff_toNat_le] at hlt
      exact Or.inr (by omega)
  · have hlt := limit.toNat_lt
    omega
  · rw [toNat_sub_mod, hmax]
  · rwa [UInt32.le_iff_toNat_le, Nat.not_le] at hafter

end Start

/-! ## Main result -/

section Main

variable (config : Config) (fetcher : RpcDataFetcher crypto)
  (interval size current avail : UInt32) (id : UInt64)

/-- The search asks for justifications up to the largest valid block only, and returns `None` if it
starts and no block from the start up to there has a justification. -/
structure StaysOnChain : Prop where
  asked : ∀ b ∈ (stepSearch config fetcher interval size current avail id).1,
    b.toNat ≤ min (current.toNat + size.toNat) avail.toNat
  ends : ∀ start, StartsSearch config fetcher.toSetIds interval size current avail id start →
    (∀ x : UInt32, start.toNat ≤ x.toNat → x.toNat ≤ min (current.toNat + size.toNat) avail.toNat →
      Unjustified config fetcher x) →
    findBlockToStepTo config fetcher interval size current avail id = some none

/-- The search starts without a justification up to the largest valid block, and this one is the
head but not the end of the range, or the largest block number. -/
def RunsPast : Prop :=
  ∃ start, StartsSearch config fetcher.toSetIds interval size current avail id start ∧
    (∀ x : UInt32, start.toNat ≤ x.toNat → x.toNat ≤ min (current.toNat + size.toNat) avail.toNat →
      Unjustified config fetcher x) ∧
    (avail.toNat < current.toNat + size.toNat ∨ current.toNat + size.toNat + 1 = 2 ^ 32)

/-- **Step search.** The search stays on the chain unless it starts without any justification up to
the head, and the head is before the end of the range. -/
theorem stepSearch_staysOnChain_iff :
    StaysOnChain config fetcher interval size current avail id ↔
      ¬RunsPast config fetcher interval size current avail id := by
  constructor
  · rintro ⟨hasked, hends⟩ ⟨start, hstart, hall, hpast⟩
    have hresult := hends start hstart hall
    obtain ⟨limit, fuel, hlimit, hfuel, heq⟩ := hstart.stepSearch_eq
    rw [← stepSearch_snd, heq] at hresult
    rw [heq] at hasked
    have hstartVal := hstart.start_eq
    rcases Nat.lt_or_ge avail.toNat (current.toNat + size.toNat) with hlt | hge
    · -- the block after the head is asked for
      have hlimit32 := limit.toNat_lt
      obtain ⟨next, -, hnext⟩ := checkedAdd_one (a := avail) (by omega)
      have hmem := hasked next ((mem_justifiedBlockSearch hfuel).mpr
        ⟨by omega, by omega, fun x hx hxn => hall x hx (by omega)⟩)
      omega
    · rw [justifiedBlockSearch_snd_of_unjustified hfuel (by omega)
        fun x hx hxl => hall x hx (by omega), if_neg (by omega)] at hresult
      exact absurd hresult (by simp)
  · intro hpast
    refine ⟨fun b hb => ?_, fun start hstart hall => ?_⟩
    · by_cases hsearch : ∃ start, StartsSearch config fetcher.toSetIds interval size current avail id
          start
      · obtain ⟨start, hstart⟩ := hsearch
        obtain ⟨limit, fuel, hlimit, hfuel, heq⟩ := hstart.stepSearch_eq
        rw [heq, mem_justifiedBlockSearch hfuel] at hb
        obtain ⟨-, hle, hbefore⟩ := hb
        by_contra hbeyond
        exact hpast ⟨start, hstart, fun x hx hxm => hbefore x hx (by omega), Or.inl (by omega)⟩
      · rw [stepSearch_fst_of_not_startsSearch hsearch] at hb
        exact absurd hb List.not_mem_nil
    · obtain ⟨limit, fuel, hlimit, hfuel, heq⟩ := hstart.stepSearch_eq
      have hstartVal := hstart.start_eq
      have hlimit32 := limit.toNat_lt
      have hin : ¬(avail.toNat < current.toNat + size.toNat ∨
          current.toNat + size.toNat + 1 = 2 ^ 32) :=
        fun h => hpast ⟨start, hstart, hall, h⟩
      rw [← stepSearch_snd, heq, justifiedBlockSearch_snd_of_unjustified hfuel (by omega)
        fun x hx hxl => hall x hx (by omega), if_pos (by omega)]

end Main

/-! ### A head without justifications -/

/-- A node with two epochs up to block 3 and without justifications. -/
def unjustifiedFetcher : RpcDataFetcher (Reference.crypto []) :=
  { Reference.twoEpochChain [] [] with
    proveFinality := fun _ => none
    redisJustification := fun _ => none }

/-- An operator that is not a dummy. -/
def operatorConfig : Config where
  isDummyOperator := false
  DUMMY_PUBLIC_KEY := emptyBytes32
  DUMMY_SIGNATURE := ArrayVariable.replicate 64 0
  MAX_AUTHORITY_SET_SIZE := 300

/-- From block 2 the search asks for block 3, the head, and for block 4, where it panics. -/
theorem not_staysOnChain : ¬∀ (crypto : Crypto) (config : Config) (fetcher : RpcDataFetcher crypto)
    (interval size current avail : UInt32) (id : UInt64), 1 ≤ interval.toNat →
    current.toNat ≤ avail.toNat → avail = fetcher.toSetIds.head →
    StaysOnChain config fetcher interval size current avail id := by
  intro hclaim
  have hasked := (hclaim (Reference.crypto []) operatorConfig unjustifiedFetcher 1 5 2 3 1 (by decide)
    (by decide) rfl).asked
  have hsearch : stepSearch operatorConfig unjustifiedFetcher 1 5 2 3 1 = ([3, 4], none) := by
    rfl
  rw [hsearch] at hasked
  exact absurd (hasked 4 (by simp)) (by decide)

end VectorX.VectorXOperator
