import VectorX.Circuits.SubchainVerification

/-!
# What a map job checks

A batch of eight slots is described by a function `c` from slot indices to blocks. If the target
block is `m` slots after the start of the batch, the job checks the first `m` blocks and treats the
others as no-ops.
-/

namespace VectorX

open Plonky2x Plonky2x.CircuitBuilder

/-- The second block is the child of the first. -/
structure Follows (parent child : Block) : Prop where
  parentHash : child.header.parentHash = parent.hash
  blockNumber : child.header.blockNumber.toNat = parent.header.blockNumber.toNat + 1

/-- Linked blocks have consecutive numbers. -/
theorem blockNumber_of_follows {c : ℕ → Block} {n : ℕ}
    (h : ∀ t, t + 1 < n → Follows (c t) (c (t + 1))) :
    ∀ t, t < n → (c t).header.blockNumber.toNat = (c 0).header.blockNumber.toNat + t
  | 0, _ => rfl
  | t + 1, ht => by
    rw [(h t ht).blockNumber, blockNumber_of_follows h t (by omega), Nat.add_assoc]

/-! ## Reading the headers of a batch -/

/-- A header is read by hashing and decoding it. -/
theorem readBlock_eq_some_iff {crypto : Crypto} {S : ℕ} {encoded : EncodedHeaderVariable S}
    {block : Block} :
    readBlock crypto encoded = some block ↔
      encoded.headerSize.toNat ≤ S ∧
      crypto.blake2b (encoded.headerBytes.data.take encoded.headerSize.toNat) = block.hash ∧
      decodeHeader crypto encoded block.hash = some block.header := by
  simp only [readBlock, hashEncodedHeader, Option.bind_eq_bind, Option.bind_eq_some_iff,
    curtaBlake2bVariable_eq_some, encoded.headerBytes.length_data, Option.some.injEq]
  constructor
  · rintro ⟨_, ⟨hsize, rfl⟩, _, hdecode, rfl⟩
    exact ⟨hsize, rfl, hdecode⟩
  · rintro ⟨hsize, hhash, hdecode⟩
    exact ⟨block.hash, ⟨hsize, hhash⟩, block.header, hdecode, rfl⟩

/-- With its data root in range, a header is read if its size and its fields lie in the array. -/
theorem readBlock_eq_some {crypto : Crypto} {S : ℕ} {encoded : EncodedHeaderVariable S}
    {block : Block} (hrange : dataRootStart encoded.headerSize + 32 ≤ S) :
    readBlock crypto encoded = some block ↔
      encoded.headerSize.toNat ≤ S ∧
      crypto.blake2b (encoded.headerBytes.data.take encoded.headerSize.toNat) = block.hash ∧
      69 ≤ S ∧
      DecodesTo encoded.headerBytes.data (dataRootStart encoded.headerSize) block.header := by
  rw [readBlock_eq_some_iff, decodeHeader_eq_some hrange]

/-- The size, the hash and the fields at the start of a header that is read. -/
theorem of_readBlock {crypto : Crypto} {S : ℕ} {encoded : EncodedHeaderVariable S} {block : Block}
    (h : readBlock crypto encoded = some block) :
    encoded.headerSize.toNat ≤ S ∧
      crypto.blake2b (encoded.headerBytes.data.take encoded.headerSize.toNat) = block.hash ∧
      ReadsFields encoded.headerBytes.data block.header := by
  obtain ⟨hsize, hhash, hdecode⟩ := readBlock_eq_some_iff.mp h
  exact ⟨hsize, hhash, (decodeHeader_eq_some_iff.mp hdecode).2.1⟩

/-- The part of an iteration that only uses the decoded block. -/
def blockStep (ctx : SubchainVerificationCtx) (s : BatchLoop) (block : Block) :
    Option BatchLoop := do
  s.checkLink block
  some (s.push ctx block)

theorem blockStep_eq_some {ctx : SubchainVerificationCtx} {s s' : BatchLoop} {block : Block} :
    blockStep ctx s block = some s' ↔ s.checkLink block = some () ∧ s.push ctx block = s' := by
  rw [blockStep, Option.bind_eq_bind, Option.bind_eq_some_iff]
  constructor
  · rintro ⟨_, hlink, h⟩
    exact ⟨hlink, Option.some.inj h⟩
  · rintro ⟨hlink, rfl⟩
    exact ⟨(), hlink, rfl⟩

/-- The loop over encoded headers is the loop over the blocks that they decode to. -/
theorem foldlM_batchStep {crypto : Crypto} {ctx : SubchainVerificationCtx} {S : ℕ} {s' : BatchLoop} :
    ∀ (headers : List (EncodedHeaderVariable S)) (s : BatchLoop),
      headers.foldlM (batchStep crypto ctx) s = some s' ↔
        ∃ blocks, headers.mapM (readBlock crypto) = some blocks ∧
          blocks.foldlM (blockStep ctx) s = some s'
  | [], s => by simp
  | header :: headers, s => by
    have hstep : ∀ s₁, batchStep crypto ctx s header = some s₁ ↔
        ∃ block, readBlock crypto header = some block ∧ blockStep ctx s block = some s₁ := by
      intro s₁
      rw [batchStep, Option.bind_eq_bind, Option.bind_eq_some_iff]
      rfl
    have ih : ∀ s₁, headers.foldlM (batchStep crypto ctx) s₁ = some s' ↔ _ :=
      foldlM_batchStep headers
    simp only [List.foldlM_cons, List.mapM_cons, Option.bind_eq_bind, Option.bind_eq_some_iff, ih,
      hstep, Option.pure_def, Option.some.injEq]
    constructor
    · rintro ⟨s₁, ⟨block, hread, hblock⟩, blocks, hreads, hloop⟩
      refine ⟨block :: blocks, ⟨block, hread, blocks, hreads, rfl⟩, ?_⟩
      rw [List.foldlM_cons, hblock]
      exact hloop
    · rintro ⟨_, ⟨block, hread, blocks, hreads, rfl⟩, hloop⟩
      rw [List.foldlM_cons, Option.bind_eq_bind, Option.bind_eq_some_iff] at hloop
      obtain ⟨s₁, hblock, hloop⟩ := hloop
      exact ⟨s₁, ⟨block, hread, hblock⟩, blocks, hreads, hloop⟩

/-! ## The loop -/

/-- The loop variables after the blocks `bs`, of which the first `m` are active. -/
def BatchLoop.extend (s : BatchLoop) (bs : List Block) (m : ℕ) (noop : BoolVariable) :
    BatchLoop where
  blockNums := s.blockNums ++ bs.map fun b => b.header.blockNumber
  blockHashes := s.blockHashes ++ bs.map fun b => b.hash
  blockParentHashes := s.blockParentHashes ++ bs.map fun b => b.header.parentHash
  blockStateRoots := s.blockStateRoots ++ bs.map fun b => b.header.stateRoot
  blockDataRoots := s.blockDataRoots ++ bs.map fun b => b.header.dataRoot
  endBlockNum := ((bs.take m).map fun b => b.header.blockNumber).getLastD s.endBlockNum
  endHeaderHash := ((bs.take m).map fun b => b.hash).getLastD s.endHeaderHash
  numHeaders := s.numHeaders + Variable.ofNat m
  currBlockNoop := noop
  nbEnabledLeaves := s.nbEnabledLeaves + Variable.ofNat m

theorem Variable.ofNat_zero : Variable.ofNat 0 = 0 := rfl

theorem Variable.add_ofNat_succ (x : Variable) (n : ℕ) :
    x + Variable.ofNat (n + 1) = x + 1 + Variable.ofNat n := by
  have hsucc : Variable.ofNat (n + 1) = Variable.ofNat n + 1 := by
    apply Fin.ext
    simp [Variable.ofNat, Fin.val_add]
  rw [hsucc, add_assoc, add_comm (Variable.ofNat n)]

theorem BatchLoop.extend_nil (s : BatchLoop) : s.extend [] 0 s.currBlockNoop = s := by
  simp [BatchLoop.extend, Variable.ofNat_zero]

/-- Pushing a no-op block. -/
theorem BatchLoop.push_extend_noop {ctx : SubchainVerificationCtx} {s : BatchLoop}
    (h : s.currBlockNoop = true) (b : Block) (bs : List Block) :
    (s.push ctx b).extend bs 0 true = s.extend (b :: bs) 0 true := by
  simp [BatchLoop.extend, BatchLoop.push, h]

/-- Pushing an active block. -/
theorem BatchLoop.push_extend {ctx : SubchainVerificationCtx} {s : BatchLoop}
    (h : s.currBlockNoop = false) (b : Block) (bs : List Block) (m : ℕ) (noop : BoolVariable) :
    (s.push ctx b).extend bs m noop = s.extend (b :: bs) (m + 1) noop := by
  simp only [BatchLoop.extend, BatchLoop.push, h, select_false, List.append_assoc,
    List.cons_append, List.nil_append, List.map_cons, List.take_succ_cons, List.getLastD_cons,
    Variable.add_ofNat_succ]

/-- After the target block nothing is checked. -/
theorem foldlM_blockStep_noop {ctx : SubchainVerificationCtx} :
    ∀ (bs : List Block) (s : BatchLoop), s.currBlockNoop = true →
      bs.foldlM (blockStep ctx) s = some (s.extend bs 0 true)
  | [], s, h => by
    rw [List.foldlM_nil, ← h, s.extend_nil]
    rfl
  | b :: bs, s, h => by
    have hlink : s.checkLink b = some () := by
      rw [BatchLoop.checkLink]
      split <;> simp [h]
    have hnoop : (s.push ctx b).currBlockNoop = true := by simp [BatchLoop.push, h]
    have hblock : blockStep ctx s b = some (s.push ctx b) := blockStep_eq_some.mpr ⟨hlink, rfl⟩
    rw [List.foldlM_cons, hblock, Option.bind_eq_bind, Option.bind_some,
      foldlM_blockStep_noop bs _ hnoop, BatchLoop.push_extend_noop h]

/-- The link check of an active block against its predecessor. -/
theorem checkLink_eq_some {s : BatchLoop} {p b : Block} (hactive : s.currBlockNoop = false)
    (hhash : s.blockHashes.getLast? = some p.hash)
    (hnum : s.blockNums.getLast? = some p.header.blockNumber)
    (hlt : p.header.blockNumber.toNat + 1 < 2 ^ 32) {u : Unit} :
    s.checkLink b = some u ↔ Follows p b := by
  have hsucc : (p.header.blockNumber + 1).toNat = p.header.blockNumber.toNat + 1 := by
    rw [UInt32.toNat_add]
    exact Nat.mod_eq_of_lt hlt
  have hfollows : Follows p b ↔
      b.header.parentHash = p.hash ∧ b.header.blockNumber = p.header.blockNumber + 1 := by
    rw [← UInt32.toNat_inj, hsucc]
    exact ⟨fun h => ⟨h.parentHash, h.blockNumber⟩, fun h => ⟨h.1, h.2⟩⟩
  rw [BatchLoop.checkLink, hhash, hnum, hfollows]
  simp [hactive]

/-- The loop on an active block, then on the rest. -/
theorem foldlM_blockStep_cons {ctx : SubchainVerificationCtx} {s s' : BatchLoop} {p b : Block}
    {bs : List Block} (hactive : s.currBlockNoop = false)
    (hhash : s.blockHashes.getLast? = some p.hash)
    (hnum : s.blockNums.getLast? = some p.header.blockNumber)
    (hlt : p.header.blockNumber.toNat + 1 < 2 ^ 32) :
    (b :: bs).foldlM (blockStep ctx) s = some s' ↔
      Follows p b ∧ bs.foldlM (blockStep ctx) (s.push ctx b) = some s' := by
  have hlink := checkLink_eq_some (b := b) (u := ()) hactive hhash hnum hlt
  rw [List.foldlM_cons, Option.bind_eq_bind, Option.bind_eq_some_iff]
  simp only [blockStep_eq_some, hlink]
  constructor
  · rintro ⟨_, ⟨hfollows, rfl⟩, hrest⟩
    exact ⟨hfollows, hrest⟩
  · rintro ⟨hfollows, hrest⟩
    exact ⟨_, ⟨hfollows, rfl⟩, hrest⟩

/-- From a block before the target on, the loop checks the blocks up to the target. -/
theorem foldlM_blockStep {ctx : SubchainVerificationCtx} {c : ℕ → Block} {r : BatchLoop} :
    ∀ (n i : ℕ) (s : BatchLoop), s.currBlockNoop = false →
      s.blockHashes.getLast? = some (c i).hash →
      s.blockNums.getLast? = some (c i).header.blockNumber →
      (c i).header.blockNumber.toNat < ctx.globalEndBlock.toNat →
      (((List.range' (i + 1) n).map c).foldlM (blockStep ctx) s = some r ↔
        (∀ t, t < min (ctx.globalEndBlock.toNat - (c i).header.blockNumber.toNat) n →
          Follows (c (i + t)) (c (i + t + 1))) ∧
        r = s.extend ((List.range' (i + 1) n).map c)
          (min (ctx.globalEndBlock.toNat - (c i).header.blockNumber.toNat) n)
          (decide (ctx.globalEndBlock.toNat - (c i).header.blockNumber.toNat ≤ n)))
  | 0, i, s, hactive, _, _, hlt => by
    have hfalse : decide (ctx.globalEndBlock.toNat - (c i).header.blockNumber.toNat ≤ 0) =
        s.currBlockNoop := by
      rw [hactive, decide_eq_false_iff_not]
      omega
    rw [Nat.min_zero, hfalse]
    simp [s.extend_nil, eq_comm]
  | n + 1, i, s, hactive, hhash, hnum, hlt => by
    have hbound : ctx.globalEndBlock.toNat < 2 ^ 32 := ctx.globalEndBlock.toNat_lt
    have hsplit : (c (i + 1) :: (List.range' (i + 1 + 1) n).map c).foldlM (blockStep ctx) s =
          some r ↔ Follows (c i) (c (i + 1)) ∧ ((List.range' (i + 1 + 1) n).map c).foldlM
            (blockStep ctx) (s.push ctx (c (i + 1))) = some r :=
      foldlM_blockStep_cons hactive hhash hnum (by omega)
    have hmin : min (ctx.globalEndBlock.toNat - (c i).header.blockNumber.toNat) (n + 1) =
        min (ctx.globalEndBlock.toNat - ((c i).header.blockNumber.toNat + 1)) n + 1 := by omega
    have hfirst : (∀ t, t < min (ctx.globalEndBlock.toNat - ((c i).header.blockNumber.toNat + 1)) n
          + 1 → Follows (c (i + t)) (c (i + t + 1))) ↔
        Follows (c i) (c (i + 1)) ∧
          ∀ t, t < min (ctx.globalEndBlock.toNat - ((c i).header.blockNumber.toNat + 1)) n →
            Follows (c (i + 1 + t)) (c (i + 1 + t + 1)) := by
      rw [Nat.forall_lt_succ_left]
      simp only [Nat.add_zero, Nat.add_assoc, Nat.add_comm 1]
    rw [List.range'_succ, List.map_cons, hsplit, hmin, hfirst, and_assoc]
    refine and_congr_right fun hfollows => ?_
    have hnext := hfollows.blockNumber
    have htarget : isEqual (c (i + 1)).header.blockNumber ctx.globalEndBlock = true ↔
        (c i).header.blockNumber.toNat + 1 = ctx.globalEndBlock.toNat := by
      rw [isEqual_iff, ← UInt32.toNat_inj, hnext]
    by_cases hend : (c i).header.blockNumber.toNat + 1 = ctx.globalEndBlock.toNat
    · -- the new block is the target block, the rest are no-ops
      have hnoop : (s.push ctx (c (i + 1))).currBlockNoop = true := by
        simp [BatchLoop.push, htarget.mpr hend]
      have hzero : min (ctx.globalEndBlock.toNat - ((c i).header.blockNumber.toNat + 1)) n = 0 := by
        omega
      have hdec : decide (ctx.globalEndBlock.toNat - (c i).header.blockNumber.toNat ≤ n + 1) =
          true := decide_eq_true (by omega)
      rw [foldlM_blockStep_noop _ _ hnoop, BatchLoop.push_extend hactive, hzero, hdec]
      simp [eq_comm]
    · have hnoop : (s.push ctx (c (i + 1))).currBlockNoop = false := by
        have hne : isEqual (c (i + 1)).header.blockNumber ctx.globalEndBlock = false := by
          rw [← Bool.not_eq_true, htarget]
          exact hend
        simp [BatchLoop.push, hactive, hne]
      have hlt' : (c (i + 1)).header.blockNumber.toNat < ctx.globalEndBlock.toNat := by omega
      have ih := foldlM_blockStep (c := c) (r := r) n (i + 1) (s.push ctx (c (i + 1))) hnoop
        (by simp [BatchLoop.push]) (by simp [BatchLoop.push]) hlt'
      have hdec : decide (ctx.globalEndBlock.toNat - (c (i + 1)).header.blockNumber.toNat ≤ n) =
          decide (ctx.globalEndBlock.toNat - (c i).header.blockNumber.toNat ≤ n + 1) :=
        decide_eq_decide.mpr (by omega)
      rw [ih, BatchLoop.push_extend hactive, hdec, hnext]

/-- The loop over a batch that starts at or before the target block. -/
theorem foldlM_blockStep_enabled {ctx : SubchainVerificationCtx} {c : ℕ → Block} {r : BatchLoop}
    (hle : (c 0).header.blockNumber.toNat ≤ ctx.globalEndBlock.toNat) {n : ℕ} :
    ((List.range (n + 1)).map c).foldlM (blockStep ctx) (BatchLoop.init false) = some r ↔
      (∀ t, t + 1 < min (ctx.globalEndBlock.toNat + 1 - (c 0).header.blockNumber.toNat) (n + 1) →
        Follows (c t) (c (t + 1))) ∧
      r = (BatchLoop.init false).extend ((List.range (n + 1)).map c)
        (min (ctx.globalEndBlock.toNat + 1 - (c 0).header.blockNumber.toNat) (n + 1))
        (decide (ctx.globalEndBlock.toNat - (c 0).header.blockNumber.toNat ≤ n)) := by
  have hactive : (BatchLoop.init false).currBlockNoop = false := rfl
  have hhead : blockStep ctx (BatchLoop.init false) (c 0) =
      some ((BatchLoop.init false).push ctx (c 0)) := blockStep_eq_some.mpr ⟨rfl, rfl⟩
  have hrange : List.range (n + 1) = 0 :: List.range' 1 n := by
    rw [List.range_eq_range', List.range'_succ]
  have hmin : min (ctx.globalEndBlock.toNat + 1 - (c 0).header.blockNumber.toNat) (n + 1) =
      min (ctx.globalEndBlock.toNat - (c 0).header.blockNumber.toNat) n + 1 := by omega
  rw [hrange, List.map_cons, List.foldlM_cons, hhead, Option.bind_eq_bind, Option.bind_some, hmin]
  have htarget : isEqual (c 0).header.blockNumber ctx.globalEndBlock = true ↔
      (c 0).header.blockNumber.toNat = ctx.globalEndBlock.toNat := by
    rw [isEqual_iff, ← UInt32.toNat_inj]
  by_cases hend : (c 0).header.blockNumber.toNat = ctx.globalEndBlock.toNat
  · have hnoop : ((BatchLoop.init false).push ctx (c 0)).currBlockNoop = true := by
      simp [BatchLoop.push, htarget.mpr hend]
    rw [foldlM_blockStep_noop _ _ hnoop, BatchLoop.push_extend hactive, hend, Nat.sub_self,
      Nat.zero_min]
    simp [eq_comm]
  · have hnoop : ((BatchLoop.init false).push ctx (c 0)).currBlockNoop = false := by
      have hne : isEqual (c 0).header.blockNumber ctx.globalEndBlock = false := by
        rw [← Bool.not_eq_true, htarget]
        exact hend
      simp [BatchLoop.push, hactive, hne]
    rw [foldlM_blockStep n 0 _ hnoop (by simp [BatchLoop.push, BatchLoop.init])
      (by simp [BatchLoop.push, BatchLoop.init]) (by omega), BatchLoop.push_extend hactive]
    simp only [Nat.zero_add, Nat.add_lt_add_iff_right]

/-! ## The output of a batch -/

/-- What a map job returns for a batch with `m` active blocks. -/
def batchOutput (crypto : Crypto) (c : ℕ → Block) (m : ℕ) : MapReduceSubchainVariable where
  numBlocks := Variable.ofNat m
  startBlock := (c 0).header.blockNumber
  startHeaderHash := (c 0).hash
  startParent := (c 0).header.parentHash
  endBlock := if m = 0 then 0 else (c (m - 1)).header.blockNumber
  endHeaderHash := if m = 0 then emptyBytes32 else (c (m - 1)).hash
  stateMerkleRoot := Merkle.root (hashNode crypto)
    (fun i => if i < m then (c i).header.stateRoot else emptyBytes32) 3 0
  dataMerkleRoot := Merkle.root (hashNode crypto)
    (fun i => if i < m then (c i).header.dataRoot else emptyBytes32) 3 0

/-- The last of the first `m` values. -/
theorem getLastD_take_map_range {V : Type*} (f : ℕ → V) (d : V) {m n : ℕ} (h : m ≤ n) :
    (((List.range n).map f).take m).getLastD d = if m = 0 then d else f (m - 1) := by
  rw [← List.map_take, List.take_range, Nat.min_eq_left h]
  rcases m with - | m
  · rfl
  · simp [List.range_succ]

/-- The Merkle root of a batch of which the first `m` leaves are enabled. -/
theorem getRootFromHashedLeaves_batch {crypto : Crypto} (f : ℕ → Bytes32Variable) {m : ℕ}
    (hm : m ≤ 8) {leaves : ArrayVariable Bytes32Variable HEADERS_PER_MAP}
    (hleaves : leaves.data = (List.range 8).map f) :
    crypto.getRootFromHashedLeaves leaves (Variable.ofNat m) =
      Merkle.root (hashNode crypto) (fun i => if i < m then f i else emptyBytes32) 3 0 := by
  have hval : (Variable.ofNat m).val = m :=
    Variable.val_ofNat_of_lt (Nat.lt_of_le_of_lt hm (by decide))
  have hroot : crypto.getRootFromHashedLeaves leaves (Variable.ofNat m) = Merkle.root
      (hashNode crypto) (fun i => if i < (Variable.ofNat m).val then leaves.data.getD i emptyBytes32
        else emptyBytes32) 3 0 :=
    crypto.getRootFromHashedLeaves_eq (d := 3) leaves (Variable.ofNat m) (by rw [hval]; exact hm)
  refine hroot.trans (Merkle.root_congr 3 0 fun i _ hi => ?_)
  rw [hleaves, hval]
  by_cases him : i < m
  · simp [him, List.getD, List.getElem?_range (show i < 8 by omega)]
  · simp [him]

/-- An accepted map job has read every slot. -/
theorem mapStage_read {crypto : Crypto} {S : ℕ} {ctx : SubchainVerificationCtx}
    {nums : List U32Variable} {headers : ArrayVariable (EncodedHeaderVariable S) HEADERS_PER_MAP}
    {out : MapReduceSubchainVariable} (h : mapStage crypto ctx nums headers = some out) :
    ∃ blocks, headers.data.mapM (readBlock crypto) = some blocks := by
  simp only [mapStage, Option.bind_eq_bind, Option.bind_eq_some_iff] at h
  obtain ⟨_, -, _, -, s, hloop, -⟩ := h
  obtain ⟨blocks, hread, -⟩ := (foldlM_batchStep headers.data _).mp hloop
  exact ⟨blocks, hread⟩

section MapStage

variable {crypto : Crypto} {S : ℕ} {ctx : SubchainVerificationCtx} {nums : List U32Variable}
  {headers : ArrayVariable (EncodedHeaderVariable S) HEADERS_PER_MAP} {c : ℕ → Block}
  {firstNum lastNum : U32Variable}

/-- The loop result of a batch, with its checks and its output. -/
theorem mapStage_eq_of_loop (hfirst : nums[0]? = some firstNum)
    (hlast : nums[HEADERS_PER_MAP - 1]? = some lastNum)
    (hread : headers.data.mapM (readBlock crypto) = some ((List.range 8).map c))
    {disabled noop : BoolVariable} {m : ℕ} (hm : m ≤ 8)
    (hdisabled : decide (ctx.globalEndBlock < ctx.globalStartBlock + firstNum) = disabled)
    (hloop : ((List.range 8).map c).foldlM (blockStep ctx) (BatchLoop.init disabled) =
      some ((BatchLoop.init disabled).extend ((List.range 8).map c) m noop))
    (hstart : (c 0).header.blockNumber = ctx.globalStartBlock + firstNum ∨ disabled = true)
    (hend : (batchOutput crypto c m).endBlock = ctx.globalStartBlock + lastNum ∨ noop = true) :
    mapStage crypto ctx nums headers = some (batchOutput crypto c m) := by
  have hloop' := (foldlM_batchStep headers.data _).mpr ⟨_, hread, hloop⟩
  have hzero : (List.range 8)[0]? = some 0 := rfl
  have hstart' : (isEqual (c 0).header.blockNumber (ctx.globalStartBlock + firstNum) ||
      disabled) = true := by
    rw [Bool.or_eq_true, isEqual_iff]
    exact hstart
  have hend' : (isEqual (if m = 0 then 0 else (c (m - 1)).header.blockNumber)
      (ctx.globalStartBlock + lastNum) || noop) = true := by
    rw [Bool.or_eq_true, isEqual_iff]
    exact hend
  have hroot : ∀ f : ℕ → Bytes32Variable, ∃ leaves : ArrayVariable Bytes32Variable HEADERS_PER_MAP,
      newArray HEADERS_PER_MAP ((List.range 8).map f) = some leaves ∧
        crypto.getRootFromHashedLeaves leaves (Variable.ofNat m) = Merkle.root (hashNode crypto)
          (fun i => if i < m then f i else emptyBytes32) 3 0 := by
    intro f
    refine ⟨⟨(List.range 8).map f, by simp [HEADERS_PER_MAP]⟩, ?_,
      getRootFromHashedLeaves_batch f hm rfl⟩
    rw [newArray, dif_pos (by simp [HEADERS_PER_MAP])]
  obtain ⟨stateRoots, hstateRoots, hstateRoot⟩ := hroot fun i => (c i).header.stateRoot
  obtain ⟨dataRoots, hdataRoots, hdataRoot⟩ := hroot fun i => (c i).header.dataRoot
  rw [mapStage]
  simp only [hfirst, hlast, Option.bind_eq_bind, Option.bind_some, hdisabled, hloop']
  simp only [BatchLoop.extend, BatchLoop.init, List.nil_append, List.getElem?_map, hzero,
    Option.map_some, Option.bind_some, hstart', zero_add, List.map_take,
    getLastD_take_map_range _ _ hm, hend', hstateRoots, hdataRoots, hstateRoot, hdataRoot,
    List.map_map, Function.comp_def]
  simp [assertIsEqual, batchOutput]

/-- The loop collects the block numbers. -/
theorem blockNums_of_foldlM {bs : List Block} :
    ∀ {s r : BatchLoop}, bs.foldlM (blockStep ctx) s = some r →
      r.blockNums = s.blockNums ++ bs.map fun b => b.header.blockNumber := by
  induction bs with
  | nil =>
    intro s r h
    obtain rfl : s = r := Option.some.inj h
    simp
  | cons b bs ih =>
    intro s r h
    rw [List.foldlM_cons, Option.bind_eq_bind, Option.bind_eq_some_iff] at h
    obtain ⟨s₁, hstep, hrest⟩ := h
    obtain ⟨-, rfl⟩ := blockStep_eq_some.mp hstep
    rw [ih hrest]
    simp [BatchLoop.push]

/-- An accepted batch is disabled or starts with the right number. -/
theorem mapStage_start (hfirst : nums[0]? = some firstNum)
    (hread : headers.data.mapM (readBlock crypto) = some ((List.range 8).map c))
    {out : MapReduceSubchainVariable} (h : mapStage crypto ctx nums headers = some out) :
    (∃ r, ((List.range 8).map c).foldlM (blockStep ctx)
      (BatchLoop.init (decide (ctx.globalEndBlock < ctx.globalStartBlock + firstNum))) = some r) ∧
    ((c 0).header.blockNumber = ctx.globalStartBlock + firstNum ∨
      ctx.globalEndBlock < ctx.globalStartBlock + firstNum) := by
  simp only [mapStage, hfirst, Option.bind_eq_bind, Option.bind_some, Option.bind_eq_some_iff] at h
  obtain ⟨_, -, r, hloop, number, hnumber, -, -, -, -, _, hcheck, -⟩ := h
  obtain ⟨blocks, hblocks, hloop⟩ := (foldlM_batchStep headers.data _).mp hloop
  obtain rfl : (List.range 8).map c = blocks := Option.some.inj (hread.symm.trans hblocks)
  refine ⟨⟨r, hloop⟩, ?_⟩
  have hnums := blockNums_of_foldlM hloop
  have hnumber' : number = (c 0).header.blockNumber := by
    rw [hnums] at hnumber
    simpa [BatchLoop.init, List.range_succ_eq_map, eq_comm] using hnumber
  simpa [hnumber'] using hcheck

/-- A map job accepts a batch if the blocks up to the target block are linked and numbered. -/
theorem mapStage_eq_some (ctx : SubchainVerificationCtx) (out : MapReduceSubchainVariable)
    (hfirst : nums[0]? = some firstNum)
    (hlast : nums[HEADERS_PER_MAP - 1]? = some lastNum) {start : ℕ}
    (hread : headers.data.mapM (readBlock crypto) = some ((List.range 8).map c))
    (hstart : (ctx.globalStartBlock + firstNum).toNat = start)
    (hend : start + 7 ≤ ctx.globalEndBlock.toNat →
      (ctx.globalStartBlock + lastNum).toNat = start + 7) :
    mapStage crypto ctx nums headers = some out ↔
      (start ≤ ctx.globalEndBlock.toNat → (c 0).header.blockNumber.toNat = start) ∧
      (∀ t, t + 1 < min (ctx.globalEndBlock.toNat + 1 - start) 8 → Follows (c t) (c (t + 1))) ∧
      out = batchOutput crypto c (min (ctx.globalEndBlock.toNat + 1 - start) 8) := by
  have hdisabled : ctx.globalEndBlock < ctx.globalStartBlock + firstNum ↔
      ctx.globalEndBlock.toNat < start := by
    rw [UInt32.lt_iff_toNat_lt, hstart]
  by_cases hlt : ctx.globalEndBlock.toNat < start
  · -- a disabled batch is accepted as it is
    have hmin : min (ctx.globalEndBlock.toNat + 1 - start) 8 = 0 := by omega
    have haccept : mapStage crypto ctx nums headers = some (batchOutput crypto c 0) :=
      mapStage_eq_of_loop hfirst hlast hread (by omega) (decide_eq_true (hdisabled.mpr hlt))
        (foldlM_blockStep_noop _ _ rfl) (Or.inr rfl) (Or.inr rfl)
    rw [haccept, hmin]
    simp only [Option.some.injEq, Nat.not_lt_zero, false_implies, implies_true, true_and]
    exact ⟨fun h => ⟨fun hle => absurd hle (by omega), h.symm⟩, fun h => h.2.symm⟩
  · have hfalse : decide (ctx.globalEndBlock < ctx.globalStartBlock + firstNum) = false :=
      decide_eq_false (fun h => hlt (hdisabled.mp h))
    have hnumber : (c 0).header.blockNumber = ctx.globalStartBlock + firstNum ↔
        (c 0).header.blockNumber.toNat = start := by
      rw [← UInt32.toNat_inj, hstart]
    -- a chain of active blocks determines the output
    have hchain : (c 0).header.blockNumber.toNat = start →
        (∀ t, t + 1 < min (ctx.globalEndBlock.toNat + 1 - start) 8 → Follows (c t) (c (t + 1))) →
        mapStage crypto ctx nums headers =
          some (batchOutput crypto c (min (ctx.globalEndBlock.toNat + 1 - start) 8)) := by
      intro hnum hfollows
      have hle : (c 0).header.blockNumber.toNat ≤ ctx.globalEndBlock.toNat := by omega
      have hloop := (foldlM_blockStep_enabled (n := 7) hle).mpr
        ⟨by rw [hnum]; exact hfollows, rfl⟩
      rw [hnum] at hloop
      refine mapStage_eq_of_loop hfirst hlast hread (Nat.min_le_right _ _) hfalse hloop
        (Or.inl (hnumber.mpr hnum)) ?_
      by_cases hfull : start + 7 < ctx.globalEndBlock.toNat
      · have hmin : min (ctx.globalEndBlock.toNat + 1 - start) 8 = 8 := by omega
        have hlastNum := blockNumber_of_follows hfollows 7 (by omega)
        left
        rw [hmin, ← UInt32.toNat_inj, hend (by omega), ← hnum]
        exact hlastNum
      · exact Or.inr (decide_eq_true (by omega))
    constructor
    · intro h
      obtain ⟨⟨r, hloop⟩, hcheck⟩ := mapStage_start hfirst hread h
      have hnum := hnumber.mp (hcheck.resolve_right fun h => hlt (hdisabled.mp h))
      rw [hfalse] at hloop
      have hle : (c 0).header.blockNumber.toNat ≤ ctx.globalEndBlock.toNat := by omega
      have hfollows := ((foldlM_blockStep_enabled hle).mp hloop).1
      rw [hnum] at hfollows
      exact ⟨fun _ => hnum, hfollows,
        Option.some.inj (h.symm.trans (hchain hnum hfollows))⟩
    · rintro ⟨hnum, hfollows, rfl⟩
      exact hchain (hnum (by omega)) hfollows

end MapStage

end VectorX
