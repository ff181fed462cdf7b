import VectorX.Circuits.SubchainBatch

/-!
# What the verification of a subchain proves

Slot `s` of the circuit, counted over all map jobs, is for block `trusted_block + 1 + s`. The
summary `Segment` says what a node of the reduce tree knows about its slots; it holds at the leaves,
every reduce step preserves it, and at the root it is the statement about the whole chain.
-/

namespace VectorX

open Plonky2x Plonky2x.CircuitBuilder

/-! ## Slots -/

section Slots

/-- The header that the prover puts into slot `s`. -/
def slotHeader {S : ℕ} (headers : ℕ → ArrayVariable (EncodedHeaderVariable S) HEADERS_PER_MAP)
    (s : ℕ) : EncodedHeaderVariable S :=
  (headers (s / HEADERS_PER_MAP)).get ⟨s % HEADERS_PER_MAP, Nat.mod_lt s (by decide)⟩

/-- The batches that put header `f s` into slot `s`. -/
def ofSlots {S : ℕ} (f : ℕ → EncodedHeaderVariable S) (j : ℕ) :
    ArrayVariable (EncodedHeaderVariable S) HEADERS_PER_MAP :=
  ArrayVariable.ofFn fun i => f (j * HEADERS_PER_MAP + i.val)

@[simp] theorem slotHeader_ofSlots {S : ℕ} (f : ℕ → EncodedHeaderVariable S) (s : ℕ) :
    slotHeader (ofSlots f) s = f s := by
  rw [slotHeader, ofSlots, ArrayVariable.get_ofFn]
  exact congrArg f (Nat.div_add_mod' s HEADERS_PER_MAP)

/-- The blocks `b` are what the circuit reads from the first `n` slots. -/
def ReadsSlots (crypto : Crypto) {S : ℕ}
    (headers : ℕ → ArrayVariable (EncodedHeaderVariable S) HEADERS_PER_MAP) (n : ℕ)
    (b : ℕ → Block) : Prop :=
  ∀ s, s < n → readBlock crypto (slotHeader headers s) = some (b s)

theorem slotHeader_eq_get {S : ℕ}
    (headers : ℕ → ArrayVariable (EncodedHeaderVariable S) HEADERS_PER_MAP) (j : ℕ) {t : ℕ}
    (ht : t < HEADERS_PER_MAP) : slotHeader headers (j * 8 + t) = (headers j).get ⟨t, ht⟩ := by
  have hget : ∀ (j' : ℕ) (i : Fin HEADERS_PER_MAP), j' = j → i.val = t →
      (headers j').get i = (headers j).get ⟨t, ht⟩ := by
    rintro _ ⟨_, _⟩ rfl rfl
    rfl
  simp only [HEADERS_PER_MAP] at ht
  exact hget _ _ (by simp only [HEADERS_PER_MAP]; omega) (by simp only [HEADERS_PER_MAP]; omega)

/-- The slots of job `j` are the headers of its batch. -/
theorem data_eq_map_slotHeader {S : ℕ}
    (headers : ℕ → ArrayVariable (EncodedHeaderVariable S) HEADERS_PER_MAP) (j : ℕ) :
    (headers j).data = (List.range 8).map fun t => slotHeader headers (j * 8 + t) := by
  apply List.ext_getElem?
  intro t
  by_cases ht : t < HEADERS_PER_MAP
  · rw [(headers j).getElem?_data ⟨t, ht⟩, ← slotHeader_eq_get headers j ht, List.getElem?_map,
      List.getElem?_range (show t < 8 from ht)]
    rfl
  · rw [List.getElem?_eq_none (by rw [(headers j).length_data]; omega),
      List.getElem?_eq_none (by simpa [HEADERS_PER_MAP] using ht)]

/-- The headers of job `j` are read as the blocks of its slots. -/
theorem ReadsSlots.mapM {crypto : Crypto} {S n : ℕ}
    {headers : ℕ → ArrayVariable (EncodedHeaderVariable S) HEADERS_PER_MAP} {b : ℕ → Block}
    (h : ReadsSlots crypto headers n b) {j : ℕ} (hj : j * 8 + 8 ≤ n) :
    (headers j).data.mapM (readBlock crypto) =
      some ((List.range 8).map fun t => b (j * 8 + t)) := by
  rw [data_eq_map_slotHeader, List.mapM_map, TreeReduce.mapM_eq_some_map]
  intro t ht
  rw [List.mem_range] at ht
  exact h (j * 8 + t) (by omega)

end Slots

/-! ## Segments -/

/-- The leaf of slot `s`: zero bytes after the target block. -/
def leafOf (k : ℕ) (f : ℕ → Bytes32Variable) (s : ℕ) : Bytes32Variable :=
  if s < k then f s else emptyBytes32

/-- What the output of a subtree says about the `width` slots from `lo` on, if the target block is
`k` blocks after the trusted block `T`. -/
structure Segment (crypto : Crypto) (T k : ℕ) (b : ℕ → Block) (lo width : ℕ)
    (out : MapReduceSubchainVariable) : Prop where
  width_pos : 0 < width
  numBlocks : out.numBlocks.val = min k (lo + width) - lo
  startNumber : lo < k → (b lo).header.blockNumber.toNat = T + lo + 1
  startBlock : out.startBlock = (b lo).header.blockNumber
  startParent : out.startParent = (b lo).header.parentHash
  endBlock : lo < k → out.endBlock.toNat = T + min k (lo + width)
  endHeaderHash : lo < k → out.endHeaderHash = (b (min k (lo + width) - 1)).hash
  follows : ∀ t, lo ≤ t → t + 1 < min k (lo + width) → Follows (b t) (b (t + 1))
  stateRoot : Merkle.IsRoot (hashNode crypto) (leafOf k fun s => (b s).header.stateRoot) lo width
    out.stateMerkleRoot
  dataRoot : Merkle.IsRoot (hashNode crypto) (leafOf k fun s => (b s).header.dataRoot) lo width
    out.dataMerkleRoot

section Segments

variable {crypto : Crypto} {T k : ℕ} {b : ℕ → Block}

/-- A batch root is the root over its slots. -/
theorem isRoot_batch (f : ℕ → Bytes32Variable) (lo : ℕ) :
    Merkle.IsRoot (hashNode crypto) (leafOf k f) lo 8
      (Merkle.root (hashNode crypto)
        (fun i => if i < min k (lo + 8) - lo then f (lo + i) else emptyBytes32) 3 0) := by
  refine ⟨3, rfl, ?_⟩
  rw [← Nat.add_zero lo, ← Merkle.root_shift]
  refine Merkle.root_congr 3 0 fun i _ hi => ?_
  have hiff : i < min k (lo + 8) - lo ↔ lo + i < k := by omega
  simp only [Nat.add_zero, leafOf, hiff]

/-- The output of a map job summarises its batch. -/
theorem segment_batch {lo : ℕ}
    (hnum : lo < k → (b lo).header.blockNumber.toNat = T + lo + 1)
    (hfollows : ∀ t, t + 1 < min k (lo + 8) - lo → Follows (b (lo + t)) (b (lo + (t + 1)))) :
    Segment crypto T k b lo 8
      (batchOutput crypto (fun t => b (lo + t)) (min k (lo + 8) - lo)) where
  width_pos := by decide
  numBlocks := Variable.val_ofNat_of_lt (Nat.lt_of_le_of_lt (by omega : _ ≤ 8) (by decide))
  startNumber := hnum
  startBlock := rfl
  startParent := rfl
  endBlock := by
    intro hlo
    have hlast := blockNumber_of_follows (c := fun t => b (lo + t)) hfollows
      (min k (lo + 8) - lo - 1) (by omega)
    have hfirst := hnum hlo
    simp only [batchOutput, show ¬min k (lo + 8) - lo = 0 by omega, if_false, hlast, Nat.add_zero]
    omega
  endHeaderHash := by
    intro hlo
    have hidx : lo + (min k (lo + 8) - lo - 1) = min k (lo + 8) - 1 := by omega
    simp only [batchOutput, show ¬min k (lo + 8) - lo = 0 by omega, if_false, hidx]
  follows := by
    intro t ht hlt
    have hstep := hfollows (t - lo) (by omega)
    rwa [show lo + (t - lo) = t by omega, show lo + (t - lo + 1) = t + 1 by omega] at hstep
  stateRoot := isRoot_batch (fun s => (b s).header.stateRoot) lo
  dataRoot := isRoot_batch (fun s => (b s).header.dataRoot) lo

variable {lo width : ℕ} {left right out : MapReduceSubchainVariable}

/-- The right segment is inactive if it starts after the target block. -/
theorem Segment.isZero_numBlocks (hright : Segment crypto T k b (lo + width) width right) :
    isZero right.numBlocks = decide (k ≤ lo + width) := by
  have hnum := hright.numBlocks
  have hpos := hright.width_pos
  have hiff : right.numBlocks = 0 ↔ k ≤ lo + width := by
    rw [Fin.ext_iff, hnum, Fin.val_zero]
    omega
  simp only [isZero, hiff]

/-- The link check of a reduce step on two neighbouring segments. -/
theorem Segment.linked_iff (hbound : T + k < 2 ^ 32) (hleft : Segment crypto T k b lo width left)
    (hright : Segment crypto T k b (lo + width) width right) (hlt : lo + width < k) :
    (left.endHeaderHash = right.startParent ∧ left.endBlock = right.startBlock - 1) ↔
      Follows (b (lo + width - 1)) (b (lo + width)) := by
  have hpos := hleft.width_pos
  have hmin : min k (lo + width) = lo + width := by omega
  have hend := hleft.endBlock (by omega)
  have hhash := hleft.endHeaderHash (by omega)
  have hnum := hright.startNumber hlt
  rw [hmin] at hend hhash
  have hseq : left.endBlock = right.startBlock - 1 := by
    rw [← UInt32.toNat_inj, UInt32.toNat_sub, hend, hright.startBlock, hnum]
    have hone : (1 : UInt32).toNat = 1 := rfl
    rw [hone]
    omega
  have hlast : (b (lo + width - 1)).header.blockNumber.toNat = T + lo + width := by
    have hfirst := hleft.startNumber (by omega)
    have hchain := blockNumber_of_follows (c := fun t => b (lo + t)) (n := width)
      (fun t ht => hleft.follows (lo + t) (by omega) (by omega)) (width - 1) (by omega)
    simp only [Nat.add_zero] at hchain
    rw [show lo + width - 1 = lo + (width - 1) by omega, hchain, hfirst]
    omega
  rw [hhash, hright.startParent]
  constructor
  · rintro ⟨hparent, -⟩
    exact ⟨hparent.symm, by rw [hnum, hlast]; omega⟩
  · intro h
    exact ⟨h.parentHash.symm, hseq⟩

/-- A reduce step on two neighbouring segments accepts if they are linked. -/
theorem Segment.reduceStage_isSome (hbound : T + k < 2 ^ 32)
    (hleft : Segment crypto T k b lo width left)
    (hright : Segment crypto T k b (lo + width) width right)
    (hlink : lo + width < k → Follows (b (lo + width - 1)) (b (lo + width))) :
    ∃ out, reduceStage crypto left right = some out := by
  by_cases hlt : lo + width < k
  · obtain ⟨hhash, hblock⟩ := (hleft.linked_iff hbound hright hlt).mpr (hlink hlt)
    simp [reduceStage, ← hhash, ← hblock, isEqual, assertIsEqual]
  · have hinactive : isZero right.numBlocks = true := by
      rw [hright.isZero_numBlocks]
      exact decide_eq_true (by omega)
    simp [reduceStage, hinactive, assertIsEqual]

/-- A reduce step on two neighbouring segments summarises both of them. -/
theorem Segment.reduceStage (hbound : T + k < 2 ^ 32) (hleft : Segment crypto T k b lo width left)
    (hright : Segment crypto T k b (lo + width) width right)
    (h : reduceStage crypto left right = some out) :
    Segment crypto T k b lo (width + width) out := by
  simp only [VectorX.reduceStage, Option.bind_eq_bind, Option.bind_eq_some_iff,
    assertIsEqual_eq_some, Option.some.injEq] at h
  obtain ⟨_, hvalid, rfl⟩ := h
  have hpos := hleft.width_pos
  have hinactive := hright.isZero_numBlocks
  have hlink : lo + width < k → Follows (b (lo + width - 1)) (b (lo + width)) := by
    intro hlt
    rw [hinactive, decide_eq_false (by omega)] at hvalid
    refine (hleft.linked_iff hbound hright hlt).mp ?_
    simpa using hvalid
  have hnum : (left.numBlocks + right.numBlocks).val = min k (lo + (width + width)) - lo := by
    have hlt : (min k (lo + width) - lo) + (min k (lo + width + width) - (lo + width)) <
        GOLDILOCKS := Nat.lt_trans (by omega : _ < 2 ^ 32) two_pow_32_lt_goldilocks
    rw [Fin.val_add, hleft.numBlocks, hright.numBlocks, Nat.mod_eq_of_lt hlt]
    omega
  have hroots := fun f : ℕ → Bytes32Variable => @Merkle.IsRoot.node _ (hashNode crypto) (leafOf k f)
  by_cases hlt : lo + width < k
  · have hselect : isZero right.numBlocks = false := by
      rw [hinactive]
      exact decide_eq_false (by omega)
    rw [hselect]
    exact {
      width_pos := by omega
      numBlocks := hnum
      startNumber := hleft.startNumber
      startBlock := hleft.startBlock
      startParent := hleft.startParent
      endBlock := fun _ => by rw [← Nat.add_assoc]; exact hright.endBlock hlt
      endHeaderHash := fun _ => by rw [← Nat.add_assoc]; exact hright.endHeaderHash hlt
      follows := by
        intro t ht hbefore
        rcases Nat.lt_trichotomy (t + 1) (lo + width) with hl | he | hr
        · exact hleft.follows t ht (by omega)
        · rw [show t = lo + width - 1 by omega, show lo + width - 1 + 1 = lo + width by omega]
          exact hlink hlt
        · exact hright.follows t (by omega) (by omega)
      stateRoot := hroots _ hleft.stateRoot hright.stateRoot
      dataRoot := hroots _ hleft.dataRoot hright.dataRoot }
  · have hselect : isZero right.numBlocks = true := by
      rw [hinactive]
      exact decide_eq_true (by omega)
    have hmin : min k (lo + (width + width)) = min k (lo + width) := by omega
    rw [hselect]
    exact {
      width_pos := by omega
      numBlocks := hnum
      startNumber := hleft.startNumber
      startBlock := hleft.startBlock
      startParent := hleft.startParent
      endBlock := fun hlo => by rw [hmin]; exact hleft.endBlock hlo
      endHeaderHash := fun hlo => by rw [hmin]; exact hleft.endHeaderHash hlo
      follows := fun t ht hbefore => hleft.follows t ht (by omega)
      stateRoot := hroots _ hleft.stateRoot hright.stateRoot
      dataRoot := hroots _ hleft.dataRoot hright.dataRoot }

end Segments

/-! ## The root -/

/-- The depth of the Merkle trees of the circuit. -/
def treeDepth (MAX_NUM_HEADERS : ℕ) : ℕ := Nat.clog 2 (MAX_NUM_HEADERS / HEADERS_PER_MAP) + 3

/-- The trees have a leaf for every slot. -/
theorem two_pow_treeDepth (MAX_NUM_HEADERS : ℕ) :
    2 ^ treeDepth MAX_NUM_HEADERS = 8 * numMapJobs MAX_NUM_HEADERS := by
  have height : 2 ^ 3 = 8 := rfl
  rw [treeDepth, pow_add, numMapJobs, Merkle.nextPowerOfTwo, height, Nat.mul_comm]

/-- The relative block numbers count from 1, as long as they fit 32 bits. -/
theorem relativeBlockNums_eq {J : ℕ} (h : 8 * J < 2 ^ 32) :
    relativeBlockNums J = (List.range' 1 (8 * J)).map UInt32.ofNat := by
  have hstop : (UInt32.ofNat J * UInt32.ofNat HEADERS_PER_MAP + 1).toNat = 8 * J + 1 := by
    have hone : (1 : UInt32).toNat = 1 := rfl
    simp only [UInt32.toNat_add, UInt32.toNat_mul, UInt32.toNat_ofNat', HEADERS_PER_MAP, hone]
    omega
  rw [relativeBlockNums, hstop, Nat.add_sub_cancel]

/-- The relative block numbers of a batch. -/
theorem getElem?_slice_relativeBlockNums {J j i : ℕ} (h : 8 * J < 2 ^ 32) (hj : j < J) (hi : i < 8) :
    (Bytes.slice (relativeBlockNums J) (j * 8) 8)[i]? = some (UInt32.ofNat (j * 8 + i + 1)) := by
  rw [Bytes.getElem?_slice, if_pos hi, relativeBlockNums_eq h, List.getElem?_map,
    List.getElem?_range' (by omega)]
  simp only [Option.map_some, Option.some.injEq]
  congr 1
  omega

/-- The blocks `b` are a chain on top of the trusted block. -/
structure IsSubchain (T : ℕ) (trustedHeaderHash : Bytes32Variable) (k : ℕ) (b : ℕ → Block) :
    Prop where
  first : (b 0).header.blockNumber.toNat = T + 1
  trusted : (b 0).header.parentHash = trustedHeaderHash
  follows : ∀ t, t + 1 < k → Follows (b t) (b (t + 1))

/-- The output for a chain of `k` blocks. -/
def subchainOutput (crypto : Crypto) (b : ℕ → Block) (k depth : ℕ) :
    SubchainVerificationVariable where
  targetHeaderHash := (b (k - 1)).hash
  stateRootMerkleRoot :=
    Merkle.root (hashNode crypto) (leafOf k fun s => (b s).header.stateRoot) depth 0
  dataRootMerkleRoot :=
    Merkle.root (hashNode crypto) (leafOf k fun s => (b s).header.dataRoot) depth 0

section Root

variable {crypto : Crypto} {MAX_NUM_HEADERS : ℕ} {trustedBlock targetBlock : U32Variable}
  {trustedHeaderHash : Bytes32Variable}
  {headers : ℕ → ArrayVariable (EncodedHeaderVariable MAX_HEADER_SIZE) HEADERS_PER_MAP}
  {b : ℕ → Block} {o : SubchainVerificationVariable}

/-- The map job of batch `j`. -/
def mapJob (crypto : Crypto) (MAX_NUM_HEADERS : ℕ) (trustedBlock targetBlock : U32Variable)
    (headers : ℕ → ArrayVariable (EncodedHeaderVariable MAX_HEADER_SIZE) HEADERS_PER_MAP) (j : ℕ) :
    Option MapReduceSubchainVariable :=
  mapStage crypto { globalStartBlock := trustedBlock, globalEndBlock := targetBlock }
    (Bytes.slice (relativeBlockNums (numMapJobs MAX_NUM_HEADERS)) (j * HEADERS_PER_MAP)
      HEADERS_PER_MAP) (headers j)

/-- The circuit accepts if the jobs, the reduction and the two final checks do. -/
theorem verifySubchain_eq_some_iff (hsize : 8 * numMapJobs MAX_NUM_HEADERS < 2 ^ 32) :
    verifySubchain crypto MAX_NUM_HEADERS trustedBlock trustedHeaderHash targetBlock headers =
        some o ↔
      ∃ outputs out,
        (List.range' 0 (numMapJobs MAX_NUM_HEADERS)).mapM
          (mapJob crypto MAX_NUM_HEADERS trustedBlock targetBlock headers) = some outputs ∧
        TreeReduce.reduceTree (reduceStage crypto) outputs = some out ∧
        trustedHeaderHash = out.startParent ∧ targetBlock = out.endBlock ∧
        o = ⟨out.endHeaderHash, out.stateMerkleRoot, out.dataMerkleRoot⟩ := by
  have hlength : (relativeBlockNums (numMapJobs MAX_NUM_HEADERS)).length =
      numMapJobs MAX_NUM_HEADERS * HEADERS_PER_MAP := by
    rw [relativeBlockNums_eq hsize, List.length_map, List.length_range', Nat.mul_comm]
    rfl
  have hjobs : (relativeBlockNums (numMapJobs MAX_NUM_HEADERS)).length / HEADERS_PER_MAP =
      numMapJobs MAX_NUM_HEADERS := by
    rw [hlength, Nat.mul_div_cancel _ (by decide)]
  simp only [verifySubchain, crypto.mapreduce_eq _ _ _ _ _ _ _ hlength, mapReduceTree, hjobs,
    List.range_eq_range', Option.bind_eq_bind, Option.bind_eq_some_iff, assertIsEqual_eq_some,
    Option.some.injEq]
  constructor
  · rintro ⟨out, ⟨outputs, hmap, hreduce⟩, _, htrusted, _, htarget, rfl⟩
    exact ⟨outputs, out, hmap, hreduce, htrusted, htarget, rfl⟩
  · rintro ⟨outputs, out, hmap, hreduce, htrusted, htarget, rfl⟩
    exact ⟨out, ⟨outputs, hmap, hreduce⟩, (), htrusted, (), htarget, rfl⟩

/-- What a map job decides, on the blocks of its slots. -/
theorem mapJob_eq_some (hsize : 8 * numMapJobs MAX_NUM_HEADERS < 2 ^ 32)
    (hbound : trustedBlock.toNat + 8 * numMapJobs MAX_NUM_HEADERS < 2 ^ 32 + 7)
    (hread : ReadsSlots crypto headers (8 * numMapJobs MAX_NUM_HEADERS) b) {j : ℕ}
    (hj : j < numMapJobs MAX_NUM_HEADERS) {k : ℕ} (hk : trustedBlock.toNat + k = targetBlock.toNat)
    {out : MapReduceSubchainVariable} :
    mapJob crypto MAX_NUM_HEADERS trustedBlock targetBlock headers j = some out ↔
      (j * 8 < k → (b (j * 8)).header.blockNumber.toNat = trustedBlock.toNat + j * 8 + 1) ∧
      (∀ t, t + 1 < min k (j * 8 + 8) - j * 8 → Follows (b (j * 8 + t)) (b (j * 8 + (t + 1)))) ∧
      out = batchOutput crypto (fun t => b (j * 8 + t)) (min k (j * 8 + 8) - j * 8) := by
  have htarget : targetBlock.toNat < 2 ^ 32 := targetBlock.toNat_lt
  have hstart : (trustedBlock + UInt32.ofNat (j * 8 + 0 + 1)).toNat =
      trustedBlock.toNat + j * 8 + 1 := by
    rw [UInt32.toNat_add, UInt32.toNat_ofNat']
    omega
  have hend : trustedBlock.toNat + j * 8 + 1 + 7 ≤ targetBlock.toNat →
      (trustedBlock + UInt32.ofNat (j * 8 + 7 + 1)).toNat = trustedBlock.toNat + j * 8 + 1 + 7 := by
    intro hle
    rw [UInt32.toNat_add, UInt32.toNat_ofNat']
    omega
  have hstage := mapStage_eq_some ⟨trustedBlock, targetBlock⟩ out
    (getElem?_slice_relativeBlockNums hsize hj (by omega : 0 < 8))
    (getElem?_slice_relativeBlockNums hsize hj (by omega : 7 < 8))
    (hread.mapM (by omega : j * 8 + 8 ≤ 8 * numMapJobs MAX_NUM_HEADERS)) hstart hend
  have hmin : min (targetBlock.toNat + 1 - (trustedBlock.toNat + j * 8 + 1)) 8 =
      min k (j * 8 + 8) - j * 8 := by omega
  have hactive : trustedBlock.toNat + j * 8 + 1 ≤ targetBlock.toNat ↔ j * 8 < k := by omega
  rw [hmin, hactive] at hstage
  exact hstage

/-- **Characterisation.** The circuit accepts exactly the chains from the trusted block to the
target block, and returns the target hash and the two Merkle roots. -/
theorem verifySubchain_eq_some (hsize : 8 * numMapJobs MAX_NUM_HEADERS < 2 ^ 32)
    (hbound : trustedBlock.toNat + 8 * numMapJobs MAX_NUM_HEADERS < 2 ^ 32 + 7)
    (hread : ReadsSlots crypto headers (8 * numMapJobs MAX_NUM_HEADERS) b) {k : ℕ} (hpos : 0 < k)
    (hk : trustedBlock.toNat + k = targetBlock.toNat) :
    verifySubchain crypto MAX_NUM_HEADERS trustedBlock trustedHeaderHash targetBlock headers =
        some o ↔
      k ≤ 8 * numMapJobs MAX_NUM_HEADERS ∧
        IsSubchain trustedBlock.toNat trustedHeaderHash k b ∧
        o = subchainOutput crypto b k (treeDepth MAX_NUM_HEADERS) := by
  have htarget : targetBlock.toNat < 2 ^ 32 := targetBlock.toNat_lt
  have hjobs : numMapJobs MAX_NUM_HEADERS = 2 ^ Nat.clog 2 (MAX_NUM_HEADERS / HEADERS_PER_MAP) := rfl
  have hwidth : 2 ^ Nat.clog 2 (MAX_NUM_HEADERS / HEADERS_PER_MAP) * 8 =
      2 ^ treeDepth MAX_NUM_HEADERS := by
    rw [two_pow_treeDepth, ← hjobs, Nat.mul_comm]
  -- the leaves of the reduction are segments
  have hleaf : ∀ j out, j < numMapJobs MAX_NUM_HEADERS →
      mapJob crypto MAX_NUM_HEADERS trustedBlock targetBlock headers (0 + j) = some out →
      Segment crypto trustedBlock.toNat k b (0 + j * 8) 8 out := by
    intro j out hj hout
    rw [Nat.zero_add] at hout ⊢
    obtain ⟨hnum, hfollows, rfl⟩ := (mapJob_eq_some hsize hbound hread hj hk).mp hout
    exact segment_batch hnum hfollows
  have hstep : ∀ lo width l r out, Segment crypto trustedBlock.toNat k b lo width l →
      Segment crypto trustedBlock.toNat k b (lo + width) width r → reduceStage crypto l r = some out →
      Segment crypto trustedBlock.toNat k b lo (width + width) out :=
    fun lo width l r out hl hr h => hl.reduceStage (by omega) hr h
  -- what the final checks make of the root segment
  have hroot : ∀ out, Segment crypto trustedBlock.toNat k b 0 (2 ^ treeDepth MAX_NUM_HEADERS) out →
      k ≤ 8 * numMapJobs MAX_NUM_HEADERS →
      (⟨out.endHeaderHash, out.stateMerkleRoot, out.dataMerkleRoot⟩ :
        SubchainVerificationVariable) = subchainOutput crypto b k (treeDepth MAX_NUM_HEADERS) := by
    intro out hout hle
    have hmin : min k (0 + 2 ^ treeDepth MAX_NUM_HEADERS) = k := by
      rw [two_pow_treeDepth]
      omega
    have hhash := hout.endHeaderHash hpos
    rw [hmin] at hhash
    rw [hhash, hout.stateRoot.eq_root, hout.dataRoot.eq_root]
    rfl
  rw [verifySubchain_eq_some_iff hsize]
  constructor
  · rintro ⟨outputs, out, hmap, hreduce, htrusted, hend, rfl⟩
    obtain ⟨hcov, hlen⟩ := TreeReduce.covers_mapM_range _ 0 0 hleaf hmap
    have hout := TreeReduce.reduceTree_inv hstep (hlen.trans hjobs) hcov hreduce
    rw [hwidth] at hout
    have hblock := hout.endBlock hpos
    rw [← hend, two_pow_treeDepth] at hblock
    have hle : k ≤ 8 * numMapJobs MAX_NUM_HEADERS := by omega
    refine ⟨hle, ⟨hout.startNumber hpos, ?_, ?_⟩, hroot out hout hle⟩
    · rw [htrusted, hout.startParent]
    · intro t ht
      refine hout.follows t (Nat.zero_le t) ?_
      rw [two_pow_treeDepth]
      omega
  · rintro ⟨hle, hchain, rfl⟩
    have hnumber := blockNumber_of_follows hchain.follows
    have hjob : ∀ j ∈ List.range' 0 (numMapJobs MAX_NUM_HEADERS), ∃ out,
        mapJob crypto MAX_NUM_HEADERS trustedBlock targetBlock headers j = some out := by
      intro j hj
      rw [List.mem_range'_1] at hj
      refine ⟨_, (mapJob_eq_some hsize hbound hread (by omega) hk).mpr ⟨?_, ?_, rfl⟩⟩
      · intro hj'
        rw [hnumber _ hj', hchain.first]
        omega
      · exact fun t ht => hchain.follows (j * 8 + t) (by omega)
    obtain ⟨outputs, hmap⟩ := TreeReduce.mapM_isSome _ hjob
    obtain ⟨hcov, hlen⟩ := TreeReduce.covers_mapM_range _ 0 0 hleaf hmap
    obtain ⟨out, hreduce⟩ := TreeReduce.reduceTree_isSome hstep
      (fun lo width l r hl hr => hl.reduceStage_isSome (by omega) hr fun hlt => by
        have hpos' := hl.width_pos
        have hlink := hchain.follows (lo + width - 1) (by omega)
        rwa [show lo + width - 1 + 1 = lo + width by omega] at hlink)
      (hlen.trans hjobs) hcov
    have hout := TreeReduce.reduceTree_inv hstep (hlen.trans hjobs) hcov hreduce
    rw [hwidth] at hout
    have hblock := hout.endBlock hpos
    rw [two_pow_treeDepth, show min k (0 + 8 * numMapJobs MAX_NUM_HEADERS) = k by omega, hk,
      UInt32.toNat_inj] at hblock
    refine ⟨outputs, out, hmap, hreduce, ?_, hblock.symm, (hroot out hout hle).symm⟩
    rw [hout.startParent, hchain.trusted]

end Root

end VectorX
