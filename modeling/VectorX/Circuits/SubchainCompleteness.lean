import VectorX.Circuits.SubchainSoundness

/-!
# Completeness of the subchain verification

What the hints write for a chain of headers, batch by batch, and when the circuit accepts it. The
only obstacle is in the fetching of a batch: the end of a group of 200 requests may overflow.
-/

namespace VectorX

open Plonky2x Plonky2x.CircuitBuilder

/-! ## What the hints write -/

section Hints

variable {crypto : Crypto} (chain : Chain crypto)

/-- The headers that the hint of map job `j` writes. -/
def hintHeaders (MAX_NUM_HEADERS : ℕ) (trustedBlock targetBlock : U32Variable) (j : ℕ) :
    Option (ArrayVariable (EncodedHeaderVariable MAX_HEADER_SIZE) HEADERS_PER_MAP) := do
  let relative := Bytes.slice (relativeBlockNums (numMapJobs MAX_NUM_HEADERS))
    (j * HEADERS_PER_MAP) HEADERS_PER_MAP
  let first ← relative[0]?
  let last ← relative[HEADERS_PER_MAP - 1]?
  headerRangeFetcherHint chain MAX_HEADER_SIZE HEADERS_PER_MAP (trustedBlock + first)
    (trustedBlock + last) targetBlock

/-- The hints of all map jobs write the given headers. -/
def HintsWrite (MAX_NUM_HEADERS : ℕ) (trustedBlock targetBlock : U32Variable)
    (headers : ℕ → ArrayVariable (EncodedHeaderVariable MAX_HEADER_SIZE) HEADERS_PER_MAP) : Prop :=
  ∀ j, j < numMapJobs MAX_NUM_HEADERS →
    hintHeaders chain MAX_NUM_HEADERS trustedBlock targetBlock j = some (headers j)

/-- Every header of the range fits the circuit. -/
def HeadersFit (trustedBlock targetBlock : ℕ) : Prop :=
  ∀ n, trustedBlock < n → n ≤ targetBlock → (chain.header n).encode.length ≤ MAX_HEADER_SIZE

/-- The header of slot `s`: that of the block, or an empty header after the target block. -/
def honestSlot (trustedBlock k s : ℕ) : EncodedHeaderVariable MAX_HEADER_SIZE :=
  if s < k then
    (encodedHeader MAX_HEADER_SIZE (chain.header (trustedBlock + 1 + s))).getD
      (emptyHeader MAX_HEADER_SIZE)
  else emptyHeader MAX_HEADER_SIZE

variable {chain} {T k : ℕ}

/-- The encoding of a header that fits. -/
theorem encodedHeader_eq_honestSlot (hfit : HeadersFit chain T (T + k)) {s : ℕ} (hs : s < k) :
    encodedHeader MAX_HEADER_SIZE (chain.header (T + 1 + s)) = some (honestSlot chain T k s) := by
  have hlen := hfit (T + 1 + s) (by omega) (by omega)
  rw [honestSlot, if_pos hs, encodedHeader, dif_pos hlen, Option.getD_some]

/-- The circuit reads the blocks of the chain from the slots. -/
theorem readsSlots_honestSlot (hfit : HeadersFit chain T (T + k)) (n : ℕ) :
    ReadsSlots crypto (ofSlots (honestSlot chain T k)) n (honestBlock chain T k) := by
  intro s _
  rw [slotHeader_ofSlots]
  by_cases hs : s < k
  · rw [honestBlock, if_pos hs]
    exact readBlock_encodedHeader (by decide) (encodedHeader_eq_honestSlot hfit hs)
  · rw [honestBlock, if_neg hs, honestSlot, if_neg hs]
    exact readBlock_emptyHeader (by decide)

/-! ## The hint of one map job -/

/-- A list of the headers of a batch is the array of its slots. -/
theorem newArray_eq_ofSlots {S : ℕ} {f : ℕ → EncodedHeaderVariable S} {j : ℕ}
    {l : List (EncodedHeaderVariable S)} (hl : l = (List.range 8).map fun t => f (j * 8 + t)) :
    newArray HEADERS_PER_MAP l = some (ofSlots f j) := by
  have hlen : l.length = HEADERS_PER_MAP := by
    rw [hl, List.length_map, List.length_range]
    rfl
  have hdata : (ofSlots f j).data = (List.range 8).map fun t => f (j * 8 + t) := by
    rw [data_eq_map_slotHeader]
    simp only [slotHeader_ofSlots]
  rw [newArray, dif_pos hlen]
  exact congrArg some (ArrayVariable.ext (hl.trans hdata.symm))

/-- The slots of a batch with `n` headers. -/
theorem map_honestSlot_eq {j n : ℕ} (hn : n ≤ 8) (hcut : ∀ t, t < 8 → (t < n ↔ j * 8 + t < k)) :
    (List.range n).map (fun t => honestSlot chain T k (j * 8 + t)) ++
        List.replicate (8 - n) (emptyHeader MAX_HEADER_SIZE) =
      (List.range 8).map fun t => honestSlot chain T k (j * 8 + t) := by
  rw [Merkle.map_range_append_replicate hn]
  refine List.map_congr_left fun t ht => ?_
  have hiff := hcut t (List.mem_range.mp ht)
  by_cases htn : t < n
  · rw [if_pos htn]
  · rw [if_neg htn, honestSlot, if_neg (fun h => htn (hiff.mpr h))]

variable {MAX_NUM_HEADERS : ℕ} {trustedBlock targetBlock : U32Variable}

/-- The headers of the batch of job `j`. -/
def batchHeaders (chain : Chain crypto) (T k j : ℕ) : List Header :=
  (List.range (min 8 (k - j * 8))).map fun t => chain.header (T + 1 + (j * 8 + t))

/-- The hint of a map job fetches the headers of its batch, unless the first of them is so close to
the largest block number that a group of requests overflows. -/
theorem hintHeaders_eq_bind (hsize : 8 * numMapJobs MAX_NUM_HEADERS < 2 ^ 32)
    (hbound : trustedBlock.toNat + 8 * numMapJobs MAX_NUM_HEADERS < 2 ^ 32 + 7)
    (hk : trustedBlock.toNat + k = targetBlock.toNat)
    (hfirst : chain.first.toNat ≤ trustedBlock.toNat)
    (hhead : targetBlock.toNat ≤ chain.head.toNat) {j : ℕ} (hj : j < numMapJobs MAX_NUM_HEADERS)
    (hwrap : j * 8 < k → trustedBlock.toNat + j * 8 + 8 < 2 ^ 32) :
    hintHeaders chain MAX_NUM_HEADERS trustedBlock targetBlock j =
      (if j * 8 < k ∧ 2 ^ 32 ≤ trustedBlock.toNat + j * 8 + 201 then none
        else (batchHeaders chain trustedBlock.toNat k j).mapM (encodedHeader MAX_HEADER_SIZE)).bind
      fun headerVariables => newArray HEADERS_PER_MAP (headerVariables ++
        List.replicate (8 - min 8 (k - j * 8)) (emptyHeader MAX_HEADER_SIZE)) := by
  have hstart : (trustedBlock + UInt32.ofNat (j * 8 + 0 + 1)).toNat =
      trustedBlock.toNat + j * 8 + 1 := by
    rw [UInt32.toNat_add, UInt32.toNat_ofNat']
    omega
  have hlast : j * 8 < k → (trustedBlock + UInt32.ofNat (j * 8 + 7 + 1)).toNat =
      trustedBlock.toNat + j * 8 + 8 := by
    intro hlt
    have hlt' := hwrap hlt
    rw [UInt32.toNat_add, UInt32.toNat_ofNat']
    omega
  have hfirstNum : (Bytes.slice (relativeBlockNums (numMapJobs MAX_NUM_HEADERS))
      (j * HEADERS_PER_MAP) HEADERS_PER_MAP)[0]? = some (UInt32.ofNat (j * 8 + 0 + 1)) :=
    getElem?_slice_relativeBlockNums hsize hj (by decide)
  have hlastNum : (Bytes.slice (relativeBlockNums (numMapJobs MAX_NUM_HEADERS))
      (j * HEADERS_PER_MAP) HEADERS_PER_MAP)[HEADERS_PER_MAP - 1]? =
        some (UInt32.ofNat (j * 8 + 7 + 1)) :=
    getElem?_slice_relativeBlockNums hsize hj (by decide : 7 < 8)
  rw [hintHeaders]
  simp only [hfirstNum, hlastNum, Option.bind_eq_bind, Option.bind_some, headerRangeFetcherHint]
  generalize trustedBlock + UInt32.ofNat (j * 8 + 0 + 1) = startBlock at *
  generalize trustedBlock + UInt32.ofNat (j * 8 + 7 + 1) = batchEnd at *
  generalize hlastBlock : (if batchEnd ≤ targetBlock then batchEnd else targetBlock) = lastBlock
  have hmin : lastBlock.toNat = min batchEnd.toNat targetBlock.toNat :=
    hlastBlock ▸ toNat_ite_le batchEnd targetBlock
  by_cases hlt : j * 8 < k
  · have hend := hlast hlt
    have hle : startBlock.toNat ≤ lastBlock.toNat := by omega
    have hzero : (lastBlock.toNat - startBlock.toNat) / 200 = 0 := by omega
    rw [if_pos (UInt32.le_iff_toNat_le.mpr hle), getBlockHeadersRange_eq (by omega) (by omega) hle, hzero,
      hstart]
    by_cases hover : 2 ^ 32 ≤ trustedBlock.toNat + j * 8 + 201
    · rw [if_neg (by omega), if_pos ⟨hlt, hover⟩]
      rfl
    · have hlen : lastBlock.toNat + 1 - (trustedBlock.toNat + j * 8 + 1) = min 8 (k - j * 8) := by
        omega
      have hfetched : (List.range' (trustedBlock.toNat + j * 8 + 1) (min 8 (k - j * 8))).map
          chain.header = batchHeaders chain trustedBlock.toNat k j := by
        rw [List.range'_eq_map_range, List.map_map, batchHeaders]
        refine List.map_congr_left fun t _ => congrArg chain.header ?_
        change trustedBlock.toNat + j * 8 + 1 + t = trustedBlock.toNat + 1 + (j * 8 + t)
        omega
      have hcount : (batchHeaders chain trustedBlock.toNat k j).length = min 8 (k - j * 8) := by
        simp [batchHeaders]
      rw [if_pos (by omega), if_neg (fun h => hover h.2), Option.bind_some, hlen, hfetched, hcount]
      rfl
  · -- the batch starts after the target block
    have hle : ¬startBlock ≤ lastBlock := by
      rw [UInt32.le_iff_toNat_le]
      omega
    have hnone : k - j * 8 = 0 := by omega
    rw [if_neg hle, if_neg (fun h => hlt h.1), batchHeaders, hnone]
    rfl

/-- The hint writes the slots of the batch if its headers fit. -/
theorem hintHeaders_eq (hsize : 8 * numMapJobs MAX_NUM_HEADERS < 2 ^ 32)
    (hbound : trustedBlock.toNat + 8 * numMapJobs MAX_NUM_HEADERS < 2 ^ 32 + 7)
    (hk : trustedBlock.toNat + k = targetBlock.toNat)
    (hfirst : chain.first.toNat ≤ trustedBlock.toNat)
    (hhead : targetBlock.toNat ≤ chain.head.toNat)
    (hfit : HeadersFit chain trustedBlock.toNat (trustedBlock.toNat + k)) {j : ℕ}
    (hj : j < numMapJobs MAX_NUM_HEADERS)
    (hover : j * 8 < k → trustedBlock.toNat + j * 8 + 201 < 2 ^ 32) :
    hintHeaders chain MAX_NUM_HEADERS trustedBlock targetBlock j =
      some (ofSlots (honestSlot chain trustedBlock.toNat k) j) := by
  have hencoded : (batchHeaders chain trustedBlock.toNat k j).mapM (encodedHeader MAX_HEADER_SIZE) =
      some ((List.range (min 8 (k - j * 8))).map fun t =>
        honestSlot chain trustedBlock.toNat k (j * 8 + t)) := by
    rw [batchHeaders, List.mapM_map, TreeReduce.mapM_eq_some_map]
    intro t ht
    rw [List.mem_range] at ht
    exact encodedHeader_eq_honestSlot hfit (by omega)
  rw [hintHeaders_eq_bind hsize hbound hk hfirst hhead hj (fun h => by have := hover h; omega),
    if_neg (fun h => by have := hover h.1; omega), hencoded, Option.bind_some]
  refine newArray_eq_ofSlots (map_honestSlot_eq (Nat.min_le_left _ _) fun t ht => ?_)
  omega

/-- A hint that writes its headers has not overflowed, and its headers fit. -/
theorem of_hintHeaders_eq_some (hsize : 8 * numMapJobs MAX_NUM_HEADERS < 2 ^ 32)
    (hbound : trustedBlock.toNat + 8 * numMapJobs MAX_NUM_HEADERS < 2 ^ 32 + 7)
    (hk : trustedBlock.toNat + k = targetBlock.toNat)
    (hfirst : chain.first.toNat ≤ trustedBlock.toNat)
    (hhead : targetBlock.toNat ≤ chain.head.toNat) {s : ℕ} (hs : s < k)
    (hj : s / 8 < numMapJobs MAX_NUM_HEADERS) (hwrap : trustedBlock.toNat + s / 8 * 8 + 8 < 2 ^ 32)
    {headers : ArrayVariable (EncodedHeaderVariable MAX_HEADER_SIZE) HEADERS_PER_MAP}
    (h : hintHeaders chain MAX_NUM_HEADERS trustedBlock targetBlock (s / 8) = some headers) :
    trustedBlock.toNat + s / 8 * 8 + 201 < 2 ^ 32 ∧
      (chain.header (trustedBlock.toNat + 1 + s)).encode.length ≤ MAX_HEADER_SIZE := by
  rw [hintHeaders_eq_bind hsize hbound hk hfirst hhead hj (fun _ => hwrap), Option.bind_eq_some_iff] at h
  obtain ⟨encoded, hencoded, -⟩ := h
  split at hencoded
  · exact absurd hencoded (by simp)
  · rename_i hover
    refine ⟨by omega, ?_⟩
    have hmem : chain.header (trustedBlock.toNat + 1 + s) ∈
        batchHeaders chain trustedBlock.toNat k (s / 8) := by
      rw [batchHeaders, List.mem_map]
      refine ⟨s % 8, List.mem_range.mpr (by omega), ?_⟩
      rw [Nat.div_add_mod' s 8]
    obtain ⟨e, he⟩ := TreeReduce.exists_of_mapM hencoded _ hmem
    rw [encodedHeader] at he
    split at he
    · assumption
    · exact absurd he (by simp)

/-- Whatever the hints write, the circuit reads the blocks of the chain from it. -/
theorem HintsWrite.readsSlots (hsize : 8 * numMapJobs MAX_NUM_HEADERS < 2 ^ 32)
    (hbound : trustedBlock.toNat + 8 * numMapJobs MAX_NUM_HEADERS < 2 ^ 32)
    (hk : trustedBlock.toNat + k = targetBlock.toNat)
    (hle : k ≤ 8 * numMapJobs MAX_NUM_HEADERS) (hfirst : chain.first.toNat ≤ trustedBlock.toNat)
    (hhead : targetBlock.toNat ≤ chain.head.toNat)
    {headers : ℕ → ArrayVariable (EncodedHeaderVariable MAX_HEADER_SIZE) HEADERS_PER_MAP}
    (h : HintsWrite chain MAX_NUM_HEADERS trustedBlock targetBlock headers) :
    ReadsSlots crypto headers (8 * numMapJobs MAX_NUM_HEADERS)
      (honestBlock chain trustedBlock.toNat k) := by
  have hwritten : ∀ s, s < k → trustedBlock.toNat + s / 8 * 8 + 201 < 2 ^ 32 ∧
      (chain.header (trustedBlock.toNat + 1 + s)).encode.length ≤ MAX_HEADER_SIZE := fun s hs =>
    of_hintHeaders_eq_some hsize (by omega) hk hfirst hhead hs (by omega) (by omega)
      (h (s / 8) (by omega))
  have hfit : HeadersFit chain trustedBlock.toNat (trustedBlock.toNat + k) := by
    intro n hn hn'
    have hslot := (hwritten (n - (trustedBlock.toNat + 1)) (by omega)).2
    rwa [Nat.add_sub_cancel' (by omega)] at hslot
  have heq : ∀ j, j < numMapJobs MAX_NUM_HEADERS →
      headers j = ofSlots (honestSlot chain trustedBlock.toNat k) j := by
    intro j hj
    refine Option.some.inj ((h j hj).symm.trans ?_)
    refine hintHeaders_eq hsize (by omega) hk hfirst hhead hfit hj fun hjk => ?_
    have hover := (hwritten (j * 8) hjk).1
    omega
  intro s hs
  have hslot : slotHeader headers s =
      slotHeader (ofSlots (honestSlot chain trustedBlock.toNat k)) s := by
    rw [slotHeader, slotHeader]
    simp only [HEADERS_PER_MAP, heq (s / 8) (by omega)]
  rw [hslot]
  exact readsSlots_honestSlot hfit _ s hs

/-! ## Completeness -/

/-- The circuit accepts the slots of a chain. -/
theorem verifySubchain_honestSlot (MAX_NUM_HEADERS : ℕ) (trustedBlock : U32Variable)
    (hsize : 8 * numMapJobs MAX_NUM_HEADERS < 2 ^ 32)
    (hbound : trustedBlock.toNat + 8 * numMapJobs MAX_NUM_HEADERS < 2 ^ 32 + 7)
    (hk : trustedBlock.toNat + k = targetBlock.toNat) (hpos : 0 < k)
    (hle : k ≤ 8 * numMapJobs MAX_NUM_HEADERS) (hfirst : chain.first.toNat ≤ trustedBlock.toNat)
    (hhead : targetBlock.toNat ≤ chain.head.toNat)
    (hfit : HeadersFit chain trustedBlock.toNat (trustedBlock.toNat + k)) :
    verifySubchain crypto MAX_NUM_HEADERS trustedBlock
        ((chain.header trustedBlock.toNat).hash crypto) targetBlock
        (ofSlots (honestSlot chain trustedBlock.toNat k)) =
      some (subchainOutput crypto (honestBlock chain trustedBlock.toNat k) k
        (treeDepth MAX_NUM_HEADERS)) :=
  verifySubchain_of_readsSlots hsize hbound hk hpos hle hfirst hhead (readsSlots_honestSlot hfit _)

end Hints

/-! ## Slots past the largest block number -/

section Wrap

variable {crypto : Crypto} {MAX_NUM_HEADERS : ℕ} {trustedBlock targetBlock : U32Variable}
  {trustedHeaderHash : Bytes32Variable}
  {headers : ℕ → ArrayVariable (EncodedHeaderVariable MAX_HEADER_SIZE) HEADERS_PER_MAP}
  {b : ℕ → Block}

/-- A subtree that reaches the last of the `total` slots is active and ends in block `last`. -/
structure EndsIn (total last lo width : ℕ) (out : MapReduceSubchainVariable) : Prop where
  numBlocks_le : out.numBlocks.val ≤ width
  numBlocks_pos : lo + width = total → 0 < out.numBlocks.val
  endBlock : lo + width = total → out.endBlock.toNat = last

/-- The end of the right subtree is the end of both. -/
theorem EndsIn.reduceStage {total last lo width : ℕ} {left right out : MapReduceSubchainVariable}
    (htotal : total < 2 ^ 32) (hleft : EndsIn total last lo width left)
    (hright : EndsIn total last (lo + width) width right)
    (h : reduceStage crypto left right = some out) :
    EndsIn total last lo (width + width) out := by
  simp only [VectorX.reduceStage, Option.bind_eq_bind, Option.bind_eq_some_iff,
    assertIsEqual_eq_some, Option.some.injEq] at h
  obtain ⟨_, -, rfl⟩ := h
  have hl := hleft.numBlocks_le
  have hr := hright.numBlocks_le
  refine ⟨?_, ?_, ?_⟩
  · simp only [Fin.val_add]
    exact Nat.le_trans (Nat.mod_le _ _) (by omega)
  · intro hend
    have hpos := hright.numBlocks_pos (by omega)
    have hlt : left.numBlocks.val + right.numBlocks.val < GOLDILOCKS :=
      Nat.lt_trans (by omega : _ < 2 ^ 32) two_pow_32_lt_goldilocks
    simp only [Fin.val_add, Nat.mod_eq_of_lt hlt]
    omega
  · intro hend
    have hpos := hright.numBlocks_pos (by omega)
    have hactive : isZero right.numBlocks = false := by
      rw [← Bool.not_eq_true, isZero_iff]
      rintro hzero
      rw [hzero, Fin.val_zero] at hpos
      omega
    simp only [hactive, select_false]
    exact hright.endBlock (by omega)

/-- The output of a job whose block numbers may have wrapped around. -/
theorem mapJob_eq_batchOutput (hsize : 8 * numMapJobs MAX_NUM_HEADERS < 2 ^ 32)
    (hread : ReadsSlots crypto headers (8 * numMapJobs MAX_NUM_HEADERS) b) {j : ℕ}
    (hj : j < numMapJobs MAX_NUM_HEADERS) {out : MapReduceSubchainVariable}
    (h : mapJob crypto MAX_NUM_HEADERS trustedBlock targetBlock headers j = some out) :
    ∃ start, start = (trustedBlock.toNat + (j * 8 + 1)) % 2 ^ 32 ∧
      (start ≤ targetBlock.toNat → (b (j * 8)).header.blockNumber.toNat = start) ∧
      (∀ t, t + 1 < min (targetBlock.toNat + 1 - start) 8 →
        Follows (b (j * 8 + t)) (b (j * 8 + (t + 1)))) ∧
      out = batchOutput crypto (fun t => b (j * 8 + t)) (min (targetBlock.toNat + 1 - start) 8) := by
  have htarget : targetBlock.toNat < 2 ^ 32 := targetBlock.toNat_lt
  have hstart : (trustedBlock + UInt32.ofNat (j * 8 + 0 + 1)).toNat =
      (trustedBlock.toNat + (j * 8 + 1)) % 2 ^ 32 := by
    rw [UInt32.toNat_add, UInt32.toNat_ofNat']
    omega
  have hend : (trustedBlock.toNat + (j * 8 + 1)) % 2 ^ 32 + 7 ≤ targetBlock.toNat →
      (trustedBlock + UInt32.ofNat (j * 8 + 7 + 1)).toNat =
        (trustedBlock.toNat + (j * 8 + 1)) % 2 ^ 32 + 7 := by
    intro hle
    rw [UInt32.toNat_add, UInt32.toNat_ofNat']
    omega
  exact ⟨_, rfl, (mapStage_eq_some ⟨trustedBlock, targetBlock⟩ _
    (getElem?_slice_relativeBlockNums hsize hj (by omega : 0 < 8))
    (getElem?_slice_relativeBlockNums hsize hj (by omega : 7 < 8))
    (hread.mapM (by omega : j * 8 + 8 ≤ 8 * numMapJobs MAX_NUM_HEADERS)) hstart hend).mp h⟩

/-- If the last batch wraps around, it is active and ends before the trusted block, so that no
headers are accepted. -/
theorem verifySubchain_eq_none (hsize : 8 * numMapJobs MAX_NUM_HEADERS < 2 ^ 32)
    (hlt : trustedBlock < targetBlock)
    (hwrap : 2 ^ 32 + 7 ≤ trustedBlock.toNat + 8 * numMapJobs MAX_NUM_HEADERS) :
    verifySubchain crypto MAX_NUM_HEADERS trustedBlock trustedHeaderHash targetBlock headers =
      none := by
  rw [Option.eq_none_iff_forall_not_mem]
  intro o haccept
  rw [UInt32.lt_iff_toNat_lt] at hlt
  have htarget : targetBlock.toNat < 2 ^ 32 := targetBlock.toNat_lt
  obtain ⟨b, hread⟩ := exists_readsSlots hsize haccept
  obtain ⟨outputs, out, hmap, hreduce, -, hend, -⟩ := (verifySubchain_eq_some_iff hsize).mp haccept
  generalize hlast : trustedBlock.toNat + 8 * numMapJobs MAX_NUM_HEADERS - 2 ^ 32 = last
  have hleaf : ∀ j out, j < numMapJobs MAX_NUM_HEADERS →
      mapJob crypto MAX_NUM_HEADERS trustedBlock targetBlock headers (0 + j) = some out →
      EndsIn (8 * numMapJobs MAX_NUM_HEADERS) last (0 + j * 8) 8 out := by
    intro j out hj hout
    rw [Nat.zero_add] at hout ⊢
    obtain ⟨start, hstart, hnum, hfollows, rfl⟩ := mapJob_eq_batchOutput hsize hread hj hout
    have hcount : (batchOutput crypto (fun t => b (j * 8 + t))
        (min (targetBlock.toNat + 1 - start) 8)).numBlocks.val =
          min (targetBlock.toNat + 1 - start) 8 :=
      Variable.val_ofNat_of_lt (Nat.lt_of_le_of_lt (by omega : _ ≤ 8) (by decide))
    refine ⟨by omega, fun hrange => by omega, fun hrange => ?_⟩
    -- the batch has wrapped, so all of its blocks come before the target block
    have hfull : min (targetBlock.toNat + 1 - start) 8 = 8 := by omega
    rw [hfull] at hfollows ⊢
    have hnumber := blockNumber_of_follows (c := fun t => b (j * 8 + t)) hfollows 7 (by omega)
    have hfirst := hnum (by omega)
    simp only [Nat.add_zero] at hnumber
    simp only [batchOutput, show ¬8 = 0 by omega, if_false, hnumber]
    omega
  have hstep : ∀ lo width l r out, EndsIn (8 * numMapJobs MAX_NUM_HEADERS) last lo width l →
      EndsIn (8 * numMapJobs MAX_NUM_HEADERS) last (lo + width) width r →
      reduceStage crypto l r = some out →
      EndsIn (8 * numMapJobs MAX_NUM_HEADERS) last lo (width + width) out :=
    fun lo width l r out hl hr h => hl.reduceStage hsize hr h
  obtain ⟨hcov, hlen⟩ := TreeReduce.covers_mapM_range _ 0 0 hleaf hmap
  have hout := TreeReduce.reduceTree_inv hstep
    (hlen.trans (rfl : _ = 2 ^ Nat.clog 2 (MAX_NUM_HEADERS / HEADERS_PER_MAP))) hcov hreduce
  have hwidth : 0 + 2 ^ Nat.clog 2 (MAX_NUM_HEADERS / HEADERS_PER_MAP) * 8 =
      8 * numMapJobs MAX_NUM_HEADERS := by
    rw [numMapJobs, Merkle.nextPowerOfTwo]
    omega
  have hblock := hout.endBlock hwidth
  rw [← hend] at hblock
  omega

end Wrap

/-! ## Main result -/

/-- The honest run from the trusted block to the target block: the hints write headers that the
circuit accepts, and the circuit returns the hash of the target block. -/
def HonestRunAccepted {crypto : Crypto} (chain : Chain crypto) (MAX_NUM_HEADERS : ℕ)
    (trustedBlock targetBlock : U32Variable) : Prop :=
  ∃ headers, HintsWrite chain MAX_NUM_HEADERS trustedBlock targetBlock headers ∧
    ∃ o, verifySubchain crypto MAX_NUM_HEADERS trustedBlock
        ((chain.header trustedBlock.toNat).hash crypto) targetBlock headers = some o ∧
      o.targetHeaderHash = (chain.header targetBlock.toNat).hash crypto

/-- **Completeness.** The honest run is accepted if and only if a group of 200 requests that starts
with the first header of the last batch does not overflow. -/
theorem honestRunAccepted_iff (crypto : Crypto) (chain : Chain crypto) (MAX_NUM_HEADERS : ℕ)
    (trustedBlock targetBlock : U32Variable) (hlt : trustedBlock < targetBlock)
    (hrange : targetBlock.toNat ≤ trustedBlock.toNat + 8 * numMapJobs MAX_NUM_HEADERS)
    (hbound : trustedBlock.toNat + 8 * numMapJobs MAX_NUM_HEADERS < 2 ^ 32)
    (hfirst : chain.first ≤ trustedBlock) (hhead : targetBlock ≤ chain.head)
    (hfit : HeadersFit chain trustedBlock.toNat targetBlock.toNat) :
    HonestRunAccepted chain MAX_NUM_HEADERS trustedBlock targetBlock ↔
      trustedBlock.toNat + 8 * ((targetBlock.toNat - trustedBlock.toNat - 1) / 8) + 201 <
        2 ^ 32 := by
  rw [UInt32.lt_iff_toNat_lt] at hlt
  rw [UInt32.le_iff_toNat_le] at hfirst hhead
  obtain ⟨k, hk⟩ : ∃ k, trustedBlock.toNat + k = targetBlock.toNat :=
    ⟨targetBlock.toNat - trustedBlock.toNat, by omega⟩
  rw [← hk, Nat.add_sub_cancel_left]
  constructor
  · rintro ⟨headers, hwrite, -⟩
    have hlast := of_hintHeaders_eq_some (s := k - 1) (by omega) (by omega) hk hfirst hhead (by omega)
      (by omega) (by omega) (hwrite ((k - 1) / 8) (by omega))
    omega
  · intro hover
    rw [← hk] at hfit
    refine ⟨ofSlots (honestSlot chain trustedBlock.toNat k), ?_, _,
      verifySubchain_honestSlot _ _ (by omega) (by omega) hk (by omega) (by omega) hfirst hhead hfit, ?_⟩
    · intro j hj
      exact hintHeaders_eq (by omega) (by omega) hk hfirst hhead hfit hj fun hjk => by omega
    · exact hk ▸ hash_honestBlock (by omega)

/-- The condition at the first block of the reference chain. -/
theorem honestRunAccepted_iff_first :
    HonestRunAccepted (Reference.chain [] 0) 8 0 1 ↔
      (0 : UInt32).toNat + 8 * (((1 : UInt32).toNat - (0 : UInt32).toNat - 1) / 8) + 201 < 2 ^ 32 :=
  honestRunAccepted_iff (Reference.crypto []) (Reference.chain [] 0) 8 0 1
    (by decide) (by decide) (by decide) (by decide) (by decide) fun n _ _ =>
      Reference.length_encode_chain _ _ n

/-- The run to block 4294967288 fails: the hint adds 200 to its number. -/
theorem not_honestRunAccepted :
    ¬ ∀ (crypto : Crypto) (chain : Chain crypto) (MAX_NUM_HEADERS : ℕ)
        (trustedBlock targetBlock : U32Variable), trustedBlock < targetBlock →
        targetBlock.toNat ≤ trustedBlock.toNat + 8 * numMapJobs MAX_NUM_HEADERS →
        trustedBlock.toNat + 8 * numMapJobs MAX_NUM_HEADERS < 2 ^ 32 →
        chain.first ≤ trustedBlock → targetBlock ≤ chain.head →
        HeadersFit chain trustedBlock.toNat targetBlock.toNat →
        HonestRunAccepted chain MAX_NUM_HEADERS trustedBlock targetBlock := by
  intro hclaim
  obtain ⟨headers, hwrite, -⟩ := hclaim (Reference.crypto [])
    (Reference.chain [] 4294967287) 8 4294967287 4294967288 (by decide)
    (by decide) (by decide) (by decide) (by decide) fun n _ _ =>
      Reference.length_encode_chain _ _ n
  have hlast := of_hintHeaders_eq_some (k := 1) (s := 0) (by decide) (by decide) rfl (by decide)
    (by decide) (by decide) (by decide) (by decide) (hwrite 0 (by decide))
  exact absurd hlast.1 (by decide)

end VectorX
