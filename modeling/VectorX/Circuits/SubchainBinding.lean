import VectorX.Circuits.SubchainSoundness

/-!
# The roots of a range are binding

The roots that the circuit returns are Merkle roots over the headers of the range, padded with
zeros. As long as no two nodes of the trees collide, accepted runs return the same root for the same
padded list only, whatever blocks they start and end at.
-/

namespace VectorX

open Plonky2x Plonky2x.CircuitBuilder
open HashChain (CollisionFree)

/-! ## Padded roots -/

section Padded

variable {crypto : Crypto} {depth : ℕ} {l l' : List Bytes32Variable}

/-- The leaf at position `i`. -/
def paddedLeaf (l : List Bytes32Variable) (i : ℕ) : Bytes32Variable := l.getD i emptyBytes32

/-- The messages that are hashed for a padded root. -/
def rootMessages (crypto : Crypto) (depth : ℕ) (l : List Bytes32Variable) : List (List UInt8) :=
  (Merkle.pairs (hashNode crypto) (paddedLeaf l) depth 0).map fun p => p.1.data ++ p.2.data

/-- Two lists that differ in zeros at the end only. -/
def PaddedEq (l l' : List Bytes32Variable) : Prop := ∀ i, paddedLeaf l i = paddedLeaf l' i

/-- Without zeros, lists are determined by their padding. -/
theorem PaddedEq.eq_of_not_mem (h : PaddedEq l l') (hl : emptyBytes32 ∉ l) (hl' : emptyBytes32 ∉ l') :
    l = l' := by
  have hget : ∀ (l : List Bytes32Variable), emptyBytes32 ∉ l →
      ∀ i, l[i]? = if paddedLeaf l i = emptyBytes32 then none else some (paddedLeaf l i) := by
    intro l hl i
    rw [paddedLeaf, List.getD_eq_getElem?_getD]
    rcases hi : l[i]? with - | a
    · simp
    · have hne : a ≠ emptyBytes32 := fun heq => hl (heq ▸ List.mem_of_getElem? hi)
      simp [hne]
  refine List.ext_getElem? fun i => ?_
  rw [hget l hl, hget l' hl', h i]

/-- Nodes collide if their messages do. -/
theorem collisionFree_hashNode {ps : List (Bytes32Variable × Bytes32Variable)}
    (h : CollisionFree crypto.sha256 (ps.map fun p => p.1.data ++ p.2.data)) :
    CollisionFree (Function.uncurry (hashNode crypto)) ps := by
  rintro ⟨a, b⟩ hab ⟨a', b'⟩ hab' heq
  have hdata := h _ (List.mem_map_of_mem hab) _ (List.mem_map_of_mem hab') heq
  obtain ⟨hleft, hright⟩ := List.append_inj hdata (a.length_data.trans a'.length_data.symm)
  exact Prod.ext (ArrayVariable.ext hleft) (ArrayVariable.ext hright)

/-- Padded roots of short lists are equal if and only if the padded lists are. -/
theorem paddedRoot_eq_iff (hl : l.length ≤ 2 ^ depth) (hl' : l'.length ≤ 2 ^ depth)
    (hfree : CollisionFree crypto.sha256 (rootMessages crypto depth l ++ rootMessages crypto depth l')) :
    paddedRoot crypto depth l = paddedRoot crypto depth l' ↔ PaddedEq l l' := by
  rw [rootMessages, rootMessages, ← List.map_append] at hfree
  constructor
  · intro heq i
    rcases Nat.lt_or_ge i (2 ^ depth) with hlt | hge
    · exact Merkle.leaf_eq_of_root_eq depth 0 (collisionFree_hashNode hfree) heq i (Nat.zero_le _)
        (by omega)
    · simp only [paddedLeaf, List.getD_eq_getElem?_getD, List.getElem?_eq_none (hl.trans hge),
        List.getElem?_eq_none (hl'.trans hge)]
  · intro heq
    exact Merkle.root_congr depth 0 fun i _ _ => heq i

end Padded

/-! ## Accepted runs -/

section Runs

/-- The roots of the first `k` slots: a field of the headers that the circuit decodes. -/
def slotRoots (crypto : Crypto) {S : ℕ}
    (headers : ℕ → ArrayVariable (EncodedHeaderVariable S) HEADERS_PER_MAP)
    (root : HeaderVariable → Bytes32Variable) (k : ℕ) : List Bytes32Variable :=
  (List.range k).map fun s =>
    ((readBlock crypto (slotHeader headers s)).map fun block => root block.header).getD emptyBytes32

variable {crypto : Crypto} {MAX_NUM_HEADERS : ℕ} {trustedBlock targetBlock : U32Variable}
  {trustedHeaderHash : Bytes32Variable}
  {headers : ℕ → ArrayVariable (EncodedHeaderVariable MAX_HEADER_SIZE) HEADERS_PER_MAP}
  {o : SubchainVerificationVariable}

/-- An accepted run returns the padded roots of its slots. -/
theorem verifySubchain_roots (hlt : trustedBlock < targetBlock)
    (hbound : trustedBlock.toNat + 8 * numMapJobs MAX_NUM_HEADERS < 2 ^ 32)
    (h : verifySubchain crypto MAX_NUM_HEADERS trustedBlock trustedHeaderHash targetBlock headers =
      some o) :
    targetBlock.toNat - trustedBlock.toNat ≤ 2 ^ treeDepth MAX_NUM_HEADERS ∧
      o.dataRootMerkleRoot = paddedRoot crypto (treeDepth MAX_NUM_HEADERS)
        (slotRoots crypto headers HeaderVariable.dataRoot (targetBlock.toNat - trustedBlock.toNat)) ∧
      o.stateRootMerkleRoot = paddedRoot crypto (treeDepth MAX_NUM_HEADERS)
        (slotRoots crypto headers HeaderVariable.stateRoot
          (targetBlock.toNat - trustedBlock.toNat)) := by
  obtain ⟨b, hread, hle, -, rfl⟩ := exists_isSubchain hlt hbound h
  have hroots : ∀ root : HeaderVariable → Bytes32Variable,
      ((List.range (targetBlock.toNat - trustedBlock.toNat)).map b).map (fun x => root x.header) =
        slotRoots crypto headers root (targetBlock.toNat - trustedBlock.toNat) := by
    intro root
    rw [slotRoots, List.map_map]
    refine List.map_congr_left fun s hs => ?_
    rw [hread s (Nat.lt_of_lt_of_le (List.mem_range.mp hs) hle)]
    rfl
  rw [two_pow_treeDepth]
  refine ⟨hle, ?_, ?_⟩
  · rw [← hroots, ← root_leafOf]
    rfl
  · rw [← hroots, ← root_leafOf]
    rfl

end Runs

/-! ## Main result -/

/-- Equal roots are roots of the same padded list, and of the same list if there are no zeros in
it. -/
structure Binds (root root' : Bytes32Variable) (l l' : List Bytes32Variable) : Prop where
  paddedEq_iff : root = root' ↔ PaddedEq l l'
  eq_of_not_mem : root = root' → emptyBytes32 ∉ l → emptyBytes32 ∉ l' → l = l'

theorem binds_paddedRoot {crypto : Crypto} {depth : ℕ} {l l' : List Bytes32Variable}
    (hl : l.length ≤ 2 ^ depth) (hl' : l'.length ≤ 2 ^ depth)
    (hfree : CollisionFree crypto.sha256 (rootMessages crypto depth l ++ rootMessages crypto depth l')) :
    Binds (paddedRoot crypto depth l) (paddedRoot crypto depth l') l l' :=
  ⟨paddedRoot_eq_iff hl hl' hfree, fun heq hne hne' =>
    ((paddedRoot_eq_iff hl hl' hfree).mp heq).eq_of_not_mem hne hne'⟩

/-- The messages of both trees of a run. -/
def runMessages (crypto : Crypto) (MAX_NUM_HEADERS : ℕ) (trustedBlock targetBlock : U32Variable)
    (headers : ℕ → ArrayVariable (EncodedHeaderVariable MAX_HEADER_SIZE) HEADERS_PER_MAP) :
    List (List UInt8) :=
  rootMessages crypto (treeDepth MAX_NUM_HEADERS) (slotRoots crypto headers HeaderVariable.dataRoot
      (targetBlock.toNat - trustedBlock.toNat)) ++
    rootMessages crypto (treeDepth MAX_NUM_HEADERS) (slotRoots crypto headers HeaderVariable.stateRoot
      (targetBlock.toNat - trustedBlock.toNat))

/-- **Binding.** Two accepted runs, between any blocks and with any headers, return the same root
exactly if the roots of their headers agree up to zeros at the end, unless nodes of their trees
collide. -/
theorem subchain_roots_binding (crypto : Crypto) (MAX_NUM_HEADERS : ℕ)
    (trustedBlock trustedBlock' targetBlock targetBlock' : U32Variable)
    (trustedHeaderHash trustedHeaderHash' : Bytes32Variable)
    (headers headers' : ℕ → ArrayVariable (EncodedHeaderVariable MAX_HEADER_SIZE) HEADERS_PER_MAP)
    (o o' : SubchainVerificationVariable) (hlt : trustedBlock < targetBlock)
    (hlt' : trustedBlock' < targetBlock')
    (hbound : trustedBlock.toNat + 8 * numMapJobs MAX_NUM_HEADERS < 2 ^ 32)
    (hbound' : trustedBlock'.toNat + 8 * numMapJobs MAX_NUM_HEADERS < 2 ^ 32)
    (h : verifySubchain crypto MAX_NUM_HEADERS trustedBlock trustedHeaderHash targetBlock headers =
      some o)
    (h' : verifySubchain crypto MAX_NUM_HEADERS trustedBlock' trustedHeaderHash' targetBlock'
      headers' = some o')
    (hfree : CollisionFree crypto.sha256
      (runMessages crypto MAX_NUM_HEADERS trustedBlock targetBlock headers ++
        runMessages crypto MAX_NUM_HEADERS trustedBlock' targetBlock' headers')) :
    Binds o.dataRootMerkleRoot o'.dataRootMerkleRoot
        (slotRoots crypto headers HeaderVariable.dataRoot (targetBlock.toNat - trustedBlock.toNat))
        (slotRoots crypto headers' HeaderVariable.dataRoot
          (targetBlock'.toNat - trustedBlock'.toNat)) ∧
      Binds o.stateRootMerkleRoot o'.stateRootMerkleRoot
        (slotRoots crypto headers HeaderVariable.stateRoot (targetBlock.toNat - trustedBlock.toNat))
        (slotRoots crypto headers' HeaderVariable.stateRoot
          (targetBlock'.toNat - trustedBlock'.toNat)) := by
  obtain ⟨hle, hdata, hstate⟩ := verifySubchain_roots hlt hbound h
  obtain ⟨hle', hdata', hstate'⟩ := verifySubchain_roots hlt' hbound' h'
  rw [hdata, hdata', hstate, hstate']
  constructor
  · refine binds_paddedRoot (by simpa [slotRoots] using hle) (by simpa [slotRoots] using hle')
      (hfree.mono fun m hm => ?_)
    simp only [runMessages, List.mem_append] at hm ⊢
    tauto
  · refine binds_paddedRoot (by simpa [slotRoots] using hle) (by simpa [slotRoots] using hle')
      (hfree.mono fun m hm => ?_)
    simp only [runMessages, List.mem_append] at hm ⊢
    tauto

/-- The roots of the run over two batches. -/
theorem slotRoots_nineHeaders (padding : UInt8) (root : HeaderVariable → Bytes32Variable) :
    slotRoots (Reference.crypto Reference.chainSigned) (nineHeaders padding) root 9 =
      (List.range 9).map fun s =>
        root ((Reference.signedHeader (1 + s)).toBlock (Reference.crypto [])).header := by
  have hread := readsSlots_paddedHeaders Reference.signedChain 0 9
    (fun n _ _ => length_encode_signedChain n) padding 9
  refine List.map_congr_left fun s hs => ?_
  have hlt := List.mem_range.mp hs
  rw [nineHeaders, hread s hlt, honestBlock, if_pos hlt, Nat.zero_add]
  rfl

/-- The different messages for the padded root of nine leaves in a tree of depth 4, without those of
the zeros next to them. -/
def nineMessages (crypto : Crypto) (l : ℕ → Bytes32Variable) : List (List UInt8) :=
  let node := hashNode crypto
  let zero := node emptyBytes32 emptyBytes32
  let left := node (node (l 0) (l 1)) (node (l 2) (l 3))
  let right := node (node (l 4) (l 5)) (node (l 6) (l 7))
  let last := node (l 8) emptyBytes32
  [ (l 0).data ++ (l 1).data, (l 2).data ++ (l 3).data, (l 4).data ++ (l 5).data,
    (l 6).data ++ (l 7).data, (l 8).data ++ emptyBytes32.data,
    (node (l 0) (l 1)).data ++ (node (l 2) (l 3)).data,
    (node (l 4) (l 5)).data ++ (node (l 6) (l 7)).data, last.data ++ zero.data,
    left.data ++ right.data, (node last zero).data ++ (node zero zero).data,
    (node left right).data ++ (node (node last zero) (node zero zero)).data ]

/-- The different messages of the zeros. -/
def zeroMessages (crypto : Crypto) : List (List UInt8) :=
  let zero := hashNode crypto emptyBytes32 emptyBytes32
  [emptyBytes32.data ++ emptyBytes32.data, zero.data ++ zero.data]

theorem mem_of_mem_rootMessages {crypto : Crypto} {l : ℕ → Bytes32Variable} {m : List UInt8}
    (hm : m ∈ rootMessages crypto 4 ((List.range 9).map l)) :
    m ∈ zeroMessages crypto ∨ m ∈ nineMessages crypto l := by
  have hmessages : rootMessages crypto 4 ((List.range 9).map l) =
      let node := hashNode crypto
      let zero := node emptyBytes32 emptyBytes32
      let left := node (node (l 0) (l 1)) (node (l 2) (l 3))
      let right := node (node (l 4) (l 5)) (node (l 6) (l 7))
      let last := node (l 8) emptyBytes32
      [ (node left right).data ++ (node (node last zero) (node zero zero)).data,
        left.data ++ right.data, (node (l 0) (l 1)).data ++ (node (l 2) (l 3)).data,
        (l 0).data ++ (l 1).data, (l 2).data ++ (l 3).data,
        (node (l 4) (l 5)).data ++ (node (l 6) (l 7)).data, (l 4).data ++ (l 5).data,
        (l 6).data ++ (l 7).data, (node last zero).data ++ (node zero zero).data,
        last.data ++ zero.data, (l 8).data ++ emptyBytes32.data,
        emptyBytes32.data ++ emptyBytes32.data, zero.data ++ zero.data,
        emptyBytes32.data ++ emptyBytes32.data, emptyBytes32.data ++ emptyBytes32.data ] := rfl
  rw [hmessages] at hm
  simp only [zeroMessages, nineMessages, List.mem_cons, List.not_mem_nil, or_false] at hm ⊢
  tauto

theorem nodup_nineMessages :
    ((zeroMessages (Reference.crypto []) ++
      nineMessages (Reference.crypto []) (fun s => (Reference.signedHeader (1 + s)).dataRoot) ++
      nineMessages (Reference.crypto []) fun s => (Reference.signedHeader (1 + s)).stateRoot).map
      (Reference.crypto []).sha256).Nodup := by
  decide +kernel

/-- Two runs over two batches with different padding have the same roots. -/
theorem subchain_roots_binding_twoBatches :
    Binds nineOutput.dataRootMerkleRoot nineOutput.dataRootMerkleRoot
        (slotRoots (Reference.crypto Reference.chainSigned) (nineHeaders 0) HeaderVariable.dataRoot 9)
        (slotRoots (Reference.crypto Reference.chainSigned) (nineHeaders 7) HeaderVariable.dataRoot
          9) ∧
      Binds nineOutput.stateRootMerkleRoot nineOutput.stateRootMerkleRoot
        (slotRoots (Reference.crypto Reference.chainSigned) (nineHeaders 0) HeaderVariable.stateRoot 9)
        (slotRoots (Reference.crypto Reference.chainSigned) (nineHeaders 7) HeaderVariable.stateRoot
          9) := by
  refine subchain_roots_binding (Reference.crypto Reference.chainSigned) 16 0 0 9 9
    (Reference.blockHash (Reference.signedHeader 0)) (Reference.blockHash (Reference.signedHeader 0))
    (nineHeaders 0) (nineHeaders 7) nineOutput nineOutput (by decide) (by decide) (by decide)
    (by decide) (verifySubchain_nineHeaders 0) (verifySubchain_nineHeaders 7) ?_
  have hnine : (9 : UInt32).toNat - (0 : UInt32).toNat = 9 := rfl
  have hdepth : treeDepth 16 = 4 := rfl
  simp only [runMessages, hnine, hdepth, slotRoots_nineHeaders]
  refine (HashChain.collisionFree_of_nodup nodup_nineMessages).mono fun m hm => ?_
  simp only [List.mem_append] at hm ⊢
  rcases hm with (hm | hm) | (hm | hm) <;> rcases mem_of_mem_rootMessages hm with hzero | hnode
  all_goals first | exact Or.inl (Or.inl hzero) | exact Or.inl (Or.inr hnode) | exact Or.inr hnode

end VectorX
