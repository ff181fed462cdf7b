import VectorX.Circuits.SubchainChain
import VectorX.Common.HashChain
import VectorX.Reference.SignedChain

/-!
# Soundness of the subchain verification

A chain of headers is stated on its own, as a list of blocks on top of a trusted one, and the output
of the circuit commits to such a list. Two accepted runs with the same target commit to the same
roots, whatever the provers write where nothing is checked.
-/

namespace VectorX

open Plonky2x Plonky2x.CircuitBuilder
open HashChain (CollisionFree)
open Bytes (slice)

/-! ## Chains of headers -/

/-- The blocks continue the chain whose last block has the given number and hash. -/
def HeaderChain : ℕ → Bytes32Variable → List Block → Prop
  | _, _, [] => True
  | number, hash, block :: blocks =>
    block.header.blockNumber.toNat = number + 1 ∧ block.header.parentHash = hash ∧
      HeaderChain (number + 1) block.hash blocks

/-- The hash of the last block, on top of a block with the given hash. -/
def lastHash (hash : Bytes32Variable) (blocks : List Block) : Bytes32Variable :=
  (blocks.map Block.hash).getLastD hash

@[simp] theorem lastHash_nil (hash : Bytes32Variable) : lastHash hash [] = hash := rfl

@[simp] theorem lastHash_cons (hash : Bytes32Variable) (block : Block) (blocks : List Block) :
    lastHash hash (block :: blocks) = lastHash block.hash blocks := by
  rw [lastHash, List.map_cons, List.getLastD_cons, lastHash]

theorem lastHash_append (hash : Bytes32Variable) (blocks blocks' : List Block) :
    lastHash hash (blocks ++ blocks') = lastHash (lastHash hash blocks) blocks' := by
  induction blocks generalizing hash with
  | nil => rfl
  | cons block blocks ih => rw [List.cons_append, lastHash_cons, lastHash_cons, ih]

/-- A chain on top of a chain is a chain. -/
theorem headerChain_append {number : ℕ} {hash : Bytes32Variable} {blocks blocks' : List Block} :
    HeaderChain number hash (blocks ++ blocks') ↔
      HeaderChain number hash blocks ∧
        HeaderChain (number + blocks.length) (lastHash hash blocks) blocks' := by
  induction blocks generalizing number hash with
  | nil => simp [HeaderChain]
  | cons block blocks ih =>
    rw [List.cons_append, HeaderChain, HeaderChain, ih, lastHash_cons, List.length_cons,
      Nat.add_assoc number 1, Nat.add_comm 1, and_assoc, and_assoc]

/-- The SHA-256 Merkle root of the leaves, padded with zero leaves to `2 ^ depth`. -/
def paddedRoot (crypto : Crypto) (depth : ℕ) (leaves : List Bytes32Variable) : Bytes32Variable :=
  Merkle.root (hashNode crypto) (fun i => leaves.getD i emptyBytes32) depth 0

/-- The output commits to a chain of blocks from the trusted block to the target block. -/
structure CommitsTo (crypto : Crypto) (depth trustedBlock targetBlock : ℕ)
    (trustedHeaderHash : Bytes32Variable) (blocks : List Block)
    (output : SubchainVerificationVariable) : Prop where
  length : blocks.length = targetBlock - trustedBlock
  chain : HeaderChain trustedBlock trustedHeaderHash blocks
  targetHeaderHash : output.targetHeaderHash = lastHash trustedHeaderHash blocks
  stateRoot : output.stateRootMerkleRoot =
    paddedRoot crypto depth (blocks.map fun b => b.header.stateRoot)
  dataRoot : output.dataRootMerkleRoot =
    paddedRoot crypto depth (blocks.map fun b => b.header.dataRoot)

/-! ## Soundness -/

section Sound

variable {crypto : Crypto} {T k : ℕ} {hash : Bytes32Variable} {b : ℕ → Block}

/-- The blocks of the first slots form a chain. -/
theorem IsSubchain.headerChain (h : IsSubchain T hash k b) :
    ∀ n, n ≤ k → HeaderChain T hash ((List.range n).map b) ∧
      lastHash hash ((List.range n).map b) = if n = 0 then hash else (b (n - 1)).hash
  | 0, _ => ⟨trivial, rfl⟩
  | n + 1, hn => by
    obtain ⟨hchain, hlast⟩ := h.headerChain n (by omega)
    rw [List.range_succ, List.map_append, headerChain_append, lastHash_append, hlast]
    refine ⟨⟨hchain, ?_, ?_, trivial⟩, by simp⟩
    · rw [blockNumber_of_follows h.follows n (by omega), h.first, List.length_map,
        List.length_range]
      omega
    · rcases n with - | n
      · exact h.trusted
      · exact (h.follows n (by omega)).parentHash

/-- The leaves of a slot tree are the padded list of the first slots. -/
theorem root_leafOf (f : Block → Bytes32Variable) (depth : ℕ) :
    Merkle.root (hashNode crypto) (leafOf k fun s => f (b s)) depth 0 =
      paddedRoot crypto depth (((List.range k).map b).map f) := by
  rw [paddedRoot]
  refine Merkle.root_congr depth 0 fun s _ _ => ?_
  by_cases hs : s < k
  · simp [leafOf, hs]
  · simp [leafOf, hs]

variable (crypto) in
/-- The output for a chain commits to its blocks. -/
theorem IsSubchain.commitsTo (h : IsSubchain T hash k b) (hpos : 0 < k) (depth : ℕ) :
    CommitsTo crypto depth T (T + k) hash ((List.range k).map b)
      (subchainOutput crypto b k depth) where
  length := by simp
  chain := (h.headerChain k (Nat.le_refl k)).1
  targetHeaderHash := by
    rw [(h.headerChain k (Nat.le_refl k)).2, if_neg (by omega)]
    rfl
  stateRoot := root_leafOf (fun b => b.header.stateRoot) depth
  dataRoot := root_leafOf (fun b => b.header.dataRoot) depth

variable {MAX_NUM_HEADERS : ℕ} {trustedBlock targetBlock : U32Variable}
  {trustedHeaderHash : Bytes32Variable}
  {headers : ℕ → ArrayVariable (EncodedHeaderVariable MAX_HEADER_SIZE) HEADERS_PER_MAP}
  {o : SubchainVerificationVariable}

/-- An accepted run has read the headers of all its slots. -/
theorem exists_readsSlots (hsize : 8 * numMapJobs MAX_NUM_HEADERS < 2 ^ 32)
    (h : verifySubchain crypto MAX_NUM_HEADERS trustedBlock trustedHeaderHash targetBlock headers =
      some o) : ∃ b, ReadsSlots crypto headers (8 * numMapJobs MAX_NUM_HEADERS) b := by
  obtain ⟨outputs, -, hmap, -⟩ := (verifySubchain_eq_some_iff hsize).mp h
  have hread : ∀ s, ∃ block, s < 8 * numMapJobs MAX_NUM_HEADERS →
      readBlock crypto (slotHeader headers s) = some block := by
    intro s
    by_cases hs : s < 8 * numMapJobs MAX_NUM_HEADERS
    · have hj : s / HEADERS_PER_MAP < numMapJobs MAX_NUM_HEADERS := by
        simp only [HEADERS_PER_MAP]
        omega
      obtain ⟨out, hout⟩ := TreeReduce.exists_of_mapM hmap (s / HEADERS_PER_MAP)
        (List.mem_range'_1.mpr ⟨Nat.zero_le _, by omega⟩)
      obtain ⟨blocks, hblocks⟩ := mapStage_read hout
      obtain ⟨block, hblock⟩ := TreeReduce.exists_of_mapM hblocks (slotHeader headers s)
        (ArrayVariable.get_mem _ _)
      exact ⟨block, fun _ => hblock⟩
    · exact ⟨emptyBlock crypto, fun h => absurd h hs⟩
  choose b hb using hread
  exact ⟨b, hb⟩

/-- The slots of an accepted run hold a chain, and the output is determined by it. -/
theorem exists_isSubchain (hlt : trustedBlock < targetBlock)
    (hbound : trustedBlock.toNat + 8 * numMapJobs MAX_NUM_HEADERS < 2 ^ 32)
    (h : verifySubchain crypto MAX_NUM_HEADERS trustedBlock trustedHeaderHash targetBlock headers =
      some o) :
    ∃ b, ReadsSlots crypto headers (8 * numMapJobs MAX_NUM_HEADERS) b ∧
      targetBlock.toNat - trustedBlock.toNat ≤ 8 * numMapJobs MAX_NUM_HEADERS ∧
      IsSubchain trustedBlock.toNat trustedHeaderHash (targetBlock.toNat - trustedBlock.toNat) b ∧
      o = subchainOutput crypto b (targetBlock.toNat - trustedBlock.toNat)
        (treeDepth MAX_NUM_HEADERS) := by
  rw [UInt32.lt_iff_toNat_lt] at hlt
  obtain ⟨b, hread⟩ := exists_readsSlots (by omega) h
  exact ⟨b, hread, (verifySubchain_eq_some (by omega) (by omega) hread (by omega)
    (by omega)).mp h⟩

/-- An accepted run commits to the chain in its slots. -/
theorem exists_commitsTo (hlt : trustedBlock < targetBlock)
    (hbound : trustedBlock.toNat + 8 * numMapJobs MAX_NUM_HEADERS < 2 ^ 32)
    (h : verifySubchain crypto MAX_NUM_HEADERS trustedBlock trustedHeaderHash targetBlock headers =
      some o) :
    ∃ blocks, (∀ s (hs : s < blocks.length),
        readBlock crypto (slotHeader headers s) = some blocks[s]) ∧
      CommitsTo crypto (treeDepth MAX_NUM_HEADERS) trustedBlock.toNat targetBlock.toNat
        trustedHeaderHash blocks o := by
  obtain ⟨b, hread, hle, hchain, rfl⟩ := exists_isSubchain hlt hbound h
  rw [UInt32.lt_iff_toNat_lt] at hlt
  have hcommits := hchain.commitsTo crypto (by omega) (treeDepth MAX_NUM_HEADERS)
  rw [Nat.add_sub_cancel' (by omega)] at hcommits
  refine ⟨_, fun s hs => ?_, hcommits⟩
  rw [hcommits.length] at hs
  rw [hread s (by omega), List.getElem_map, List.getElem_range]

end Sound

/-! ## Runs with the same target -/

section SameTarget

/-- The bytes that the circuit hashes for slot `s`. -/
def hashedBytes {S : ℕ} (headers : ℕ → ArrayVariable (EncodedHeaderVariable S) HEADERS_PER_MAP)
    (s : ℕ) : List UInt8 :=
  (slotHeader headers s).headerBytes.data.take (slotHeader headers s).headerSize.toNat

/-- The encodings of `k` headers, the last of which has the target hash and each of which is the
parent of the next. Every field that is decoded lies inside the encoding. -/
structure Ancestry (crypto : Crypto) (k : ℕ) (targetHeaderHash : Bytes32Variable)
    (encoding : ℕ → List UInt8) : Prop where
  le_length : ∀ s, s < k → 69 ≤ (encoding s).length
  parentHash : ∀ s, s + 1 < k → slice (encoding (s + 1)) 0 32 = (crypto.blake2b (encoding s)).data
  target : crypto.blake2b (encoding (k - 1)) = targetHeaderHash

variable {crypto : Crypto} {T k n : ℕ} {hash : Bytes32Variable} {b b' : ℕ → Block}
  {S : ℕ} {headers headers' : ℕ → ArrayVariable (EncodedHeaderVariable S) HEADERS_PER_MAP}

theorem ReadsSlots.hash_eq (hread : ReadsSlots crypto headers n b) {s : ℕ} (hs : s < n) :
    (b s).hash = crypto.blake2b (hashedBytes headers s) :=
  (of_readBlock (hread s hs)).2.1.symm

/-- If the hashed bytes contain all fields then they determine them. -/
theorem header_eq_of_hashedBytes (hread : ReadsSlots crypto headers n b)
    (hread' : ReadsSlots crypto headers' n b') {s : ℕ} (hs : s < n)
    (hlen : 69 ≤ (hashedBytes headers s).length)
    (heq : hashedBytes headers s = hashedBytes headers' s) : (b s).header = (b' s).header := by
  obtain ⟨hsize, -⟩ := of_readBlock (hread s hs)
  obtain ⟨hsize', -⟩ := of_readBlock (hread' s hs)
  have hlength : (hashedBytes headers s).length = (slotHeader headers s).headerSize.toNat := by
    rw [hashedBytes, List.length_take, ArrayVariable.length_data, Nat.min_eq_left hsize]
  have hlength' : (hashedBytes headers' s).length = (slotHeader headers' s).headerSize.toNat := by
    rw [hashedBytes, List.length_take, ArrayVariable.length_data, Nat.min_eq_left hsize']
  have hsizes : (slotHeader headers s).headerSize.toNat =
      (slotHeader headers' s).headerSize.toNat := by rw [← hlength, ← hlength', heq]
  -- everything that is decoded is a slice of the hashed bytes
  have hslice : ∀ i m, i + m ≤ (slotHeader headers s).headerSize.toNat →
      slice (slotHeader headers s).headerBytes.data i m =
        slice (slotHeader headers' s).headerBytes.data i m := by
    intro i m him
    calc slice (slotHeader headers s).headerBytes.data i m
        = slice (hashedBytes headers s) i m := (Bytes.slice_take him).symm
      _ = slice (hashedBytes headers' s) i m := by rw [heq]
      _ = slice (slotHeader headers' s).headerBytes.data i m :=
        Bytes.slice_take (hsizes ▸ him)
  have hstart : dataRootStart (slotHeader headers s).headerSize =
      (slotHeader headers s).headerSize.toNat - 32 := dataRootStart_of_le (by omega)
  have hstart' : dataRootStart (slotHeader headers' s).headerSize =
      (slotHeader headers' s).headerSize.toNat - 32 := dataRootStart_of_le (by omega)
  obtain ⟨-, -, -, hfields⟩ := (readBlock_eq_some (by omega)).mp (hread s hs)
  obtain ⟨-, -, -, hfields'⟩ := (readBlock_eq_some (by omega)).mp (hread' s hs)
  rw [hstart] at hfields
  rw [hstart', ← hsizes] at hfields'
  exact hfields.unique hfields' (hslice 0 69 (by omega)) (hslice _ 32 (by omega))

/-- Backwards from the target, the hashed bytes are the given encodings. -/
theorem hashedBytes_eq_of_ancestry {encoding : ℕ → List UInt8}
    (hread : ReadsSlots crypto headers n b) (hkn : k ≤ n) (hchain : IsSubchain T hash k b)
    (hanc : Ancestry crypto k (b (k - 1)).hash encoding)
    (hfree : CollisionFree crypto.blake2b
      ((List.range k).map (hashedBytes headers) ++ (List.range k).map encoding)) :
    ∀ m s, s < k → s + m = k - 1 → hashedBytes headers s = encoding s := by
  have hinj : ∀ s, s < k → crypto.blake2b (hashedBytes headers s) = crypto.blake2b (encoding s) →
      hashedBytes headers s = encoding s := by
    intro s hs
    have hmem := List.mem_range.mpr hs
    exact hfree _ (List.mem_append_left _ (List.mem_map_of_mem hmem)) _
      (List.mem_append_right _ (List.mem_map_of_mem hmem))
  intro m
  induction m with
  | zero =>
    intro s hs heq
    refine hinj s hs ?_
    rw [← hread.hash_eq (by omega), show s = k - 1 by omega, hanc.target]
  | succ m ih =>
    intro s hs heq
    have hnext := ih (s + 1) (by omega) (by omega)
    obtain ⟨-, -, hfields⟩ := of_readBlock (hread (s + 1) (by omega))
    have hlen := hanc.le_length (s + 1) (by omega)
    -- the parent hash in the encoding of the next block
    have hparent : (b (s + 1)).header.parentHash = crypto.blake2b (encoding s) := by
      apply ArrayVariable.ext
      rw [← hanc.parentHash s (by omega), ← hnext, hashedBytes, Bytes.slice_take]
      · exact hfields.parentHash
      · rw [← hnext, hashedBytes, List.length_take] at hlen
        omega
    refine hinj s hs ?_
    rw [← hread.hash_eq (by omega), ← hparent, (hchain.follows s (by omega)).parentHash]

/-- The roots depend on the headers of the chain only. -/
theorem subchainOutput_congr {depth : ℕ} (h : ∀ s, s < k → (b s).header = (b' s).header) :
    (subchainOutput crypto b k depth).stateRootMerkleRoot =
        (subchainOutput crypto b' k depth).stateRootMerkleRoot ∧
      (subchainOutput crypto b k depth).dataRootMerkleRoot =
        (subchainOutput crypto b' k depth).dataRootMerkleRoot := by
  have hleaf : ∀ f : HeaderVariable → Bytes32Variable, ∀ s,
      leafOf k (fun s => f (b s).header) s = leafOf k (fun s => f (b' s).header) s := by
    intro f s
    by_cases hs : s < k
    · simp only [leafOf, h s hs]
    · simp only [leafOf, hs, if_false]
  exact ⟨Merkle.root_congr depth 0 fun s _ _ => hleaf HeaderVariable.stateRoot s,
    Merkle.root_congr depth 0 fun s _ _ => hleaf HeaderVariable.dataRoot s⟩

end SameTarget

/-! ## Runs over the blocks of a chain -/

section OfChain

variable {crypto : Crypto} (chain : Chain crypto)

/-- The block of slot `s`. -/
def honestBlock (trustedBlock k s : ℕ) : Block :=
  if s < k then (chain.header (trustedBlock + 1 + s)).toBlock crypto else emptyBlock crypto

/-- A header with any padding after its encoding. -/
def paddedHeader (h : Header) (padding : UInt8) (hlen : h.encode.length ≤ MAX_HEADER_SIZE) :
    EncodedHeaderVariable MAX_HEADER_SIZE where
  headerBytes := ⟨h.encode ++ List.replicate (MAX_HEADER_SIZE - h.encode.length) padding, by
    rw [List.length_append, List.length_replicate, Nat.add_sub_cancel' hlen]⟩
  headerSize := UInt32.ofNat h.encode.length

/-- The headers of `k` blocks after the trusted block with the given padding, and empty headers in
the slots after them. -/
def paddedHeaders (padding : UInt8) (trustedBlock k : ℕ) :
    ℕ → ArrayVariable (EncodedHeaderVariable MAX_HEADER_SIZE) HEADERS_PER_MAP :=
  ofSlots fun s =>
    if h : s < k ∧ (chain.header (trustedBlock + 1 + s)).encode.length ≤ MAX_HEADER_SIZE then
      paddedHeader (chain.header (trustedBlock + 1 + s)) padding h.2
    else emptyHeader MAX_HEADER_SIZE

variable {chain} {T k : ℕ}

/-- The blocks of the slots are a chain on top of the trusted block. -/
theorem isSubchain_honestBlock (hpos : 0 < k) (hfirst : chain.first.toNat ≤ T)
    (hhead : T + k ≤ chain.head.toNat) :
    IsSubchain T ((chain.header T).hash crypto) k (honestBlock chain T k) where
  first := by
    rw [honestBlock, if_pos hpos]
    exact chain.number_eq (T + 1) (by omega) (by omega)
  trusted := by
    rw [honestBlock, if_pos hpos]
    exact chain.parentHash_eq T hfirst (by omega)
  follows := by
    intro t ht
    rw [honestBlock, honestBlock, if_pos (by omega), if_pos ht]
    refine ⟨chain.parentHash_eq (T + 1 + t) (by omega) (by omega), ?_⟩
    have hparent := chain.number_eq (T + 1 + t) (by omega) (by omega)
    have hchild := chain.number_eq (T + 1 + (t + 1)) (by omega) (by omega)
    change (chain.header (T + 1 + (t + 1))).number.toNat =
      (chain.header (T + 1 + t)).number.toNat + 1
    omega

/-- The last block is the target block. -/
theorem hash_honestBlock (hpos : 0 < k) :
    (honestBlock chain T k (k - 1)).hash = (chain.header (T + k)).hash crypto := by
  rw [honestBlock, if_pos (by omega), show T + 1 + (k - 1) = T + k by omega]
  rfl

/-- The encodings of the headers of a chain. -/
theorem ancestry_chain (hpos : 0 < k) (hfirst : chain.first.toNat ≤ T)
    (hhead : T + k ≤ chain.head.toNat) :
    Ancestry crypto k ((chain.header (T + k)).hash crypto)
      fun s => (chain.header (T + 1 + s)).encode where
  le_length _ _ := Header.le_length_encode _
  parentHash s hs := by
    have hlink := chain.parentHash_eq (T + 1 + s) (by omega) (by omega)
    have hfields := ((chain.header (T + 1 + (s + 1))).decodesTo []).parentHash
    rw [List.append_nil] at hfields
    exact hfields.symm.trans (congrArg ArrayVariable.data hlink)
  target := by
    rw [show T + 1 + (k - 1) = T + k by omega]
    rfl

/-- The circuit accepts all slots from which it reads the blocks of the chain. -/
theorem verifySubchain_of_readsSlots {MAX_NUM_HEADERS : ℕ} {trustedBlock targetBlock : U32Variable}
    {headers : ℕ → ArrayVariable (EncodedHeaderVariable MAX_HEADER_SIZE) HEADERS_PER_MAP}
    (hsize : 8 * numMapJobs MAX_NUM_HEADERS < 2 ^ 32)
    (hbound : trustedBlock.toNat + 8 * numMapJobs MAX_NUM_HEADERS < 2 ^ 32 + 7)
    (hk : trustedBlock.toNat + k = targetBlock.toNat) (hpos : 0 < k)
    (hle : k ≤ 8 * numMapJobs MAX_NUM_HEADERS) (hfirst : chain.first.toNat ≤ trustedBlock.toNat)
    (hhead : targetBlock.toNat ≤ chain.head.toNat)
    (hread : ReadsSlots crypto headers (8 * numMapJobs MAX_NUM_HEADERS)
      (honestBlock chain trustedBlock.toNat k)) :
    verifySubchain crypto MAX_NUM_HEADERS trustedBlock
        ((chain.header trustedBlock.toNat).hash crypto) targetBlock headers =
      some (subchainOutput crypto (honestBlock chain trustedBlock.toNat k) k
        (treeDepth MAX_NUM_HEADERS)) :=
  (verifySubchain_eq_some hsize hbound hread hpos hk).mpr
    ⟨hle, isSubchain_honestBlock hpos hfirst (by omega), rfl⟩

variable (chain T k) in
/-- The padding is not read. -/
theorem readsSlots_paddedHeaders
    (hfit : ∀ n, T < n → n ≤ T + k → (chain.header n).encode.length ≤ MAX_HEADER_SIZE)
    (padding : UInt8) (n : ℕ) :
    ReadsSlots crypto (paddedHeaders chain padding T k) n (honestBlock chain T k) := by
  intro s _
  rw [paddedHeaders, slotHeader_ofSlots, honestBlock]
  by_cases hs : s < k
  · have hlen := hfit (T + 1 + s) (by omega) (by omega)
    have hmax : MAX_HEADER_SIZE < 2 ^ 32 := by decide
    rw [dif_pos ⟨hs, hlen⟩, if_pos hs]
    refine readBlock_of_encode rfl ?_
    rw [paddedHeader, UInt32.toNat_ofNat', Nat.mod_eq_of_lt (by omega)]
  · rw [dif_neg fun h => hs h.1, if_neg hs]
    exact readBlock_emptyHeader (by decide)

variable (chain k) in
/-- The circuit accepts the headers of the chain with any padding. -/
theorem verifySubchain_paddedHeaders (MAX_NUM_HEADERS : ℕ) (trustedBlock targetBlock : U32Variable)
    (padding : UInt8)
    (hbound : trustedBlock.toNat + 8 * numMapJobs MAX_NUM_HEADERS < 2 ^ 32)
    (hk : trustedBlock.toNat + k = targetBlock.toNat) (hpos : 0 < k)
    (hle : k ≤ 8 * numMapJobs MAX_NUM_HEADERS) (hfirst : chain.first.toNat ≤ trustedBlock.toNat)
    (hhead : targetBlock.toNat ≤ chain.head.toNat)
    (hfit : ∀ n, (chain.header n).encode.length ≤ MAX_HEADER_SIZE) :
    verifySubchain crypto MAX_NUM_HEADERS trustedBlock
        ((chain.header trustedBlock.toNat).hash crypto) targetBlock
        (paddedHeaders chain padding trustedBlock.toNat k) =
      some (subchainOutput crypto (honestBlock chain trustedBlock.toNat k) k
        (treeDepth MAX_NUM_HEADERS)) :=
  verifySubchain_of_readsSlots (by omega) (by omega) hk hpos hle hfirst hhead
    (readsSlots_paddedHeaders chain trustedBlock.toNat k (fun n _ _ => hfit n) padding _)

/-- Nor is it hashed. -/
theorem hashedBytes_paddedHeaders {padding : UInt8} {s : ℕ} (hs : s < k)
    (hlen : (chain.header (T + 1 + s)).encode.length ≤ MAX_HEADER_SIZE) :
    hashedBytes (paddedHeaders chain padding T k) s = (chain.header (T + 1 + s)).encode := by
  have hmax : MAX_HEADER_SIZE < 2 ^ 32 := by decide
  rw [hashedBytes, paddedHeaders, slotHeader_ofSlots, dif_pos ⟨hs, hlen⟩]
  simp only [paddedHeader]
  rw [UInt32.toNat_ofNat', Nat.mod_eq_of_lt (by omega), List.take_left]

end OfChain

/-! ### Nine blocks in two batches -/

/-- The headers of blocks 1 to 9 of the signed chain. -/
def nineHeaders (padding : UInt8) :
    ℕ → ArrayVariable (EncodedHeaderVariable MAX_HEADER_SIZE) HEADERS_PER_MAP :=
  paddedHeaders Reference.signedChain padding 0 9

/-- The output for these blocks. -/
def nineOutput : SubchainVerificationVariable :=
  subchainOutput (Reference.crypto Reference.chainSigned) (honestBlock Reference.signedChain 0 9) 9
    (treeDepth 16)

theorem length_encode_signedChain (n : ℕ) :
    (Reference.signedChain.header n).encode.length ≤ MAX_HEADER_SIZE :=
  Nat.le_trans (Reference.length_encode_signedHeader n) (by decide)

theorem verifySubchain_nineHeaders (padding : UInt8) :
    verifySubchain (Reference.crypto Reference.chainSigned) 16 0
        (Reference.blockHash (Reference.signedHeader 0)) 9 (nineHeaders padding) =
      some nineOutput := by
  have hzero : (0 : UInt32).toNat = 0 := rfl
  have haccept := verifySubchain_paddedHeaders Reference.signedChain 9 16 0 9 padding (by decide)
    (by decide) (by decide) (by decide) (by decide) (by decide) length_encode_signedChain
  rw [hzero, Reference.hash_signedChain] at haccept
  exact haccept

theorem targetHeaderHash_nineOutput :
    nineOutput.targetHeaderHash = Reference.blockHash (Reference.signedHeader 9) := by
  rw [nineOutput, subchainOutput, hash_honestBlock (by decide), Reference.hash_signedChain]

theorem hashedBytes_nineHeaders (padding : UInt8) {s : ℕ} (hs : s < 9) :
    hashedBytes (nineHeaders padding) s = (Reference.signedHeader (1 + s)).encode := by
  rw [nineHeaders, hashedBytes_paddedHeaders hs (length_encode_signedChain _)]
  rfl

/-- The encodings of these blocks do not collide. -/
theorem collisionFree_nineHeaders (signed : List Reference.SignedMessage) :
    CollisionFree (Reference.crypto signed).blake2b
      ((List.range 9).map fun s => (Reference.signedHeader (1 + s)).encode) :=
  HashChain.collisionFree_of_nodup (by
    simp only [List.map_map, Function.comp_def, Reference.blake2b_encode]
    exact (List.nodup_cons.mp (List.nodup_cons.mp Reference.nodup_blockHash_signedHeader).2).2)

/-! ## Main results -/

/-- **Soundness.** Whatever headers the prover writes into the slots, an accepted run has the
headers of the blocks after the trusted block in its first slots, in order, up to the target block,
and returns the target hash and the roots over them. -/
theorem subchain_sound (crypto : Crypto) (MAX_NUM_HEADERS : ℕ) (trustedBlock : U32Variable)
    (trustedHeaderHash : Bytes32Variable) (targetBlock : U32Variable)
    (headers : ℕ → ArrayVariable (EncodedHeaderVariable MAX_HEADER_SIZE) HEADERS_PER_MAP)
    (o : SubchainVerificationVariable) (hlt : trustedBlock < targetBlock)
    (hbound : trustedBlock.toNat + 8 * numMapJobs MAX_NUM_HEADERS < 2 ^ 32)
    (h : verifySubchain crypto MAX_NUM_HEADERS trustedBlock trustedHeaderHash targetBlock headers =
      some o) :
    targetBlock.toNat - trustedBlock.toNat ≤ 8 * numMapJobs MAX_NUM_HEADERS ∧
      ∃ blocks depth, 2 ^ depth = 8 * numMapJobs MAX_NUM_HEADERS ∧
        (∀ s (hs : s < blocks.length),
          readBlock crypto (slotHeader headers s) = some blocks[s]) ∧
        CommitsTo crypto depth trustedBlock.toNat targetBlock.toNat trustedHeaderHash blocks o := by
  obtain ⟨-, -, hle, -⟩ := exists_isSubchain hlt hbound h
  obtain ⟨blocks, hread, hcommits⟩ := exists_commitsTo hlt hbound h
  exact ⟨hle, blocks, treeDepth MAX_NUM_HEADERS, two_pow_treeDepth MAX_NUM_HEADERS, hread, hcommits⟩

/-- The run over two batches, whose padding is not zero. -/
theorem subchain_sound_twoBatches :
    (9 : UInt32).toNat - (0 : UInt32).toNat ≤ 8 * numMapJobs 16 ∧
      ∃ blocks depth, 2 ^ depth = 8 * numMapJobs 16 ∧
        (∀ s (hs : s < blocks.length),
          readBlock (Reference.crypto Reference.chainSigned) (slotHeader (nineHeaders 7) s) =
            some blocks[s]) ∧
        CommitsTo (Reference.crypto Reference.chainSigned) depth (0 : UInt32).toNat
          (9 : UInt32).toNat (Reference.blockHash (Reference.signedHeader 0)) blocks nineOutput :=
  subchain_sound (Reference.crypto Reference.chainSigned) 16 0
    (Reference.blockHash (Reference.signedHeader 0)) 9 (nineHeaders 7) nineOutput (by decide)
    (by decide) (verifySubchain_nineHeaders 7)

/-- **No malleability.** Two accepted runs between the same blocks return the same roots. -/
theorem subchain_roots_unique (crypto : Crypto) (MAX_NUM_HEADERS : ℕ) (trustedBlock : U32Variable)
    (trustedHeaderHash : Bytes32Variable) (targetBlock : U32Variable)
    (headers headers' : ℕ → ArrayVariable (EncodedHeaderVariable MAX_HEADER_SIZE) HEADERS_PER_MAP)
    (o o' : SubchainVerificationVariable) (encoding : ℕ → List UInt8)
    (hlt : trustedBlock < targetBlock)
    (hbound : trustedBlock.toNat + 8 * numMapJobs MAX_NUM_HEADERS < 2 ^ 32)
    (h : verifySubchain crypto MAX_NUM_HEADERS trustedBlock trustedHeaderHash targetBlock headers =
      some o)
    (h' : verifySubchain crypto MAX_NUM_HEADERS trustedBlock trustedHeaderHash targetBlock
      headers' = some o')
    (htarget : o.targetHeaderHash = o'.targetHeaderHash)
    (hanc : Ancestry crypto (targetBlock.toNat - trustedBlock.toNat) o.targetHeaderHash encoding)
    (hfree : CollisionFree crypto.blake2b
      ((List.range (targetBlock.toNat - trustedBlock.toNat)).map (hashedBytes headers) ++
        (List.range (targetBlock.toNat - trustedBlock.toNat)).map (hashedBytes headers') ++
        (List.range (targetBlock.toNat - trustedBlock.toNat)).map encoding)) :
    o.stateRootMerkleRoot = o'.stateRootMerkleRoot ∧
      o.dataRootMerkleRoot = o'.dataRootMerkleRoot := by
  obtain ⟨b, hread, hle, hchain, rfl⟩ := exists_isSubchain hlt hbound h
  obtain ⟨b', hread', -, hchain', rfl⟩ := exists_isSubchain hlt hbound h'
  have hanc' : Ancestry crypto (targetBlock.toNat - trustedBlock.toNat)
      (b' (targetBlock.toNat - trustedBlock.toNat - 1)).hash encoding := by
    have heq : (b (targetBlock.toNat - trustedBlock.toNat - 1)).hash =
      (b' (targetBlock.toNat - trustedBlock.toNat - 1)).hash := htarget
    rw [← heq]
    exact hanc
  have hbytes := hashedBytes_eq_of_ancestry hread hle hchain hanc
    (hfree.mono fun m hm => by
      simp only [List.mem_append] at hm ⊢
      rcases hm with hm | hm <;> simp [hm])
  have hbytes' := hashedBytes_eq_of_ancestry hread' hle hchain' hanc'
    (hfree.mono fun m hm => by
      simp only [List.mem_append] at hm ⊢
      rcases hm with hm | hm <;> simp [hm])
  refine subchainOutput_congr fun s hs => ?_
  have hs₁ := hbytes (targetBlock.toNat - trustedBlock.toNat - 1 - s) s hs (by omega)
  have hs₂ := hbytes' (targetBlock.toNat - trustedBlock.toNat - 1 - s) s hs (by omega)
  refine header_eq_of_hashedBytes hread hread' (by omega) ?_ (hs₁.trans hs₂.symm)
  rw [hs₁]
  exact hanc.le_length s hs

/-- The headers with different padding are different. -/
theorem nineHeaders_ne : nineHeaders 0 ≠ nineHeaders 7 := by
  intro heq
  have hslot := congrArg (fun headers => (slotHeader headers 1).headerBytes.data) heq
  have hlen := Reference.length_encode_signedHeader (0 + 1 + 1)
  simp only [nineHeaders, paddedHeaders, slotHeader_ofSlots] at hslot
  rw [dif_pos ⟨by decide, length_encode_signedChain 2⟩,
    dif_pos ⟨by decide, length_encode_signedChain 2⟩] at hslot
  have hpad := List.append_cancel_left hslot
  rw [List.replicate_inj] at hpad
  rcases hpad.2 with hzero | hpad
  · have hmax : 225 < MAX_HEADER_SIZE := by decide
    rw [Reference.header_signedChain] at hzero
    omega
  · exact absurd hpad (by decide)

/-- Two runs over two batches with different padding. -/
theorem subchain_roots_unique_twoBatches :
    nineHeaders 0 ≠ nineHeaders 7 ∧ ∃ o o',
      verifySubchain (Reference.crypto Reference.chainSigned) 16 0
          (Reference.blockHash (Reference.signedHeader 0)) 9 (nineHeaders 0) = some o ∧
        verifySubchain (Reference.crypto Reference.chainSigned) 16 0
          (Reference.blockHash (Reference.signedHeader 0)) 9 (nineHeaders 7) = some o' ∧
        o.stateRootMerkleRoot = o'.stateRootMerkleRoot ∧
        o.dataRootMerkleRoot = o'.dataRootMerkleRoot := by
  refine ⟨nineHeaders_ne, nineOutput, nineOutput, verifySubchain_nineHeaders 0,
    verifySubchain_nineHeaders 7, ?_⟩
  have hnine : (9 : UInt32).toNat - (0 : UInt32).toNat = 9 := rfl
  refine subchain_roots_unique (Reference.crypto Reference.chainSigned) 16 0
    (Reference.blockHash (Reference.signedHeader 0)) 9 (nineHeaders 0) (nineHeaders 7) nineOutput
    nineOutput (fun s => (Reference.signedHeader (1 + s)).encode) (by decide) (by decide)
    (verifySubchain_nineHeaders 0) (verifySubchain_nineHeaders 7) rfl ?_ ?_
  · rw [hnine, targetHeaderHash_nineOutput]
    have hanc : Ancestry (Reference.crypto Reference.chainSigned) 9
        ((Reference.signedChain.header (0 + 9)).hash (Reference.crypto Reference.chainSigned))
        fun s => (Reference.signedChain.header (0 + 1 + s)).encode :=
      ancestry_chain (by decide) (by decide) (by decide)
    rw [Reference.hash_signedChain] at hanc
    simp only [Nat.zero_add, Reference.header_signedChain] at hanc
    exact hanc
  · rw [hnine]
    refine (collisionFree_nineHeaders Reference.chainSigned).mono fun m hm => ?_
    simp only [List.mem_append, List.mem_map, List.mem_range] at hm ⊢
    rcases hm with (⟨s, hs, rfl⟩ | ⟨s, hs, rfl⟩) | ⟨s, hs, rfl⟩
    · exact ⟨s, hs, (hashedBytes_nineHeaders 0 hs).symm⟩
    · exact ⟨s, hs, (hashedBytes_nineHeaders 7 hs).symm⟩
    · exact ⟨s, hs, rfl⟩

end VectorX
