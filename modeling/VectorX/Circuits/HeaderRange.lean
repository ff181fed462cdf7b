import VectorX.Circuits.SubchainCompleteness
import VectorX.Reference.Justification

/-!
# The header range circuit and its dummy

Reference: `circuits/header_range.rs` and `circuits/dummy_header_range.rs`. The circuit proves the
header range, the dummy program computes it from a node. Both map the 80 input bytes to 96 output
bytes.
-/

namespace VectorX

open Plonky2x Plonky2x.CircuitBuilder
open Bytes (slice beBytes beNat)

/-! ## Definitions -/

/-- The input of the header range functions, packed as the contract packs it. -/
def packHeaderRangeInput (trustedBlock : U32Variable) (trustedHeaderHash : Bytes32Variable)
    (authoritySetId : U64Variable) (authoritySetHash : Bytes32Variable)
    (targetBlock : U32Variable) : BytesVariable 80 where
  data := beBytes 4 trustedBlock.toNat ++ trustedHeaderHash.data ++
    beBytes 8 authoritySetId.toNat ++ authoritySetHash.data ++ beBytes 4 targetBlock.toNat
  length_data := by
    simp only [List.length_append, Bytes.length_beBytes, ArrayVariable.length_data]

/-- The blocks and the id are read off the input. -/
theorem of_pack_eq {T T' G G' : U32Variable} {h h' k k' : Bytes32Variable}
    {id id' : U64Variable}
    (heq : packHeaderRangeInput T h id k G = packHeaderRangeInput T' h' id' k' G') :
    T = T' ∧ id = id' ∧ G = G' := by
  have hdata := congrArg ArrayVariable.data heq
  have hlast := List.append_inj_right hdata (by simp [ArrayVariable.length_data])
  simp only [packHeaderRangeInput, List.append_assoc] at hdata
  obtain ⟨hfirst, hrest⟩ := List.append_inj hdata (by simp)
  have hid := List.append_inj_left (List.append_inj hrest (by simp [ArrayVariable.length_data])).2
    (by simp)
  exact ⟨UInt32.toNat_inj.mp (Bytes.beBytes_inj T.toNat_lt T'.toNat_lt hfirst),
    UInt64.toNat_inj.mp (Bytes.beBytes_inj id.toNat_lt id'.toNat_lt hid),
    UInt32.toNat_inj.mp (Bytes.beBytes_inj G.toNat_lt G'.toNat_lt hlast)⟩

/-- The output bytes: target hash, state root and data root. -/
def SubchainVerificationVariable.bytes (o : SubchainVerificationVariable) : List UInt8 :=
  o.targetHeaderHash.data ++ o.stateRootMerkleRoot.data ++ o.dataRootMerkleRoot.data

/-- `HeaderRangeCircuit::define`, on the untrusted headers and justification. -/
def headerRangeCircuit (crypto : Crypto) {MAX_AUTHORITY_SET_SIZE : ℕ} (MAX_NUM_HEADERS : ℕ)
    (input : BytesVariable 80)
    (headers : ℕ → ArrayVariable (EncodedHeaderVariable MAX_HEADER_SIZE) HEADERS_PER_MAP)
    (justification : JustificationVariable MAX_AUTHORITY_SET_SIZE) : Option (List UInt8) := do
  -- read the on-chain inputs
  let trustedBlock ← input.subarray 0 4
  let trustedHeaderHash ← input.subarray 4 32
  let authoritySetId ← input.subarray 36 8
  let authoritySetHash ← input.subarray 44 32
  let targetBlock ← input.subarray 76 4
  let trustedBlock := U32Variable.decode trustedBlock.data
  let authoritySetId := U64Variable.decode authoritySetId.data
  let targetBlock := U32Variable.decode targetBlock.data
  let subchainOutput ← verifySubchain crypto MAX_NUM_HEADERS trustedBlock trustedHeaderHash
    targetBlock headers
  verifySimpleJustification crypto targetBlock subchainOutput.targetHeaderHash authoritySetId
    authoritySetHash justification
  some subchainOutput.bytes

/-- `DummyHeaderRange::run`. -/
def dummyHeaderRange {crypto : Crypto} (chain : Chain crypto)
    (HEADER_RANGE_COMMITMENT_TREE_SIZE : ℕ) (inputBytes : List UInt8) : Option (List UInt8) := do
  let input : BytesVariable inputBytes.length := ⟨inputBytes, rfl⟩
  let trustedBlock ← input.subarray 0 4
  let _trustedHeaderHash ← input.subarray 4 32
  let _authoritySetId ← input.subarray 36 8
  let _authoritySetHash ← input.subarray 44 32
  let targetBlock ← input.subarray 76 4
  let trustedBlock := U32Variable.decode trustedBlock.data
  let targetBlock := U32Variable.decode targetBlock.data
  let targetHeader ← getHeader chain targetBlock.toNat
  let (stateMerkleRoot, dataMerkleRoot) ← getMerkleRootCommitments chain
    (UInt32.ofNat HEADER_RANGE_COMMITMENT_TREE_SIZE) trustedBlock targetBlock
  some ((targetHeader.hash crypto).data ++ stateMerkleRoot ++ dataMerkleRoot)

/-! ## Reading the input -/

section Input

variable {T G : U32Variable} {hash authoritySetHash : Bytes32Variable} {id : U64Variable}

theorem U32Variable.decode_beBytes (x : U32Variable) : U32Variable.decode (beBytes 4 x.toNat) = x := by
  have hlt : x.toNat < 256 ^ 4 := x.toNat_lt
  rw [U32Variable.decode, Bytes.beNat_beBytes, Nat.mod_eq_of_lt hlt, UInt32.ofNat_toNat]

theorem U64Variable.decode_beBytes (x : U64Variable) : U64Variable.decode (beBytes 8 x.toNat) = x := by
  have hlt : x.toNat < 256 ^ 8 := x.toNat_lt
  rw [U64Variable.decode, Bytes.beNat_beBytes, Nat.mod_eq_of_lt hlt, UInt64.ofNat_toNat]

/-- A slice of an array is the middle part of its bytes. -/
theorem subarray_of_append {N i n : ℕ} {a : BytesVariable N} {l m r : List UInt8}
    (ha : a.data = l ++ m ++ r) (hl : l.length = i) (hm : m.length = n) :
    a.subarray i n = some ⟨m, hm⟩ := by
  rw [ArrayVariable.subarray_eq_some_iff]
  refine ⟨?_, ?_⟩
  · rw [← a.length_data, ha, List.length_append, List.length_append]
    omega
  · rw [ha, Bytes.slice_append_middle hl hm]

/-- The fields of a packed input. -/
theorem subarray_packHeaderRangeInput {N : ℕ} {a : BytesVariable N}
    (ha : a.data = (packHeaderRangeInput T hash id authoritySetHash G).data) :
    a.subarray 0 4 = some ⟨beBytes 4 T.toNat, Bytes.length_beBytes _ _⟩ ∧
      a.subarray 4 32 = some hash ∧
      a.subarray 36 8 = some ⟨beBytes 8 id.toNat, Bytes.length_beBytes _ _⟩ ∧
      a.subarray 44 32 = some authoritySetHash ∧
      a.subarray 76 4 = some ⟨beBytes 4 G.toNat, Bytes.length_beBytes _ _⟩ := by
  have hlens := hash.length_data
  have hlens' := authoritySetHash.length_data
  simp only [packHeaderRangeInput] at ha
  refine ⟨?_, ?_, ?_, ?_, ?_⟩
  · refine subarray_of_append (l := []) (r := hash.data ++ beBytes 8 id.toNat ++
      authoritySetHash.data ++ beBytes 4 G.toNat) ?_ rfl _
    rw [ha]
    simp only [List.nil_append, List.append_assoc]
  · refine subarray_of_append (l := beBytes 4 T.toNat) (r := beBytes 8 id.toNat ++
      authoritySetHash.data ++ beBytes 4 G.toNat) ?_ (by simp) hash.length_data
    rw [ha]
    simp only [List.append_assoc]
  · refine subarray_of_append (l := beBytes 4 T.toNat ++ hash.data)
      (r := authoritySetHash.data ++ beBytes 4 G.toNat) ?_ (by simp [hlens]) _
    rw [ha]
    simp only [List.append_assoc]
  · exact subarray_of_append (l := beBytes 4 T.toNat ++ hash.data ++ beBytes 8 id.toNat)
      (r := beBytes 4 G.toNat) ha (by simp [hlens]) authoritySetHash.length_data
  · refine subarray_of_append (l := beBytes 4 T.toNat ++ hash.data ++ beBytes 8 id.toNat ++
      authoritySetHash.data) (r := []) ?_ (by simp [hlens, hlens']) _
    rw [ha, List.append_nil]

/-- The circuit on a packed input. -/
theorem headerRangeCircuit_pack {crypto : Crypto} {MAX_AUTHORITY_SET_SIZE MAX_NUM_HEADERS : ℕ}
    {headers : ℕ → ArrayVariable (EncodedHeaderVariable MAX_HEADER_SIZE) HEADERS_PER_MAP}
    {justification : JustificationVariable MAX_AUTHORITY_SET_SIZE} {bytes : List UInt8} :
    headerRangeCircuit crypto MAX_NUM_HEADERS (packHeaderRangeInput T hash id authoritySetHash G)
        headers justification = some bytes ↔
      ∃ o, verifySubchain crypto MAX_NUM_HEADERS T hash G headers = some o ∧
        verifySimpleJustification crypto G o.targetHeaderHash id authoritySetHash justification =
          some () ∧ bytes = o.bytes := by
  obtain ⟨hT, hhash, hid, hset, hG⟩ := subarray_packHeaderRangeInput
    (show (packHeaderRangeInput T hash id authoritySetHash G).data =
      (packHeaderRangeInput T hash id authoritySetHash G).data from rfl)
  simp only [headerRangeCircuit, hT, hhash, hid, hset, hG, Option.bind_eq_bind, Option.bind_some,
    U32Variable.decode_beBytes, U64Variable.decode_beBytes, Option.bind_eq_some_iff,
    Option.some.injEq]
  constructor
  · rintro ⟨o, ho, _, hj, rfl⟩
    exact ⟨o, ho, hj, rfl⟩
  · rintro ⟨o, ho, hj, rfl⟩
    exact ⟨o, ho, (), hj, rfl⟩

/-- The dummy program on a packed input. -/
theorem dummyHeaderRange_pack {crypto : Crypto} {chain : Chain crypto} {treeSize : ℕ} :
    dummyHeaderRange chain treeSize (packHeaderRangeInput T hash id authoritySetHash G).data =
      (getHeader chain G.toNat).bind fun targetHeader =>
        (getMerkleRootCommitments chain (UInt32.ofNat treeSize) T G).bind fun roots =>
          some ((targetHeader.hash crypto).data ++ roots.1 ++ roots.2) := by
  obtain ⟨hT, hhash, hid, hset, hG⟩ := subarray_packHeaderRangeInput
    (a := ⟨(packHeaderRangeInput T hash id authoritySetHash G).data, rfl⟩)
    (show _ = (packHeaderRangeInput T hash id authoritySetHash G).data from rfl)
  simp only [dummyHeaderRange, hT, hhash, hid, hset, hG, Option.bind_eq_bind, Option.bind_some,
    U32Variable.decode_beBytes]

end Input

/-! ## The roots that the host computes -/

section Host

variable {crypto : Crypto} {chain : Chain crypto} {T G : U32Variable} {k d : ℕ}

/-- The host computes the root of a complete tree. -/
theorem getMerkleRoot_eq (f : ℕ → Bytes32Variable) (d : ℕ) :
    getMerkleRoot crypto ((List.range (2 ^ d)).map fun i => (f i).data) =
      (Merkle.root (hashNode crypto) f d 0).data := by
  have hempty : ((List.range (2 ^ d)).map fun i => (f i).data).isEmpty = false := by
    rw [List.isEmpty_eq_false_iff, ← List.length_pos_iff, List.length_map, List.length_range]
    exact Nat.two_pow_pos d
  have hroot := Merkle.map_root (g := ArrayVariable.data) (h := hashNode crypto)
    (k := fun a b => (crypto.sha256 (a ++ b)).data) (fun _ _ => rfl) f d 0
  simp only [getMerkleRoot, hempty, List.length_map, List.length_range,
    Merkle.nextPowerOfTwo_two_pow, Nat.sub_self, List.replicate_zero, List.append_nil, hroot,
    Merkle.hashLayers_leaves Nat.lt_two_pow_self.le]
  rfl

variable (chain) in
/-- The leaves of the host are the leaves of the circuit. -/
theorem hostLeaves_eq (hk : k ≤ 2 ^ d) (T : ℕ) (root : HeaderVariable → Bytes32Variable) :
    (((List.range' (T + 1) k).map chain.header).map fun h => (root h.toVariable).data) ++
        List.replicate (2 ^ d - k) (List.replicate 32 0) =
      (List.range (2 ^ d)).map fun s =>
        (leafOf k (fun s => root (honestBlock chain T k s).header) s).data := by
  rw [List.range'_eq_map_range, List.map_map, List.map_map, Merkle.map_range_append_replicate hk]
  refine List.map_congr_left fun s _ => ?_
  by_cases hs : s < k
  · simp only [hs, if_true, leafOf, honestBlock, Function.comp_apply]
    rfl
  · simp only [hs, if_false, leafOf]
    rfl

/-- The host computes the roots of the circuit, unless its last group of requests for the headers
overflows. -/
theorem getMerkleRootCommitments_eq {treeSize : UInt32} (htree : treeSize.toNat = 2 ^ d)
    (hk : T.toNat + k = G.toNat) (hpos : 0 < k) (hle : k ≤ 2 ^ d)
    (hfirst : chain.first.toNat ≤ T.toNat) (hhead : G.toNat ≤ chain.head.toNat) :
    getMerkleRootCommitments chain treeSize T G =
      if T.toNat + 1 + 200 * ((k - 1) / 200) + 200 < 2 ^ 32 then
        some ((subchainOutput crypto (honestBlock chain T.toNat k) k d).stateRootMerkleRoot.data,
          (subchainOutput crypto (honestBlock chain T.toNat k) k d).dataRootMerkleRoot.data)
      else none := by
  have hd : d < 32 := (Nat.pow_lt_pow_iff_right (by decide)).mp (htree ▸ treeSize.toNat_lt)
  have hG : G.toNat < 2 ^ 32 := G.toNat_lt
  have hsub : (G - T).toNat = k := by
    rw [UInt32.toNat_sub]
    omega
  have hsize : ¬treeSize < G - T := by
    rw [UInt32.lt_iff_toNat_lt, hsub, htree]
    omega
  obtain ⟨firstBlock, hadd, hnum⟩ := checkedAdd_one (a := T) (by omega)
  have hheaders : getBlockHeadersRange chain firstBlock G =
      if T.toNat + 1 + 200 * ((k - 1) / 200) + 200 < 2 ^ 32 then
        some ((List.range' (T.toNat + 1) k).map chain.header)
      else none := by
    rw [getBlockHeadersRange_eq (by omega) hhead (by omega), hnum,
      show G.toNat + 1 - (T.toNat + 1) = k by omega, show G.toNat - (T.toNat + 1) = k - 1 by omega]
  have hpow : ∃ d', d' < 32 ∧ 2 ^ d = 2 ^ d' := ⟨d, hd, rfl⟩
  rw [getMerkleRootCommitments]
  simp only [htree, hsize, hadd, hheaders, Option.bind_eq_bind, Option.bind_some,
    show ¬G.toNat < T.toNat by omega, hpow, not_true_eq_false, if_false]
  split
  · have hcount : ((List.range' (T.toNat + 1) k).map chain.header).length = k := by simp
    have hstate := hostLeaves_eq chain hle T.toNat HeaderVariable.stateRoot
    have hdata := hostLeaves_eq chain hle T.toNat HeaderVariable.dataRoot
    simp only [Header.toVariable] at hstate hdata
    simp only [Option.bind_some, hcount, hstate, hdata, getMerkleRoot_eq]
    rfl
  · rfl

end Host

/-! ## Agreement -/

/-- The dummy program and the circuit, on the honest headers, return the same bytes. -/
def HeaderRangesAgree {crypto : Crypto} (chain : Chain crypto) {MAX_AUTHORITY_SET_SIZE : ℕ}
    (N : ℕ) (trustedBlock targetBlock : U32Variable) (authoritySetId : U64Variable)
    (authoritySetHash : Bytes32Variable)
    (justification : JustificationVariable MAX_AUTHORITY_SET_SIZE) : Prop :=
  ∃ headers, HintsWrite chain N trustedBlock targetBlock headers ∧
    ∃ bytes,
      headerRangeCircuit crypto N (packHeaderRangeInput trustedBlock
        ((chain.header trustedBlock.toNat).hash crypto) authoritySetId authoritySetHash targetBlock)
        headers justification = some bytes ∧
      dummyHeaderRange chain N (packHeaderRangeInput trustedBlock
        ((chain.header trustedBlock.toNat).hash crypto) authoritySetId authoritySetHash
        targetBlock).data = some bytes

theorem numMapJobs_eq (m : ℕ) : numMapJobs (8 * 2 ^ m) = 2 ^ m := by
  rw [numMapJobs, HEADERS_PER_MAP, Nat.mul_div_cancel_left _ (by decide),
    Merkle.nextPowerOfTwo_two_pow]

theorem treeDepth_eq (m : ℕ) : treeDepth (8 * 2 ^ m) = m + 3 := by
  rw [treeDepth, HEADERS_PER_MAP, Nat.mul_div_cancel_left _ (by decide),
    Nat.clog_pow 2 m (by decide)]

section Agreement

variable {crypto : Crypto} {chain : Chain crypto} {MAX_AUTHORITY_SET_SIZE m : ℕ}
  {T G : U32Variable} {hash authoritySetHash : Bytes32Variable} {id : U64Variable}

/-- A tree that is too large for the host is cut off to size 0. -/
theorem dummyHeaderRange_eq_none (hN : 2 ^ 32 ≤ 8 * 2 ^ m) :
    dummyHeaderRange chain (8 * 2 ^ m) (packHeaderRangeInput T hash id authoritySetHash G).data =
      none := by
  have hm : 29 ≤ m := by
    by_contra hlt
    have hpow : 2 ^ m ≤ 2 ^ 28 := Nat.pow_le_pow_right (by decide) (by omega)
    omega
  have hzero : (UInt32.ofNat (8 * 2 ^ m)).toNat = 0 := by
    obtain ⟨i, rfl⟩ := Nat.exists_eq_add_of_le hm
    rw [UInt32.toNat_ofNat', pow_add]
    omega
  have hpow : ¬∃ d, d < 32 ∧ (UInt32.ofNat (8 * 2 ^ m)).toNat = 2 ^ d := by
    rintro ⟨d, -, hd⟩
    have hpos := Nat.two_pow_pos d
    omega
  have hroots : getMerkleRootCommitments chain (UInt32.ofNat (8 * 2 ^ m)) T G = none := by
    rw [getMerkleRootCommitments]
    simp only [hpow, not_false_eq_true, if_true, Option.bind_eq_bind, Option.bind_none]
  rw [dummyHeaderRange_pack, hroots]
  cases getHeader chain G.toNat <;> rfl

/-- The honest run of the circuit and the dummy program on a range without wrap-around. -/
theorem headerRangesAgree_of_lt (hlt : T < G) (hrange : G.toNat ≤ T.toNat + 8 * 2 ^ m)
    (hover : G.toNat + 200 < 2 ^ 32) (hfirst : chain.first.toNat ≤ T.toNat)
    (hhead : G.toNat ≤ chain.head.toNat)
    {justification : JustificationVariable MAX_AUTHORITY_SET_SIZE}
    (hjust : verifySimpleJustification crypto G ((chain.header G.toNat).hash crypto) id
      authoritySetHash justification = some ())
    (hN : 8 * 2 ^ m < 2 ^ 32) (hbound : T.toNat + 8 * 2 ^ m < 2 ^ 32 + 7)
    (hfit : HeadersFit chain T.toNat G.toNat) :
    HeaderRangesAgree chain (8 * 2 ^ m) T G id authoritySetHash justification := by
  rw [UInt32.lt_iff_toNat_lt] at hlt
  obtain ⟨k, hk⟩ : ∃ k, T.toNat + k = G.toNat := ⟨G.toNat - T.toNat, by omega⟩
  have hjobs := numMapJobs_eq m
  have hdepth : treeDepth (8 * 2 ^ m) = m + 3 := treeDepth_eq m
  have htree : (UInt32.ofNat (8 * 2 ^ m)).toNat = 2 ^ (m + 3) := by
    rw [UInt32.toNat_ofNat', Nat.mod_eq_of_lt hN, pow_add]
    omega
  have hpow : 2 ^ (m + 3) = 8 * 2 ^ m := by rw [pow_add]; omega
  rw [← hk] at hfit
  have haccept := verifySubchain_honestSlot (8 * 2 ^ m) T
    (by omega) (by omega) hk (by omega) (by omega) hfirst hhead hfit
  have htarget : (subchainOutput crypto (honestBlock chain T.toNat k) k (m + 3)).targetHeaderHash =
      (chain.header G.toNat).hash crypto := hk ▸ hash_honestBlock (by omega)
  have hroots := getMerkleRootCommitments_eq htree hk (by omega) (by omega) hfirst hhead
  rw [if_pos (by omega)] at hroots
  have hheader := getHeader_eq (show chain.first.toNat ≤ G.toNat by omega) hhead
  rw [hdepth] at haccept
  refine ⟨ofSlots (honestSlot chain T.toNat k), ?_, _,
    headerRangeCircuit_pack.mpr ⟨_, haccept, htarget ▸ hjust, rfl⟩, ?_⟩
  · intro j hj
    exact hintHeaders_eq (by omega) (by omega) hk hfirst hhead hfit hj fun hjk => by omega
  · rw [dummyHeaderRange_pack, hheader, hroots, Option.bind_some, Option.bind_some, ← htarget]
    rfl

end Agreement

/-- **Agreement.** On a trusted and a target block of a chain with an accepted justification, the
dummy program and the circuit return the same bytes if and only if the tree size fits 32 bits, the
last batch does not wrap around and the headers fit the circuit. -/
theorem headerRangesAgree_iff (crypto : Crypto) (chain : Chain crypto)
    (MAX_AUTHORITY_SET_SIZE m : ℕ) (T G : U32Variable) (id : U64Variable)
    (authoritySetHash : Bytes32Variable)
    (justification : JustificationVariable MAX_AUTHORITY_SET_SIZE) (hlt : T < G)
    (hrange : G.toNat ≤ T.toNat + 8 * 2 ^ m) (hover : G.toNat + 200 < 2 ^ 32)
    (hfirst : chain.first ≤ T) (hhead : G ≤ chain.head)
    (hjust : verifySimpleJustification crypto G ((chain.header G.toNat).hash crypto) id
      authoritySetHash justification = some ()) :
    HeaderRangesAgree chain (8 * 2 ^ m) T G id authoritySetHash justification ↔
      8 * 2 ^ m < 2 ^ 32 ∧ T.toNat + 8 * 2 ^ m < 2 ^ 32 + 7 ∧
        HeadersFit chain T.toNat G.toNat := by
  rw [UInt32.le_iff_toNat_le] at hfirst hhead
  constructor
  · rintro ⟨headers, hwrite, bytes, hcircuit, hdummy⟩
    have hjobs := numMapJobs_eq m
    obtain ⟨o, haccept, -⟩ := headerRangeCircuit_pack.mp hcircuit
    have hN : 8 * 2 ^ m < 2 ^ 32 := by
      by_contra hge
      rw [dummyHeaderRange_eq_none (by omega)] at hdummy
      exact absurd hdummy (by simp)
    have hbound : T.toNat + 8 * 2 ^ m < 2 ^ 32 + 7 := by
      by_contra hge
      rw [verifySubchain_eq_none (by omega) hlt (by omega)] at haccept
      exact absurd haccept (by simp)
    refine ⟨hN, hbound, fun n hn hn' => ?_⟩
    rw [UInt32.lt_iff_toNat_lt] at hlt
    have hfits := of_hintHeaders_eq_some (k := G.toNat - T.toNat) (s := n - (T.toNat + 1))
      (by omega) (by omega) (by omega) hfirst hhead (by omega) (by omega) (by omega)
      (hwrite _ (by omega))
    rw [Nat.add_sub_cancel' (by omega)] at hfits
    exact hfits.2
  · rintro ⟨hN, hbound, hfit⟩
    exact headerRangesAgree_of_lt hlt hrange hover hfirst hhead hjust hN hbound hfit

/-- The condition at block 1 of a chain from the genesis block. -/
theorem headerRangesAgree_iff_first :
    HeaderRangesAgree (Reference.chain [Reference.blockSigned₁] 0) (8 * 2 ^ 0) 0 1 298
        Reference.authoritySetHash
        (Reference.justification Reference.message₁ Reference.blockSignature₁) ↔
      8 * 2 ^ 0 < 2 ^ 32 ∧ (0 : UInt32).toNat + 8 * 2 ^ 0 < 2 ^ 32 + 7 ∧
        HeadersFit (Reference.chain [Reference.blockSigned₁] 0) (0 : UInt32).toNat
          (1 : UInt32).toNat :=
  headerRangesAgree_iff (Reference.crypto [Reference.blockSigned₁])
    (Reference.chain [Reference.blockSigned₁] 0) 1 0 0 1 298 Reference.authoritySetHash
    (Reference.justification Reference.message₁ Reference.blockSignature₁) (by decide) (by decide)
    (by decide) (by decide) (by decide)
    (Reference.verifySimpleJustification_justification _
      (Reference.isPrecommit_precommitMessage _ _ _))

/-- With a tree of 256 leaves, the circuit rejects the range from block 4294967094 to the next. -/
theorem not_headerRangesAgree :
    ¬ ∀ (crypto : Crypto) (chain : Chain crypto) (MAX_AUTHORITY_SET_SIZE m : ℕ)
        (T G : U32Variable) (id : U64Variable) (authoritySetHash : Bytes32Variable)
        (justification : JustificationVariable MAX_AUTHORITY_SET_SIZE), T < G →
        G.toNat ≤ T.toNat + 8 * 2 ^ m → G.toNat + 200 < 2 ^ 32 → chain.first ≤ T →
        G ≤ chain.head → HeadersFit chain T.toNat G.toNat →
        verifySimpleJustification crypto G ((chain.header G.toNat).hash crypto) id
          authoritySetHash justification = some () →
        HeaderRangesAgree chain (8 * 2 ^ m) T G id authoritySetHash justification := by
  intro hclaim
  obtain ⟨headers, -, bytes, hcircuit, -⟩ := hclaim (Reference.crypto [Reference.blockSigned₂])
    (Reference.chain [Reference.blockSigned₂] 4294967094) 1 5 4294967094 4294967095 298
    Reference.authoritySetHash
    (Reference.justification Reference.message₂ Reference.blockSignature₂) (by decide) (by decide)
    (by decide) (by decide) (by decide) (fun n _ _ => Reference.length_encode_chain _ _ n)
    (Reference.verifySimpleJustification_justification _
      (Reference.isPrecommit_precommitMessage _ _ _))
  obtain ⟨o, haccept, -⟩ := headerRangeCircuit_pack.mp hcircuit
  rw [verifySubchain_eq_none (by rw [numMapJobs_eq]; decide) (by decide)
    (by rw [numMapJobs_eq]; decide)] at haccept
  exact absurd haccept (by simp)

end VectorX
