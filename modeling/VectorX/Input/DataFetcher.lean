import VectorX.Input.Header

/-!
# Fetching headers from a node

Reference: `circuits/input/mod.rs`. A node serves a range of the headers of a chain; asking for
another block panics, as does an addition of block numbers that overflows.
-/

namespace VectorX

open Plonky2x Plonky2x.CircuitBuilder

/-! ## Chains -/

/-- The headers that a node serves: consecutive numbers, each linked to the one before. -/
structure Chain (crypto : Crypto) where
  first : UInt32
  head : UInt32
  header : ℕ → Header
  number_eq : ∀ n, first.toNat ≤ n → n ≤ head.toNat → (header n).number.toNat = n
  parentHash_eq : ∀ n, first.toNat ≤ n → n < head.toNat →
    (header (n + 1)).parentHash = (header n).hash crypto

/-- `u32` addition that panics on overflow. -/
def checkedAdd (a b : UInt32) : Option UInt32 :=
  if a.toNat + b.toNat < 2 ^ 32 then some (a + b) else none

theorem checkedAdd_of_lt {a b : UInt32} (h : a.toNat + b.toNat < 2 ^ 32) :
    ∃ c, checkedAdd a b = some c ∧ c.toNat = a.toNat + b.toNat := by
  refine ⟨a + b, by rw [checkedAdd, if_pos h], ?_⟩
  rw [UInt32.toNat_add, Nat.mod_eq_of_lt h]

/-- The next number, below the largest one. -/
theorem checkedAdd_one {a : UInt32} (h : a.toNat + 1 < 2 ^ 32) :
    ∃ c, checkedAdd a 1 = some c ∧ c.toNat = a.toNat + 1 := checkedAdd_of_lt h

theorem checkedAdd_eq_some {a b c : UInt32} (h : checkedAdd a b = some c) :
    c.toNat = a.toNat + b.toNat := by
  rw [checkedAdd] at h
  split at h
  · rename_i hlt
    rw [← Option.some.inj h, UInt32.toNat_add, Nat.mod_eq_of_lt hlt]
  · exact absurd h (by simp)

theorem checkedAdd_of_le {a b : UInt32} (h : 2 ^ 32 ≤ a.toNat + b.toNat) :
    checkedAdd a b = none := by
  rw [checkedAdd, if_neg (by omega)]

/-- The smaller of two block numbers. -/
theorem toNat_ite_le (a b : UInt32) : (if a ≤ b then a else b).toNat = min a.toNat b.toNat := by
  split <;> rename_i hle <;> rw [UInt32.le_iff_toNat_le] at hle <;> omega

section Fetcher

variable {crypto : Crypto} (chain : Chain crypto)

/-- `get_header`. -/
def getHeader (blockNumber : ℕ) : Option Header :=
  if chain.first.toNat ≤ blockNumber ∧ blockNumber ≤ chain.head.toNat then
    some (chain.header blockNumber)
  else none

def MAX_CONCURRENT_WS_REQUESTS : UInt32 := 200

/-- The loop of `get_block_headers_range` from `currBlock` on, for at most `fuel` batches. -/
def headersLoop (endBlockNumber : UInt32) : ℕ → UInt32 → Option (List Header)
  | 0, _ => none
  | fuel + 1, currBlock =>
    if currBlock ≤ endBlockNumber then do
      let nextBlock ← checkedAdd currBlock MAX_CONCURRENT_WS_REQUESTS
      let endBlock := if nextBlock - 1 ≤ endBlockNumber then nextBlock - 1 else endBlockNumber
      let stop ← checkedAdd endBlock 1
      let headersBatch ←
        (List.range' currBlock.toNat (stop.toNat - currBlock.toNat)).mapM (getHeader chain)
      let headers ← headersLoop endBlockNumber fuel nextBlock
      some (headersBatch ++ headers)
    else some []

/-- `get_block_headers_range`: the headers of an inclusive range, in batches. -/
def getBlockHeadersRange (startBlockNumber endBlockNumber : UInt32) : Option (List Header) :=
  headersLoop chain endBlockNumber (endBlockNumber.toNat + 2) startBlockNumber

/-- `HeaderRangeFetcherHint::hint`. -/
def headerRangeFetcherHint (HEADER_LENGTH NUM_HEADERS : ℕ) (startBlock lastBlock maxBlock : UInt32) :
    Option (ArrayVariable (EncodedHeaderVariable HEADER_LENGTH) NUM_HEADERS) := do
  let lastBlock := if lastBlock ≤ maxBlock then lastBlock else maxBlock
  let headers ← if startBlock ≤ lastBlock then getBlockHeadersRange chain startBlock lastBlock
    else some []
  let headerVariables ← headers.mapM (encodedHeader HEADER_LENGTH)
  newArray NUM_HEADERS
    (headerVariables ++ List.replicate (NUM_HEADERS - headers.length) (emptyHeader HEADER_LENGTH))

/-! ## Merkle roots of header ranges -/

/-- `get_merkle_root`: the root over the leaves, extended with zeros to a power of two. -/
def getMerkleRoot (crypto : Crypto) (leaves : List (List UInt8)) : List UInt8 :=
  if leaves.isEmpty then []
  else
    let padding := List.replicate (Merkle.nextPowerOfTwo leaves.length - leaves.length)
      (List.replicate 32 0)
    let nodes := leaves ++ padding
    (Merkle.hashLayers (fun a b => (crypto.sha256 (a ++ b)).data) nodes.length nodes).headD []

/-- `get_merkle_root_commitments`: the state root and data root commitments of a range. -/
def getMerkleRootCommitments (treeSize startBlock endBlock : UInt32) :
    Option (List UInt8 × List UInt8) := do
  if ¬ ∃ d < 32, treeSize.toNat = 2 ^ d then none
  if endBlock.toNat < startBlock.toNat then none
  if treeSize < endBlock - startBlock then none
  let firstBlock ← checkedAdd startBlock 1
  let headers ← getBlockHeadersRange chain firstBlock endBlock
  let padding := List.replicate (treeSize.toNat - headers.length) (List.replicate 32 0)
  let stateRootLeaves := headers.map (fun h => h.stateRoot.data) ++ padding
  let dataRootLeaves := headers.map (fun h => h.dataRoot.data) ++ padding
  some (getMerkleRoot crypto stateRootLeaves, getMerkleRoot crypto dataRootLeaves)

end Fetcher

/-! ## The fetched range -/

section Range

variable {crypto : Crypto} {chain : Chain crypto}

/-- The header of a block that the node serves. -/
theorem getHeader_eq {n : ℕ} (hfirst : chain.first.toNat ≤ n) (hhead : n ≤ chain.head.toNat) :
    getHeader chain n = some (chain.header n) := if_pos ⟨hfirst, hhead⟩

/-- The headers of consecutive blocks up to the head. -/
theorem mapM_getHeader {a n : ℕ} (hfirst : chain.first.toNat ≤ a)
    (h : a + n ≤ chain.head.toNat + 1) :
    (List.range' a n).mapM (getHeader chain) = some ((List.range' a n).map chain.header) := by
  rw [TreeReduce.mapM_eq_some_map]
  intro i hi
  rw [List.mem_range'_1] at hi
  exact getHeader_eq (by omega) (by omega)

/-- The loop returns the headers from `currBlock` on, unless the start of a batch is so close to the
largest block number that the end of the batch overflows. -/
theorem headersLoop_eq {endBlockNumber : UInt32} (hhead : endBlockNumber.toNat ≤ chain.head.toNat) :
    ∀ (fuel : ℕ) (currBlock : UInt32), endBlockNumber.toNat + 1 - currBlock.toNat < fuel →
      chain.first.toNat ≤ currBlock.toNat → currBlock.toNat ≤ endBlockNumber.toNat →
      headersLoop chain endBlockNumber fuel currBlock =
        if currBlock.toNat + 200 * ((endBlockNumber.toNat - currBlock.toNat) / 200) + 200 < 2 ^ 32
        then some ((List.range' currBlock.toNat
          (endBlockNumber.toNat + 1 - currBlock.toNat)).map chain.header)
        else none
  | 0, _, hfuel, _, _ => absurd hfuel (by omega)
  | fuel + 1, currBlock, hfuel, hfirst, hle => by
    have hend : endBlockNumber.toNat < 2 ^ 32 := endBlockNumber.toNat_lt
    have h200 : MAX_CONCURRENT_WS_REQUESTS.toNat = 200 := rfl
    have hone : (1 : UInt32).toNat = 1 := rfl
    rw [headersLoop, if_pos (UInt32.le_iff_toNat_le.mpr hle)]
    by_cases hover : 2 ^ 32 ≤ currBlock.toNat + 200
    · rw [checkedAdd_of_le (by rw [h200]; exact hover), if_neg (by omega)]
      rfl
    · obtain ⟨nextBlock, hnext, hnextNat⟩ := checkedAdd_of_lt
        (a := currBlock) (b := MAX_CONCURRENT_WS_REQUESTS) (by omega)
      rw [h200] at hnextNat
      have hprev : (nextBlock - 1).toNat = currBlock.toNat + 199 := by
        rw [UInt32.toNat_sub, hone]
        omega
      generalize hendBlock : (if nextBlock - 1 ≤ endBlockNumber then nextBlock - 1
        else endBlockNumber) = endBlock
      have hendBlockNat : endBlock.toNat = min (currBlock.toNat + 199) endBlockNumber.toNat := by
        rw [← hendBlock, toNat_ite_le, hprev]
      obtain ⟨stop, hstop, hstopNat⟩ := checkedAdd_one (a := endBlock) (by omega)
      have hbatch : (List.range' currBlock.toNat (stop.toNat - currBlock.toNat)).mapM
          (getHeader chain) = some ((List.range' currBlock.toNat
            (stop.toNat - currBlock.toNat)).map chain.header) := mapM_getHeader hfirst (by omega)
      rw [hnext, Option.bind_eq_bind, Option.bind_some]
      simp only [hendBlock, hstop, hbatch, Option.bind_eq_bind, Option.bind_some]
      by_cases hmore : nextBlock.toNat ≤ endBlockNumber.toNat
      · -- another batch follows
        have ih := headersLoop_eq hhead fuel nextBlock (by omega) (by omega) hmore
        have hquot : currBlock.toNat + 200 * ((endBlockNumber.toNat - currBlock.toNat) / 200) =
            nextBlock.toNat + 200 * ((endBlockNumber.toNat - nextBlock.toNat) / 200) := by omega
        have hrange : List.range' currBlock.toNat (endBlockNumber.toNat + 1 - currBlock.toNat) =
            List.range' currBlock.toNat (stop.toNat - currBlock.toNat) ++
              List.range' nextBlock.toNat (endBlockNumber.toNat + 1 - nextBlock.toNat) := by
          rw [show nextBlock.toNat = currBlock.toNat + 1 * (stop.toNat - currBlock.toNat) by omega,
            List.range'_append]
          congr 1
          omega
        rw [ih, hquot, hrange, List.map_append]
        split <;> rfl
      · -- this is the last batch
        have hlast : headersLoop chain endBlockNumber fuel nextBlock = some [] := by
          rcases fuel with - | fuel
          · omega
          · rw [headersLoop, if_neg (by rw [UInt32.le_iff_toNat_le]; exact hmore)]
        have hzero : (endBlockNumber.toNat - currBlock.toNat) / 200 = 0 := by omega
        rw [hlast, hzero, if_pos (by omega), Option.bind_some, List.append_nil]
        congr 3
        omega

/-- The headers of a range. -/
theorem getBlockHeadersRange_eq {startBlockNumber endBlockNumber : UInt32}
    (hfirst : chain.first.toNat ≤ startBlockNumber.toNat)
    (hhead : endBlockNumber.toNat ≤ chain.head.toNat)
    (hle : startBlockNumber.toNat ≤ endBlockNumber.toNat) :
    getBlockHeadersRange chain startBlockNumber endBlockNumber =
      if startBlockNumber.toNat +
          200 * ((endBlockNumber.toNat - startBlockNumber.toNat) / 200) + 200 < 2 ^ 32
      then some ((List.range' startBlockNumber.toNat
        (endBlockNumber.toNat + 1 - startBlockNumber.toNat)).map chain.header)
      else none :=
  headersLoop_eq hhead _ _ (by omega) hfirst hle

end Range

end VectorX
