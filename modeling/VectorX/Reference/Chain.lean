import VectorX.Input.DataFetcher
import VectorX.Reference.Crypto

/-!
# A reference chain

Headers without logs, each on top of the hash of the one before. The roots of a header are read off
its number, so that neighbouring blocks have different ones.
-/

namespace Reference

open VectorX Plonky2x

/-- The header with the given number and parent. -/
def header (number : ℕ) (parentHash : Bytes32Variable) : Header where
  parentHash
  number := UInt32.ofNat number
  stateRoot := ArrayVariable.replicate 32 (UInt8.ofNat (2 * number + 1))
  extrinsicsRoot := emptyBytes32
  logs := []
  extensionPrefix := [0, 4]
  dataRoot := ArrayVariable.replicate 32 (UInt8.ofNat (2 * number + 2))

theorem length_encode_header (number : ℕ) (parentHash : Bytes32Variable) :
    (header number parentHash).encode.length ≤ 150 := by
  have hnumber := Compact.length_encode_le (header number parentHash).number.toNat
  have htail : (header number parentHash).encodeTail.length = 35 := by
    simp [Header.encodeTail, header, Compact.encode, emptyBytes32.length_data]
  rw [Header.length_encode]
  omega

/-- The Blake2b hash of a header. -/
def blockHash (h : Header) : Bytes32Variable := ⟨Blake2b.hash h.encode, Blake2b.length_hash h.encode⟩

/-- The header `n` blocks after block `first`. -/
def chainHeader (first : ℕ) : ℕ → Header
  | 0 => header first emptyBytes32
  | n + 1 => header (first + (n + 1)) (blockHash (chainHeader first n))

theorem length_encode_chainHeader (first n : ℕ) : (chainHeader first n).encode.length ≤ 150 := by
  cases n <;> exact length_encode_header _ _

theorem number_chainHeader (first n : ℕ) :
    (chainHeader first n).number = UInt32.ofNat (first + n) := by
  cases n <;> rfl

/-- A chain with a header for every 32-bit number from `first` on. -/
def chain (signed : List SignedMessage) (first : UInt32) : Chain (crypto signed) where
  first := first
  head := 4294967295
  header n := chainHeader first.toNat (n - first.toNat)
  number_eq n hfirst hn := by
    have hhead : (4294967295 : UInt32).toNat = 4294967295 := rfl
    rw [number_chainHeader, Nat.add_sub_cancel' hfirst, UInt32.toNat_ofNat',
      Nat.mod_eq_of_lt (by omega)]
  parentHash_eq n hfirst _ := by
    rw [Nat.sub_add_comm hfirst]
    rfl

theorem length_encode_chain (signed : List SignedMessage) (first : UInt32) (n : ℕ) :
    ((chain signed first).header n).encode.length ≤ MAX_HEADER_SIZE :=
  Nat.le_trans (length_encode_chainHeader first.toNat (n - first.toNat)) (by decide)

/-! ## Chains with logs -/

/-- The headers from block 0 on, with the given logs. -/
def logHeader (logs : ℕ → List DigestItem) : ℕ → Header
  | 0 => { header 0 emptyBytes32 with logs := logs 0 }
  | n + 1 => { header (n + 1) (blockHash (logHeader logs n)) with logs := logs (n + 1) }

theorem number_logHeader (logs : ℕ → List DigestItem) (n : ℕ) :
    (logHeader logs n).number = UInt32.ofNat n := by
  cases n <;> rfl

/-- A header without logs is a short one. -/
theorem length_encode_logHeader {logs : ℕ → List DigestItem} {n : ℕ} (h : logs n = []) :
    (logHeader logs n).encode.length ≤ 150 := by
  cases n with
  | zero => rw [logHeader, h]; exact length_encode_header 0 emptyBytes32
  | succ n => rw [logHeader, h]; exact length_encode_header (n + 1) _

/-- The chain with the given logs from the genesis block on. -/
def logChain (signed : List SignedMessage) (logs : ℕ → List DigestItem) : Chain (crypto signed) where
  first := 0
  head := 4294967295
  header := logHeader logs
  number_eq n _ hn := by
    have hhead : (4294967295 : UInt32).toNat = 4294967295 := rfl
    rw [number_logHeader, UInt32.toNat_ofNat', Nat.mod_eq_of_lt (by omega)]
  parentHash_eq _ _ _ := rfl

end Reference
