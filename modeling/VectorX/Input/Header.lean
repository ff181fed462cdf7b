import VectorX.Circuits.SubchainBatch
import VectorX.Reference.Crypto

/-!
# Avail headers and their encoding

A header is SCALE-encoded as parent hash, compact block number, state root, extrinsics root, digest
logs and extension. The extension ends with the data root; what comes before it is kept as bytes.
-/

namespace VectorX

open Plonky2x Plonky2x.CircuitBuilder
open Bytes (slice leNat)

/-! ## Headers -/

/-- A log of the digest. -/
inductive DigestItem
  | other (data : List UInt8)
  | consensus (engineId : ArrayVariable UInt8 4) (message : List UInt8)
  | seal (engineId : ArrayVariable UInt8 4) (message : List UInt8)
  | preRuntime (engineId : ArrayVariable UInt8 4) (message : List UInt8)
  | runtimeEnvironmentUpdated
deriving DecidableEq

/-- SCALE encoding of a byte vector. -/
def encodeBytes (bytes : List UInt8) : List UInt8 := Compact.encode bytes.length ++ bytes

def DigestItem.encode : DigestItem → List UInt8
  | .other data => 0 :: encodeBytes data
  | .consensus engineId message => 4 :: (engineId.data ++ encodeBytes message)
  | .seal engineId message => 5 :: (engineId.data ++ encodeBytes message)
  | .preRuntime engineId message => 6 :: (engineId.data ++ encodeBytes message)
  | .runtimeEnvironmentUpdated => [8]

/-- A block header. -/
structure Header where
  parentHash : Bytes32Variable
  number : UInt32
  stateRoot : Bytes32Variable
  extrinsicsRoot : Bytes32Variable
  logs : List DigestItem
  /-- The encoding of the extension up to the data root. -/
  extensionPrefix : List UInt8
  dataRoot : Bytes32Variable
deriving DecidableEq

namespace Header

/-- What follows the state root in the encoding, up to the data root. -/
def encodeTail (h : Header) : List UInt8 :=
  h.extrinsicsRoot.data ++ (Compact.encode h.logs.length ++ h.logs.flatMap DigestItem.encode) ++
    h.extensionPrefix

/-- The SCALE encoding. -/
def encode (h : Header) : List UInt8 :=
  h.parentHash.data ++ Compact.encode h.number.toNat ++ h.stateRoot.data ++ h.encodeTail ++
    h.dataRoot.data

/-- The block hash. -/
def hash (crypto : Crypto) (h : Header) : Bytes32Variable := crypto.blake2b h.encode

/-- The fields that the circuits use. -/
def toVariable (h : Header) : HeaderVariable where
  blockNumber := h.number
  parentHash := h.parentHash
  stateRoot := h.stateRoot
  dataRoot := h.dataRoot

/-- The block of a header. -/
def toBlock (crypto : Crypto) (h : Header) : Block where
  hash := h.hash crypto
  header := h.toVariable

theorem length_encode (h : Header) : h.encode.length =
    96 + (Compact.encode h.number.toNat).length + h.encodeTail.length := by
  simp only [encode, List.length_append, ArrayVariable.length_data]
  omega

theorem length_encodeTail (h : Header) : 32 ≤ h.encodeTail.length := by
  simp only [encodeTail, List.length_append, ArrayVariable.length_data]
  omega

/-- Every field that `decode_header` reads lies inside the encoding. -/
theorem le_length_encode (h : Header) : 69 ≤ h.encode.length := by
  have htail := h.length_encodeTail
  rw [length_encode]
  omega

end Header

/-! ## Decoding an encoding -/

/-- The five bytes of the block number start with its compact encoding. -/
theorem Header.slice_number (h : Header) (padding : List UInt8) :
    ∃ rest, slice (h.encode ++ padding) 32 5 = Compact.encode h.number.toNat ++ rest := by
  have hlen := Compact.length_encode_le h.number.toNat
  have hsplit : h.encode ++ padding = h.parentHash.data ++ (Compact.encode h.number.toNat ++
      (h.stateRoot.data ++ h.encodeTail ++ h.dataRoot.data ++ padding)) := by
    simp only [Header.encode, List.append_assoc]
  have hright := Bytes.slice_append_right h.parentHash.data (Compact.encode h.number.toNat ++
      (h.stateRoot.data ++ h.encodeTail ++ h.dataRoot.data ++ padding)) 0 5
  rw [h.parentHash.length_data, Nat.add_zero] at hright
  rw [hsplit, hright]
  exact ⟨_, by rw [slice, List.drop_zero, List.take_append, List.take_of_length_le hlen]⟩

/-- An encoding, followed by any bytes, decodes to the fields of its header. -/
theorem Header.decodesTo (h : Header) (padding : List UInt8) :
    DecodesTo (h.encode ++ padding) (h.encode.length - 32) h.toVariable := by
  obtain ⟨rest, hrest⟩ := h.slice_number padding
  obtain ⟨hvalid, hvalue, hlen⟩ := Compact.decode_encode h.number.toNat_lt rest
  have hencode := h.length_encode
  refine ⟨⟨?_, ?_, ?_, ?_⟩, ?_⟩
  · rwa [hrest]
  · rw [hrest, hvalue]
    rfl
  · have hslice := Bytes.slice_append_middle (List.length_nil (α := UInt8)) h.parentHash.length_data
      (Compact.encode h.number.toNat ++ h.stateRoot.data ++ h.encodeTail ++ h.dataRoot.data ++ padding)
    simpa only [Header.encode, Header.toVariable, List.append_assoc, List.nil_append]
      using hslice.symm
  · have hoffset : (h.parentHash.data ++ Compact.encode h.number.toNat).length =
        32 + (Compact.encode h.number.toNat).length := by
      rw [List.length_append, h.parentHash.length_data]
    have hslice := Bytes.slice_append_middle hoffset h.stateRoot.length_data
      (h.encodeTail ++ h.dataRoot.data ++ padding)
    rw [hrest, hlen]
    simpa only [Header.encode, Header.toVariable, List.append_assoc] using hslice.symm
  · have hoffset : (h.parentHash.data ++ Compact.encode h.number.toNat ++ h.stateRoot.data ++
        h.encodeTail).length = h.encode.length - 32 := by
      simp only [List.length_append, ArrayVariable.length_data]
      omega
    exact (Bytes.slice_append_middle hoffset h.dataRoot.length_data padding).symm

/-- The padding follows the encoding, and the data root is at its end. -/
theorem Header.encoded_facts {S : ℕ} (h : Header) {encoded : EncodedHeaderVariable S}
    {padding : List UInt8} (hbytes : encoded.headerBytes.data = h.encode ++ padding)
    (hsize : encoded.headerSize.toNat = h.encode.length) :
    h.encode.length ≤ S ∧ dataRootStart encoded.headerSize = h.encode.length - 32 := by
  have hmin := h.le_length_encode
  constructor
  · rw [← encoded.headerBytes.length_data, hbytes, List.length_append]
    omega
  · rw [dataRootStart_of_le (by omega), hsize]

/-- **Round trip.** Every header is read back from its encoding, whatever bytes follow the
encoding. -/
theorem decodeHeader_encode (crypto : Crypto) {S : ℕ} (h : Header) (padding : List UInt8)
    (encoded : EncodedHeaderVariable S) (headerHash : Bytes32Variable)
    (hbytes : encoded.headerBytes.data = h.encode ++ padding)
    (hsize : encoded.headerSize.toNat = h.encode.length) :
    decodeHeader crypto encoded headerHash = some {
      blockNumber := h.number
      parentHash := h.parentHash
      stateRoot := h.stateRoot
      dataRoot := h.dataRoot } := by
  have hmin := h.le_length_encode
  obtain ⟨hS, hstart⟩ := h.encoded_facts hbytes hsize
  refine (decodeHeader_eq_some (by omega)).mpr ⟨by omega, ?_⟩
  rw [hbytes, hstart]
  exact h.decodesTo padding

/-- A header whose number takes five bytes. -/
def largeHeader : Header where
  parentHash := ArrayVariable.replicate 32 1
  number := 4294967295
  stateRoot := ArrayVariable.replicate 32 2
  extrinsicsRoot := ArrayVariable.replicate 32 3
  logs := [.runtimeEnvironmentUpdated]
  extensionPrefix := [0, 4]
  dataRoot := ArrayVariable.replicate 32 4

theorem length_encode_largeHeader : largeHeader.encode.length = 137 := by decide +kernel

/-- The header, followed by ones. -/
def encodedLargeHeader : EncodedHeaderVariable 151 where
  headerBytes := ⟨largeHeader.encode ++ List.replicate 14 1, by
    rw [List.length_append, length_encode_largeHeader, List.length_replicate]⟩
  headerSize := 137

theorem decodeHeader_encode_large :
    decodeHeader (Reference.crypto []) encodedLargeHeader emptyBytes32 = some {
      blockNumber := 4294967295
      parentHash := ArrayVariable.replicate 32 1
      stateRoot := ArrayVariable.replicate 32 2
      dataRoot := ArrayVariable.replicate 32 4 } :=
  decodeHeader_encode (Reference.crypto []) largeHeader (List.replicate 14 1) encodedLargeHeader
    emptyBytes32 rfl length_encode_largeHeader.symm

/-! ## Padded headers -/

/-- A header with its encoding padded with zero bytes, as the hints write it. A header that is too
long makes the hint panic. -/
def encodedHeader (HEADER_LENGTH : ℕ) (h : Header) :
    Option (EncodedHeaderVariable HEADER_LENGTH) :=
  if hlen : h.encode.length ≤ HEADER_LENGTH then
    some {
      headerBytes := ⟨h.encode ++ List.replicate (HEADER_LENGTH - h.encode.length) 0, by
        rw [List.length_append, List.length_replicate, Nat.add_sub_cancel' hlen]⟩
      headerSize := UInt32.ofNat h.encode.length }
  else none

/-- The padding after the last header of a batch. -/
def emptyHeader (HEADER_LENGTH : ℕ) : EncodedHeaderVariable HEADER_LENGTH where
  headerBytes := ArrayVariable.replicate HEADER_LENGTH 0
  headerSize := 0

/-- The block that the circuit reads from an empty header. -/
def emptyBlock (crypto : Crypto) : Block where
  hash := crypto.blake2b []
  header := ⟨0, emptyBytes32, emptyBytes32, emptyBytes32⟩

/-- The circuit reads an encoding, padded with any bytes, as the header. -/
theorem readBlock_of_encode {crypto : Crypto} {S : ℕ} {h : Header}
    {encoded : EncodedHeaderVariable S} {padding : List UInt8}
    (hbytes : encoded.headerBytes.data = h.encode ++ padding)
    (hsize : encoded.headerSize.toNat = h.encode.length) :
    readBlock crypto encoded = some (h.toBlock crypto) := by
  have hmin := h.le_length_encode
  obtain ⟨hS, hstart⟩ := h.encoded_facts hbytes hsize
  refine (readBlock_eq_some (by omega)).mpr ⟨by omega, ?_, by omega, ?_⟩
  · rw [hbytes, hsize, List.take_left]
    rfl
  · rw [hbytes, hstart]
    exact h.decodesTo padding

/-- The circuit reads a padded header as the header. -/
theorem readBlock_encodedHeader {crypto : Crypto} {S : ℕ} {h : Header}
    {encoded : EncodedHeaderVariable S} (hS : S < 2 ^ 32) (henc : encodedHeader S h = some encoded) :
    readBlock crypto encoded = some (h.toBlock crypto) := by
  rw [encodedHeader] at henc
  split at henc
  · rename_i hlen
    obtain rfl := Option.some.inj henc
    refine readBlock_of_encode rfl ?_
    rw [UInt32.toNat_ofNat', Nat.mod_eq_of_lt (by omega)]
  · exact absurd henc (by simp)

/-- The circuit also reads the empty headers. -/
theorem readBlock_emptyHeader {crypto : Crypto} {S : ℕ} (hS : 69 ≤ S) :
    readBlock crypto (emptyHeader S) = some (emptyBlock crypto) := by
  have hslice : ∀ i n : ℕ, i + n ≤ S → slice (List.replicate S (0 : UInt8)) i n =
      List.replicate n 0 := by
    intro i n hin
    rw [slice, List.drop_replicate, List.take_replicate, Nat.min_eq_left (by omega)]
  have hnum : leNat (List.replicate 5 0) = 0 := by decide
  have hstart : dataRootStart (emptyHeader S).headerSize = 0 := rfl
  refine (readBlock_eq_some (by rw [hstart]; omega)).mpr ⟨Nat.zero_le S, rfl, hS, ?_⟩
  rw [hstart]
  refine ⟨⟨?_, ?_, ?_, ?_⟩, ?_⟩ <;>
    simp only [emptyHeader, ArrayVariable.replicate, emptyBlock, emptyBytes32]
  · rw [hslice 32 5 (by omega), hnum]
    decide
  · rw [hslice 32 5 (by omega), hnum]
    decide
  · rw [hslice 0 32 (by omega)]
  · rw [hslice 32 5 (by omega), hnum, hslice _ 32 (by simp only [Compact.byteLength]; omega)]
  · rw [hslice 0 32 (by omega)]

end VectorX
