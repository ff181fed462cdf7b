import VectorX.Plonky2x.Builder

/-!
# Constants and variables of the circuits

Reference: `circuits/consts.rs` and `circuits/vars.rs`.
-/

namespace VectorX

open Plonky2x

/-- The data root starts this many bytes before the end of the header. -/
def DATA_ROOT_OFFSET_FROM_END : U32Variable := 32

/-- Number of headers processed per map job of the subchain verification. -/
def HEADERS_PER_MAP : ℕ := 8

/-- Maximum header size, in Blake2b chunks. -/
def MAX_HEADER_CHUNK_SIZE : ℕ := 280

/-- Size of a Blake2b chunk, in bytes. -/
def BLAKE2B_CHUNK_SIZE_BYTES : ℕ := 128

/-- Maximum header size, in bytes. -/
def MAX_HEADER_SIZE : ℕ := MAX_HEADER_CHUNK_SIZE * BLAKE2B_CHUNK_SIZE_BYTES

def HASH_SIZE : ℕ := 32

abbrev PUBKEY_LENGTH : ℕ := 32

def WEIGHT_LENGTH : ℕ := 8

/-- Length of an encoded validator: public key and weight. -/
def VALIDATOR_LENGTH : ℕ := PUBKEY_LENGTH + WEIGHT_LENGTH

def DELAY_LENGTH : ℕ := 4

/-- Length of the part of the prefix up to and including the consensus engine id. -/
def CONSENSUS_ENGINE_ID_PREFIX_LENGTH : ℕ := 6

/-- A compact `u32` has up to 5 bytes. -/
def MAX_COMPACT_UINT_BYTES : ℕ := 5

/-- Maximum length of the prefix before the encoded new authority set. -/
def MAX_PREFIX_LENGTH : ℕ :=
  CONSENSUS_ENGINE_ID_PREFIX_LENGTH + MAX_COMPACT_UINT_BYTES + 1 + MAX_COMPACT_UINT_BYTES

/-- Length of the precommit message that authorities sign. -/
def ENCODED_PRECOMMIT_LENGTH : ℕ := 53

/-- Maximum number of authorities the deployed circuits support. -/
def MAX_AUTHORITY_SET_SIZE : ℕ := 300

/-- Maximum length of the encoded authorities and the delay after them. -/
def MAX_SUBARRAY_SIZE : ℕ := MAX_AUTHORITY_SET_SIZE * VALIDATOR_LENGTH + DELAY_LENGTH

/-- A header, padded to `S` bytes. -/
@[ext] structure EncodedHeaderVariable (S : ℕ) where
  headerBytes : BytesVariable S
  headerSize : U32Variable
deriving DecidableEq

/-- The fields of a header that the circuits use. -/
@[ext] structure HeaderVariable where
  blockNumber : U32Variable
  parentHash : Bytes32Variable
  stateRoot : Bytes32Variable
  dataRoot : Bytes32Variable
deriving DecidableEq

structure PrecommitVariable where
  blockHash : Bytes32Variable
  blockNumber : U32Variable
  justificationRound : U64Variable
  authoritySetId : U64Variable
deriving DecidableEq

/-- The untrusted witness of a justification. -/
structure JustificationVariable (MAX_NUM_AUTHORITIES : ℕ) where
  encodedPrecommit : BytesVariable ENCODED_PRECOMMIT_LENGTH
  validatorSigned : ArrayVariable BoolVariable MAX_NUM_AUTHORITIES
  signatures : ArrayVariable EDDSASignature MAX_NUM_AUTHORITIES
  pubkeys : ArrayVariable Bytes32Variable MAX_NUM_AUTHORITIES
  numAuthorities : U32Variable
deriving DecidableEq

/-- The untrusted witness of an authority set rotation. -/
structure RotateVariable (S MAX_NUM_AUTHORITIES : ℕ) where
  epochEndBlockNumber : U32Variable
  targetHeader : EncodedHeaderVariable S
  targetHeaderNumAuthorities : Variable
  nextAuthoritySetStartPosition : Variable
  newPubkeys : ArrayVariable Bytes32Variable MAX_NUM_AUTHORITIES
deriving DecidableEq

/-- The output of the subchain verification. -/
structure SubchainVerificationVariable where
  targetHeaderHash : Bytes32Variable
  stateRootMerkleRoot : Bytes32Variable
  dataRootMerkleRoot : Bytes32Variable
deriving DecidableEq

end VectorX
