import VectorX.Circuits.Vars
import VectorX.Common.Compact
import Mathlib.Tactic.IntervalCases

/-!
# Decoding of headers and precommits

Reference: `circuits/builder/decoder.rs` and `circuits/builder/header.rs`. Each decoder comes with
one lemma that says when it accepts and what it returns.
-/

namespace VectorX

open Plonky2x Plonky2x.CircuitBuilder
open Bytes (slice leNat leBytes)

/-! ## Definitions -/

/-- `decode_compact_int`: the value of a compact `u32` and its compress mode. -/
def decodeCompactInt (crypto : Crypto) (compactBytes : BytesVariable MAX_COMPACT_UINT_BYTES) :
    Option (U32Variable × Variable) := do
  let boolTargets := compactBytes.data.flatMap fun x => (ByteVariable.asBoolTargets x).reverse
  let compressMode := leSum (slice boolTargets 0 (2 - 0))
  let zeroModeValue := leSum (slice boolTargets 2 (8 - 2))
  let oneModeValue := leSum (slice boolTargets 2 (16 - 2))
  let twoModeValue := leSum (slice boolTargets 2 (32 - 2))
  let threeModeValue := leSum (slice boolTargets 8 (40 - 8))
  let value ← crypto.selectArrayRandomGate
    [zeroModeValue, oneModeValue, twoModeValue, threeModeValue] compressMode
  let value := U32Variable.fromVariablesUnsafe value
  -- in mode 3 the upper six bits are the number of bytes of the value, minus four
  let isModeThree := isEqual compressMode (Variable.ofNat 3)
  let encodedByteLength := leSum (slice boolTargets 2 (8 - 2))
  let isEncodedLengthZero := isEqual encodedByteLength (Variable.ofNat 0)
  let isValidEncodedLengthCheck := isModeThree && isEncodedLengthZero
  assertIsEqual isModeThree isValidEncodedLengthCheck
  some (value, compressMode)

/-- The field element that `decode_compact_int` selects and reads as a `u32` without a range
check. -/
def compactIntValue (crypto : Crypto) (compactBytes : BytesVariable MAX_COMPACT_UINT_BYTES) :
    Option Variable :=
  let boolTargets := compactBytes.data.flatMap fun x => (ByteVariable.asBoolTargets x).reverse
  crypto.selectArrayRandomGate
    [leSum (slice boolTargets 2 (8 - 2)), leSum (slice boolTargets 2 (16 - 2)),
      leSum (slice boolTargets 2 (32 - 2)), leSum (slice boolTargets 8 (40 - 8))]
    (leSum (slice boolTargets 0 (2 - 0)))

/-- `get_compact_int_byte_length`. -/
def getCompactIntByteLength (crypto : Crypto) (compressMode : Variable) : Option Variable :=
  crypto.selectArrayRandomGate
    [Variable.ofNat 1, Variable.ofNat 2, Variable.ofNat 4, Variable.ofNat 5] compressMode

/-- `hash_encoded_header`. -/
def hashEncodedHeader (crypto : Crypto) {S : ℕ} (header : EncodedHeaderVariable S) :
    Option Bytes32Variable :=
  crypto.curtaBlake2bVariable header.headerBytes.data header.headerSize

/-- `decode_header`. -/
def decodeHeader (crypto : Crypto) {S : ℕ} (header : EncodedHeaderVariable S)
    (headerHash : Bytes32Variable) : Option HeaderVariable := do
  let parentHash ← header.headerBytes.subarray 0 HASH_SIZE
  let blockNumberBytes ← header.headerBytes.subarray HASH_SIZE MAX_COMPACT_UINT_BYTES
  let (blockNumber, compressMode) ← decodeCompactInt crypto blockNumberBytes
  -- the block number is 1, 2, 4 or 5 bytes long
  let stateRoot33 ← header.headerBytes.subarray 33 HASH_SIZE
  let stateRoot34 ← header.headerBytes.subarray 34 HASH_SIZE
  let stateRoot36 ← header.headerBytes.subarray 36 HASH_SIZE
  let stateRoot37 ← header.headerBytes.subarray 37 HASH_SIZE
  let stateRoot ← crypto.selectArrayRandomGate
    [stateRoot33, stateRoot34, stateRoot36, stateRoot37] compressMode
  let dataRootStart := header.headerSize - DATA_ROOT_OFFSET_FROM_END
  let headerIsZeroSize := isZero (U32Variable.variable header.headerSize)
  let dataRootStart := select headerIsZeroSize 0 dataRootStart
  let dataRoot ← crypto.getFixedSubarray HASH_SIZE header.headerBytes
    (U32Variable.variable dataRootStart) headerHash.data
  some { blockNumber, parentHash, stateRoot, dataRoot }

/-- `decode_precommit`. -/
def decodePrecommit (precommit : BytesVariable ENCODED_PRECOMMIT_LENGTH) :
    Option PrecommitVariable := do
  let precommitFirstByte ← precommit.data[0]?
  assertIsEqual precommitFirstByte 1
  let blockHash ← precommit.subarray 1 32
  let blockNumberBytes ← precommit.subarray 33 4
  let justificationRoundBytes ← precommit.subarray 37 8
  let authoritySetIdBytes ← precommit.subarray 45 8
  -- the numbers are stored little-endian and `decode` expects big-endian bytes
  some {
    blockHash
    blockNumber := U32Variable.decode blockNumberBytes.data.reverse
    justificationRound := U64Variable.decode justificationRoundBytes.data.reverse
    authoritySetId := U64Variable.decode authoritySetIdBytes.data.reverse }

/-! ## Compact integers -/

variable {crypto : Crypto}

/-- The flattened bits of a byte string spell its little-endian number. -/
theorem ofBits_boolTargets (bytes : List ByteVariable) :
    Bits.ofBits (bytes.flatMap fun x => (ByteVariable.asBoolTargets x).reverse) = leNat bytes := by
  simp only [ByteVariable.asBoolTargets, List.reverse_reverse]
  exact Bits.ofBits_flatMap_toBits bytes

theorem length_boolTargets (bytes : List ByteVariable) :
    (bytes.flatMap fun x => (ByteVariable.asBoolTargets x).reverse).length = 8 * bytes.length := by
  simp only [ByteVariable.asBoolTargets, List.reverse_reverse]
  exact Bits.length_flatMap_toBits bytes

/-- A sum of consecutive bits of a byte string. -/
theorem val_leSum_boolTargets (bytes : List ByteVariable) (i n : ℕ) (hn : n ≤ 32)
    (h : i + n ≤ 8 * bytes.length) :
    (leSum (slice (bytes.flatMap fun x => (ByteVariable.asBoolTargets x).reverse) i n)).val =
      leNat bytes / 2 ^ i % 2 ^ n := by
  have hlen : i + n ≤
      (bytes.flatMap fun x => (ByteVariable.asBoolTargets x).reverse).length := by
    rwa [length_boolTargets]
  rw [val_leSum (by rw [Bytes.length_slice hlen]; exact hn), Bits.ofBits_slice hlen,
    ofBits_boolTargets]

/-- The four candidate values are selected by the two low bits. -/
theorem selectArrayRandomGate_compactValue {N : ℕ} {mode zero one two three : Variable}
    (hmode : mode.val = N % 4) (hzero : zero.val = N / 2 ^ 2 % 2 ^ 6)
    (hone : one.val = N / 2 ^ 2 % 2 ^ 14) (htwo : two.val = N / 2 ^ 2 % 2 ^ 30)
    (hthree : three.val = N / 2 ^ 8 % 2 ^ 32) :
    ∃ value, crypto.selectArrayRandomGate [zero, one, two, three] mode = some value ∧
      value.val = Compact.value N := by
  have hlt : N % 4 < 4 := Nat.mod_lt _ (by decide)
  rw [crypto.selectArrayRandomGate_eq _ _ (by rw [hmode]; exact hlt), hmode, Compact.value]
  interval_cases N % 4
  · exact ⟨zero, rfl, hzero⟩
  · exact ⟨one, rfl, hone⟩
  · exact ⟨two, rfl, htwo⟩
  · exact ⟨three, rfl, hthree⟩

variable (crypto) in
/-- The selected field element is the value of the compact integer. -/
theorem exists_compactIntValue (bytes : BytesVariable MAX_COMPACT_UINT_BYTES) :
    ∃ value, compactIntValue crypto bytes = some value ∧
      value.val = Compact.value (leNat bytes.data) := by
  have hlen : bytes.data.length = 5 := bytes.length_data
  have hmode := val_leSum_boolTargets bytes.data 0 (2 - 0) (by omega) (by omega)
  have hzero := val_leSum_boolTargets bytes.data 2 (8 - 2) (by omega) (by omega)
  have hone := val_leSum_boolTargets bytes.data 2 (16 - 2) (by omega) (by omega)
  have htwo := val_leSum_boolTargets bytes.data 2 (32 - 2) (by omega) (by omega)
  have hthree := val_leSum_boolTargets bytes.data 8 (40 - 8) (by omega) (by omega)
  simp only [Nat.pow_zero, Nat.div_one, Nat.sub_zero, Nat.reducePow] at hmode
  exact selectArrayRandomGate_compactValue hmode hzero hone htwo hthree

/-- `decode_compact_int` reads the compact integer at the start of its bytes. -/
theorem decodeCompactInt_eq_some {bytes : BytesVariable MAX_COMPACT_UINT_BYTES}
    {v : U32Variable} {m : Variable} :
    decodeCompactInt crypto bytes = some (v, m) ↔
      Compact.Valid (leNat bytes.data) ∧ v.toNat = Compact.value (leNat bytes.data) ∧
        m.val = leNat bytes.data % 4 := by
  have hlen : bytes.data.length = 5 := bytes.length_data
  have hmode := val_leSum_boolTargets bytes.data 0 (2 - 0) (by omega) (by omega)
  have hzero := val_leSum_boolTargets bytes.data 2 (8 - 2) (by omega) (by omega)
  simp only [Nat.pow_zero, Nat.div_one, Nat.sub_zero, Nat.reducePow] at hmode
  obtain ⟨value, hsel, hvalue⟩ := exists_compactIntValue crypto bytes
  rw [compactIntValue] at hsel
  rw [decodeCompactInt]
  simp only [Option.bind_eq_bind]
  generalize (bytes.data.flatMap fun x => (ByteVariable.asBoolTargets x).reverse) = bits at *
  generalize leNat bytes.data = N at *
  generalize leSum (slice bits 0 (2 - 0)) = mode at *
  generalize leSum (slice bits 2 (8 - 2)) = zero at *
  have hthreeIff : isEqual mode (Variable.ofNat 3) = true ↔ N % 4 = 3 := by
    rw [isEqual_iff, Fin.ext_iff, hmode]
    rfl
  have hzeroIff : isEqual zero (Variable.ofNat 0) = true ↔ N / 2 ^ 2 % 2 ^ 6 = 0 := by
    rw [isEqual_iff, Fin.ext_iff, hzero]
    rfl
  have hcheck : isEqual mode (Variable.ofNat 3) =
      (isEqual mode (Variable.ofNat 3) && isEqual zero (Variable.ofNat 0)) ↔ Compact.Valid N := by
    rw [Compact.Valid, ← hthreeIff, ← hzeroIff]
    generalize isEqual mode (Variable.ofNat 3) = a
    generalize isEqual zero (Variable.ofNat 0) = b
    cases a <;> cases b <;> decide
  have hread : (U32Variable.fromVariablesUnsafe value).toNat = Compact.value N := by
    rw [U32Variable.toNat_fromVariablesUnsafe (by rw [hvalue]; exact Compact.value_lt N), hvalue]
  rw [hsel, Option.bind_some, Option.bind_eq_some_iff]
  simp only [assertIsEqual_eq_some, hcheck, Option.some.injEq, Prod.mk.injEq, exists_and_left,
    exists_const]
  rw [← UInt32.toNat_inj, hread, Fin.ext_iff, hmode, eq_comm, eq_comm (a := N % 4)]

/-- The length of a compact integer by its mode. -/
theorem getCompactIntByteLength_eq_some {m l : Variable} (hm : m.val < 4) :
    getCompactIntByteLength crypto m = some l ↔ l.val = Compact.byteLength m.val := by
  rw [getCompactIntByteLength, crypto.selectArrayRandomGate_eq _ _ hm]
  generalize m.val = k at *
  interval_cases k <;> simp [Compact.byteLength, Fin.ext_iff, Variable.val_ofNat, eq_comm, GOLDILOCKS]

/-- What the two decoders say about a compact integer that they accept. -/
theorem of_decodeCompactInt {bytes : BytesVariable MAX_COMPACT_UINT_BYTES} {v : U32Variable}
    {m l : Variable} (hdecode : decodeCompactInt crypto bytes = some (v, m))
    (hlength : getCompactIntByteLength crypto m = some l) :
    Compact.Valid (leNat bytes.data) ∧ v.toNat = Compact.value (leNat bytes.data) ∧
      l.val = Compact.byteLength (leNat bytes.data % 4) := by
  obtain ⟨hvalid, hvalue, hmode⟩ := decodeCompactInt_eq_some.mp hdecode
  have hl := (getCompactIntByteLength_eq_some
    (by rw [hmode]; exact Nat.mod_lt _ (by decide))).mp hlength
  exact ⟨hvalid, hvalue, by rw [hl, hmode]⟩

variable (crypto) in
/-- A valid compact integer is accepted by both decoders. -/
theorem exists_decodeCompactInt {bytes : BytesVariable MAX_COMPACT_UINT_BYTES}
    (hvalid : Compact.Valid (leNat bytes.data)) :
    ∃ v m l, decodeCompactInt crypto bytes = some (v, m) ∧ getCompactIntByteLength crypto m = some l ∧
      v.toNat = Compact.value (leNat bytes.data) ∧
      l.val = Compact.byteLength (leNat bytes.data % 4) := by
  have hmode : (Variable.ofNat (leNat bytes.data % 4)).val = leNat bytes.data % 4 :=
    Variable.val_ofNat_of_lt (Nat.lt_trans (Nat.mod_lt _ (by decide)) (by decide))
  have hvalue : (UInt32.ofNat (Compact.value (leNat bytes.data))).toNat =
      Compact.value (leNat bytes.data) := by
    rw [UInt32.toNat_ofNat', Nat.mod_eq_of_lt (Compact.value_lt _)]
  have hlength : (Variable.ofNat (Compact.byteLength (leNat bytes.data % 4))).val =
      Compact.byteLength (leNat bytes.data % 4) :=
    Variable.val_ofNat_of_lt (Nat.lt_of_le_of_lt (Compact.byteLength_le _) (by decide))
  refine ⟨_, _, _, decodeCompactInt_eq_some.mpr ⟨hvalid, hvalue, hmode⟩,
    (getCompactIntByteLength_eq_some ?_).mpr ?_, hvalue, hlength⟩
  · rw [hmode]
    exact Nat.mod_lt _ (by decide)
  · rw [hlength, hmode]

/-- The low bits of a little-endian number are those of its first byte. -/
theorem valid_iff_first {b : UInt8} {bytes : List UInt8} :
    Compact.Valid (leNat (b :: bytes)) ↔ ¬(b.toNat % 4 = 3 ∧ b.toNat / 4 ≠ 0) := by
  have hb : b.toNat < 256 := b.toNat_lt
  rw [Compact.Valid, leNat]
  omega

/-- **Compact integers.** The encoding of every `u32` is decoded, whatever bytes follow it. Exactly
the bytes of mode 3 with a longer length are rejected. A value that is returned is the selected
field element, below `2 ^ 32`, and the bytes after the integer have no influence on it. -/
theorem decodeCompactInt_correct (crypto : Crypto) :
    (∀ (x : U32Variable) (bytes : BytesVariable MAX_COMPACT_UINT_BYTES) (rest : List ByteVariable),
      bytes.data = Compact.encode x.toNat ++ rest →
      ∃ m l, decodeCompactInt crypto bytes = some (x, m) ∧ getCompactIntByteLength crypto m = some l ∧
        l.val = (Compact.encode x.toNat).length) ∧
    (∀ bytes : BytesVariable MAX_COMPACT_UINT_BYTES, decodeCompactInt crypto bytes = none ↔
      ∃ first, bytes.data[0]? = some first ∧ first.toNat % 4 = 3 ∧ first.toNat / 4 ≠ 0) ∧
    ∀ (bytes : BytesVariable MAX_COMPACT_UINT_BYTES) (v : U32Variable) (m : Variable),
      decodeCompactInt crypto bytes = some (v, m) →
      (∃ value, compactIntValue crypto bytes = some value ∧ value.val < 2 ^ 32 ∧ v.toNat = value.val) ∧
      ∃ l, getCompactIntByteLength crypto m = some l ∧
        ∀ bytes' : BytesVariable MAX_COMPACT_UINT_BYTES,
          bytes'.data.take l.val = bytes.data.take l.val →
          decodeCompactInt crypto bytes' = some (v, m) := by
  refine ⟨fun x bytes rest hbytes => ?_, fun bytes => ?_, fun bytes v m hdecode => ?_⟩
  · obtain ⟨hvalid, hvalue, hlen⟩ := Compact.decode_encode x.toNat_lt rest
    rw [← hbytes] at hvalid hvalue hlen
    obtain ⟨v, m, l, hdecode, hlength, hv, hl⟩ := exists_decodeCompactInt crypto hvalid
    obtain rfl : v = x := UInt32.toNat_inj.mp (hv.trans hvalue)
    exact ⟨m, l, hdecode, hlength, hl.trans hlen⟩
  · have hinvalid : decodeCompactInt crypto bytes = none ↔ ¬Compact.Valid (leNat bytes.data) := by
      rw [← not_iff_not, not_not, ← ne_eq, Option.ne_none_iff_exists']
      constructor
      · rintro ⟨⟨v, m⟩, hdecode⟩
        exact (decodeCompactInt_eq_some.mp hdecode).1
      · intro hvalid
        obtain ⟨v, m, -, hdecode, -⟩ := exists_decodeCompactInt crypto hvalid
        exact ⟨(v, m), hdecode⟩
    have hlen : bytes.data.length = 5 := bytes.length_data
    rw [hinvalid]
    rcases hdata : bytes.data with - | ⟨b, rest⟩
    · rw [hdata] at hlen
      exact absurd hlen (by decide)
    · rw [valid_iff_first, not_not]
      simp
  · obtain ⟨hvalid, hvalue, hmode⟩ := decodeCompactInt_eq_some.mp hdecode
    obtain ⟨value, hselect, hval⟩ := exists_compactIntValue crypto bytes
    obtain ⟨v', m', l, hdecode', hlength, -, hl⟩ := exists_decodeCompactInt crypto hvalid
    obtain ⟨rfl, rfl⟩ : v' = v ∧ m' = m :=
      Prod.mk.inj (Option.some.inj (hdecode'.symm.trans hdecode))
    refine ⟨⟨value, hselect, hval ▸ Compact.value_lt _, hvalue.trans hval.symm⟩, l, hlength,
      fun bytes' htake => ?_⟩
    -- the bytes of the integer are inside of the five bytes
    have hle := Compact.byteLength_le (leNat bytes.data % 4)
    have hnat := congrArg leNat htake
    rw [Bytes.leNat_take (by rw [hl, bytes'.length_data]; exact hle),
      Bytes.leNat_take (by rw [hl, bytes.length_data]; exact hle), hl] at hnat
    obtain ⟨hmode', hvalid', hvalue'⟩ := Compact.eq_of_mod_byteLength hnat
    exact decodeCompactInt_eq_some.mpr
      ⟨hvalid'.mpr hvalid, by rw [hvalue, hvalue'], by rw [hmode, hmode']⟩

/-! ## Headers -/

/-- The offset of the data root of a header of the given size. -/
def dataRootStart (headerSize : U32Variable) : ℕ :=
  if headerSize = 0 then 0 else (headerSize - DATA_ROOT_OFFSET_FROM_END).toNat

theorem dataRootStart_of_le {size : U32Variable} (h : 32 ≤ size.toNat) :
    dataRootStart size = size.toNat - 32 := by
  have hlt : size.toNat < 2 ^ 32 := size.toNat_lt
  have h32 : DATA_ROOT_OFFSET_FROM_END.toNat = 32 := rfl
  have hne : size ≠ 0 := by
    rintro rfl
    exact absurd h (by decide)
  rw [dataRootStart, if_neg hne, UInt32.toNat_sub, h32]
  omega

/-- The fields of a header that are read at the start of its bytes. -/
structure ReadsFields (bytes : List UInt8) (hv : HeaderVariable) : Prop where
  valid : Compact.Valid (leNat (slice bytes 32 5))
  blockNumber : hv.blockNumber.toNat = Compact.value (leNat (slice bytes 32 5))
  parentHash : hv.parentHash.data = slice bytes 0 32
  stateRoot : hv.stateRoot.data =
    slice bytes (32 + Compact.byteLength (leNat (slice bytes 32 5) % 4)) 32

/-- The fields that a header has when its bytes are read with the data root at offset
`dataRootAt`. -/
structure DecodesTo (bytes : List UInt8) (dataRootAt : ℕ) (hv : HeaderVariable) : Prop
    extends ReadsFields bytes hv where
  dataRoot : hv.dataRoot.data = slice bytes dataRootAt 32

/-- The fields are determined by the bytes that are read. -/
theorem DecodesTo.unique {bytes bytes' : List UInt8} {i : ℕ} {hv hv' : HeaderVariable}
    (h : DecodesTo bytes i hv) (h' : DecodesTo bytes' i hv')
    (hbytes : bytes.take 69 = bytes'.take 69) (hroot : slice bytes i 32 = slice bytes' i 32) :
    hv = hv' := by
  have hslice : ∀ j n : ℕ, j + n ≤ 69 → slice bytes j n = slice bytes' j n := by
    intro j n hjn
    rw [← Bytes.slice_take hjn, hbytes, Bytes.slice_take hjn]
  have hnum : slice bytes 32 5 = slice bytes' 32 5 := hslice 32 5 (by omega)
  have hlen : Compact.byteLength (leNat (slice bytes' 32 5) % 4) ≤ 5 := Compact.byteLength_le _
  apply HeaderVariable.ext
  · rw [← UInt32.toNat_inj, h.blockNumber, h'.blockNumber, hnum]
  · exact ArrayVariable.ext (by rw [h.parentHash, h'.parentHash, hslice 0 32 (by omega)])
  · apply ArrayVariable.ext
    rw [h.stateRoot, h'.stateRoot, hnum, hslice _ 32 (by omega)]
  · exact ArrayVariable.ext (by rw [h.dataRoot, h'.dataRoot, hroot])

/-- The selected data root offset. -/
theorem val_dataRootStart (size : U32Variable) :
    (U32Variable.variable (select (isZero (U32Variable.variable size)) 0
      (size - DATA_ROOT_OFFSET_FROM_END))).val = dataRootStart size := by
  have hzero : isZero (U32Variable.variable size) = decide (size = 0) := by
    have hiff : U32Variable.variable size = 0 ↔ size = 0 := by
      rw [Fin.ext_iff, U32Variable.val_variable, ← UInt32.toNat_inj]
      rfl
    simp only [isZero, hiff]
  rw [U32Variable.val_variable, hzero, dataRootStart]
  by_cases h : size = 0 <;> simp [h]

variable (crypto) in
/-- The state root is selected by the length of the block number. -/
theorem selectArrayRandomGate_stateRoot {S N : ℕ} {bytes : BytesVariable S} {mode : Variable}
    (hmode : mode.val = N % 4) {a b c d r : Bytes32Variable}
    (ha : a.data = slice bytes.data 33 32) (hb : b.data = slice bytes.data 34 32)
    (hc : c.data = slice bytes.data 36 32) (hd : d.data = slice bytes.data 37 32) :
    crypto.selectArrayRandomGate [a, b, c, d] mode = some r ↔
      r.data = slice bytes.data (32 + Compact.byteLength (N % 4)) 32 := by
  have hlt : N % 4 < 4 := Nat.mod_lt _ (by decide)
  rw [crypto.selectArrayRandomGate_eq _ _ (by rw [hmode]; exact hlt), hmode]
  generalize N % 4 = k at *
  interval_cases k <;>
    simp [Compact.byteLength, ArrayVariable.ext_iff, ← ha, ← hb, ← hc, ← hd, eq_comm]

/-- `decode_header` accepts a header with room for the fields at its start if the gadget returns a
data root. -/
theorem decodeHeader_eq_some_iff {S : ℕ} {header : EncodedHeaderVariable S} {hash : Bytes32Variable}
    {hv : HeaderVariable} :
    decodeHeader crypto header hash = some hv ↔
      69 ≤ S ∧ ReadsFields header.headerBytes.data hv ∧
        crypto.getFixedSubarray 32 header.headerBytes (U32Variable.variable
          (select (isZero (U32Variable.variable header.headerSize)) 0
            (header.headerSize - DATA_ROOT_OFFSET_FROM_END))) hash.data = some hv.dataRoot := by
  simp only [decodeHeader, Option.bind_eq_bind, HASH_SIZE, MAX_COMPACT_UINT_BYTES]
  constructor
  · intro h
    simp only [Option.bind_eq_some_iff, Prod.exists, Option.some.injEq,
      ArrayVariable.subarray_eq_some_iff] at h
    obtain ⟨parentHash, ⟨-, hparent⟩, numBytes, ⟨-, hnum⟩, number, mode, hdecode, a, ⟨-, ha⟩,
      b, ⟨-, hb⟩, c, ⟨-, hc⟩, d, ⟨hS, hd⟩, stateRoot, hstate, dataRoot, hdata, rfl⟩ := h
    obtain ⟨hvalid, hvalue, hmode⟩ := decodeCompactInt_eq_some.mp hdecode
    rw [hnum] at hvalid hvalue hmode
    have hstateRoot := (selectArrayRandomGate_stateRoot crypto hmode ha hb hc hd).mp hstate
    exact ⟨by omega, ⟨hvalid, hvalue, hparent, hstateRoot⟩, hdata⟩
  · rintro ⟨hS, hfields, hdata⟩
    obtain ⟨parentHash, hparent, hparent'⟩ := header.headerBytes.exists_subarray
      (show 0 + 32 ≤ S by omega)
    obtain ⟨numBytes, hnum, hnum'⟩ := header.headerBytes.exists_subarray
      (show 32 + 5 ≤ S by omega)
    obtain ⟨a, ha, ha'⟩ := header.headerBytes.exists_subarray (show 33 + 32 ≤ S by omega)
    obtain ⟨b, hb, hb'⟩ := header.headerBytes.exists_subarray (show 34 + 32 ≤ S by omega)
    obtain ⟨c, hc, hc'⟩ := header.headerBytes.exists_subarray (show 36 + 32 ≤ S by omega)
    obtain ⟨d, hd, hd'⟩ := header.headerBytes.exists_subarray (show 37 + 32 ≤ S by omega)
    have hmode : (Variable.ofNat (leNat numBytes.data % 4)).val = leNat numBytes.data % 4 :=
      Variable.val_ofNat_of_lt (Nat.lt_trans (Nat.mod_lt _ (by decide)) (by decide))
    have hdecode : decodeCompactInt crypto numBytes =
        some (hv.blockNumber, Variable.ofNat (leNat numBytes.data % 4)) :=
      decodeCompactInt_eq_some.mpr
        ⟨hnum' ▸ hfields.valid, hnum' ▸ hfields.blockNumber, hmode⟩
    have hstate := (selectArrayRandomGate_stateRoot crypto hmode ha' hb' hc' hd').mpr
      (hnum' ▸ hfields.stateRoot)
    have hparentEq : parentHash = hv.parentHash :=
      ArrayVariable.ext (hparent'.trans hfields.parentHash.symm)
    simp [hparent, hnum, hdecode, ha, hb, hc, hd, hstate, hdata, hparentEq]

/-- With the data root in range, `decode_header` returns the fields in the bytes. -/
theorem decodeHeader_eq_some {S : ℕ} {header : EncodedHeaderVariable S} {hash : Bytes32Variable}
    {hv : HeaderVariable} (hrange : dataRootStart header.headerSize + 32 ≤ S) :
    decodeHeader crypto header hash = some hv ↔
      69 ≤ S ∧ DecodesTo header.headerBytes.data (dataRootStart header.headerSize) hv := by
  rw [decodeHeader_eq_some_iff, getFixedSubarray_eq_some _ (by rwa [val_dataRootStart]),
    val_dataRootStart]
  constructor
  · rintro ⟨hS, hfields, hdata⟩
    exact ⟨hS, hfields, hdata⟩
  · rintro ⟨hS, hfields⟩
    exact ⟨hS, hfields.toReadsFields, hfields.dataRoot⟩

/-! ## Precommits -/

/-- The layout of a precommit message: what is signed for a block by an authority of a set. -/
structure IsPrecommit (msg : List UInt8) (blockHash : Bytes32Variable) (blockNumber : U32Variable)
    (authoritySetId : U64Variable) : Prop where
  kind : msg[0]? = some 1
  blockHash : blockHash.data = slice msg 1 32
  blockNumber : blockNumber.toNat = leNat (slice msg 33 4)
  authoritySetId : authoritySetId.toNat = leNat (slice msg 45 8)

/-- A message is a precommit for one block, by one set. -/
theorem IsPrecommit.unique {msg : List UInt8} {blockHash blockHash' : Bytes32Variable}
    {n n' : U32Variable} {id id' : U64Variable} (h : IsPrecommit msg blockHash n id)
    (h' : IsPrecommit msg blockHash' n' id') : blockHash = blockHash' ∧ n = n' ∧ id = id' :=
  ⟨ArrayVariable.ext (h.blockHash.trans h'.blockHash.symm),
    UInt32.toNat_inj.mp (h.blockNumber.trans h'.blockNumber.symm),
    UInt64.toNat_inj.mp (h.authoritySetId.trans h'.authoritySetId.symm)⟩

/-- The fields of a precommit message that is put together from its parts. -/
theorem slice_precommit (blockHash : Bytes32Variable) (number round id : ℕ) :
    slice ([1] ++ blockHash.data ++ leBytes 4 number ++ leBytes 8 round ++ leBytes 8 id) 1 32 =
      blockHash.data ∧
    slice ([1] ++ blockHash.data ++ leBytes 4 number ++ leBytes 8 round ++ leBytes 8 id) 33 4 =
      leBytes 4 number ∧
    slice ([1] ++ blockHash.data ++ leBytes 4 number ++ leBytes 8 round ++ leBytes 8 id) 37 8 =
      leBytes 8 round ∧
    slice ([1] ++ blockHash.data ++ leBytes 4 number ++ leBytes 8 round ++ leBytes 8 id) 45 8 =
      leBytes 8 id := by
  have hhash := blockHash.length_data
  refine ⟨?_, ?_, ?_, ?_⟩
  · rw [List.append_assoc, List.append_assoc,
      Bytes.slice_append_middle List.length_singleton hhash]
  · rw [List.append_assoc (_ ++ leBytes 4 number),
      Bytes.slice_append_middle (by simp [hhash]) (Bytes.length_leBytes 4 number)]
  · rw [Bytes.slice_append_middle (by simp [hhash]) (Bytes.length_leBytes 8 round)]
  · rw [← List.append_nil (_ ++ leBytes 8 id),
      Bytes.slice_append_middle (by simp [hhash]) (Bytes.length_leBytes 8 id)]

theorem isPrecommit_append (blockHash : Bytes32Variable) (blockNumber : U32Variable) (round : ℕ)
    (authoritySetId : U64Variable) :
    IsPrecommit ([1] ++ blockHash.data ++ leBytes 4 blockNumber.toNat ++ leBytes 8 round ++
      leBytes 8 authoritySetId.toNat) blockHash blockNumber authoritySetId := by
  have hnumber : blockNumber.toNat < 256 ^ 4 := blockNumber.toNat_lt
  have hid : authoritySetId.toNat < 256 ^ 8 := authoritySetId.toNat_lt
  obtain ⟨hhash, hnumberSlice, -, hidSlice⟩ :=
    slice_precommit blockHash blockNumber.toNat round authoritySetId.toNat
  refine ⟨rfl, hhash.symm, ?_, ?_⟩
  · rw [hnumberSlice, Bytes.leNat_leBytes, Nat.mod_eq_of_lt hnumber]
  · rw [hidSlice, Bytes.leNat_leBytes, Nat.mod_eq_of_lt hid]

/-- Four reversed bytes are decoded as a little-endian number. -/
theorem U32Variable.decode_reverse_eq_iff {bytes : BytesVariable 4} {x : U32Variable} :
    U32Variable.decode bytes.data.reverse = x ↔ x.toNat = leNat bytes.data := by
  have hlt : leNat bytes.data < 2 ^ 32 := by
    have hlt := Bytes.leNat_lt bytes.data
    rwa [bytes.length_data] at hlt
  rw [← UInt32.toNat_inj, U32Variable.decode, Bytes.beNat, List.reverse_reverse,
    UInt32.toNat_ofNat', Nat.mod_eq_of_lt hlt, eq_comm]

theorem U64Variable.decode_reverse_eq_iff {bytes : BytesVariable 8} {x : U64Variable} :
    U64Variable.decode bytes.data.reverse = x ↔ x.toNat = leNat bytes.data := by
  have hlt : leNat bytes.data < 2 ^ 64 := by
    have hlt := Bytes.leNat_lt bytes.data
    rwa [bytes.length_data] at hlt
  rw [← UInt64.toNat_inj, U64Variable.decode, Bytes.beNat, List.reverse_reverse,
    UInt64.toNat_ofNat', Nat.mod_eq_of_lt hlt, eq_comm]

/-- `decode_precommit` accepts precommit messages only and returns their fields. -/
theorem decodePrecommit_eq_some_iff {msg : BytesVariable ENCODED_PRECOMMIT_LENGTH}
    {pre : PrecommitVariable} :
    decodePrecommit msg = some pre ↔
      IsPrecommit msg.data pre.blockHash pre.blockNumber pre.authoritySetId ∧
        pre.justificationRound.toNat = leNat (slice msg.data 37 8) := by
  obtain ⟨preHash, preNumber, preRound, preId⟩ := pre
  obtain ⟨hash, hhash, hhash'⟩ := msg.exists_subarray (show 1 + 32 ≤ 53 by decide)
  obtain ⟨number, hnumber, hnumber'⟩ := msg.exists_subarray (show 33 + 4 ≤ 53 by decide)
  obtain ⟨round, hround, hround'⟩ := msg.exists_subarray (show 37 + 8 ≤ 53 by decide)
  obtain ⟨id, hid, hid'⟩ := msg.exists_subarray (show 45 + 8 ≤ 53 by decide)
  simp only [decodePrecommit, hhash, hnumber, hround, hid, Option.bind_eq_bind, Option.bind_some,
    Option.bind_eq_some_iff, assertIsEqual_eq_some, Option.some.injEq, PrecommitVariable.mk.injEq,
    U32Variable.decode_reverse_eq_iff, U64Variable.decode_reverse_eq_iff, exists_const]
  rw [hnumber', hround', hid']
  constructor
  · rintro ⟨first, hfirst, rfl, rfl, hpreNumber, hpreRound, hpreId⟩
    exact ⟨⟨hfirst, hhash', hpreNumber, hpreId⟩, hpreRound⟩
  · rintro ⟨⟨hfirst, hpreHash, hpreNumber, hpreId⟩, hpreRound⟩
    exact ⟨1, hfirst, rfl, ArrayVariable.ext (hhash'.trans hpreHash.symm), hpreNumber, hpreRound,
      hpreId⟩

/-- A precommit message decodes. -/
theorem IsPrecommit.exists_decodePrecommit {msg : BytesVariable ENCODED_PRECOMMIT_LENGTH}
    {hash : Bytes32Variable} {number : U32Variable} {id : U64Variable}
    (h : IsPrecommit msg.data hash number id) :
    ∃ pre, decodePrecommit msg = some pre ∧ pre.blockHash = hash ∧ pre.blockNumber = number ∧
      pre.authoritySetId = id := by
  have hlen : (slice msg.data 37 8).length = 8 :=
    Bytes.length_slice (by rw [msg.length_data]; decide)
  have hlt := Bytes.leNat_lt (slice msg.data 37 8)
  rw [hlen] at hlt
  exact ⟨⟨hash, number, UInt64.ofNat (leNat (slice msg.data 37 8)), id⟩,
    decodePrecommit_eq_some_iff.mpr ⟨h, UInt64.toNat_ofNat_of_lt' hlt⟩, rfl, rfl, rfl⟩

end VectorX
