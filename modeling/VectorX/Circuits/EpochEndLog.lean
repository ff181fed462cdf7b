import VectorX.Circuits.RotateGrammar
import VectorX.Reference.Rotate

/-!
# The bytes of an epoch end log

The log that the circuit accepts at a position, written out as bytes: the compact integers may have
any of their lengths, the validators are the given keys with weight one, and nothing is said about
the byte before the log and the bytes after the delay.
-/

namespace VectorX

open Plonky2x Plonky2x.CircuitBuilder
open Bytes (slice)
open Pattern (Agrees)

/-! ## The layout -/

/-- The encoding of a list of authorities with weight one. -/
def encodeAuthorities (keys : List Bytes32Variable) : List UInt8 :=
  keys.flatMap fun key => key.data ++ expectedWeightBytes.data

/-- A log with the given authorities, after an arbitrary byte, for given encodings of the message
length and of the number of authorities. -/
def epochEndLog (first : UInt8) (length size : List UInt8) (keys : List Bytes32Variable) : List UInt8 :=
  [first] ++ (logHead length size ++ (encodeAuthorities keys ++ expectedDelayBytes.data))

/-- The bytes from position `p` on start with a log that announces the given authorities. -/
def IsEpochEndLog (l : List UInt8) (p : ℕ) (keys : List Bytes32Variable) : Prop :=
  ∃ first length size, (∃ v, Compact.IsEncoding length v) ∧ Compact.IsEncoding size keys.length ∧
    epochEndLog first length size keys <+: l.drop p

/-- The window of the prefix, and the window of the validators after any prefix that is accepted,
are inside the header bytes. -/
structure WindowsInside (MAX_AUTHORITY_SET_SIZE : ℕ) (l : List UInt8) (p n : ℕ) : Prop where
  prefixWindow : p + MAX_PREFIX_LENGTH ≤ l.length
  validatorsWindow : ∀ length size, (∃ v, Compact.IsEncoding length v) → Compact.IsEncoding size n →
    logHead length size <+: l.drop (p + 1) →
    p + (7 + length.length + size.length) +
      (MAX_AUTHORITY_SET_SIZE * VALIDATOR_LENGTH + DELAY_LENGTH) ≤ l.length

@[simp] theorem length_encodeAuthorities (keys : List Bytes32Variable) :
    (encodeAuthorities keys).length = keys.length * 40 := by
  induction keys with
  | nil => rfl
  | cons key keys ih =>
    have hweight : expectedWeightBytes.data.length = 8 := rfl
    rw [encodeAuthorities] at ih
    rw [encodeAuthorities, List.flatMap_cons, List.length_append, ih, List.length_append,
      key.length_data, hweight, List.length_cons]
    omega

@[simp] theorem length_epochEndLog (first : UInt8) (length size : List UInt8)
    (keys : List Bytes32Variable) :
    (epochEndLog first length size keys).length =
      7 + length.length + size.length + (keys.length * 40 + 4) := by
  have hdelay : expectedDelayBytes.data.length = 4 := rfl
  simp only [epochEndLog, List.length_append, List.length_singleton, length_logHead,
    length_encodeAuthorities, hdelay]
  omega

/-- Compact integers have at most five bytes. -/
theorem windowsInside_of_le {MAX_AUTHORITY_SET_SIZE p n : ℕ} {l : List UInt8}
    (h : p + MAX_PREFIX_LENGTH + (MAX_AUTHORITY_SET_SIZE * VALIDATOR_LENGTH + DELAY_LENGTH) ≤
      l.length) : WindowsInside MAX_AUTHORITY_SET_SIZE l p n := by
  refine ⟨by omega, fun length size ⟨v, hlength⟩ hsize _ => ?_⟩
  have hle₁ : length.length ≤ 5 := hlength.length ▸ Compact.byteLength_le _
  have hle₂ : size.length ≤ 5 := hsize.length ▸ Compact.byteLength_le _
  have hwidth : MAX_PREFIX_LENGTH = 17 := rfl
  omega

/-! ## Slices of the layout -/

section Layout

variable {l : List UInt8} {p : ℕ}

/-- A list is a prefix of what follows a position if it is the slice there. -/
theorem prefix_drop_iff {m : List UInt8} : m <+: l.drop p ↔ slice l p m.length = m := by
  rw [List.prefix_iff_eq_take, slice, eq_comm]

/-- The parts of the head of a log are determined by the bytes. -/
theorem logHead_unique {length size length' size' : List UInt8} {n n' : ℕ}
    (hlength : ∃ v, Compact.IsEncoding length v) (hsize : Compact.IsEncoding size n)
    (hlength' : ∃ v, Compact.IsEncoding length' v) (hsize' : Compact.IsEncoding size' n')
    (h : logHead length size <+: l.drop p) (h' : logHead length' size' <+: l.drop p) :
    length = length' ∧ size = size' := by
  rw [prefix_drop_iff, logHead, Bytes.slice_eq_append_iff, Bytes.slice_eq_append_iff,
    Bytes.slice_eq_append_iff] at h h'
  obtain ⟨v, hlength⟩ := hlength
  obtain ⟨v', hlength'⟩ := hlength'
  obtain rfl := hlength.eq_of_prefix hlength' (prefix_drop_iff.mpr h.2.1)
    (prefix_drop_iff.mpr h'.2.1)
  exact ⟨rfl, hsize.eq_of_prefix hsize' (prefix_drop_iff.mpr h.2.2.2)
    (prefix_drop_iff.mpr h'.2.2.2)⟩

/-- The head of a log comes after its first byte. -/
theorem logHead_of_epochEndLog {first : UInt8} {length size : List UInt8}
    {keys : List Bytes32Variable} (h : epochEndLog first length size keys <+: l.drop p) :
    logHead length size <+: l.drop (p + 1) := by
  rw [prefix_drop_iff, epochEndLog, Bytes.slice_eq_append_iff, Bytes.slice_eq_append_iff] at h
  rw [prefix_drop_iff]
  exact h.2.1

/-- The authorities are read one by one. -/
theorem slice_encodeAuthorities (keys : List Bytes32Variable) :
    ∀ c, slice l c (encodeAuthorities keys).length = encodeAuthorities keys ↔
      ∀ i key, keys[i]? = some key → slice l (c + i * 40) 32 = key.data ∧
        slice l (c + i * 40 + 32) 8 = expectedWeightBytes.data := by
  induction keys with
  | nil => exact fun c => ⟨fun _ i key h => by simp at h, fun _ => rfl⟩
  | cons key keys ih =>
    intro c
    have hsplit : encodeAuthorities (key :: keys) =
        (key.data ++ expectedWeightBytes.data) ++ encodeAuthorities keys := rfl
    have hlen : (key.data ++ expectedWeightBytes.data).length = 40 := by
      rw [List.length_append, key.length_data]
      rfl
    have hweight : expectedWeightBytes.data.length = 8 := rfl
    rw [hsplit, Bytes.slice_eq_append_iff, Bytes.slice_eq_append_iff, hlen, key.length_data,
      hweight, ih]
    constructor
    · rintro ⟨hfirst, hrest⟩ i key' hkey'
      rcases i with - | i
      · obtain rfl : key = key' := by simpa using hkey'
        simpa using hfirst
      · have hpos : c + (i + 1) * 40 = c + 40 + i * 40 := by omega
        rw [hpos]
        exact hrest i key' (by simpa using hkey')
    · intro h
      refine ⟨by simpa using h 0 key rfl, fun i key' hkey' => ?_⟩
      have hpos : c + 40 + i * 40 = c + (i + 1) * 40 := by omega
      rw [hpos]
      exact h (i + 1) key' (by simpa using hkey')

theorem encodeAuthorities_injective :
    ∀ {keys keys' : List Bytes32Variable}, keys.length = keys'.length →
      encodeAuthorities keys = encodeAuthorities keys' → keys = keys'
  | [], [], _, _ => rfl
  | key :: keys, key' :: keys', hlen, h => by
    have hsplit : ∀ (key : Bytes32Variable) (keys : List Bytes32Variable),
        encodeAuthorities (key :: keys) =
          key.data ++ (expectedWeightBytes.data ++ encodeAuthorities keys) :=
      fun key keys => List.append_assoc _ _ _
    rw [hsplit, hsplit] at h
    obtain ⟨hkey, hrest⟩ := List.append_inj h (by rw [key.length_data, key'.length_data])
    rw [ArrayVariable.ext hkey, encodeAuthorities_injective (by simpa using hlen)
      (List.append_cancel_left hrest)]

/-- At most one log starts at a position. -/
theorem IsEpochEndLog.unique {keys keys' : List Bytes32Variable} (h : IsEpochEndLog l p keys)
    (h' : IsEpochEndLog l p keys') : keys = keys' := by
  obtain ⟨first, length, size, hlength, hsize, hprefix⟩ := h
  obtain ⟨first', length', size', hlength', hsize', hprefix'⟩ := h'
  obtain ⟨rfl, rfl⟩ := logHead_unique hlength hsize hlength' hsize'
    (logHead_of_epochEndLog hprefix) (logHead_of_epochEndLog hprefix')
  have hlen : keys.length = keys'.length := hsize.value.symm.trans hsize'.value
  have hlog := (List.prefix_of_prefix_length_le hprefix hprefix' (by
    rw [length_epochEndLog, length_epochEndLog, hlen])).eq_of_length (by
    rw [length_epochEndLog, length_epochEndLog, hlen])
  rw [epochEndLog, epochEndLog] at hlog
  have hrest := List.append_cancel_left (List.append_inj hlog rfl).2
  exact encodeAuthorities_injective hlen (List.append_cancel_right hrest)

/-- Further bytes do not change a log. -/
theorem IsEpochEndLog.append {keys : List Bytes32Variable} (h : IsEpochEndLog l p keys)
    (tail : List UInt8) : IsEpochEndLog (l ++ tail) p keys := by
  obtain ⟨first, length, size, hlength, hsize, hprefix⟩ := h
  refine ⟨first, length, size, hlength, hsize, hprefix.trans ?_⟩
  rw [List.drop_append]
  exact List.prefix_append _ _

variable {MAX_AUTHORITY_SET_SIZE : ℕ} {length size : List UInt8} {keys : List Bytes32Variable}

/-- The parts of the head, one by one. -/
theorem slice_logHead_iff :
    slice l (p + 1) (logHead length size).length = logHead length size ↔
      slice l (p + 1) 5 = [4, 70, 82, 78, 75] ∧ slice l (p + 6) length.length = length ∧
        l[p + 6 + length.length]? = some 1 ∧
        slice l (p + (7 + length.length)) size.length = size := by
  rw [logHead, Bytes.slice_eq_append_iff, Bytes.slice_eq_append_iff, Bytes.slice_eq_append_iff]
  simp only [List.length_cons, List.length_nil, Nat.zero_add, Nat.reduceAdd,
    Bytes.slice_one_eq_iff, Nat.add_assoc, Nat.add_comm length.length 1, ← Nat.add_assoc 6 1]

/-- The head of a log that the parser finds. -/
theorem AuthoritySetLog.logHead_prefix {n : ℕ}
    (h : AuthoritySetLog MAX_AUTHORITY_SET_SIZE l p n length size) :
    logHead length size <+: l.drop (p + 1) := by
  rw [prefix_drop_iff, slice_logHead_iff]
  exact ((agrees_logPattern h.room).mp h.agrees).1

/-- The log is there if the bytes agree with its pattern and hold its keys. -/
theorem exists_prefix_epochEndLog_iff (keys : List Bytes32Variable)
    (hmax : keys.length ≤ MAX_AUTHORITY_SET_SIZE)
    (hroom : p + (7 + length.length + size.length) + (MAX_AUTHORITY_SET_SIZE * 40 + 4) ≤ l.length) :
    (∃ first, epochEndLog first length size keys <+: l.drop p) ↔
      Agrees (logPattern MAX_AUTHORITY_SET_SIZE keys.length length size) l p ∧
        ∀ i key, keys[i]? = some key →
          key.data = slice l (p + (7 + length.length + size.length) + i * 40) 32 := by
  have hdelay : expectedDelayBytes.data.length = 4 := rfl
  have hcursor : p + 1 + (logHead length size).length = p + (7 + length.length + size.length) := by
    rw [length_logHead]
    omega
  rw [agrees_logPattern hroom, agrees_authoritiesPattern (by omega), Nat.min_eq_left hmax,
    ← slice_logHead_iff]
  simp only [epochEndLog, prefix_drop_iff, Bytes.slice_eq_append_iff, List.length_singleton,
    Bytes.slice_one_eq_iff, hcursor, length_encodeAuthorities, hdelay]
  have hauth := slice_encodeAuthorities (l := l) keys (p + (7 + length.length + size.length))
  rw [length_encodeAuthorities] at hauth
  rw [hauth]
  constructor
  · rintro ⟨first, -, hlog, hkeys, hend⟩
    refine ⟨⟨hlog, fun i hi => ?_, fun _ => hend⟩, fun i key hkey => (hkeys i key hkey).1.symm⟩
    exact (hkeys i _ (List.getElem?_eq_getElem hi)).2
  · rintro ⟨⟨hlog, hweights, hend⟩, hkeys⟩
    refine ⟨_, List.getElem?_eq_getElem (by omega), hlog, fun i key hkey => ?_, hend hmax⟩
    exact ⟨(hkeys i key hkey).symm, hweights i (List.getElem?_eq_some_iff.mp hkey).1⟩

end Layout

/-! ## Acceptance -/

section Acceptance

variable {crypto : Crypto} {S MAX_AUTHORITY_SET_SIZE : ℕ} {header : EncodedHeaderVariable S}
  {hash : Bytes32Variable}
  {n startPosition : Variable} {newPubkeys : ArrayVariable Bytes32Variable MAX_AUTHORITY_SET_SIZE}

/-- A log in windows inside the bytes is one that the parser finds. -/
theorem AuthoritySetLog.of_epochEndLog {l : List UInt8} {p : ℕ} {first : UInt8} {length size : List UInt8}
    {keys : List Bytes32Variable} (hlength : ∃ v, Compact.IsEncoding length v)
    (hsize : Compact.IsEncoding size keys.length) (hpos : 0 < keys.length)
    (hmax : keys.length ≤ MAX_AUTHORITY_SET_SIZE)
    (hwindows : WindowsInside MAX_AUTHORITY_SET_SIZE l p keys.length)
    (hlog : epochEndLog first length size keys <+: l.drop p) :
    AuthoritySetLog MAX_AUTHORITY_SET_SIZE l p keys.length length size := by
  have hroom := hwindows.validatorsWindow length size hlength hsize (logHead_of_epochEndLog hlog)
  exact ⟨hlength, hsize, hpos, hwindows.prefixWindow, hroom,
    ((exists_prefix_epochEndLog_iff keys hmax hroom).mp ⟨first, hlog⟩).1⟩

/-- A log for the first `n` keys is accepted. -/
theorem verifyEpochEndHeader_of_isEpochEndLog (hfield : S < GOLDILOCKS) (hpos : 0 < n.val)
    (hmax : n.val ≤ MAX_AUTHORITY_SET_SIZE)
    (hwindows : WindowsInside MAX_AUTHORITY_SET_SIZE header.headerBytes.data startPosition.val n.val)
    (hlog : IsEpochEndLog header.headerBytes.data startPosition.val (newPubkeys.data.take n.val)) :
    verifyEpochEndHeader crypto (MAX_AUTHORITY_SET_SIZE * VALIDATOR_LENGTH + DELAY_LENGTH) header hash n
      startPosition newPubkeys = some () := by
  obtain ⟨first, length, size, hlength, hsize, hprefix⟩ := hlog
  have hlen : (newPubkeys.data.take n.val).length = n.val := by
    rw [List.length_take, newPubkeys.length_data, Nat.min_eq_left hmax]
  rw [← hlen] at hwindows
  have hfound := AuthoritySetLog.of_epochEndLog hlength hsize (by rwa [hlen]) (by rwa [hlen]) hwindows hprefix
  obtain ⟨-, hkeys⟩ :=
    (exists_prefix_epochEndLog_iff _ (by rwa [hlen]) hfound.room).mp ⟨first, hprefix⟩
  rw [hlen] at hfound
  refine verifyEpochEndHeader_of_log hfield hfound fun i key hi hkey => ?_
  exact hkeys i key (by rw [List.getElem?_take_of_lt hi, hkey])

/-- A log with the given keys is a log for the first `n` keys, also in the first `m` bytes if it
ends there. -/
theorem AuthoritySetLog.isEpochEndLog_take {length size : List UInt8}
    (hmax : n.val ≤ MAX_AUTHORITY_SET_SIZE)
    (hlog : AuthoritySetLog MAX_AUTHORITY_SET_SIZE header.headerBytes.data startPosition.val n.val
      length size)
    (hkeys : HoldsKeys header.headerBytes.data startPosition.val n.val length size newPubkeys.data)
    {m : ℕ} (hend : startPosition.val + (7 + length.length + size.length) + (n.val * 40 + 4) ≤ m) :
    IsEpochEndLog (header.headerBytes.data.take m) startPosition.val
      (newPubkeys.data.take n.val) := by
  have hlen : (newPubkeys.data.take n.val).length = n.val := by
    rw [List.length_take, newPubkeys.length_data, Nat.min_eq_left hmax]
  obtain ⟨first, hprefix⟩ :=
    (exists_prefix_epochEndLog_iff (newPubkeys.data.take n.val) (by rw [hlen]; exact hmax)
      hlog.room).mpr ⟨by rw [hlen]; exact hlog.agrees, fun i key hkey => by
        have hi : i < n.val := hlen ▸ (List.getElem?_eq_some_iff.mp hkey).1
        exact hkeys i key hi (by rw [← hkey, List.getElem?_take_of_lt hi])⟩
  refine ⟨first, length, size, hlog.isEncoding_length, by rw [hlen]; exact hlog.isEncoding_size, ?_⟩
  rw [List.drop_take, List.prefix_take_iff, length_epochEndLog, hlen]
  exact And.intro hprefix (by omega)

/-- A log with the given keys is a log for the first `n` keys. -/
theorem AuthoritySetLog.isEpochEndLog {length size : List UInt8}
    (hmax : n.val ≤ MAX_AUTHORITY_SET_SIZE)
    (hlog : AuthoritySetLog MAX_AUTHORITY_SET_SIZE header.headerBytes.data startPosition.val n.val
      length size)
    (hkeys : HoldsKeys header.headerBytes.data startPosition.val n.val length size newPubkeys.data) :
    IsEpochEndLog header.headerBytes.data startPosition.val (newPubkeys.data.take n.val) := by
  have hroom := hlog.room
  have htake := hlog.isEpochEndLog_take hmax hkeys
    (show _ ≤ header.headerBytes.data.length by omega)
  rwa [List.take_length] at htake

/-- What is accepted in windows inside the header bytes is a log for the first `n` keys. -/
theorem isEpochEndLog_of_windowsInside (hfield : S < GOLDILOCKS)
    (hmax : n.val ≤ MAX_AUTHORITY_SET_SIZE)
    (hwindows : WindowsInside MAX_AUTHORITY_SET_SIZE header.headerBytes.data startPosition.val n.val)
    (haccept : verifyEpochEndHeader crypto (MAX_AUTHORITY_SET_SIZE * VALIDATOR_LENGTH + DELAY_LENGTH)
      header hash n startPosition newPubkeys = some ()) :
    IsEpochEndLog header.headerBytes.data startPosition.val (newPubkeys.data.take n.val) := by
  have hlen := header.headerBytes.length_data
  have hprefix := hwindows.prefixWindow
  rw [hlen] at hprefix
  obtain ⟨length, size, hlog, hkeys⟩ := exists_log_of_verifyEpochEndHeader hfield hprefix
    (fun length size hlength hsize hhead => by
      have hwindow := hwindows.validatorsWindow length size hlength hsize
        (prefix_drop_iff.mpr (slice_logHead_iff.mpr hhead))
      rwa [hlen] at hwindow) haccept
  exact hlog.isEpochEndLog hmax hkeys

end Acceptance

/-- **Exact grammar.** With all windows inside the header bytes, the parser accepts `n` authorities
at a position if and only if a log for the first `n` keys starts there. -/
theorem verifyEpochEndHeader_iff_isEpochEndLog (crypto : Crypto) {S MAX_AUTHORITY_SET_SIZE : ℕ}
    (header : EncodedHeaderVariable S) (hash : Bytes32Variable) (n startPosition : Variable)
    (newPubkeys : ArrayVariable Bytes32Variable MAX_AUTHORITY_SET_SIZE)
    (hfield : S < GOLDILOCKS) (hpos : 1 ≤ n.val) (hmax : n.val ≤ MAX_AUTHORITY_SET_SIZE)
    (hwindows : WindowsInside MAX_AUTHORITY_SET_SIZE header.headerBytes.data startPosition.val
      n.val) :
    verifyEpochEndHeader crypto (MAX_AUTHORITY_SET_SIZE * VALIDATOR_LENGTH + DELAY_LENGTH) header hash n
        startPosition newPubkeys = some () ↔
      IsEpochEndLog header.headerBytes.data startPosition.val (newPubkeys.data.take n.val) :=
  ⟨isEpochEndLog_of_windowsInside hfield hmax hwindows,
    verifyEpochEndHeader_of_isEpochEndLog hfield hpos hmax hwindows⟩

/-- Block 1 of the reference chain, announcing the second authority. -/
def announcedHeader : EncodedHeaderVariable 256 :=
  (Reference.rotateVariable (Reference.epochEndHeader [Reference.pubkey₂]) []
    Reference.length_epochEndHeader 1 97 Reference.pubkey₂).targetHeader

/-- The grammar at the position of the log in that block. -/
theorem verifyEpochEndHeader_iff_isEpochEndLog_announced :
    verifyEpochEndHeader (Reference.crypto []) (1 * VALIDATOR_LENGTH + DELAY_LENGTH) announcedHeader
        emptyBytes32
        (Variable.ofNat 1) (Variable.ofNat 97)
        (⟨[Reference.pubkey₂], rfl⟩ : ArrayVariable Bytes32Variable 1) = some () ↔
      IsEpochEndLog announcedHeader.headerBytes.data 97 [Reference.pubkey₂] :=
  verifyEpochEndHeader_iff_isEpochEndLog (Reference.crypto []) announcedHeader emptyBytes32
    (Variable.ofNat 1) (Variable.ofNat 97) ⟨[Reference.pubkey₂], rfl⟩ (by decide) (by decide) (by decide)
    (windowsInside_of_le (by rw [announcedHeader.headerBytes.length_data]; decide))

end VectorX
