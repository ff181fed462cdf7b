import VectorX.Circuits.Rotate

/-!
# The grammar of the consensus log

An authority set log is an arbitrary byte, the consensus flag and engine id, a compact message
length, the scheduled change flag, the compact number of authorities, then for each authority its
key and its weight, and the delay. `logPattern` is this layout as a pattern: holes stand for the
first byte and the keys. The circuit accepts exactly the headers that agree with such a pattern.
-/

namespace VectorX

open Plonky2x Plonky2x.CircuitBuilder
open Bytes (slice leNat)
open Pattern (Agrees)

/-! ## The validators -/

section Validators

variable {MAX_SUBARRAY_SIZE : ℕ} {n : Variable} {enc : BytesVariable MAX_SUBARRAY_SIZE}

/-- What the loop checks at validator `i`. -/
def ValidatorOk (n : ℕ) (enc : List UInt8) (i : ℕ) (key : Bytes32Variable) : Prop :=
  (i < n → slice enc (i * 40) 32 = key.data ∧
    slice enc (i * 40 + 32) 8 = expectedWeightBytes.data) ∧
  (i + 1 = n → slice enc (i * 40 + 40) 4 = expectedDelayBytes.data)

/-- One iteration, as long as validators are disabled exactly after the last one. -/
theorem verifyValidator_eq_some {i : ℕ} {key : Bytes32Variable} {disabled : BoolVariable}
    (hi : i + 1 < GOLDILOCKS) (hrange : i * 40 + 44 ≤ MAX_SUBARRAY_SIZE) :
    verifyValidator n enc i key (decide (n.val ≤ i)) = some disabled ↔
      ValidatorOk n.val enc.data i key ∧ disabled = decide (n.val ≤ i + 1) := by
  obtain ⟨pubkey, hpubkey, hpubkey'⟩ := enc.exists_subarray (i := i * VALIDATOR_LENGTH)
    (n := PUBKEY_LENGTH) (show i * 40 + 32 ≤ MAX_SUBARRAY_SIZE by omega)
  obtain ⟨weight, hweight, hweight'⟩ := enc.exists_subarray
    (i := i * VALIDATOR_LENGTH + PUBKEY_LENGTH) (n := WEIGHT_LENGTH)
    (show i * 40 + 32 + 8 ≤ MAX_SUBARRAY_SIZE by omega)
  obtain ⟨delay, hdelay, hdelay'⟩ := enc.exists_subarray
    (i := i * VALIDATOR_LENGTH + VALIDATOR_LENGTH) (n := DELAY_LENGTH)
    (show i * 40 + 40 + 4 ≤ MAX_SUBARRAY_SIZE by omega)
  have hatEnd : isEqual (Variable.ofNat (i + 1)) n = decide (i + 1 = n.val) := by
    rw [isEqual, decide_eq_decide, Fin.ext_iff, Variable.val_ofNat_of_lt hi]
  have hnext : select (decide (i + 1 = n.val)) true (decide (n.val ≤ i)) =
      decide (n.val ≤ i + 1) := by
    by_cases heq : i + 1 = n.val
    · rw [decide_eq_true heq, select_true, decide_eq_true (by omega)]
    · rw [decide_eq_false heq, select_false, decide_eq_decide]
      omega
  have hkeyIff : isEqual pubkey key = true ↔ slice enc.data (i * 40) 32 = key.data := by
    rw [isEqual_iff, ArrayVariable.ext_iff, hpubkey']
    rfl
  have hweightIff : isEqual weight expectedWeightBytes = true ↔
      slice enc.data (i * 40 + 32) 8 = expectedWeightBytes.data := by
    rw [isEqual_iff, ArrayVariable.ext_iff, hweight']
    rfl
  have hdelayIff : isEqual delay expectedDelayBytes = true ↔
      slice enc.data (i * 40 + 40) 4 = expectedDelayBytes.data := by
    rw [isEqual_iff, ArrayVariable.ext_iff, hdelay']
    rfl
  simp only [verifyValidator, hpubkey, hweight, hdelay, hatEnd, hnext, Option.bind_eq_bind,
    Option.bind_some, Option.bind_eq_some_iff, assertIsEqual_eq_some, Bool.or_eq_true,
    decide_eq_true_eq, Bool.not_eq_true', decide_eq_false_iff_not, Option.some.injEq, hkeyIff,
    hweightIff, hdelayIff, exists_const, ValidatorOk, eq_comm (a := decide (n.val ≤ i + 1))]
  constructor
  · rintro ⟨hkey, hweight, hdelay, rfl⟩
    refine ⟨⟨fun hlt => ⟨hkey.resolve_right (by omega), hweight.resolve_right (by omega)⟩,
      fun heq => hdelay.resolve_right (not_not.mpr heq)⟩, rfl⟩
  · rintro ⟨⟨hactive, hdelay⟩, rfl⟩
    rcases Nat.lt_or_ge i n.val with hlt | hge
    · exact ⟨Or.inl (hactive hlt).1, Or.inl (hactive hlt).2,
        (em (i + 1 = n.val)).imp hdelay id, rfl⟩
    · exact ⟨Or.inr hge, Or.inr hge, Or.inr (by omega), rfl⟩

/-- The loop checks every validator. -/
theorem verifyValidators_eq_some {u : Unit} :
    ∀ (keys : List Bytes32Variable) (i : ℕ), i + keys.length < GOLDILOCKS →
      (i + keys.length) * 40 + 4 ≤ MAX_SUBARRAY_SIZE →
      (verifyValidators n enc i (decide (n.val ≤ i)) keys = some u ↔
        ∀ t key, keys[t]? = some key → ValidatorOk n.val enc.data (i + t) key)
  | [], _, _, _ => by simp [verifyValidators]
  | key :: keys, i, hlt, hrange => by
    rw [List.length_cons] at hlt hrange
    have ih := verifyValidators_eq_some (u := u) keys (i + 1) (by omega) (by omega)
    rw [verifyValidators, Option.bind_eq_bind, Option.bind_eq_some_iff]
    constructor
    · rintro ⟨disabled, hstep, hrest⟩ t key' hkey'
      obtain ⟨hok, rfl⟩ := (verifyValidator_eq_some (by omega) (by omega)).mp hstep
      rcases t with - | t
      · obtain rfl : key = key' := by simpa using hkey'
        exact hok
      · have hnext := ih.mp hrest t key' (by simpa using hkey')
        rwa [Nat.add_assoc, Nat.add_comm 1] at hnext
    · intro h
      refine ⟨_, (verifyValidator_eq_some (by omega) (by omega)).mpr ⟨h 0 key rfl, rfl⟩,
        ih.mpr fun t key' hkey' => ?_⟩
      have hnext := h (t + 1) key' (by simpa using hkey')
      rwa [Nat.add_assoc, Nat.add_comm 1]

end Validators

/-! ## The pattern of a log -/

/-- A key of any 32 bytes, and the weight. -/
def validatorPattern : List (Option UInt8) :=
  List.replicate 32 none ++ expectedWeightBytes.data.map some

/-- The validators that the circuit looks at, and the delay if it sees the last of them. -/
def authoritiesPattern (MAX_AUTHORITY_SET_SIZE n : ℕ) : List (Option UInt8) :=
  (List.replicate (min n MAX_AUTHORITY_SET_SIZE) validatorPattern).flatten ++
    if n ≤ MAX_AUTHORITY_SET_SIZE then expectedDelayBytes.data.map some else []

/-- The bytes between the first byte of a log and its validators, for given encodings of the message
length and the number of authorities. -/
def logHead (length size : List UInt8) : List UInt8 :=
  [4, 70, 82, 78, 75] ++ (length ++ ([1] ++ size))

/-- The pattern of a log of `n` authorities. -/
def logPattern (MAX_AUTHORITY_SET_SIZE n : ℕ) (length size : List UInt8) : List (Option UInt8) :=
  [none] ++ ((logHead length size).map some ++ authoritiesPattern MAX_AUTHORITY_SET_SIZE n)

@[simp] theorem length_logHead (length size : List UInt8) :
    (logHead length size).length = 6 + length.length + size.length := by
  simp only [logHead, List.length_append, List.length_cons, List.length_nil]
  omega

@[simp] theorem length_validatorPattern : validatorPattern.length = 40 := rfl

section Pattern

variable {l : List UInt8} {p n MAX_AUTHORITY_SET_SIZE : ℕ}

theorem agrees_validatorPattern (h : p + 40 ≤ l.length) :
    Agrees validatorPattern l p ↔ slice l (p + 32) 8 = expectedWeightBytes.data := by
  have hlen : expectedWeightBytes.data.length = 8 := rfl
  have hweight := Pattern.agrees_map_some (m := expectedWeightBytes.data) (l := l) (p := p + 32)
    (by rw [hlen]; omega)
  rw [validatorPattern, Pattern.agrees_append, List.length_replicate, hweight, hlen]
  exact and_iff_right (Pattern.agrees_replicate_none 32 l p)

theorem agrees_authoritiesPattern (h : p + (MAX_AUTHORITY_SET_SIZE * 40 + 4) ≤ l.length) :
    Agrees (authoritiesPattern MAX_AUTHORITY_SET_SIZE n) l p ↔
      (∀ i, i < min n MAX_AUTHORITY_SET_SIZE →
        slice l (p + i * 40 + 32) 8 = expectedWeightBytes.data) ∧
      (n ≤ MAX_AUTHORITY_SET_SIZE → slice l (p + n * 40) 4 = expectedDelayBytes.data) := by
  have hlen : ((List.replicate (min n MAX_AUTHORITY_SET_SIZE) validatorPattern).flatten).length =
      min n MAX_AUTHORITY_SET_SIZE * 40 := by
    simp
  rw [authoritiesPattern, Pattern.agrees_append, Pattern.agrees_flatten_replicate, hlen,
    length_validatorPattern]
  refine and_congr (forall₂_congr fun i hi => agrees_validatorPattern (by omega)) ?_
  by_cases hn : n ≤ MAX_AUTHORITY_SET_SIZE
  · have hdelay : expectedDelayBytes.data.length = 4 := rfl
    have hmap := Pattern.agrees_map_some (m := expectedDelayBytes.data) (l := l) (p := p + n * 40)
      (by rw [hdelay]; omega)
    rw [if_pos hn, Nat.min_eq_left hn, hmap, hdelay]
    exact ⟨fun h _ => h, fun h => h hn⟩
  · rw [if_neg hn]
    exact ⟨fun _ h => absurd h hn, fun _ i a b hi => absurd hi (by simp)⟩

theorem agrees_logPattern {length size : List UInt8}
    (h : p + (7 + length.length + size.length) + (MAX_AUTHORITY_SET_SIZE * 40 + 4) ≤ l.length) :
    Agrees (logPattern MAX_AUTHORITY_SET_SIZE n length size) l p ↔
      (slice l (p + 1) 5 = [4, 70, 82, 78, 75] ∧ slice l (p + 6) length.length = length ∧
        l[p + 6 + length.length]? = some 1 ∧
        slice l (p + (7 + length.length)) size.length = size) ∧
      Agrees (authoritiesPattern MAX_AUTHORITY_SET_SIZE n) l
        (p + (7 + length.length + size.length)) := by
  have hnone := Pattern.agrees_replicate_none (α := UInt8) 1 l p
  have hhead := Pattern.agrees_map_some (m := logHead length size) (l := l) (p := p + 1)
    (by rw [length_logHead]; omega)
  have hcursor : p + [(none : Option UInt8)].length + ((logHead length size).map some).length =
      p + (7 + length.length + size.length) := by
    rw [List.length_map, length_logHead, List.length_singleton]
    omega
  rw [logPattern, Pattern.agrees_append, Pattern.agrees_append, hcursor]
  refine Iff.trans (and_iff_right hnone) (and_congr ?_ Iff.rfl)
  rw [List.length_singleton, hhead, logHead, Bytes.slice_eq_append_iff,
    Bytes.slice_eq_append_iff, Bytes.slice_eq_append_iff]
  simp only [List.length_cons, List.length_nil, Nat.zero_add, Nat.reduceAdd,
    Bytes.slice_one_eq_iff, Nat.add_assoc, Nat.add_comm length.length 1, ← Nat.add_assoc 6 1]

end Pattern

/-! ## What the parser accepts -/

/-- A log of `n` authorities starts at position `start` of the header bytes `l`, with the given
encodings of the message length and of `n`. -/
structure AuthoritySetLog (MAX_AUTHORITY_SET_SIZE : ℕ) (l : List UInt8) (start n : ℕ)
    (length size : List UInt8) : Prop where
  isEncoding_length : ∃ v, Compact.IsEncoding length v
  isEncoding_size : Compact.IsEncoding size n
  pos : 0 < n
  prefixRoom : start + MAX_PREFIX_LENGTH ≤ l.length
  room : start + (7 + length.length + size.length) + (MAX_AUTHORITY_SET_SIZE * 40 + 4) ≤ l.length
  agrees : Agrees (logPattern MAX_AUTHORITY_SET_SIZE n length size) l start

section Parser

variable {crypto : Crypto} {l : List UInt8} {start : ℕ} {n total : Variable} {hash : Bytes32Variable}

/-- The prefix that the circuit accepts. -/
theorem verifyPrefix_eq_some (crypto : Crypto) (hash : Bytes32Variable) (total : Variable)
    {sub : BytesVariable MAX_PREFIX_LENGTH} (hsub : sub.data = slice l start 17)
    (hroom : start + 17 ≤ l.length) :
    (verifyConsensusLog sub = some () ∧ ∃ cursor,
        verifyScheduledChangeMessageLengthAndFlag crypto sub = some cursor ∧
        verifyEncodedNumAuthorities crypto sub cursor hash n = some total) ↔
      ∃ length size, (∃ v, Compact.IsEncoding length v) ∧ Compact.IsEncoding size n.val ∧
        (slice l (start + 1) 5 = [4, 70, 82, 78, 75] ∧
          slice l (start + 6) length.length = length ∧
          l[start + 6 + length.length]? = some 1 ∧
          slice l (start + (7 + length.length)) size.length = size) ∧
        total.val = 7 + length.length + size.length := by
  have hslice : ∀ i m, i + m ≤ 17 → slice sub.data i m = slice l (start + i) m := by
    intro i m him
    rw [hsub, Bytes.slice_slice him]
  have helem : ∀ i, i < 17 → sub.data[i]? = l[start + i]? := by
    intro i hi
    rw [hsub, Bytes.getElem?_slice, if_pos hi]
  have hlen5 : ∀ i, i + 5 ≤ 17 → (slice l (start + i) 5).length = 5 :=
    fun i hi => Bytes.length_slice (by omega)
  have hle₁ := Compact.byteLength_le (leNat (slice l (start + 6) 5) % 4)
  have hfield : MAX_PREFIX_LENGTH < GOLDILOCKS := by decide
  rw [verifyConsensusLog_eq_some (by decide), hslice 1 5 (by decide)]
  simp only [verifyScheduledChange_eq_some (by decide : 12 ≤ MAX_PREFIX_LENGTH),
    hslice 6 5 (by decide)]
  constructor
  · rintro ⟨hid, cursor, ⟨hvalid₁, hflag, hcursor⟩, hnum⟩
    have hcursorLe : cursor.val + 5 ≤ 17 := by omega
    obtain ⟨hvalid₂, hvalue, htotal⟩ :=
      (verifyEncodedNumAuthorities_eq_some hfield hcursorLe).mp hnum
    rw [hslice _ 5 hcursorLe] at hvalid₂ hvalue htotal
    have hle₂ := Compact.byteLength_le (leNat (slice l (start + cursor.val) 5) % 4)
    have henc₁ := Compact.isEncoding_take (by rw [hlen5 6 (by decide)]; exact hle₁) hvalid₁
    have henc₂ := Compact.isEncoding_take (by rw [hlen5 _ hcursorLe]; exact hle₂) hvalid₂
    rw [Bytes.take_slice l hle₁] at henc₁
    rw [Bytes.take_slice l hle₂, hvalue] at henc₂
    have hlen₁ : (slice l (start + 6) (Compact.byteLength
        (leNat (slice l (start + 6) 5) % 4))).length =
          Compact.byteLength (leNat (slice l (start + 6) 5) % 4) :=
      Bytes.length_slice (by omega)
    have hlen₂ : (slice l (start + cursor.val) (Compact.byteLength
        (leNat (slice l (start + cursor.val) 5) % 4))).length =
          Compact.byteLength (leNat (slice l (start + cursor.val) 5) % 4) :=
      Bytes.length_slice (by omega)
    rw [helem _ (by omega), ← Nat.add_assoc] at hflag
    refine ⟨_, _, ⟨_, henc₁⟩, henc₂, ⟨hid, by rw [hlen₁], by rw [hlen₁]; exact hflag, ?_⟩, ?_⟩
    · rw [hlen₁, hlen₂, ← hcursor]
    · rw [hlen₁, hlen₂, htotal, hcursor]
  · rintro ⟨length, size, ⟨v, henc₁⟩, henc₂, ⟨hid, hlength, hflag, hsize⟩, htotal⟩
    have hlengthLe : length.length ≤ 5 := henc₁.length ▸ Compact.byteLength_le _
    have hsizeLe : size.length ≤ 5 := henc₂.length ▸ Compact.byteLength_le _
    have hbig : 100 < GOLDILOCKS := by decide
    have hcursor : (Variable.ofNat (7 + length.length)).val = 7 + length.length :=
      Variable.val_ofNat_of_lt (by omega)
    obtain ⟨hvalid₁, -, hbyte₁⟩ := henc₁.of_take (w := slice l (start + 6) 5)
      (by rw [Bytes.take_slice l hlengthLe, hlength])
    obtain ⟨hvalid₂, hvalue₂, hbyte₂⟩ := henc₂.of_take
      (w := slice l (start + (7 + length.length)) 5)
      (by rw [Bytes.take_slice l hsizeLe, hsize])
    refine ⟨hid, Variable.ofNat (7 + length.length), ⟨hvalid₁, ?_, by rw [hcursor, hbyte₁]⟩, ?_⟩
    · rw [hbyte₁, helem _ (by omega), ← Nat.add_assoc]
      exact hflag
    · refine (verifyEncodedNumAuthorities_eq_some hfield
        (show _ + 5 ≤ 17 by rw [hcursor]; omega)).mpr ?_
      rw [hcursor, hslice _ 5 (by omega)]
      exact ⟨hvalid₂, hvalue₂, by rw [hbyte₂, htotal]⟩

/-- The validators that the circuit accepts. -/
theorem verifyValidators_zero_eq_some {MAX_AUTHORITY_SET_SIZE c : ℕ}
    {enc : BytesVariable (MAX_AUTHORITY_SET_SIZE * VALIDATOR_LENGTH + DELAY_LENGTH)}
    {keys : ArrayVariable Bytes32Variable MAX_AUTHORITY_SET_SIZE} (hpos : 0 < n.val)
    (henc : enc.data = slice l c (MAX_AUTHORITY_SET_SIZE * 40 + 4))
    (hroom : c + (MAX_AUTHORITY_SET_SIZE * 40 + 4) ≤ l.length) (hfield : l.length < GOLDILOCKS) :
    verifyValidators n enc 0 false keys.data = some () ↔
      Agrees (authoritiesPattern MAX_AUTHORITY_SET_SIZE n.val) l c ∧
        ∀ i key, i < n.val → keys.data[i]? = some key → key.data = slice l (c + i * 40) 32 := by
  have hkeys := keys.length_data
  have hkey : ∀ i, i < MAX_AUTHORITY_SET_SIZE → ∃ key, keys.data[i]? = some key :=
    fun i hi => ⟨_, List.getElem?_eq_getElem (by rw [hkeys]; exact hi)⟩
  have hbound : ∀ i key, keys.data[i]? = some key → i < MAX_AUTHORITY_SET_SIZE := by
    intro i key h
    rw [← hkeys]
    exact (List.getElem?_eq_some_iff.mp h).1
  have hslice : ∀ i m, i + m ≤ MAX_AUTHORITY_SET_SIZE * 40 + 4 →
      slice enc.data i m = slice l (c + i) m := by
    intro i m him
    rw [henc, Bytes.slice_slice him]
  have hloop := @verifyValidators_eq_some _ n enc () keys.data 0
    (by rw [hkeys]; omega) (by rw [hkeys, Nat.zero_add]; exact Nat.le_refl _)
  rw [decide_eq_false (by omega : ¬n.val ≤ 0)] at hloop
  simp only [Nat.zero_add] at hloop
  rw [hloop, agrees_authoritiesPattern hroom]
  constructor
  · intro h
    refine ⟨⟨fun i hi => ?_, fun hn => ?_⟩, fun i key hi hik => ?_⟩
    · obtain ⟨key, hik⟩ := hkey i (by omega)
      rw [Nat.add_assoc, ← hslice _ 8 (by omega)]
      exact ((h i key hik).1 (by omega)).2
    · obtain ⟨key, hik⟩ := hkey (n.val - 1) (by omega)
      have hdelay := (h _ key hik).2 (by omega)
      rw [hslice _ 4 (by omega), show (n.val - 1) * 40 + 40 = n.val * 40 by omega] at hdelay
      exact hdelay
    · have hlt := hbound i key hik
      rw [← hslice _ 32 (by omega)]
      exact ((h i key hik).1 hi).1.symm
  · rintro ⟨⟨hweights, hdelay⟩, hmatch⟩ i key hik
    have hlt := hbound i key hik
    refine ⟨fun hi => ⟨?_, ?_⟩, fun hi => ?_⟩
    · rw [hslice _ 32 (by omega)]
      exact (hmatch i key hi hik).symm
    · rw [hslice _ 8 (by omega), ← Nat.add_assoc]
      exact hweights i (by omega)
    · rw [hslice _ 4 (by omega), show i * 40 + 40 = n.val * 40 by omega]
      exact hdelay (by omega)

variable {S MAX_AUTHORITY_SET_SIZE : ℕ} {header : EncodedHeaderVariable S} {startPosition : Variable}
  {keys : ArrayVariable Bytes32Variable MAX_AUTHORITY_SET_SIZE}

/-- A count is not zero if the circuit does not find it to be. -/
theorem isZero_eq_false_iff : isZero n = false ↔ 0 < n.val := by
  rw [← Bool.not_eq_true, isZero_iff, Fin.ext_iff, Fin.val_zero]
  omega

/-- What the constraints of `verify_epoch_end_header` say, with its two windows. -/
theorem verifyEpochEndHeader_eq_some_iff {MAX_SUBARRAY_SIZE : ℕ} {u : Unit} :
    verifyEpochEndHeader crypto MAX_SUBARRAY_SIZE header hash n startPosition keys = some u ↔
      0 < n.val ∧ ∃ sub cursor total enc,
        crypto.getFixedSubarray MAX_PREFIX_LENGTH header.headerBytes startPosition hash.data =
          some sub ∧
        verifyConsensusLog sub = some () ∧
        verifyScheduledChangeMessageLengthAndFlag crypto sub = some cursor ∧
        verifyEncodedNumAuthorities crypto sub cursor hash n = some total ∧
        crypto.getFixedSubarray MAX_SUBARRAY_SIZE header.headerBytes (startPosition + total)
          hash.data = some enc ∧
        verifyValidators n enc 0 false keys.data = some () := by
  simp only [verifyEpochEndHeader, Option.bind_eq_bind, Option.bind_eq_some_iff,
    assertIsEqual_eq_some, isZero_eq_false_iff]
  constructor
  · rintro ⟨_, hn, sub, hsub, _, hlog, cursor, hcursor, total, htotal, enc, henc, hvalidators⟩
    exact ⟨hn, sub, cursor, total, enc, hsub, hlog, hcursor, htotal, henc, hvalidators⟩
  · rintro ⟨hn, sub, cursor, total, enc, hsub, hlog, hcursor, htotal, henc, hvalidators⟩
    exact ⟨(), hn, sub, hsub, (), hlog, cursor, hcursor, total, htotal, enc, henc, hvalidators⟩

/-- The keys of the log at the given position are the given ones. -/
def HoldsKeys (l : List UInt8) (start n : ℕ) (length size : List UInt8)
    (keys : List Bytes32Variable) : Prop :=
  ∀ i key, i < n → keys[i]? = some key →
    key.data = slice l (start + (7 + length.length + size.length) + i * 40) 32

/-- The lengths of the two compact integers in a prefix. -/
theorem length_prefix_le {length size : List UInt8} {m : ℕ} (h₁ : ∃ v, Compact.IsEncoding length v)
    (h₂ : Compact.IsEncoding size m) : 7 + length.length + size.length ≤ 17 := by
  obtain ⟨v, h₁⟩ := h₁
  have hlength : length.length ≤ 5 := h₁.length ▸ Compact.byteLength_le _
  have hsize : size.length ≤ 5 := h₂.length ▸ Compact.byteLength_le _
  omega

/-- **Grammar, acceptance.** The circuit accepts an authority set log at the given position whose
keys are the given ones. -/
theorem verifyEpochEndHeader_of_log {length size : List UInt8} (hfield : S < GOLDILOCKS)
    (hlog : AuthoritySetLog MAX_AUTHORITY_SET_SIZE header.headerBytes.data startPosition.val n.val
      length size)
    (hkeys : HoldsKeys header.headerBytes.data startPosition.val n.val length size keys.data) :
    verifyEpochEndHeader crypto (MAX_AUTHORITY_SET_SIZE * VALIDATOR_LENGTH + DELAY_LENGTH) header hash n
      startPosition keys = some () := by
  have hlen := header.headerBytes.length_data
  have hle := length_prefix_le hlog.isEncoding_length hlog.isEncoding_size
  have hwidth : MAX_PREFIX_LENGTH = 17 := rfl
  have hroom := hlog.prefixRoom
  have hroom' := hlog.room
  rw [hlen] at hroom hroom'
  obtain ⟨hhead, hagrees⟩ := (agrees_logPattern hlog.room).mp hlog.agrees
  obtain ⟨sub, -, hsub⟩ := header.headerBytes.exists_subarray hroom
  have hbig : 100 < GOLDILOCKS := by decide
  have htotalVal : (Variable.ofNat (7 + length.length + size.length)).val =
      7 + length.length + size.length := Variable.val_ofNat_of_lt (by omega)
  obtain ⟨hconsensus, cursor, hcursor, htotal⟩ := (verifyPrefix_eq_some crypto hash
    (Variable.ofNat (7 + length.length + size.length)) hsub (by rw [hlen]; exact hroom)).mpr
      ⟨length, size, hlog.isEncoding_length, hlog.isEncoding_size, hhead, htotalVal⟩
  have hadd : (startPosition + Variable.ofNat (7 + length.length + size.length)).val =
      startPosition.val + (7 + length.length + size.length) := by
    rw [Variable.val_add_of_lt (by omega), htotalVal]
  obtain ⟨enc, -, henc⟩ := header.headerBytes.exists_subarray hroom'
  refine verifyEpochEndHeader_eq_some_iff.mpr ⟨hlog.pos, sub, cursor, _, enc,
    (getFixedSubarray_eq_some _ hroom).mpr hsub, hconsensus, hcursor, htotal,
    (getFixedSubarray_eq_some _ (by rw [hadd]; exact hroom')).mpr (by rw [hadd]; exact henc), ?_⟩
  exact (verifyValidators_zero_eq_some hlog.pos henc hlog.room
    (by rw [hlen]; exact hfield)).mpr ⟨hagrees, hkeys⟩

/-- **Grammar, soundness.** If the windows that the circuit reads are inside the header bytes then
what it accepts is an authority set log with the given keys. -/
theorem exists_log_of_verifyEpochEndHeader (hfield : S < GOLDILOCKS)
    (hwindow : startPosition.val + MAX_PREFIX_LENGTH ≤ S)
    (hvalidators : ∀ length size, (∃ v, Compact.IsEncoding length v) →
      Compact.IsEncoding size n.val →
      (slice header.headerBytes.data (startPosition.val + 1) 5 = [4, 70, 82, 78, 75] ∧
        slice header.headerBytes.data (startPosition.val + 6) length.length = length ∧
        header.headerBytes.data[startPosition.val + 6 + length.length]? = some 1 ∧
        slice header.headerBytes.data (startPosition.val + (7 + length.length)) size.length = size) →
      startPosition.val + (7 + length.length + size.length) + (MAX_AUTHORITY_SET_SIZE * 40 + 4) ≤ S)
    (h : verifyEpochEndHeader crypto (MAX_AUTHORITY_SET_SIZE * VALIDATOR_LENGTH + DELAY_LENGTH) header
      hash n startPosition keys = some ()) :
    ∃ length size, AuthoritySetLog MAX_AUTHORITY_SET_SIZE header.headerBytes.data startPosition.val
        n.val length size ∧
      HoldsKeys header.headerBytes.data startPosition.val n.val length size keys.data := by
  have hlen := header.headerBytes.length_data
  have hwidth : MAX_PREFIX_LENGTH = 17 := rfl
  obtain ⟨hn, sub, cursor, total, enc, hsub, hlog, hcursor, htotal, henc, hloop⟩ :=
    verifyEpochEndHeader_eq_some_iff.mp h
  rw [getFixedSubarray_eq_some _ hwindow] at hsub
  obtain ⟨length, size, henc₁, henc₂, hhead, htotalVal⟩ := (verifyPrefix_eq_some crypto hash total
    hsub (by rw [hlen]; exact hwindow)).mp ⟨hlog, cursor, hcursor, htotal⟩
  have hle := length_prefix_le henc₁ henc₂
  have hroom := hvalidators length size henc₁ henc₂ hhead
  have hadd : (startPosition + total).val =
      startPosition.val + (7 + length.length + size.length) := by
    rw [Variable.val_add_of_lt (by omega), htotalVal]
  rw [getFixedSubarray_eq_some _ (by rw [hadd]; exact hroom), hadd] at henc
  obtain ⟨hagrees, hkeys⟩ := (verifyValidators_zero_eq_some hn henc (by rw [hlen]; exact hroom)
    (by rw [hlen]; exact hfield)).mp hloop
  exact ⟨length, size, ⟨henc₁, henc₂, hn, by rw [hlen]; exact hwindow, by rw [hlen]; exact hroom,
    (agrees_logPattern (by rw [hlen]; exact hroom)).mpr ⟨hhead, hagrees⟩⟩, hkeys⟩

/-- With a gadget that rejects windows past the end, everything that the circuit accepts is an
authority set log. -/
theorem exists_log_of_rejectsPastEnd (hpast : crypto.RejectsPastEnd) (hfield : S < GOLDILOCKS)
    (h : verifyEpochEndHeader crypto (MAX_AUTHORITY_SET_SIZE * VALIDATOR_LENGTH + DELAY_LENGTH) header
      hash n startPosition keys = some ()) :
    ∃ length size, AuthoritySetLog MAX_AUTHORITY_SET_SIZE header.headerBytes.data startPosition.val
        n.val length size ∧
      HoldsKeys header.headerBytes.data startPosition.val n.val length size keys.data := by
  have hlen := header.headerBytes.length_data
  have hwidth : MAX_PREFIX_LENGTH = 17 := rfl
  obtain ⟨-, sub, cursor, total, enc, hsub, -, hcursor, htotal, henc, -⟩ :=
    verifyEpochEndHeader_eq_some_iff.mp h
  have hprefix := le_of_getFixedSubarray hpast hsub
  have hwindow := le_of_getFixedSubarray hpast henc
  rw [getFixedSubarray_eq_some _ hprefix] at hsub
  refine exists_log_of_verifyEpochEndHeader hfield hprefix (fun length size h₁ h₂ hhead => ?_) h
  -- the prefix determines the length that the circuit has computed
  have hle := length_prefix_le h₁ h₂
  have hval : (Variable.ofNat (7 + length.length + size.length)).val =
      7 + length.length + size.length := Variable.val_ofNat_of_lt (by omega)
  obtain ⟨-, cursor', hcursor', htotal'⟩ := (verifyPrefix_eq_some crypto hash
    (Variable.ofNat (7 + length.length + size.length)) hsub (by rw [hlen]; exact hprefix)).mpr
      ⟨length, size, h₁, h₂, hhead, hval⟩
  obtain rfl := Option.some.inj (hcursor.symm.trans hcursor')
  obtain rfl := Option.some.inj (htotal.symm.trans htotal')
  rwa [Variable.val_add_of_lt (by omega), hval] at hwindow

end Parser

end VectorX
