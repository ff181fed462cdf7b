import VectorX.Common.Bytes

/-!
# SCALE compact integers

A compact integer is 1, 2, 4 or more bytes long; the two low bits of its first byte say which. A
reader that knows the value is below `2 ^ 32` looks at five bytes, whatever follows the integer. The
definitions below take these five bytes as one little-endian number `N`.
-/

namespace Compact

open Bytes (leNat leBytes)

/-- The value of the compact integer that starts the bytes `N`. -/
def value (N : ℕ) : ℕ :=
  match N % 4 with
  | 0 => N / 2 ^ 2 % 2 ^ 6
  | 1 => N / 2 ^ 2 % 2 ^ 14
  | 2 => N / 2 ^ 2 % 2 ^ 30
  | _ => N / 2 ^ 8 % 2 ^ 32

/-- The length in bytes of a compact integer of the given mode. -/
def byteLength (mode : ℕ) : ℕ :=
  match mode with
  | 0 => 1
  | 1 => 2
  | 2 => 4
  | _ => 5

/-- In mode 3 the value must have four bytes. -/
def Valid (N : ℕ) : Prop := N % 4 = 3 → N / 2 ^ 2 % 2 ^ 6 = 0

instance (N : ℕ) : Decidable (Valid N) := inferInstanceAs (Decidable (_ → _))

/-- The shortest compact encoding of a number below `2 ^ 32`. -/
def encode (n : ℕ) : List UInt8 :=
  if n < 2 ^ 6 then leBytes 1 (n * 4)
  else if n < 2 ^ 14 then leBytes 2 (n * 4 + 1)
  else if n < 2 ^ 30 then leBytes 4 (n * 4 + 2)
  else leBytes 5 (n * 256 + 3)

theorem value_lt (N : ℕ) : value N < 2 ^ 32 := by
  rw [value]
  split <;> omega

theorem byteLength_pos (mode : ℕ) : 1 ≤ byteLength mode := by
  unfold byteLength
  split <;> omega

theorem byteLength_le (mode : ℕ) : byteLength mode ≤ 5 := by
  unfold byteLength
  split <;> omega

/-- The number that starts with an encoding of width `w`, in terms of the bytes after it. -/
theorem leNat_leBytes_append {w m : ℕ} (h : m < 256 ^ w) (rest : List UInt8) :
    leNat (leBytes w m ++ rest) = m + 256 ^ w * leNat rest := by
  rw [Bytes.leNat_append, Bytes.leNat_leBytes, Bytes.length_leBytes, Nat.mod_eq_of_lt h]

/-- **Round trip.** An encoding is valid, has the length of its mode and decodes to its number,
whatever bytes follow. -/
theorem decode_encode {n : ℕ} (h : n < 2 ^ 32) (rest : List UInt8) :
    Valid (leNat (encode n ++ rest)) ∧ value (leNat (encode n ++ rest)) = n ∧
      byteLength (leNat (encode n ++ rest) % 4) = (encode n).length := by
  rw [encode]
  split
  · rw [leNat_leBytes_append (by omega), Bytes.length_leBytes]
    have hmode : (n * 4 + 256 ^ 1 * leNat rest) % 4 = 0 := by omega
    refine ⟨fun hvalid => by omega, ?_, by rw [hmode]; rfl⟩
    simp only [value, hmode]
    omega
  split
  · rw [leNat_leBytes_append (by omega), Bytes.length_leBytes]
    have hmode : (n * 4 + 1 + 256 ^ 2 * leNat rest) % 4 = 1 := by omega
    refine ⟨fun hvalid => by omega, ?_, by rw [hmode]; rfl⟩
    simp only [value, hmode]
    omega
  split
  · rw [leNat_leBytes_append (by omega), Bytes.length_leBytes]
    have hmode : (n * 4 + 2 + 256 ^ 4 * leNat rest) % 4 = 2 := by omega
    refine ⟨fun hvalid => by omega, ?_, by rw [hmode]; rfl⟩
    simp only [value, hmode]
    omega
  · rw [leNat_leBytes_append (by omega), Bytes.length_leBytes]
    have hmode : (n * 256 + 3 + 256 ^ 5 * leNat rest) % 4 = 3 := by omega
    refine ⟨fun _ => by omega, ?_, by rw [hmode]; rfl⟩
    simp only [value, hmode]
    omega

/-! ## Encodings of any length -/

/-- The bytes are a compact integer, not necessarily the shortest one, with the given value. -/
structure IsEncoding (bytes : List UInt8) (n : ℕ) : Prop where
  valid : Valid (leNat bytes)
  length : bytes.length = byteLength (leNat bytes % 4)
  value : value (leNat bytes) = n

/-- Only the bytes of its length matter for a compact integer. -/
theorem mod_byteLength (N : ℕ) :
    N % 256 ^ byteLength (N % 4) % 4 = N % 4 ∧
      (Valid (N % 256 ^ byteLength (N % 4)) ↔ Valid N) ∧
      value (N % 256 ^ byteLength (N % 4)) = value N := by
  have hmode : N % 256 ^ byteLength (N % 4) % 4 = N % 4 :=
    Nat.mod_mod_of_dvd N (Dvd.dvd.trans (by decide : 4 ∣ 256)
      (dvd_pow_self 256 (Nat.ne_of_gt (byteLength_pos _))))
  -- dropping the bytes after the integer keeps the bits of the value
  have hbits : ∀ i n w : ℕ, i + n ≤ 8 * w → N % 256 ^ w / 2 ^ i % 2 ^ n = N / 2 ^ i % 2 ^ n := by
    intro i n w hw
    have hpow : 256 ^ w = 2 ^ i * 2 ^ (8 * w - i) := by
      rw [← pow_add, Nat.add_sub_cancel' (by omega), pow_mul]
      rfl
    rw [hpow, Nat.mod_mul_right_div_self, Nat.mod_mod_of_dvd _ (pow_dvd_pow 2 (by omega))]
  refine ⟨hmode, ?_, ?_⟩
  · rw [Valid, Valid, hmode]
    refine imp_congr_right fun h => ?_
    rw [h, hbits 2 6 (byteLength 3) (by decide)]
  · rw [value, value, hmode]
    have hlt : N % 4 < 4 := Nat.mod_lt _ (by decide)
    rcases (by omega : N % 4 = 0 ∨ N % 4 = 1 ∨ N % 4 = 2 ∨ N % 4 = 3) with h | h | h | h <;>
      rw [h] <;> exact hbits _ _ _ (by decide)

/-- Two numbers that agree on the bytes of the compact integer of one of them have the same mode and
value. -/
theorem eq_of_mod_byteLength {N N' : ℕ}
    (h : N' % 256 ^ byteLength (N % 4) = N % 256 ^ byteLength (N % 4)) :
    N' % 4 = N % 4 ∧ (Valid N' ↔ Valid N) ∧ value N' = value N := by
  obtain ⟨hmode, hvalid, hvalue⟩ := mod_byteLength N
  have hdvd : 4 ∣ 256 ^ byteLength (N % 4) :=
    Dvd.dvd.trans (by decide : 4 ∣ 256) (dvd_pow_self 256 (Nat.ne_of_gt (byteLength_pos _)))
  have hmode' : N' % 4 = N % 4 := by
    rw [← Nat.mod_mod_of_dvd N' hdvd, h, hmode]
  obtain ⟨-, hvalid', hvalue'⟩ := mod_byteLength N'
  rw [hmode', h] at hvalid' hvalue'
  exact ⟨hmode', hvalid'.symm.trans hvalid, hvalue'.symm.trans hvalue⟩

/-- Reading a window of bytes reads the compact integer at its start. -/
theorem isEncoding_take {w : List UInt8}
    (hlen : byteLength (leNat w % 4) ≤ w.length) (hvalid : Valid (leNat w)) :
    IsEncoding (w.take (byteLength (leNat w % 4))) (value (leNat w)) := by
  obtain ⟨hmode, hvalid', hvalue⟩ := mod_byteLength (leNat w)
  have hnat := Bytes.leNat_take hlen
  refine ⟨by rw [hnat]; exact hvalid'.mpr hvalid, ?_, by rw [hnat, hvalue]⟩
  rw [hnat, hmode, List.length_take, Nat.min_eq_left hlen]

/-- A window that starts with a compact integer is read as it. -/
theorem IsEncoding.of_take {bytes w : List UInt8} {n : ℕ} (h : IsEncoding bytes n)
    (htake : w.take bytes.length = bytes) :
    Valid (leNat w) ∧ Compact.value (leNat w) = n ∧
      byteLength (leNat w % 4) = bytes.length := by
  have hle : bytes.length ≤ w.length := by
    have hlen := congrArg List.length htake
    rw [List.length_take] at hlen
    omega
  have hnat := Bytes.leNat_take hle
  rw [htake] at hnat
  have hpos := byteLength_pos (leNat bytes % 4)
  have hmode : leNat bytes % 4 = leNat w % 4 := by
    rw [hnat]
    refine Nat.mod_mod_of_dvd _ (Dvd.dvd.trans (by decide : 4 ∣ 256) (dvd_pow_self 256 ?_))
    rw [h.length]
    omega
  have hwidth : byteLength (leNat w % 4) = bytes.length := by rw [h.length, hmode]
  obtain ⟨-, hvalid, hvalue⟩ := mod_byteLength (leNat w)
  rw [hwidth, ← hnat] at hvalid hvalue
  exact ⟨hvalid.mp h.valid, hvalue.symm.trans h.value, hwidth⟩

/-- At most one compact integer starts a list. -/
theorem IsEncoding.eq_of_prefix {a b w : List UInt8} {n m : ℕ} (ha : IsEncoding a n)
    (hb : IsEncoding b m) (haw : a <+: w) (hbw : b <+: w) : a = b := by
  have ha' := (List.prefix_iff_eq_take.mp haw).symm
  have hb' := (List.prefix_iff_eq_take.mp hbw).symm
  obtain ⟨-, -, hlen⟩ := ha.of_take ha'
  obtain ⟨-, -, hlen'⟩ := hb.of_take hb'
  rw [← ha', ← hb', ← hlen, ← hlen']

/-- The shortest encoding is one. -/
theorem isEncoding_encode {n : ℕ} (h : n < 2 ^ 32) : IsEncoding (encode n) n := by
  obtain ⟨hvalid, hvalue, hlen⟩ := decode_encode h []
  rw [List.append_nil] at hvalid hvalue hlen
  exact ⟨hvalid, hlen.symm, hvalue⟩

theorem length_encode_eq_one_iff {n : ℕ} : (encode n).length = 1 ↔ n < 64 := by
  rw [encode]
  split_ifs with h₁ h₂ h₃ <;> rw [Bytes.length_leBytes]
  · exact iff_of_true rfl h₁
  all_goals exact iff_of_false (by decide) h₁

theorem length_encode_le (n : ℕ) : (encode n).length ≤ 5 := by
  rw [encode]
  split_ifs <;> simp

theorem length_encode_pos (n : ℕ) : 1 ≤ (encode n).length := by
  rw [encode]
  split_ifs <;> simp

end Compact
