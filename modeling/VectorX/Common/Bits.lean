import VectorX.Common.Bytes

/-!
# Bit strings

The number spelled by a list of bits, least significant bit first. Reading some of the bits of a
byte string divides and truncates the number that its bytes denote.
-/

namespace Bits

open Bytes (slice leNat)

/-- The number with the given bits, least significant first. -/
def ofBits : List Bool → ℕ
  | [] => 0
  | b :: bs => b.toNat + 2 * ofBits bs

/-- The `width` low bits of `n`, least significant first. -/
def toBits (width n : ℕ) : List Bool := (List.range width).map n.testBit

@[simp] theorem length_toBits (width n : ℕ) : (toBits width n).length = width := by
  simp [toBits]

/-- `w` bits denote a number below `2 ^ w`. -/
theorem ofBits_lt (bs : List Bool) : ofBits bs < 2 ^ bs.length := by
  induction bs with
  | nil => simp [ofBits]
  | cons b bs ih =>
    have hb : b.toNat ≤ 1 := Bool.toNat_le b
    simp only [ofBits, List.length_cons, Nat.pow_succ]
    omega

theorem ofBits_append (bs cs : List Bool) :
    ofBits (bs ++ cs) = ofBits bs + 2 ^ bs.length * ofBits cs := by
  induction bs with
  | nil => simp [ofBits]
  | cons b bs ih =>
    simp only [List.cons_append, ofBits, ih, List.length_cons, Nat.pow_succ]
    ring

/-- Reading back the low bits of a number truncates it. -/
theorem ofBits_toBits (width n : ℕ) : ofBits (toBits width n) = n % 2 ^ width := by
  induction width generalizing n with
  | zero => simp [toBits, ofBits, Nat.mod_one]
  | succ width ih =>
    have htail : (List.range width).map (n.testBit ∘ Nat.succ) = toBits width (n / 2) := by
      apply List.map_congr_left
      intro i _
      simp [Nat.testBit_add_one]
    have hhead : (n.testBit 0).toNat = n % 2 := by
      rw [Nat.testBit_zero]
      rcases Nat.mod_two_eq_zero_or_one n with h | h <;> simp [h]
    rw [toBits, List.range_succ_eq_map, List.map_cons, List.map_map, htail, ofBits, ih, hhead,
      Nat.pow_succ, Nat.mul_comm (2 ^ width) 2, Nat.mod_mul]

/-- Some of the bits of a number: shift, then truncate. -/
theorem ofBits_slice {bs : List Bool} {i n : ℕ} (h : i + n ≤ bs.length) :
    ofBits (slice bs i n) = ofBits bs / 2 ^ i % 2 ^ n := by
  have hlen : (slice bs i n).length = n := Bytes.length_slice h
  have hlow : ofBits (bs.take i) < 2 ^ i := by
    have hlt := ofBits_lt (bs.take i)
    rwa [List.length_take_of_le (by omega)] at hlt
  have hmid : ofBits (slice bs i n) < 2 ^ n := by
    have hlt := ofBits_lt (slice bs i n)
    rwa [hlen] at hlt
  have hshift : ofBits bs / 2 ^ i = ofBits (bs.drop i) := by
    conv_lhs => rw [← List.take_append_drop i bs, ofBits_append,
      List.length_take_of_le (by omega : i ≤ bs.length)]
    rw [Nat.add_mul_div_left _ _ (Nat.two_pow_pos i), Nat.div_eq_of_lt hlow, Nat.zero_add]
  have htrunc : ofBits (bs.drop i) = ofBits (slice bs i n) + 2 ^ n * ofBits (bs.drop (i + n)) := by
    conv_lhs => rw [← List.take_append_drop n (bs.drop i), ofBits_append, List.drop_drop]
    rw [← slice, hlen]
  rw [hshift, htrunc, Nat.add_mul_mod_self_left, Nat.mod_eq_of_lt hmid]

/-- The bits of a byte string, each byte least significant bit first, spell its little-endian
number. -/
theorem ofBits_flatMap_toBits (bytes : List UInt8) :
    ofBits (bytes.flatMap fun b => toBits 8 b.toNat) = leNat bytes := by
  induction bytes with
  | nil => rfl
  | cons b bytes ih =>
    have hb : b.toNat < 256 := b.toNat_lt
    rw [List.flatMap_cons, ofBits_append, length_toBits, ih, ofBits_toBits, leNat]
    omega

theorem length_flatMap_toBits (bytes : List UInt8) :
    (bytes.flatMap fun b => toBits 8 b.toNat).length = 8 * bytes.length := by
  induction bytes with
  | nil => rfl
  | cons b bytes ih =>
    rw [List.flatMap_cons, List.length_append, length_toBits, ih, List.length_cons]
    ring

end Bits
