import Mathlib.Data.Nat.Find
import Mathlib.Tactic.Common

/-!
# Functions that grow in unit steps

A function on an initial segment of the natural numbers that grows by at most one at each step takes
every value between its ends, and passes from one value to the next at exactly one place.
-/

namespace UnitSteps

variable {f : ℕ → ℕ} {n t : ℕ}

/-- Up to `n`, each value is the one before or its successor. -/
def Grows (f : ℕ → ℕ) (n : ℕ) : Prop := ∀ h, h < n → f (h + 1) = f h ∨ f (h + 1) = f h + 1

/-- The function passes from `t` to `t + 1` at `b`. -/
structure IsPassage (f : ℕ → ℕ) (t b : ℕ) : Prop where
  pos : 1 ≤ b
  before : f (b - 1) = t
  at_eq : f b = t + 1

instance (f : ℕ → ℕ) (t b : ℕ) : Decidable (IsPassage f t b) :=
  decidable_of_iff (1 ≤ b ∧ f (b - 1) = t ∧ f b = t + 1)
    ⟨fun h => ⟨h.1, h.2.1, h.2.2⟩, fun h => ⟨h.pos, h.before, h.at_eq⟩⟩

/-- The values up to `n` are in order. -/
theorem Grows.mono (hf : Grows f n) {a b : ℕ} (hab : a ≤ b) (hb : b ≤ n) : f a ≤ f b := by
  induction b, hab using Nat.le_induction with
  | base => exact Nat.le_refl _
  | succ b hab ih =>
    have hle := ih (by omega)
    rcases hf b (by omega) with hstep | hstep <;> omega

/-- A value is at most as far from the first one as its index. -/
theorem Grows.le_add (hf : Grows f n) : ∀ b, b ≤ n → f b ≤ f 0 + b
  | 0, _ => Nat.le_refl _
  | b + 1, hb => by
    have hle := hf.le_add b (by omega)
    rcases hf b (by omega) with hstep | hstep <;> omega

/-- The function stays at or below `t` exactly before the passage. -/
theorem IsPassage.lt_iff (hf : Grows f n) {b x : ℕ} (hb : IsPassage f t b) (hbn : b ≤ n)
    (hx : x ≤ n) : x < b ↔ f x ≤ t := by
  have hbefore := hb.before
  have hat := hb.at_eq
  have hpos := hb.pos
  constructor
  · intro hlt
    have hle := hf.mono (a := x) (b := b - 1) (by omega) (by omega)
    omega
  · intro hle
    by_contra hge
    have hmono := hf.mono (Nat.not_lt.mp hge) hx
    omega

/-- There is at most one passage. -/
theorem IsPassage.unique (hf : Grows f n) {b b' : ℕ} (hb : IsPassage f t b) (hb' : IsPassage f t b')
    (hbn : b ≤ n) (hbn' : b' ≤ n) : b = b' := by
  have hlt := hb.lt_iff hf hbn hbn'
  have hlt' := hb'.lt_iff hf hbn' hbn
  have hat := hb.at_eq
  have hat' := hb'.at_eq
  omega

/-- Every value between the ends is passed. -/
theorem exists_isPassage (hf : Grows f n) (hzero : f 0 ≤ t) (hn : t < f n) :
    ∃ b, b ≤ n ∧ IsPassage f t b := by
  have hex : ∃ b, t < f b := ⟨n, hn⟩
  have hfirst := Nat.find_spec hex
  have hle : Nat.find hex ≤ n := Nat.find_min' hex hn
  have hpos : 1 ≤ Nat.find hex := by
    by_contra h
    rw [Nat.lt_one_iff.mp (Nat.not_le.mp h)] at hfirst
    omega
  -- the value before the first one above `t` is `t`
  have hprev : ¬ t < f (Nat.find hex - 1) := Nat.find_min hex (by omega)
  have hstep := hf (Nat.find hex - 1) (by omega)
  rw [Nat.sub_add_cancel hpos] at hstep
  exact ⟨Nat.find hex, hle, hpos, by omega, by omega⟩

/-- A value that the last one exceeds is the one that is passed. -/
theorem exists_isPassage_iff (hf : Grows f n) (hzero : f 0 ≤ t) :
    (∃ b, b ≤ n ∧ IsPassage f t b) ↔ t < f n := by
  constructor
  · rintro ⟨b, hb, hpassage⟩
    have hat := hpassage.at_eq
    have hmono := hf.mono hb (Nat.le_refl n)
    omega
  · exact exists_isPassage hf hzero

end UnitSteps
