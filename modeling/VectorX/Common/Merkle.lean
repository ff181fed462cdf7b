import VectorX.Common.HashChain
import VectorX.Common.TreeReduce
import Mathlib.Data.Nat.Log

/-!
# Merkle roots of complete binary trees

`root` is the root of the complete tree over the leaves at `2 ^ d` consecutive positions, for any
node hash. `hashLayers` is the usual loop that hashes a list layer by layer. The two agree, and a
tree may be computed in blocks: the root over blocks of leaves is the root of the block roots.
-/

namespace Merkle

/-! ## Padding to a power of two -/

/-- The least power of two that is at least `n`. -/
def nextPowerOfTwo (n : ℕ) : ℕ := 2 ^ Nat.clog 2 n

/-- A power of two is padded to itself. -/
theorem nextPowerOfTwo_two_pow (d : ℕ) : nextPowerOfTwo (2 ^ d) = 2 ^ d := by
  rw [nextPowerOfTwo, Nat.clog_pow 2 d (by decide)]

/-- A list padded to length `n`. -/
theorem map_range_append_replicate {γ : Type*} {f : ℕ → γ} {z : γ} {k n : ℕ} (h : k ≤ n) :
    (List.range k).map f ++ List.replicate (n - k) z =
      (List.range n).map fun i => if i < k then f i else z := by
  have hsplit : List.range n = List.range k ++ (List.range (n - k)).map (k + ·) := by
    rw [← List.range_add, Nat.add_sub_cancel' h]
  have hpad : ((List.range (n - k)).map (k + ·)).map (fun i => if i < k then f i else z) =
      List.replicate (n - k) z := by
    rw [List.map_map, List.eq_replicate_iff]
    refine ⟨by simp, fun x hx => ?_⟩
    obtain ⟨i, -, rfl⟩ := List.mem_map.mp hx
    exact if_neg (Nat.not_lt.mpr (Nat.le_add_right k i))
  rw [hsplit, List.map_append, hpad]
  refine congrArg (· ++ List.replicate (n - k) z) (List.map_congr_left fun i hi => ?_)
  exact (if_pos (List.mem_range.mp hi)).symm

/-! ## Roots -/

variable {α β : Type*}

/-- Root of the complete binary tree of depth `d` over the leaves at positions `lo`, `lo + 1`, …,
`lo + 2 ^ d - 1`. -/
def root (h : α → α → α) (leaf : ℕ → α) : ℕ → ℕ → α
  | 0, lo => leaf lo
  | d + 1, lo => h (root h leaf d lo) (root h leaf d (lo + 2 ^ d))

/-- Hash each pair of neighbours; an unpaired last node is dropped. -/
def hashLayer (h : α → α → α) : List α → List α
  | a :: b :: l => h a b :: hashLayer h l
  | _ => []

/-- Hash layers, at most `fuel` of them, while more than one node is left. -/
def hashLayers (h : α → α → α) : ℕ → List α → List α
  | 0, l => l
  | fuel + 1, l => if 1 < l.length then hashLayers h fuel (hashLayer h l) else l

/-- A root depends on the leaves below it only. -/
theorem root_congr {h : α → α → α} {leaf leaf' : ℕ → α} :
    ∀ (d lo : ℕ), (∀ i, lo ≤ i → i < lo + 2 ^ d → leaf i = leaf' i) →
      root h leaf d lo = root h leaf' d lo
  | 0, lo, hleaf => hleaf lo (Nat.le_refl _) (by simp)
  | d + 1, lo, hleaf => by
    have hpow : 2 ^ (d + 1) = 2 ^ d + 2 ^ d := by rw [pow_succ]; ring
    rw [root, root, root_congr d lo fun i hi hi' => hleaf i hi (by omega),
      root_congr d (lo + 2 ^ d) fun i hi hi' => hleaf i (by omega) (by omega)]

/-- Numbering the leaves from `lo` on. -/
theorem root_shift {h : α → α → α} {leaf : ℕ → α} {lo : ℕ} :
    ∀ d p : ℕ, root h (fun i => leaf (lo + i)) d p = root h leaf d (lo + p)
  | 0, _ => rfl
  | d + 1, p => by
    rw [root, root, root_shift d p, root_shift d (p + 2 ^ d), Nat.add_assoc]

/-- A root commutes with a map between node types that commutes with the node hash. -/
theorem map_root {h : α → α → α} {k : β → β → β} {g : α → β} (hg : ∀ a b, g (h a b) = k (g a) (g b))
    (leaf : ℕ → α) : ∀ d lo : ℕ, g (root h leaf d lo) = root k (g ∘ leaf) d lo
  | 0, _ => rfl
  | d + 1, lo => by rw [root, root, hg, map_root hg leaf d lo, map_root hg leaf d (lo + 2 ^ d)]

/-! ## Agreement with the layered reduction -/

/-- The summary of `width` leaves: the root over them. -/
def IsRoot (h : α → α → α) (leaf : ℕ → α) (lo width : ℕ) (a : α) : Prop :=
  ∃ d, width = 2 ^ d ∧ a = root h leaf d lo

/-- Two neighbouring roots of the same width hash to the root of both. -/
theorem IsRoot.node {h : α → α → α} {leaf : ℕ → α} {lo width : ℕ} {a b : α}
    (ha : IsRoot h leaf lo width a) (hb : IsRoot h leaf (lo + width) width b) :
    IsRoot h leaf lo (width + width) (h a b) := by
  obtain ⟨d, hd, rfl⟩ := ha
  obtain ⟨d', hd', rfl⟩ := hb
  obtain rfl : d = d' := Nat.pow_right_injective (Nat.le_refl 2) (hd.symm.trans hd')
  exact ⟨d + 1, by rw [hd, pow_succ]; ring, by rw [root, hd]⟩

/-- The depth of a root is determined by its width. -/
theorem IsRoot.eq_root {h : α → α → α} {leaf : ℕ → α} {lo d : ℕ} {a : α}
    (ha : IsRoot h leaf lo (2 ^ d) a) : a = root h leaf d lo := by
  obtain ⟨d', hd', rfl⟩ := ha
  rw [Nat.pow_right_injective (Nat.le_refl 2) hd']

theorem reduceLayer_some_eq (h : α → α → α) :
    ∀ l : List α, TreeReduce.reduceLayer (fun a b => some (h a b)) l = some (hashLayer h l)
  | [] => rfl
  | [_] => rfl
  | a :: b :: l => by simp [TreeReduce.reduceLayer, hashLayer, reduceLayer_some_eq h l]

/-- Hashing layer by layer is the layered reduction by a total node hash. -/
theorem reduceLayers_some_eq (h : α → α → α) :
    ∀ (fuel : ℕ) (l : List α),
      TreeReduce.reduceLayers (fun a b => some (h a b)) fuel l = some (hashLayers h fuel l)
  | 0, _ => rfl
  | fuel + 1, l => by
    rw [TreeReduce.reduceLayers, hashLayers]
    split
    · rw [reduceLayer_some_eq, Option.bind_some, reduceLayers_some_eq h fuel]
    · rfl

/-- Hashing `2 ^ d` roots of width `2 ^ k` layer by layer leaves the root over all their leaves. -/
theorem hashLayers_eq_root {h : α → α → α} {leaf : ℕ → α} {d k lo fuel : ℕ} {l : List α}
    (hfuel : d ≤ fuel) (hlen : l.length = 2 ^ d)
    (hcov : TreeReduce.Covers (IsRoot h leaf) (2 ^ k) lo l) :
    hashLayers h fuel l = [root h leaf (d + k) lo] := by
  have hstep : ∀ lo width a b c, IsRoot h leaf lo width a → IsRoot h leaf (lo + width) width b →
      some (h a b) = some c → IsRoot h leaf lo (width + width) c := by
    intro lo width a b c ha hb hc
    obtain rfl : h a b = c := by simpa using hc
    exact ha.node hb
  obtain ⟨r, hr, hroot⟩ := TreeReduce.reduceLayers_covers hstep d fuel (2 ^ k) lo l _ hfuel hlen
    hcov (reduceLayers_some_eq h fuel l)
  rw [← pow_add] at hroot
  rw [hr, hroot.eq_root]

/-- Hashing a list of `2 ^ d` leaves layer by layer leaves its root. -/
theorem hashLayers_leaves {h : α → α → α} {leaf : ℕ → α} {d fuel : ℕ} (hfuel : d ≤ fuel) :
    hashLayers h fuel ((List.range (2 ^ d)).map leaf) = [root h leaf d 0] := by
  have hcov : TreeReduce.Covers (IsRoot h leaf) (2 ^ 0) 0 ((List.range (2 ^ d)).map leaf) :=
    TreeReduce.covers_map_range (2 ^ d) 0 fun i _ => ⟨0, rfl, by simp [root]⟩
  have hroot := hashLayers_eq_root hfuel (by simp) hcov
  rwa [Nat.add_zero] at hroot

/-! ## Binding -/

/-- The pairs of nodes that are hashed for a root. -/
def pairs (h : α → α → α) (leaf : ℕ → α) : ℕ → ℕ → List (α × α)
  | 0, _ => []
  | d + 1, lo => (root h leaf d lo, root h leaf d (lo + 2 ^ d)) ::
      (pairs h leaf d lo ++ pairs h leaf d (lo + 2 ^ d))

/-- **Binding.** If no two of the pairs that are hashed for two roots collide, equal roots have
equal leaves. -/
theorem leaf_eq_of_root_eq {h : α → α → α} {leaf leaf' : ℕ → α} :
    ∀ d lo : ℕ, HashChain.CollisionFree (Function.uncurry h) (pairs h leaf d lo ++ pairs h leaf' d lo) →
      root h leaf d lo = root h leaf' d lo → ∀ i, lo ≤ i → i < lo + 2 ^ d → leaf i = leaf' i
  | 0, lo, _, heq, i, hlo, hi => by
    obtain rfl : i = lo := by
      rw [pow_zero] at hi
      omega
    exact heq
  | d + 1, lo, hfree, heq, i, hlo, hi => by
    have hnode := hfree (root h leaf d lo, root h leaf d (lo + 2 ^ d)) (by simp [pairs])
      (root h leaf' d lo, root h leaf' d (lo + 2 ^ d)) (by simp [pairs]) heq
    obtain ⟨hleft, hright⟩ := Prod.mk.inj hnode
    rw [pow_succ] at hi
    rcases Nat.lt_or_ge i (lo + 2 ^ d) with hlt | hge
    · refine leaf_eq_of_root_eq d lo (hfree.mono fun p hp => ?_) hleft i hlo hlt
      simp only [pairs, List.cons_append, List.mem_cons, List.mem_append] at hp ⊢
      tauto
    · refine leaf_eq_of_root_eq d (lo + 2 ^ d) (hfree.mono fun p hp => ?_) hright i hge (by omega)
      simp only [pairs, List.cons_append, List.mem_cons, List.mem_append] at hp ⊢
      tauto

end Merkle
