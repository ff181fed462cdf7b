import VectorX.Common.Bytes

/-!
# Layered reduction of a list in adjacent pairs

`reduceLayer` combines neighbours and `reduceTree` repeats it until one value is left; the
combining function may fail. The rules below transport an invariant `Inv lo width a`, read as
"`a` summarises the positions from `lo` up to `lo + width`", from the leaves to the root.
`Merkle` is the special case of a total combining function.
-/

namespace TreeReduce

variable {α : Type*}

/-- Combine each pair of neighbours; an unpaired last element is dropped. -/
def reduceLayer (f : α → α → Option α) : List α → Option (List α)
  | a :: b :: l => do
    let c ← f a b
    let cs ← reduceLayer f l
    some (c :: cs)
  | _ => some []

/-- Repeat `reduceLayer`, at most `fuel` times, while more than one element is left. -/
def reduceLayers (f : α → α → Option α) : ℕ → List α → Option (List α)
  | 0, l => some l
  | fuel + 1, l =>
    if 1 < l.length then (reduceLayer f l).bind (reduceLayers f fuel) else some l

/-- Reduce a list to the value of its root. -/
def reduceTree (f : α → α → Option α) (l : List α) : Option α :=
  (reduceLayers f l.length l).bind List.head?

/-! ## The invariant rule -/

/-- Element `i` of `l` summarises the `i`-th block of `width` positions from `lo` on. -/
def Covers (Inv : ℕ → ℕ → α → Prop) (width : ℕ) : ℕ → List α → Prop
  | _, [] => True
  | lo, a :: l => Inv lo width a ∧ Covers Inv width (lo + width) l

/-- A list built by a function on positions covers them. -/
theorem covers_map_range {Inv : ℕ → ℕ → α → Prop} {width : ℕ} {g : ℕ → α}
    (n lo : ℕ) (h : ∀ i, i < n → Inv (lo + i * width) width (g i)) :
    Covers Inv width lo ((List.range n).map g) := by
  induction n generalizing lo g with
  | zero => trivial
  | succ n ih =>
    rw [List.range_succ_eq_map, List.map_cons, List.map_map]
    refine ⟨by simpa using h 0 (by omega), ih (g := g ∘ Nat.succ) (lo + width) fun i hi => ?_⟩
    have hstep := h (i + 1) (by omega)
    have hpos : lo + (i + 1) * width = lo + width + i * width := by ring
    rwa [hpos] at hstep

/-- The outputs of one job per block cover the positions if every output summarises its block. -/
theorem covers_mapM_range {Inv : ℕ → ℕ → α → Prop} {width : ℕ} {job : ℕ → Option α}
    {l : List α} (n lo first : ℕ)
    (h : ∀ i a, i < n → job (first + i) = some a → Inv (lo + i * width) width a)
    (hl : (List.range' first n).mapM job = some l) : Covers Inv width lo l ∧ l.length = n := by
  induction n generalizing lo first l with
  | zero =>
    obtain rfl : [] = l := by simpa using hl
    exact ⟨trivial, rfl⟩
  | succ n ih =>
    simp only [List.range'_succ, List.mapM_cons, Option.bind_eq_bind, Option.bind_eq_some_iff]
      at hl
    obtain ⟨a, ha, as, has, hl⟩ := hl
    obtain rfl : a :: as = l := by simpa using hl
    have hstep : ∀ i b, i < n → job (first + 1 + i) = some b →
        Inv (lo + width + i * width) width b := by
      intro i b hi hb
      have hpos : lo + (i + 1) * width = lo + width + i * width := by ring
      have hjob : first + (i + 1) = first + 1 + i := by ring
      exact hpos ▸ h (i + 1) b (by omega) (hjob ▸ hb)
    obtain ⟨hcov, hlen⟩ := ih (lo + width) (first + 1) hstep has
    exact ⟨⟨by simpa using h 0 a (by omega) ha, hcov⟩, by simp [hlen]⟩

/-- The jobs have outputs if each of them has one. -/
theorem mapM_isSome {ι : Type*} {job : ι → Option α} (l : List ι)
    (h : ∀ i ∈ l, ∃ a, job i = some a) : ∃ as, l.mapM job = some as := by
  induction l with
  | nil => exact ⟨[], rfl⟩
  | cons i l ih =>
    obtain ⟨a, ha⟩ := h i (by simp)
    obtain ⟨as, has⟩ := ih fun j hj => h j (by simp [hj])
    exact ⟨a :: as, by simp [List.mapM_cons, ha, has]⟩

/-- The outputs of the jobs, given as a function. -/
theorem mapM_eq_some_map {ι : Type*} {job : ι → Option α} {g : ι → α} (l : List ι) :
    l.mapM job = some (l.map g) ↔ ∀ i ∈ l, job i = some (g i) := by
  induction l with
  | nil => simp
  | cons i l ih =>
    simp only [List.mapM_cons, Option.bind_eq_bind, Option.bind_eq_some_iff, Option.pure_def,
      Option.some.injEq, List.map_cons, List.cons.injEq, List.forall_mem_cons]
    constructor
    · rintro ⟨x, hx, xs, hxs, rfl, rfl⟩
      exact ⟨hx, ih.mp hxs⟩
    · rintro ⟨hx, hxs⟩
      exact ⟨g i, hx, l.map g, ih.mpr hxs, rfl, rfl⟩

/-- If the jobs have outputs then each of them has one. -/
theorem exists_of_mapM {ι : Type*} {job : ι → Option α} :
    ∀ {l : List ι} {as : List α}, l.mapM job = some as → ∀ i ∈ l, ∃ a, job i = some a
  | [], _, _, i, hi => absurd hi (by simp)
  | j :: l, as, h, i, hi => by
    simp only [List.mapM_cons, Option.bind_eq_bind, Option.bind_eq_some_iff] at h
    obtain ⟨a, ha, as', has, -⟩ := h
    rcases List.mem_cons.mp hi with rfl | hi
    · exact ⟨a, ha⟩
    · exact exists_of_mapM has i hi

/-- The outputs come in the order of the jobs. -/
theorem getElem?_of_mapM {ι : Type*} {job : ι → Option α} :
    ∀ {l : List ι} {as : List α}, l.mapM job = some as →
      as.length = l.length ∧ ∀ t : ℕ, as[t]? = l[t]?.bind job
  | [], as, h => by
    obtain rfl : [] = as := by simpa using h
    exact ⟨rfl, fun _ => rfl⟩
  | i :: l, as, h => by
    simp only [List.mapM_cons, Option.bind_eq_bind, Option.bind_eq_some_iff] at h
    obtain ⟨a, ha, as', has, h⟩ := h
    obtain rfl : a :: as' = as := by simpa using h
    obtain ⟨hlen, hget⟩ := getElem?_of_mapM has
    refine ⟨by rw [List.length_cons, hlen, List.length_cons], fun t => ?_⟩
    cases t with
    | zero => exact ha.symm
    | succ t => exact hget t

/-- One job for each element of a list, given by its index. -/
theorem mapM_range_eq_some_map {β : Type*} {l : List β} {job : ℕ → Option α} {g : β → α}
    (h : ∀ (t : ℕ) (a : β), l[t]? = some a → job t = some (g a)) :
    (List.range l.length).mapM job = some (l.map g) := by
  have hjob : ∀ t ∈ List.range l.length, ∃ a, job t = some a := fun t ht =>
    ⟨_, h t _ (List.getElem?_eq_getElem (List.mem_range.mp ht))⟩
  obtain ⟨as, has⟩ := mapM_isSome _ hjob
  obtain ⟨hlen, hget⟩ := getElem?_of_mapM has
  rw [List.length_range] at hlen
  rw [has]
  refine congrArg some (List.ext_getElem? fun t => ?_)
  rw [List.getElem?_map, hget]
  by_cases ht : t < l.length
  · have ha := List.getElem?_eq_getElem ht
    rw [List.getElem?_range ht, Option.bind_some, h t _ ha, ha, Option.map_some]
  · rw [List.getElem?_eq_none (Nat.not_lt.mp ht), List.getElem?_eq_none (by simpa using ht)]
    rfl

section Rule

variable {Inv : ℕ → ℕ → α → Prop} {f : α → α → Option α}

/-- One layer keeps the invariant and doubles the width of the blocks. -/
theorem reduceLayer_covers {width : ℕ}
    (hf : ∀ lo a b c, Inv lo width a → Inv (lo + width) width b → f a b = some c →
      Inv lo (width + width) c) :
    ∀ (m lo : ℕ) (l l' : List α), l.length = 2 * m → Covers Inv width lo l →
      reduceLayer f l = some l' → Covers Inv (width + width) lo l' ∧ l'.length = m
  | 0, lo, l, l', hlen, _, h => by
    have hnil : l = [] := List.eq_nil_of_length_eq_zero (by omega)
    subst hnil
    obtain rfl : [] = l' := by simpa [reduceLayer] using h
    exact ⟨trivial, rfl⟩
  | m + 1, lo, a :: b :: l, l', hlen, hcov, h => by
    obtain ⟨ha, hb, hl⟩ := hcov
    simp only [reduceLayer, Option.bind_eq_bind, Option.bind_eq_some_iff] at h
    obtain ⟨c, hc, cs, hcs, h⟩ := h
    obtain rfl : c :: cs = l' := by simpa using h
    simp only [List.length_cons] at hlen
    have hpos : lo + width + width = lo + (width + width) := by ring
    rw [hpos] at hl
    obtain ⟨hcov', hlen'⟩ := reduceLayer_covers hf m (lo + (width + width)) l cs (by omega) hl hcs
    exact ⟨⟨hf lo a b c ha hb hc, hcov'⟩, by simp [hlen']⟩
  | m + 1, _, [], _, hlen, _, _ => by simp at hlen
  | m + 1, _, [_], _, hlen, _, _ => by simp at hlen; omega

/-- The layers of a reduction of `2 ^ d` blocks end in one value that summarises all of them. -/
theorem reduceLayers_covers
    (hf : ∀ lo width a b c, Inv lo width a → Inv (lo + width) width b → f a b = some c →
      Inv lo (width + width) c) :
    ∀ (d fuel width lo : ℕ) (l l' : List α), d ≤ fuel → l.length = 2 ^ d →
      Covers Inv width lo l → reduceLayers f fuel l = some l' →
      ∃ r, l' = [r] ∧ Inv lo (2 ^ d * width) r
  | 0, fuel, width, lo, l, l', _, hlen, hcov, h => by
    obtain ⟨a, rfl⟩ := List.length_eq_one_iff.mp (by simpa using hlen)
    have hl' : [a] = l' := by cases fuel <;> simpa [reduceLayers] using h
    exact ⟨a, hl'.symm, by simpa using hcov.1⟩
  | d + 1, 0, _, _, _, _, hfuel, _, _, _ => by omega
  | d + 1, fuel + 1, width, lo, l, l', hfuel, hlen, hcov, h => by
    have hpos : 0 < 2 ^ d := Nat.two_pow_pos d
    have hgt : 1 < l.length := by rw [hlen, pow_succ]; omega
    rw [reduceLayers, if_pos hgt, Option.bind_eq_some_iff] at h
    obtain ⟨l₁, hlayer, h⟩ := h
    obtain ⟨hcov₁, hlen₁⟩ := reduceLayer_covers (hf · width) (2 ^ d) lo l l₁
      (by rw [hlen, pow_succ]; omega) hcov hlayer
    obtain ⟨r, hr, hinv⟩ := reduceLayers_covers hf d fuel (width + width) lo l₁ l' (by omega)
      hlen₁ hcov₁ h
    have hwidth : 2 ^ (d + 1) * width = 2 ^ d * (width + width) := by rw [pow_succ]; ring
    exact ⟨r, hr, hwidth ▸ hinv⟩

/-- **Invariant rule.** If the combining function preserves a summary invariant, the root of a
reduction of `2 ^ d` blocks of `width` positions summarises all `2 ^ d * width` of them. -/
theorem reduceTree_inv {d width lo : ℕ} {l : List α} {r : α}
    (hf : ∀ lo width a b c, Inv lo width a → Inv (lo + width) width b → f a b = some c →
      Inv lo (width + width) c)
    (hlen : l.length = 2 ^ d) (hcov : Covers Inv width lo l) (h : reduceTree f l = some r) :
    Inv lo (2 ^ d * width) r := by
  rw [reduceTree, Option.bind_eq_some_iff] at h
  obtain ⟨l', hl', hr⟩ := h
  have hfuel : d ≤ l.length := by rw [hlen]; exact Nat.lt_two_pow_self.le
  obtain ⟨r', rfl, hinv⟩ := reduceLayers_covers hf d l.length width lo l l' hfuel hlen hcov hl'
  obtain rfl : r' = r := by simpa using hr
  exact hinv

/-! ## The totality rule -/

/-- A layer succeeds when the combining function succeeds on neighbouring summaries. -/
theorem reduceLayer_isSome {width : ℕ}
    (hf : ∀ lo a b, Inv lo width a → Inv (lo + width) width b → ∃ c, f a b = some c) :
    ∀ (l : List α) (lo : ℕ), Covers Inv width lo l → ∃ l', reduceLayer f l = some l'
  | [], _, _ => ⟨[], rfl⟩
  | [_], _, _ => ⟨[], rfl⟩
  | a :: b :: l, lo, hcov => by
    obtain ⟨ha, hb, hl⟩ := hcov
    obtain ⟨c, hc⟩ := hf lo a b ha hb
    obtain ⟨cs, hcs⟩ := reduceLayer_isSome hf l (lo + width + width) hl
    exact ⟨c :: cs, by simp [reduceLayer, hc, hcs]⟩

/-- The layers succeed when the combining function succeeds on neighbouring summaries and
preserves the summary invariant. -/
theorem reduceLayers_isSome
    (hf : ∀ lo width a b c, Inv lo width a → Inv (lo + width) width b → f a b = some c →
      Inv lo (width + width) c)
    (hsome : ∀ lo width a b, Inv lo width a → Inv (lo + width) width b → ∃ c, f a b = some c) :
    ∀ (d fuel width lo : ℕ) (l : List α), l.length = 2 ^ d → Covers Inv width lo l →
      ∃ l', reduceLayers f fuel l = some l'
  | _, 0, _, _, l, _, _ => ⟨l, rfl⟩
  | 0, fuel + 1, _, _, l, hlen, _ => ⟨l, by rw [reduceLayers, if_neg (by simp [hlen])]⟩
  | d + 1, fuel + 1, width, lo, l, hlen, hcov => by
    have hpos : 0 < 2 ^ d := Nat.two_pow_pos d
    have hgt : 1 < l.length := by rw [hlen, pow_succ]; omega
    obtain ⟨l₁, hlayer⟩ := reduceLayer_isSome (hsome · width) l lo hcov
    obtain ⟨hcov₁, hlen₁⟩ := reduceLayer_covers (hf · width) (2 ^ d) lo l l₁
      (by rw [hlen, pow_succ]; omega) hcov hlayer
    obtain ⟨l', hl'⟩ := reduceLayers_isSome hf hsome d fuel (width + width) lo l₁ hlen₁ hcov₁
    exact ⟨l', by rw [reduceLayers, if_pos hgt, hlayer, Option.bind_some, hl']⟩

/-- **Totality rule.** A reduction of `2 ^ d` blocks succeeds when the combining function preserves
a summary invariant and succeeds on every pair of neighbouring summaries. -/
theorem reduceTree_isSome {d width lo : ℕ} {l : List α}
    (hf : ∀ lo width a b c, Inv lo width a → Inv (lo + width) width b → f a b = some c →
      Inv lo (width + width) c)
    (hsome : ∀ lo width a b, Inv lo width a → Inv (lo + width) width b → ∃ c, f a b = some c)
    (hlen : l.length = 2 ^ d) (hcov : Covers Inv width lo l) :
    ∃ r, reduceTree f l = some r := by
  obtain ⟨l', hl'⟩ := reduceLayers_isSome hf hsome d l.length width lo l hlen hcov
  have hfuel : d ≤ l.length := by rw [hlen]; exact Nat.lt_two_pow_self.le
  obtain ⟨r, rfl, -⟩ := reduceLayers_covers hf d l.length width lo l l' hfuel hlen hcov hl'
  exact ⟨r, by rw [reduceTree, hl', Option.bind_some, List.head?_cons]⟩

end Rule

end TreeReduce
