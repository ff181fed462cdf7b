import Mathlib.Data.List.Sort

/-!
# Sorted sets of a store

Distinct members with a score each, in the order of the scores. Adding a member that is there only
changes its score. The order of members with equal scores is left to the insertion.
-/

/-- A sorted set with natural numbers as scores. -/
structure SortedSet (μ : Type*) where
  entries : List (ℕ × μ)
  sorted : entries.Pairwise fun e e' => e.1 ≤ e'.1
  nodup : (entries.map Prod.snd).Nodup

namespace SortedSet

variable {μ : Type*}

/-- The order of the entries. -/
def ScoreLe (e e' : ℕ × μ) : Prop := e.1 ≤ e'.1

instance : DecidableRel (ScoreLe (μ := μ)) := fun e e' => Nat.decLe e.1 e'.1

instance : Std.Total (ScoreLe (μ := μ)) := ⟨fun e e' => Nat.le_total e.1 e'.1⟩

instance : IsTrans (ℕ × μ) ScoreLe := ⟨fun _ _ _ => Nat.le_trans⟩

def empty : SortedSet μ where
  entries := []
  sorted := List.Pairwise.nil
  nodup := List.nodup_nil

def members (s : SortedSet μ) : List μ := s.entries.map Prod.snd

/-- `ZRANGEBYSCORE`: the members with a score from `lo` to `hi`, both included. -/
def zrangebyscore (s : SortedSet μ) (lo hi : ℕ) : List μ :=
  (s.entries.filter fun e => lo ≤ e.1 ∧ e.1 ≤ hi).map Prod.snd

@[simp] theorem members_empty : (empty : SortedSet μ).members = [] := rfl

theorem nodup_members (s : SortedSet μ) : s.members.Nodup := s.nodup

theorem mem_members {s : SortedSet μ} {m : μ} : m ∈ s.members ↔ ∃ score, (score, m) ∈ s.entries := by
  simp [members]

theorem mem_zrangebyscore {s : SortedSet μ} {lo hi : ℕ} {m : μ} :
    m ∈ s.zrangebyscore lo hi ↔ ∃ score, (score, m) ∈ s.entries ∧ lo ≤ score ∧ score ≤ hi := by
  simp [zrangebyscore]

/-- Members that are determined by their score are returned in strict order. -/
theorem pairwise_zrangebyscore {s : SortedSet μ} {f : μ → ℕ} (hf : Function.Injective f)
    (hscore : ∀ e ∈ s.entries, e.1 = f e.2) (lo hi : ℕ) :
    (s.zrangebyscore lo hi).Pairwise fun m m' => f m < f m' := by
  rw [zrangebyscore, List.pairwise_map]
  refine List.Pairwise.filter _ ?_
  refine (s.sorted.and (List.pairwise_map.mp s.nodup)).imp_of_mem fun {e e'} he he' h => ?_
  rw [hscore e he, hscore e' he'] at h
  exact lt_of_le_of_ne h.1 fun heq => h.2 (hf heq)

/-- The members under another name. -/
def map {ν : Type*} (f : μ → ν) (hf : Function.Injective f) (s : SortedSet μ) : SortedSet ν where
  entries := s.entries.map fun e => (e.1, f e.2)
  sorted := List.pairwise_map.mpr s.sorted
  nodup := by
    have hnodup := s.nodup.map hf
    rwa [List.map_map] at hnodup ⊢

theorem zrangebyscore_map {ν : Type*} (f : μ → ν) (hf : Function.Injective f) (s : SortedSet μ)
    (lo hi : ℕ) : (s.map f hf).zrangebyscore lo hi = (s.zrangebyscore lo hi).map f := by
  rw [zrangebyscore, zrangebyscore, map, List.filter_map, List.map_map, List.map_map]
  rfl

variable [DecidableEq μ]

/-- `ZADD` of one member. -/
def zadd (s : SortedSet μ) (score : ℕ) (m : μ) : SortedSet μ where
  entries := (s.entries.filter fun e => e.2 ≠ m).orderedInsert ScoreLe (score, m)
  sorted := (s.sorted.filter _).orderedInsert (score, m) _
  nodup := by
    have hperm := (List.perm_orderedInsert ScoreLe (score, m)
      (s.entries.filter fun e => e.2 ≠ m)).map Prod.snd
    refine hperm.nodup_iff.mpr (List.nodup_cons.mpr ⟨fun hmem => ?_, ?_⟩)
    · obtain ⟨e, he, hm⟩ := List.mem_map.mp hmem
      exact of_decide_eq_true (List.mem_filter.mp he).2 hm
    · exact s.nodup.sublist (List.filter_sublist.map _)

/-- A member has the new score, or is another one with its old score. -/
theorem mem_entries_zadd {s : SortedSet μ} {score : ℕ} {m : μ} {e : ℕ × μ} :
    e ∈ (s.zadd score m).entries ↔ e = (score, m) ∨ e ∈ s.entries ∧ e.2 ≠ m := by
  rw [zadd, List.mem_orderedInsert, List.mem_filter, decide_eq_true_iff]

theorem mem_members_zadd {s : SortedSet μ} {score : ℕ} {m x : μ} :
    x ∈ (s.zadd score m).members ↔ x = m ∨ x ∈ s.members := by
  simp only [mem_members, mem_entries_zadd, Prod.mk.injEq]
  constructor
  · rintro ⟨score', ⟨-, rfl⟩ | ⟨hmem, -⟩⟩
    · exact Or.inl rfl
    · exact Or.inr ⟨score', hmem⟩
  · rintro (rfl | ⟨score', hmem⟩)
    · exact ⟨score, Or.inl ⟨rfl, rfl⟩⟩
    · by_cases hx : x = m
      · exact ⟨score, Or.inl ⟨rfl, hx⟩⟩
      · exact ⟨score', Or.inr ⟨hmem, hx⟩⟩

/-- There is at least the member that was added. -/
theorem entries_zadd_ne_nil (s : SortedSet μ) (score : ℕ) (m : μ) : (s.zadd score m).entries ≠ [] :=
  List.ne_nil_of_mem (mem_entries_zadd.mpr (Or.inl rfl))

/-- A member can be renamed before or after it is added. -/
theorem map_zadd {ν : Type*} [DecidableEq ν] (f : μ → ν) (hf : Function.Injective f) (s : SortedSet μ)
    (score : ℕ) (m : μ) : (s.zadd score m).map f hf = (s.map f hf).zadd score (f m) := by
  have hfilter : (s.entries.map fun e => (e.1, f e.2)).filter (fun e => decide (e.2 ≠ f m)) =
      (s.entries.filter fun e => decide (e.2 ≠ m)).map fun e => (e.1, f e.2) := by
    rw [List.filter_map]
    simp only [Function.comp_def, hf.ne_iff]
  have hentries : ((s.zadd score m).map f hf).entries = ((s.map f hf).zadd score (f m)).entries := by
    change ((s.entries.filter fun e => decide (e.2 ≠ m)).orderedInsert ScoreLe (score, m)).map
      (fun e => (e.1, f e.2)) = ((s.entries.map fun e => (e.1, f e.2)).filter
        fun e => decide (e.2 ≠ f m)).orderedInsert ScoreLe (score, f m)
    rw [hfilter]
    exact List.map_orderedInsert ScoreLe ScoreLe _ _ _ (fun _ _ => Iff.rfl) fun _ _ => Iff.rfl
  generalize (s.zadd score m).map f hf = a at hentries
  generalize (s.map f hf).zadd score (f m) = b at hentries
  cases a
  cases b
  simp only at hentries
  subst hentries
  rfl

end SortedSet
