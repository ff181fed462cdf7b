import VectorX.Common.Bytes
import Mathlib.Data.List.Induction
import Mathlib.Data.List.Nodup

/-!
# Chained hash commitments

A chained commitment to a non-empty list hashes the first element alone and every further element
together with the digest so far. If no two of the messages that are hashed collide, the commitment
determines the list: its length as well as its elements and their order.
-/

namespace HashChain

variable {μ δ κ : Type*}

/-- No two of the given messages have the same digest. -/
def CollisionFree (hash : μ → δ) (msgs : List μ) : Prop :=
  ∀ m ∈ msgs, ∀ m' ∈ msgs, hash m = hash m' → m = m'

/-- Fewer messages collide less. -/
theorem CollisionFree.mono {hash : μ → δ} {msgs msgs' : List μ} (h : CollisionFree hash msgs)
    (hsub : ∀ m ∈ msgs', m ∈ msgs) : CollisionFree hash msgs' :=
  fun m hm m' hm' => h m (hsub m hm) m' (hsub m' hm')

/-- One message does not collide. -/
theorem collisionFree_singleton (hash : μ → δ) (m : μ) : CollisionFree hash [m] := by
  intro a ha b hb _
  rw [List.mem_singleton.mp ha, List.mem_singleton.mp hb]

/-- Two messages with different digests. -/
theorem collisionFree_pair {hash : μ → δ} {m m' : μ} (h : hash m ≠ hash m') :
    CollisionFree hash [m, m'] := by
  intro a ha b hb heq
  rcases List.mem_pair.mp ha with rfl | rfl <;> rcases List.mem_pair.mp hb with rfl | rfl
  · rfl
  · exact absurd heq h
  · exact absurd heq.symm h
  · rfl

/-- Messages with different digests. -/
theorem collisionFree_of_nodup {hash : μ → δ} {msgs : List μ} (h : (msgs.map hash).Nodup) :
    CollisionFree hash msgs :=
  fun _ hm _ hm' heq => List.inj_on_of_nodup_map h hm hm' heq

section Chain

variable (hash : μ → δ) (first : κ → μ) (next : δ → κ → μ)

/-- The chained commitment to `k :: ks`. -/
def chain (k : κ) (ks : List κ) : δ :=
  ks.foldl (fun acc x => hash (next acc x)) (hash (first k))

/-- The messages that are hashed to extend a chain from the digest `acc`. -/
def messagesFrom (acc : δ) : List κ → List μ
  | [] => []
  | x :: xs => next acc x :: messagesFrom (hash (next acc x)) xs

/-- The messages that are hashed for the commitment to `k :: ks`. -/
def messages (k : κ) (ks : List κ) : List μ :=
  first k :: messagesFrom hash next (hash (first k)) ks

theorem chain_concat (k : κ) (ks : List κ) (x : κ) :
    chain hash first next k (ks ++ [x]) = hash (next (chain hash first next k ks) x) := by
  simp [chain, List.foldl_append]

theorem messagesFrom_concat (acc : δ) (ks : List κ) (x : κ) :
    messagesFrom hash next acc (ks ++ [x]) =
      messagesFrom hash next acc ks ++
        [next (ks.foldl (fun acc x => hash (next acc x)) acc) x] := by
  induction ks generalizing acc with
  | nil => rfl
  | cons y ys ih => simp [messagesFrom, ih]

theorem messages_concat (k : κ) (ks : List κ) (x : κ) :
    messages hash first next k (ks ++ [x]) =
      messages hash first next k ks ++ [next (chain hash first next k ks) x] := by
  simp [messages, messagesFrom_concat, chain]

/-- The message that is hashed last. -/
def lastMessage (k : κ) (ks : List κ) : μ :=
  match ks.getLast? with
  | none => first k
  | some x => next (chain hash first next k ks.dropLast) x

theorem chain_eq_hash_lastMessage (k : κ) (ks : List κ) :
    chain hash first next k ks = hash (lastMessage hash first next k ks) := by
  induction ks using List.reverseRecOn with
  | nil => rfl
  | append_singleton ks x => simp [lastMessage, chain_concat]

theorem lastMessage_mem (k : κ) (ks : List κ) :
    lastMessage hash first next k ks ∈ messages hash first next k ks := by
  induction ks using List.reverseRecOn with
  | nil => simp [lastMessage, messages]
  | append_singleton ks x => simp [lastMessage, messages_concat]

variable {hash first next}

/-- Equal commitments whose messages do not collide hash the same message last. -/
theorem lastMessage_eq_of_chain_eq {k k' : κ} {ks ks' : List κ}
    (hfree : CollisionFree hash
      (messages hash first next k ks ++ messages hash first next k' ks'))
    (heq : chain hash first next k ks = chain hash first next k' ks') :
    lastMessage hash first next k ks = lastMessage hash first next k' ks' := by
  refine hfree _ ?_ _ ?_ ?_
  · exact List.mem_append_left _ (lastMessage_mem hash first next k ks)
  · exact List.mem_append_right _ (lastMessage_mem hash first next k' ks')
  · rwa [← chain_eq_hash_lastMessage hash first next, ← chain_eq_hash_lastMessage hash first next]

/-- **Binding.** Two chained commitments whose messages do not collide agree only if the lists
do. -/
theorem chain_injective (hfirst : Function.Injective first)
    (hnext : ∀ acc x acc' x', next acc x = next acc' x' → acc = acc' ∧ x = x')
    (hne : ∀ k acc x, first k ≠ next acc x) {k k' : κ} {ks ks' : List κ}
    (hfree : CollisionFree hash
      (messages hash first next k ks ++ messages hash first next k' ks'))
    (heq : chain hash first next k ks = chain hash first next k' ks') :
    k = k' ∧ ks = ks' := by
  -- both lists are peeled from the end, where the message hashed last is the same
  induction ks using List.reverseRecOn generalizing ks' with
  | nil =>
    have hlast := lastMessage_eq_of_chain_eq hfree heq
    cases ks' using List.reverseRecOn with
    | nil => exact ⟨hfirst (by simpa [lastMessage] using hlast), rfl⟩
    | append_singleton ks' x' => exact absurd (by simpa [lastMessage] using hlast) (hne k _ x')
  | append_singleton ks x ih =>
    have hlast := lastMessage_eq_of_chain_eq hfree heq
    cases ks' using List.reverseRecOn with
    | nil => exact absurd (by simpa [lastMessage, eq_comm] using hlast) (hne k' _ x)
    | append_singleton ks' x' =>
      have hmsg : next (chain hash first next k ks) x = next (chain hash first next k' ks') x' := by
        simpa [lastMessage] using hlast
      obtain ⟨hchain, rfl⟩ := hnext _ _ _ _ hmsg
      have hfree' : CollisionFree hash
          (messages hash first next k ks ++ messages hash first next k' ks') := by
        refine hfree.mono fun m hm => ?_
        rw [messages_concat, messages_concat]
        rcases List.mem_append.mp hm with hm | hm <;> simp [hm]
      obtain ⟨hk, hks⟩ := ih hfree' hchain
      exact ⟨hk, by rw [hks]⟩

end Chain

end HashChain
