import VectorX.Bin.IndexerAcceptance
import VectorX.Bin.OperatorRun
import VectorX.Common.Journal
import VectorX.Common.SortedSet

/-!
# The store of justifications

Reference: `RedisClient` of `circuits/input/mod.rs` and `bin/indexer.rs`. A justification is added
in two writes, the record first and its block number second, so that a block that is listed always
has a record, also if indexers run side by side and stop between the writes.
-/

namespace VectorX

open Plonky2x
open Journal (Processes Turn turn Allowed)

variable {crypto : Crypto}

/-! ## The store -/

section Store

/-- The records by block number, and the sorted set of their block numbers. -/
structure JustificationStore where
  records : UInt32 → Option StoredJustificationData
  blocks : SortedSet UInt32

inductive StoreWrite
  | jsonSet (justification : StoredJustificationData)
  | zadd (blockNumber : UInt32)

def JustificationStore.empty : JustificationStore where
  records _ := none
  blocks := SortedSet.empty

def JustificationStore.write (store : JustificationStore) : StoreWrite → JustificationStore
  | .jsonSet justification =>
    { store with
      records := Function.update store.records justification.blockNumber (some justification) }
  | .zadd blockNumber => { store with blocks := store.blocks.zadd blockNumber.toNat blockNumber }

/-- `add_justification`. -/
def addJustification (justification : StoredJustificationData) : List StoreWrite :=
  [.jsonSet justification, .zadd justification.blockNumber]

/-- `get_justification`. -/
def JustificationStore.getJustification (store : JustificationStore) (blockNumber : UInt32) :
    Option StoredJustificationData :=
  store.records blockNumber

/-- `get_blocks_in_range`. -/
def JustificationStore.getBlocksInRange (store : JustificationStore) (start stop : UInt32) :
    List UInt32 :=
  store.blocks.zrangebyscore start.toNat stop.toNat

end Store

/-! ## Indexers -/

section Indexers

variable (chain : EpochChain crypto) (DUMMY_SIGNATURE : BytesVariable 64)

/-- An indexer receives a justification when its node is at `head`, performs its next write, or
stops. -/
inductive IndexerTurn
  | listen (p : ℕ) (head : UInt32) (justification : GrandpaJustification)
  | write (p : ℕ)
  | stop (p : ℕ)

/-- A panic stops the indexer, and a justification with too few signatures is skipped. -/
def IndexerTurn.toTurn : IndexerTurn → Turn StoreWrite
  | .listen p head justification =>
    if h : head.toNat ≤ chain.toSetIds.head.toNat then
      match listenForJustification (chain.upTo head h) DUMMY_SIGNATURE justification with
      | some (some stored) => .start p (addJustification stored)
      | some none => .start p []
      | none => .stop p
    else .start p []
  | .write p => .write p
  | .stop p => .stop p

/-- The store and the indexers after some turns. -/
def indexersAfter (turns : List IndexerTurn) : Processes JustificationStore StoreWrite :=
  (turns.map (IndexerTurn.toTurn chain DUMMY_SIGNATURE)).foldl (turn JustificationStore.write)
    { store := .empty, pending := fun _ => [] }

/-- The justifications that are received. -/
def receivedJustifications (turns : List IndexerTurn) : List GrandpaJustification :=
  turns.filterMap fun
    | .listen _ _ justification => some justification
    | _ => none

end Indexers

/-! ## A longer chain -/

section Longer

variable {chain : EpochChain crypto} {DUMMY_SIGNATURE : BytesVariable 64} {head : UInt32}
  {justification : GrandpaJustification} {stored : StoredJustificationData}

/-- A block that is found is also found when the chain is longer. -/
theorem getBlockByHash_upTo {h : head.toNat ≤ chain.toSetIds.head.toNat} {hash : Bytes32Variable}
    {block : ℕ} (hblock : getBlockByHash (chain.upTo head h) hash = some block) :
    getBlockByHash chain hash = some block := by
  have hrange : List.range (chain.toSetIds.head.toNat + 1) =
      List.range (head.toNat + 1) ++
        (List.range (chain.toSetIds.head.toNat - head.toNat)).map (head.toNat + 1 + ·) := by
    rw [← List.range_add]
    congr 1
    omega
  rw [getBlockByHash]
  refine Eq.trans (congrArg (List.find? _) hrange) ?_
  rw [List.find?_append]
  have hfound : (List.range (head.toNat + 1)).find?
      (fun n => (chain.header n).hash crypto = hash) = some block := hblock
  rw [hfound]
  rfl

/-- The record for a justification does not depend on the head. -/
theorem listenForJustification_upTo {h : head.toNat ≤ chain.toSetIds.head.toNat}
    (hstored : listenForJustification (chain.upTo head h) DUMMY_SIGNATURE justification =
      some (some stored)) :
    listenForJustification chain DUMMY_SIGNATURE justification = some (some stored) := by
  have hauthorities : ∀ (n : UInt32) (l : List Bytes32Variable),
      getAuthorities (chain.upTo head h) n = some l → getAuthorities chain n = some l := by
    intro n l hl
    rw [getAuthorities] at hl ⊢
    split at hl
    · rename_i hn
      rw [if_pos ⟨UInt32.le_trans hn.1 (UInt32.le_iff_toNat_le.mpr h), hn.2⟩]
      exact hl
    · exact absurd hl (by simp)
  simp only [listenForJustification, Option.bind_eq_bind, Option.bind_eq_some_iff] at hstored ⊢
  obtain ⟨block, hblock, hstored⟩ := hstored
  refine ⟨block, getBlockByHash_upTo hblock, ?_⟩
  split at hstored
  · exact absurd hstored (by simp)
  rename_i hhash
  simp only [Option.bind_eq_some_iff] at hstored
  obtain ⟨first, hfirst, prev, hprev, authorities, hauthority, hstored⟩ := hstored
  refine (if_neg hhash).trans (Option.bind_eq_some_iff.mpr ⟨first, hfirst,
    Option.bind_eq_some_iff.mpr ⟨prev, hprev, Option.bind_eq_some_iff.mpr ⟨authorities,
      hauthorities prev authorities hauthority, hstored⟩⟩⟩)

end Longer

/-! ## Main result -/

section Main

variable {chain : EpochChain crypto} {DUMMY_SIGNATURE : BytesVariable 64}
  {received : List GrandpaJustification}

variable (chain DUMMY_SIGNATURE received) in
/-- The record is the one of a justification that is received. -/
def IsIndexedRecord (stored : StoredJustificationData) : Prop :=
  ∃ justification ∈ received,
    listenForJustification chain DUMMY_SIGNATURE justification = some (some stored)

variable (chain DUMMY_SIGNATURE received) in
/-- A record is written for a received justification, and a block is listed when it has a record. -/
def RecordWriteOk (store : JustificationStore) : StoreWrite → Prop
  | .jsonSet stored => IsIndexedRecord chain DUMMY_SIGNATURE received stored
  | .zadd blockNumber => (store.records blockNumber).isSome

variable (chain DUMMY_SIGNATURE received) in
/-- The invariant of the store. -/
structure StoreInv (store : JustificationStore) : Prop where
  records : ∀ n stored, store.records n = some stored →
    stored.blockNumber = n ∧ IsIndexedRecord chain DUMMY_SIGNATURE received stored
  blocks : ∀ e ∈ store.blocks.entries, e.1 = e.2.toNat ∧ (store.records e.2).isSome

/-- The second store has a record where the first one has one, and lists its blocks. -/
structure StoreLe (store store' : JustificationStore) : Prop where
  records : ∀ n, (store.records n).isSome → (store'.records n).isSome
  blocks : ∀ b ∈ store.blocks.members, b ∈ store'.blocks.members

/-- A record stays, or is replaced. -/
theorem isSome_records_write {store : JustificationStore} {n : UInt32} (w : StoreWrite)
    (h : (store.records n).isSome) : ((store.write w).records n).isSome := by
  cases w with
  | jsonSet stored =>
    show (Function.update store.records stored.blockNumber (some stored) n).isSome
    by_cases hn : n = stored.blockNumber
    · rw [hn, Function.update_self]
      rfl
    · rwa [Function.update_of_ne hn]
  | zadd b => exact h

theorem StoreInv.write {store : JustificationStore} {w : StoreWrite}
    (h : StoreInv chain DUMMY_SIGNATURE received store)
    (hw : RecordWriteOk chain DUMMY_SIGNATURE received store w) :
    StoreInv chain DUMMY_SIGNATURE received (store.write w) := by
  refine ⟨fun n r hr => ?_, fun e he => ?_⟩
  · cases w with
    | jsonSet stored =>
      have hupdate : Function.update store.records stored.blockNumber (some stored) n = some r := hr
      by_cases hn : n = stored.blockNumber
      · rw [hn, Function.update_self] at hupdate
        obtain rfl := Option.some.inj hupdate
        exact ⟨hn.symm, hw⟩
      · rw [Function.update_of_ne hn] at hupdate
        exact h.records n r hupdate
    | zadd b => exact h.records n r hr
  · cases w with
    | jsonSet stored =>
      exact ⟨(h.blocks e he).1, isSome_records_write (.jsonSet stored) (h.blocks e he).2⟩
    | zadd b =>
      rcases SortedSet.mem_entries_zadd.mp he with rfl | ⟨hold, -⟩
      · exact ⟨rfl, hw⟩
      · exact h.blocks e hold

theorem storeLe_write (store : JustificationStore) (w : StoreWrite) : StoreLe store (store.write w) := by
  refine ⟨fun n hn => isSome_records_write w hn, fun b hb => ?_⟩
  cases w with
  | jsonSet stored => exact hb
  | zadd b' => exact SortedSet.mem_members_zadd.mpr (Or.inr hb)

theorem StoreLe.write {store store' : JustificationStore} (h : StoreLe store store') (w : StoreWrite) :
    StoreLe (store.write w) (store'.write w) := by
  refine ⟨fun n hn => ?_, fun b hb => ?_⟩
  · cases w with
    | jsonSet stored =>
      have hupdate : (Function.update store.records stored.blockNumber (some stored) n).isSome := hn
      by_cases heq : n = stored.blockNumber
      · show (Function.update store'.records stored.blockNumber (some stored) n).isSome
        rw [heq, Function.update_self]
        rfl
      · rw [Function.update_of_ne heq] at hupdate
        exact isSome_records_write (.jsonSet stored) (h.records n hupdate)
    | zadd b => exact h.records n hn
  · cases w with
    | jsonSet stored => exact h.blocks b hb
    | zadd b' =>
      have hcases := SortedSet.mem_members_zadd.mp hb
      exact SortedSet.mem_members_zadd.mpr (hcases.imp_right (h.blocks b))

/-- What an indexer starts may be written to any store. -/
theorem allowed_addJustification {stored : StoredJustificationData}
    (hstored : IsIndexedRecord chain DUMMY_SIGNATURE received stored) (store : JustificationStore) :
    Allowed JustificationStore.write (RecordWriteOk chain DUMMY_SIGNATURE received) store
      (addJustification stored) := by
  refine ⟨hstored, ?_, trivial⟩
  show (Function.update store.records stored.blockNumber (some stored) stored.blockNumber).isSome
  rw [Function.update_self]
  rfl

/-- What the indexers start is allowed. -/
theorem allowed_of_start {turns : List IndexerTurn} {p : ℕ} {ws : List StoreWrite}
    (hreceived : ∀ justification ∈ receivedJustifications turns, justification ∈ received)
    (hstart : Turn.start p ws ∈ turns.map (IndexerTurn.toTurn chain DUMMY_SIGNATURE))
    (store : JustificationStore) :
    Allowed JustificationStore.write (RecordWriteOk chain DUMMY_SIGNATURE received) store ws := by
  obtain ⟨t, ht, heq⟩ := List.mem_map.mp hstart
  cases t with
  | listen q head justification =>
    have hmem : justification ∈ received :=
      hreceived justification (List.mem_filterMap.mpr ⟨_, ht, rfl⟩)
    rw [IndexerTurn.toTurn] at heq
    split at heq
    · split at heq
      · rename_i stored hstored
        obtain ⟨rfl, rfl⟩ := Turn.start.inj heq
        exact allowed_addJustification
          ⟨justification, hmem, listenForJustification_upTo hstored⟩ store
      · obtain ⟨rfl, rfl⟩ := Turn.start.inj heq
        trivial
      · exact absurd heq (by simp)
    · obtain ⟨rfl, rfl⟩ := Turn.start.inj heq
      trivial
  | write q => exact absurd heq (by simp [IndexerTurn.toTurn])
  | stop q => exact absurd heq (by simp [IndexerTurn.toTurn])

/-- **Run.** The turns of the indexers keep the invariant, and what is listed. -/
theorem storeInv_turns (turns : List IndexerTurn) {ps : Processes JustificationStore StoreWrite}
    (hreceived : ∀ justification ∈ receivedJustifications turns, justification ∈ received)
    (hinit : Journal.TurnInv JustificationStore.write (RecordWriteOk chain DUMMY_SIGNATURE received)
      (StoreInv chain DUMMY_SIGNATURE received) ps) :
    Journal.TurnInv JustificationStore.write (RecordWriteOk chain DUMMY_SIGNATURE received)
        (StoreInv chain DUMMY_SIGNATURE received)
        ((turns.map (IndexerTurn.toTurn chain DUMMY_SIGNATURE)).foldl
          (turn JustificationStore.write) ps) ∧
      StoreLe ps.store ((turns.map (IndexerTurn.toTurn chain DUMMY_SIGNATURE)).foldl
        (turn JustificationStore.write) ps).store := by
  refine Journal.turns_invariant _ (fun _ => ⟨fun _ h => h, fun _ h => h⟩)
    (fun _ _ _ h h' =>
      ⟨fun n hn => h'.records n (h.records n hn), fun b hb => h'.blocks b (h.blocks b hb)⟩)
    ?_ (fun _ _ w h => h.write w) (fun s w _ => storeLe_write s w) (fun _ _ h hw => h.write hw) hinit
    (fun p ws hstart => allowed_of_start hreceived hstart)
  intro s s' w hle hw
  cases w with
  | jsonSet stored => exact hw
  | zadd b => exact hle.records b hw

/-- The blocks of an interval are the listed ones. -/
theorem StoreInv.mem_getBlocksInRange {store : JustificationStore} {start stop b : UInt32}
    (h : StoreInv chain DUMMY_SIGNATURE received store) :
    b ∈ store.getBlocksInRange start stop ↔ b ∈ store.blocks.members ∧ start ≤ b ∧ b ≤ stop := by
  rw [JustificationStore.getBlocksInRange, SortedSet.mem_zrangebyscore, SortedSet.mem_members,
    UInt32.le_iff_toNat_le, UInt32.le_iff_toNat_le]
  constructor
  · rintro ⟨score, hmem, hlo, hhi⟩
    obtain rfl : score = b.toNat := (h.blocks _ hmem).1
    exact ⟨⟨_, hmem⟩, hlo, hhi⟩
  · rintro ⟨⟨score, hmem⟩, hlo, hhi⟩
    obtain rfl : score = b.toNat := (h.blocks _ hmem).1
    exact ⟨_, hmem, hlo, hhi⟩

end Main

/-- **Justification store.** Let any number of indexers take turns, and stop at any time. A block
that is listed in an interval lies in it and stays listed, and its record is always the one of a
justification that an indexer received for it. If the precommits support the target, the circuit
accepts the record. -/
theorem listed_isStored {crypto : Crypto} (chain : EpochChain crypto) (DUMMY_PUBLIC_KEY : Bytes32Variable)
    (DUMMY_SIGNATURE : BytesVariable 64) (turns turns' : List IndexerTurn) (start stop b : UInt32)
    (hb : b ∈ (indexersAfter chain DUMMY_SIGNATURE turns).store.getBlocksInRange start stop) :
    start ≤ b ∧ b ≤ stop ∧
      b ∈ (indexersAfter chain DUMMY_SIGNATURE (turns ++ turns')).store.getBlocksInRange start stop ∧
      ∃ stored, (indexersAfter chain DUMMY_SIGNATURE (turns ++ turns')).store.getJustification b =
          some stored ∧ stored.blockNumber = b ∧
        ∃ justification ∈ receivedJustifications (turns ++ turns'),
          listenForJustification chain DUMMY_SIGNATURE justification = some (some stored) ∧
          (SupportsTarget chain justification →
            AcceptedByCircuit chain DUMMY_PUBLIC_KEY DUMMY_SIGNATURE stored) := by
  have hinit : Journal.TurnInv JustificationStore.write
      (RecordWriteOk chain DUMMY_SIGNATURE (receivedJustifications (turns ++ turns')))
      (StoreInv chain DUMMY_SIGNATURE (receivedJustifications (turns ++ turns')))
      { store := .empty, pending := fun _ => [] } :=
    ⟨⟨fun _ _ h => absurd h (by simp [JustificationStore.empty]), fun _ h => absurd h List.not_mem_nil⟩,
      fun _ => trivial⟩
  have happend : receivedJustifications (turns ++ turns') =
      receivedJustifications turns ++ receivedJustifications turns' := List.filterMap_append
  obtain ⟨hinv, -⟩ := storeInv_turns turns
    (fun j hj => happend ▸ List.mem_append_left _ hj) hinit
  obtain ⟨hinv', hle⟩ := storeInv_turns turns'
    (fun j hj => happend ▸ List.mem_append_right _ hj) hinv
  rw [← List.foldl_append, ← List.map_append] at hinv' hle
  obtain ⟨hmem, hlo, hhi⟩ := hinv.1.mem_getBlocksInRange.mp hb
  have hmem' := hle.blocks b hmem
  refine ⟨hlo, hhi, hinv'.1.mem_getBlocksInRange.mpr ⟨hmem', hlo, hhi⟩, ?_⟩
  obtain ⟨score, hentry⟩ := SortedSet.mem_members.mp hmem'
  obtain ⟨stored, hstored⟩ := Option.isSome_iff_exists.mp (hinv'.1.blocks _ hentry).2
  obtain ⟨hnumber, justification, hreceived, hlisten⟩ := hinv'.1.records b stored hstored
  exact ⟨stored, hstored, hnumber, justification, hreceived, hlisten, fun hsupports =>
    FitsCircuit.accepted DUMMY_PUBLIC_KEY hlisten
      ((fitsCircuit_iff_supportsTarget hlisten).mpr hsupports)⟩

/-! ### Two indexers -/

/-- The first indexer adds the record of block 1. -/
def firstTurns : List IndexerTurn := [.listen 0 3 (indexedJustification 1), .write 0, .write 0]

/-- The second one replaces it and stops before it lists the block. -/
def secondTurns : List IndexerTurn := [.listen 1 3 (indexedJustification 2), .write 1, .stop 1]

theorem toTurn_listen_indexedJustification (p : ℕ) {n : ℕ} (hn : n = 1 ∨ n = 2) :
    IndexerTurn.toTurn indexedChain (ArrayVariable.replicate 64 0)
        (.listen p 3 (indexedJustification n)) =
      .start p (addJustification (indexedRecord n)) := by
  have hhead : (3 : UInt32).toNat ≤ indexedChain.toSetIds.head.toNat := by decide
  have hlisten : listenForJustification (indexedChain.upTo 3 hhead) (ArrayVariable.replicate 64 0)
      (indexedJustification n) = some (some (indexedRecord n)) :=
    listenForJustification_indexedJustification hn
  rw [IndexerTurn.toTurn, dif_pos hhead, hlisten]

/-- The block is listed by the first indexer. -/
theorem mem_getBlocksInRange_firstTurns :
    (1 : UInt32) ∈ (indexersAfter indexedChain (ArrayVariable.replicate 64 0)
      firstTurns).store.getBlocksInRange 0 5 := by
  rw [indexersAfter, firstTurns, List.map_cons, toTurn_listen_indexedJustification 0 (Or.inl rfl)]
  exact List.mem_cons_self

/-- After the turns of the second one, block 1 has a record of one of the two justifications. -/
theorem listed_isStored_secondTurns :
    (0 : UInt32) ≤ 1 ∧ (1 : UInt32) ≤ 5 ∧
      1 ∈ (indexersAfter indexedChain (ArrayVariable.replicate 64 0)
        (firstTurns ++ secondTurns)).store.getBlocksInRange 0 5 ∧
      ∃ stored, (indexersAfter indexedChain (ArrayVariable.replicate 64 0)
          (firstTurns ++ secondTurns)).store.getJustification 1 = some stored ∧
        stored.blockNumber = 1 ∧
        ∃ justification ∈ receivedJustifications (firstTurns ++ secondTurns),
          listenForJustification indexedChain (ArrayVariable.replicate 64 0) justification =
            some (some stored) ∧
          (SupportsTarget indexedChain justification →
            AcceptedByCircuit indexedChain emptyBytes32 (ArrayVariable.replicate 64 0) stored) :=
  listed_isStored indexedChain emptyBytes32 (ArrayVariable.replicate 64 0) firstTurns secondTurns 0 5 1
    mem_getBlocksInRange_firstTurns

end VectorX
