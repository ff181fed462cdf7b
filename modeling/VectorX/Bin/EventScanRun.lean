import VectorX.Bin.EventScan

/-!
# Runs of the event indexer

The indexer goes through the deployments again and again. It may stop between any two writes to
Redis, and is restarted. The cursor is written after the ranges, so the ranges up to the cursor are
there, and a range that is added again is the same member of the set.
-/

namespace VectorX

open Plonky2x Solidity
open Bytes (beBytes)
open Journal (Allowed)

/-! ## Redis -/

section Redis

/-- `hex::encode`. -/
def hexEncode (bytes : List UInt8) : List Char :=
  bytes.flatMap fun b => [Nat.digitChar (b.toNat / 16), Nat.digitChar (b.toNat % 16)]

/-- The member of the sorted set for a range: the hexadecimal text of its packed encoding. -/
def DataCommitmentRange.member (range : DataCommitmentRange) : List Char :=
  hexEncode (beBytes 4 range.start.toNat ++ beBytes 4 range.endBlock.toNat ++ range.dataCommitment.data)

/-- What the keys of the store are made of: the chain id and the address of a contract. -/
abbrev ContractKey := UInt64 × Address

/-- The cursors and the sorted sets of ranges. -/
structure Redis where
  cursor : ContractKey → Option UInt64
  ranges : ContractKey → SortedSet (List Char)

def Redis.empty : Redis where
  cursor _ := none
  ranges _ := SortedSet.empty

inductive Write
  | addDataCommitmentRange (key : ContractKey) (range : DataCommitmentRange)
  | setContractCursor (key : ContractKey) (cursor : UInt64)

def Redis.write (s : Redis) : Write → Redis
  | .addDataCommitmentRange key range =>
    { s with ranges :=
      Function.update s.ranges key ((s.ranges key).zadd range.endBlock.toNat range.member) }
  | .setContractCursor key cursor =>
    { s with cursor := Function.update s.cursor key (some cursor) }

theorem digitChar_injective : ∀ a b : Fin 16, Nat.digitChar a = Nat.digitChar b → a = b := by decide

theorem hexEncode_injective {bs bs' : List UInt8} (h : hexEncode bs = hexEncode bs') : bs = bs' := by
  induction bs generalizing bs' with
  | nil =>
    cases bs' with
    | nil => rfl
    | cons b' bs' => exact absurd h (by simp [hexEncode])
  | cons b bs ih =>
    cases bs' with
    | nil => exact absurd h (by simp [hexEncode])
    | cons b' bs' =>
      rw [hexEncode, hexEncode, List.flatMap_cons, List.flatMap_cons] at h
      obtain ⟨hhigh, hrest⟩ := List.cons.inj h
      obtain ⟨hlow, hrest⟩ := List.cons.inj hrest
      have hb := b.toNat_lt
      have hb' := b'.toNat_lt
      have hhigh := congrArg Fin.val (digitChar_injective ⟨b.toNat / 16, by omega⟩
        ⟨b'.toNat / 16, by omega⟩ hhigh)
      have hlow := congrArg Fin.val (digitChar_injective ⟨b.toNat % 16, by omega⟩
        ⟨b'.toNat % 16, by omega⟩ hlow)
      simp only at hhigh hlow
      rw [ih hrest, UInt8.toNat_inj.mp (by omega : b.toNat = b'.toNat)]

/-- Different ranges are different members. -/
theorem member_injective {r r' : DataCommitmentRange} (h : r.member = r'.member) : r = r' := by
  have hnumber : ∀ a b : UInt32, beBytes 4 a.toNat = beBytes 4 b.toNat → a = b := fun a b hab =>
    UInt32.toNat_inj.mp (Bytes.beBytes_inj a.toNat_lt b.toNat_lt hab)
  obtain ⟨hbounds, hdata⟩ := List.append_inj (hexEncode_injective h) (by simp)
  obtain ⟨hstart, hend⟩ := List.append_inj hbounds (by simp)
  obtain ⟨start, endBlock, data⟩ := r
  obtain ⟨start', endBlock', data'⟩ := r'
  obtain rfl := hnumber start start' hstart
  obtain rfl := hnumber endBlock endBlock' hend
  obtain rfl : data = data' := ArrayVariable.ext hdata
  rfl

end Redis

/-! ## The loop -/

section Loop

/-- A deployment of `deployments.json`. The name of the source chain is only read. -/
structure Deployment where
  contractChainId : UInt64
  contractAddress : Address
  cursorStartBlock : UInt64

def Deployment.key (d : Deployment) : ContractKey := (d.contractChainId, d.contractAddress)

/-- What the loop meets at a deployment: the head of its chain, and whether the cursor can be
read. -/
structure Observation where
  currentBlock : UInt64
  cursorRead : Bool

variable (keccak256 : List UInt8 → Bytes32) (logs : UInt64 → List Log)

/-- `get_contract_cursor` is `None` without a key and after a failed read; the default is the start
of the deployment. -/
def Deployment.cursor (d : Deployment) (obs : Observation) (s : Redis) : UInt64 :=
  (if obs.cursorRead then s.cursor d.key else none).getD d.cursorStartBlock

/-- The writes for one deployment, and whether the process goes on. -/
def visit (d : Deployment) (obs : Observation) (s : Redis) : List Write × Bool :=
  if obs.currentBlock > d.cursor obs s then
    let result := scan keccak256 (logs d.contractChainId) d.contractAddress (d.cursor obs s)
      obs.currentBlock
    let adds := result.added.map (Write.addDataCommitmentRange d.key)
    if result.ending = .returned then (adds ++ [.setContractCursor d.key obs.currentBlock], true)
    else (adds, false)
  else ([], true)

/-- The writes of one iteration of the loop in `main`. -/
def iteration : List (Deployment × Observation) → Redis → List Write
  | [], _ => []
  | (d, obs) :: rest, s =>
    let (writes, goesOn) := visit keccak256 logs d obs s
    if goesOn then writes ++ iteration rest (writes.foldl Redis.write s) else writes

/-- An iteration: what it meets at the deployments, which may be fewer if it stops at one, and the
number of writes after which it stops. -/
structure Iteration where
  observations : List Observation
  stopsAfter : ℕ

/-- The writes that an iteration performs, and the store after them. -/
def scanStep (deployments : List Deployment) (s : Redis) (i : Iteration) : Redis × List Write :=
  let writes := (iteration keccak256 logs (deployments.zip i.observations) s).take i.stopsAfter
  (writes.foldl Redis.write s, writes)

end Loop

/-! ## The invariant -/

section Invariant

variable (keccak256 : List UInt8 → Bytes32) (logs : UInt64 → List Log)

/-- The range is decoded from a log of the contract that the filter of the indexer selects, in a
block from the start of the deployment up to `c`. -/
def Deployment.Emitted (d : Deployment) (c : UInt64) (range : DataCommitmentRange) : Prop :=
  ∃ log ∈ logs d.contractChainId,
    (headerRangeFilter keccak256 d.contractAddress d.cursorStartBlock c).Selects log ∧
      decodeRange log = some range

/-- Every log up to `c` decodes, and its range is in the set. -/
def Deployment.Covered (d : Deployment) (c : UInt64) (s : Redis) : Prop :=
  ∀ log ∈ logs d.contractChainId,
    (headerRangeFilter keccak256 d.contractAddress d.cursorStartBlock c).Selects log →
      ∃ range, decodeRange log = some range ∧ range.member ∈ (s.ranges d.key).members

/-- The state of Redis for a deployment, when no head has been after `h`. -/
structure ScanInv (h : UInt64) (d : Deployment) (s : Redis) : Prop where
  cursor : ∀ c, s.cursor d.key = some c → d.cursorStartBlock.toNat ≤ c.toNat ∧
    d.Covered keccak256 logs c s
  ranges : ∀ m ∈ (s.ranges d.key).members, ∃ range, range.member = m ∧ d.Emitted keccak256 logs h range

/-- A write that keeps the invariant: a range of a log, or a cursor up to which everything is
there. -/
def WriteOk (h : UInt64) (d : Deployment) (s : Redis) : Write → Prop
  | .addDataCommitmentRange key range => key = d.key → d.Emitted keccak256 logs h range
  | .setContractCursor key c => key = d.key → d.cursorStartBlock.toNat ≤ c.toNat ∧
    d.Covered keccak256 logs c s

variable {keccak256 logs} {h : UInt64} {d : Deployment} {s : Redis}

/-- A set that grows stays covered. -/
theorem Deployment.Covered.mono {c : UInt64} {s' : Redis} (hc : d.Covered keccak256 logs c s)
    (hsub : ∀ m ∈ (s.ranges d.key).members, m ∈ (s'.ranges d.key).members) :
    d.Covered keccak256 logs c s' := by
  intro log hlog hselects
  obtain ⟨range, hdecode, hmem⟩ := hc log hlog hselects
  exact ⟨range, hdecode, hsub _ hmem⟩

/-- A write only adds members. -/
theorem mem_members_write {w : Write} {m : List Char} :
    m ∈ ((s.write w).ranges d.key).members ↔ m ∈ (s.ranges d.key).members ∨
      ∃ range, w = .addDataCommitmentRange d.key range ∧ m = range.member := by
  cases w with
  | setContractCursor key c => simp [Redis.write]
  | addDataCommitmentRange key range =>
    by_cases hkey : d.key = key
    · subst hkey
      simp [Redis.write, SortedSet.mem_members_zadd, or_comm]
    · simp [Redis.write, Function.update_of_ne hkey, Ne.symm hkey]

/-- **Write.** A write that is allowed keeps the invariant. -/
theorem ScanInv.write {w : Write} (hinv : ScanInv keccak256 logs h d s)
    (hw : WriteOk keccak256 logs h d s w) : ScanInv keccak256 logs h d (s.write w) := by
  have hsub : ∀ m ∈ (s.ranges d.key).members, m ∈ ((s.write w).ranges d.key).members :=
    fun m hm => mem_members_write.mpr (Or.inl hm)
  refine ⟨fun c hc => ?_, fun m hm => ?_⟩
  · cases w with
    | addDataCommitmentRange key range =>
      obtain ⟨hle, hcovered⟩ := hinv.cursor c hc
      exact ⟨hle, hcovered.mono hsub⟩
    | setContractCursor key c' =>
      by_cases hkey : key = d.key
      · rw [Redis.write, hkey] at hc
        simp only [Function.update_self, Option.some.injEq] at hc
        subst hc
        obtain ⟨hle, hcovered⟩ := hw hkey
        exact ⟨hle, hcovered.mono hsub⟩
      · rw [Redis.write] at hc
        simp only [Function.update_of_ne (Ne.symm hkey)] at hc
        obtain ⟨hle, hcovered⟩ := hinv.cursor c hc
        exact ⟨hle, hcovered.mono hsub⟩
  · rcases mem_members_write.mp hm with hm | ⟨range, rfl, rfl⟩
    · exact hinv.ranges m hm
    · exact ⟨range, rfl, hw rfl⟩

/-- After some writes, a member is an old one or one that they add. -/
theorem mem_members_foldl_write {ws : List Write} {m : List Char} :
    m ∈ ((ws.foldl Redis.write s).ranges d.key).members ↔ m ∈ (s.ranges d.key).members ∨
      ∃ range, Write.addDataCommitmentRange d.key range ∈ ws ∧ m = range.member := by
  induction ws generalizing s with
  | nil => simp
  | cons w ws ih =>
    rw [List.foldl_cons, ih, mem_members_write, or_assoc]
    refine or_congr_right ⟨?_, ?_⟩
    · rintro (⟨range, rfl, rfl⟩ | ⟨range, hmem, rfl⟩)
      · exact ⟨range, List.mem_cons_self, rfl⟩
      · exact ⟨range, List.mem_cons_of_mem _ hmem, rfl⟩
    · rintro ⟨range, hmem, rfl⟩
      rcases List.mem_cons.mp hmem with rfl | hmem
      · exact Or.inl ⟨range, rfl, rfl⟩
      · exact Or.inr ⟨range, hmem, rfl⟩

/-- The scan starts at the start of the deployment or at the stored cursor. -/
theorem Deployment.cursor_cases (d : Deployment) (obs : Observation) (s : Redis) :
    d.cursor obs s = d.cursorStartBlock ∨ s.cursor d.key = some (d.cursor obs s) := by
  rw [Deployment.cursor]
  by_cases hread : obs.cursorRead
  · rw [if_pos hread]
    rcases s.cursor d.key with - | c
    · exact Or.inl rfl
    · exact Or.inr rfl
  · rw [if_neg hread]
    exact Or.inl rfl

/-- The start of a scan is not before the start of the deployment. -/
theorem ScanInv.le_cursor (hinv : ScanInv keccak256 logs h d s) (obs : Observation) :
    d.cursorStartBlock.toNat ≤ (d.cursor obs s).toNat := by
  rcases d.cursor_cases obs s with hstart | hstored
  · rw [hstart]
  · exact (hinv.cursor _ hstored).1

/-- The ranges that a scan from the cursor to a head adds are ranges of logs. -/
theorem ScanInv.emitted_of_mem_added (hinv : ScanInv keccak256 logs h d s) {obs : Observation}
    (hobs : obs.currentBlock.toNat ≤ h.toNat) {range : DataCommitmentRange}
    (hrange : range ∈ (scan keccak256 (logs d.contractChainId) d.contractAddress (d.cursor obs s)
      obs.currentBlock).added) : d.Emitted keccak256 logs h range := by
  obtain ⟨log, hlog, hselects, hdecode⟩ := (scanSpec_scanLoop _ _).added range hrange
  exact ⟨log, hlog, selects_of_le (hinv.le_cursor obs) hobs hselects, hdecode⟩

/-- After a scan that returns, everything up to the head is there. -/
theorem ScanInv.covered_of_returned (hinv : ScanInv keccak256 logs h d s) {obs : Observation}
    (hlt : (d.cursor obs s).toNat < obs.currentBlock.toNat)
    (hreturned : (scan keccak256 (logs d.contractChainId) d.contractAddress (d.cursor obs s)
      obs.currentBlock).ending = .returned) :
    d.Covered keccak256 logs obs.currentBlock
      (((scan keccak256 (logs d.contractChainId) d.contractAddress (d.cursor obs s)
        obs.currentBlock).added.map (Write.addDataCommitmentRange d.key)).foldl Redis.write s) := by
  intro log hlog hselects
  -- a log is before the cursor, where it has been stored, or in the scan
  have hcases : (∃ range, decodeRange log = some range ∧ range.member ∈ (s.ranges d.key).members) ∨
      (headerRangeFilter keccak256 d.contractAddress (d.cursor obs s) obs.currentBlock).Selects log := by
    rcases d.cursor_cases obs s with hstart | hstored
    · right
      rwa [hstart]
    · rcases selects_or (d.cursor obs s) hselects with hbefore | hafter
      · exact Or.inl ((hinv.cursor _ hstored).2 log hlog hbefore)
      · exact Or.inr hafter
  rcases hcases with ⟨range, hdecode, hmem⟩ | hscan
  · exact ⟨range, hdecode, mem_members_foldl_write.mpr (Or.inl hmem)⟩
  · obtain ⟨range, hmem, hdecode⟩ := (scanSpec_scanLoop _ _).complete hreturned hlt log hlog hscan
    exact ⟨range, hdecode, mem_members_foldl_write.mpr
      (Or.inr ⟨range, List.mem_map_of_mem hmem, rfl⟩)⟩

/-- The writes for a deployment are for its contract. -/
theorem key_of_mem_visit {obs : Observation} {w : Write}
    (hw : w ∈ (visit keccak256 logs d obs s).1) :
    (∃ range, w = .addDataCommitmentRange d.key range) ∨ ∃ c, w = .setContractCursor d.key c := by
  rw [visit] at hw
  split at hw
  swap
  · exact absurd hw List.not_mem_nil
  simp only at hw
  split at hw
  · rcases List.mem_append.mp hw with hadd | hset
    · obtain ⟨range, -, rfl⟩ := List.mem_map.mp hadd
      exact Or.inl ⟨range, rfl⟩
    · obtain rfl := List.mem_singleton.mp hset
      exact Or.inr ⟨_, rfl⟩
  · obtain ⟨range, -, rfl⟩ := List.mem_map.mp hw
    exact Or.inl ⟨range, rfl⟩

/-- **Visit.** The writes for a deployment are allowed. -/
theorem ScanInv.allowed_visit (hinv : ScanInv keccak256 logs h d s) {obs : Observation}
    (hobs : obs.currentBlock.toNat ≤ h.toNat) :
    Allowed Redis.write (WriteOk keccak256 logs h d) s (visit keccak256 logs d obs s).1 := by
  have hadds : ∀ w ∈ (scan keccak256 (logs d.contractChainId) d.contractAddress (d.cursor obs s)
      obs.currentBlock).added.map (Write.addDataCommitmentRange d.key), ∀ s',
      WriteOk keccak256 logs h d s' w := by
    intro w hw s'
    obtain ⟨range, hrange, rfl⟩ := List.mem_map.mp hw
    exact fun _ => hinv.emitted_of_mem_added hobs hrange
  rw [visit]
  split
  swap
  · exact trivial
  rename_i hlt
  rw [gt_iff_lt, UInt64.lt_iff_toNat_lt] at hlt
  simp only
  split
  · rename_i hreturned
    refine Journal.allowed_append.mpr ⟨Journal.allowed_of_forall hadds, fun _ => ?_, trivial⟩
    exact ⟨Nat.le_of_lt (Nat.lt_of_le_of_lt (hinv.le_cursor obs) hlt),
      hinv.covered_of_returned hlt hreturned⟩
  · exact Journal.allowed_of_forall hadds

/-- **Iteration.** The writes of an iteration are allowed, if the deployments of one contract have
one start. -/
theorem ScanInv.allowed_iteration (hinv : ScanInv keccak256 logs h d s)
    {visits : List (Deployment × Observation)}
    (hstart : ∀ v ∈ visits, v.1.key = d.key → v.1.cursorStartBlock = d.cursorStartBlock)
    (hobs : ∀ v ∈ visits, v.2.currentBlock.toNat ≤ h.toNat) :
    Allowed Redis.write (WriteOk keccak256 logs h d) s (iteration keccak256 logs visits s) := by
  induction visits generalizing s with
  | nil => exact trivial
  | cons v visits ih =>
    obtain ⟨d', obs⟩ := v
    have hvisit : Allowed Redis.write (WriteOk keccak256 logs h d) s
        (visit keccak256 logs d' obs s).1 := by
      by_cases hkey : d'.key = d.key
      · obtain ⟨chain, address, start⟩ := d
        obtain ⟨chain', address', start'⟩ := d'
        obtain rfl : start' = start := hstart _ List.mem_cons_self hkey
        obtain ⟨rfl, rfl⟩ := Prod.mk.inj hkey
        exact hinv.allowed_visit (hobs _ List.mem_cons_self)
      · refine Journal.allowed_of_forall fun w hw s' => ?_
        rcases key_of_mem_visit hw with ⟨range, rfl⟩ | ⟨c, rfl⟩
        · exact fun heq => absurd heq hkey
        · exact fun heq => absurd heq hkey
    rw [iteration]
    simp only
    split
    · refine Journal.allowed_append.mpr ⟨hvisit, ih ?_
        (fun v hv => hstart v (List.mem_cons_of_mem _ hv))
        (fun v hv => hobs v (List.mem_cons_of_mem _ hv))⟩
      exact hvisit.invariant _ (fun _ _ hs hw => hs.write hw) hinv
    · exact hvisit

end Invariant

/-! ## Runs -/

section Runs

variable {keccak256 : List UInt8 → Bytes32} {logs : UInt64 → List Log} {h : UInt64} {d : Deployment}

theorem scanInv_empty : ScanInv keccak256 logs h d Redis.empty :=
  ⟨fun _ hc => absurd hc (by simp [Redis.empty]), fun _ hm => absurd hm List.not_mem_nil⟩

/-- **Run.** The invariant holds after any iterations, wherever they stop. -/
theorem scanInv_run {deployments : List Deployment} {iterations : List Iteration}
    (hstart : ∀ d' ∈ deployments, d'.key = d.key → d'.cursorStartBlock = d.cursorStartBlock)
    (hheads : ∀ i ∈ iterations, ∀ obs ∈ i.observations, obs.currentBlock.toNat ≤ h.toNat) :
    ScanInv keccak256 logs h d
      (Run.run (scanStep keccak256 logs deployments) Redis.empty iterations).1 := by
  refine Run.run_invariant_state (ScanInv keccak256 logs h d)
    (fun i => ∀ obs ∈ i.observations, obs.currentBlock.toNat ≤ h.toNat)
    (fun s i hi hinv => ?_) scanInv_empty hheads
  have hallowed := @ScanInv.allowed_iteration _ _ _ _ _ hinv (deployments.zip i.observations)
    (fun v hv => hstart v.1 (List.of_mem_zip hv).1) (fun v hv => hi v.2 (List.of_mem_zip hv).2)
  exact (hallowed.take i.stopsAfter).invariant _ (fun _ _ hs hw => hs.write hw) hinv

end Runs

/-! ## Main result -/

/-- The sorted set of a deployment holds distinct ranges: all those of logs up to the stored cursor,
and only those of logs up to `h`. -/
structure HoldsRanges (keccak256 : List UInt8 → Bytes32) (logs : UInt64 → List Log) (h : UInt64)
    (d : Deployment) (s : Redis) (stored : List DataCommitmentRange) : Prop where
  members_eq : (s.ranges d.key).members = stored.map DataCommitmentRange.member
  nodup : stored.Nodup
  covered : ∀ c, s.cursor d.key = some c → ∀ range, d.Emitted keccak256 logs c range → range ∈ stored
  emitted : ∀ range ∈ stored, d.Emitted keccak256 logs h range

theorem ScanInv.holdsRanges {keccak256 : List UInt8 → Bytes32} {logs : UInt64 → List Log} {h : UInt64}
    {d : Deployment} {s : Redis} (hinv : ScanInv keccak256 logs h d s) :
    ∃ stored, HoldsRanges keccak256 logs h d s stored := by
  obtain ⟨stored, hstored⟩ :
      (s.ranges d.key).members ∈ Set.range (List.map DataCommitmentRange.member) := by
    rw [Set.range_list_map]
    intro m hm
    obtain ⟨range, hrange, -⟩ := hinv.ranges m hm
    exact ⟨range, hrange⟩
  have hmem : ∀ range, range.member ∈ (s.ranges d.key).members ↔ range ∈ stored := by
    intro range
    rw [← hstored]
    exact List.mem_map_of_injective fun _ _ => member_injective
  refine ⟨stored, hstored.symm, ?_, fun c hc range hrange => ?_, fun range hrange => ?_⟩
  · exact List.Nodup.of_map _ (hstored ▸ (s.ranges d.key).nodup_members)
  · obtain ⟨log, hlog, hselects, hdecode⟩ := hrange
    obtain ⟨range', hdecode', hmember⟩ := (hinv.cursor c hc).2 log hlog hselects
    rw [hdecode] at hdecode'
    obtain rfl := Option.some.inj hdecode'
    exact (hmem range).mp hmember
  · obtain ⟨range', hmember, hemitted⟩ := hinv.ranges range.member ((hmem range).mpr hrange)
    rwa [member_injective hmember] at hemitted

/-- **Event scan.** After any iterations with heads up to `h`, wherever they stop, the sorted set of
a deployment holds distinct ranges, all those of logs from its start up to the stored cursor, and
only those of logs up to `h`. Every scan ends, and its queries span at most 50001 blocks. -/
theorem eventScan_holdsRanges (keccak256 : List UInt8 → Bytes32) (logs : UInt64 → List Log)
    (deployments : List Deployment) (iterations : List Iteration) (h : UInt64)
    (hheads : ∀ i ∈ iterations, ∀ obs ∈ i.observations, obs.currentBlock.toNat ≤ h.toNat)
    (d : Deployment)
    (hstart : ∀ d' ∈ deployments, d'.key = d.key → d'.cursorStartBlock = d.cursorStartBlock) :
    (∃ stored, HoldsRanges keccak256 logs h d
      (Run.run (scanStep keccak256 logs deployments) Redis.empty iterations).1 stored) ∧
    ∀ (chainLogs : List Log) (contractAddress : Address) (startBlock endBlock : UInt64),
      (scan keccak256 chainLogs contractAddress startBlock endBlock).ending ≠ .outOfFuel ∧
      ∀ q ∈ (scan keccak256 chainLogs contractAddress startBlock endBlock).queries,
        q.toBlock.toNat - q.fromBlock.toNat + 1 ≤ 50001 := by
  refine ⟨(scanInv_run hstart hheads).holdsRanges, fun chainLogs address start stop => ⟨?_, ?_⟩⟩
  · exact scanLoop_ending_ne _ _ (Nat.lt_succ_self _)
  · exact fun q hq => ((scanSpec_scanLoop _ _).queries q hq).2.2

/-! ### A stop before the cursor is written -/

/-- The first deployment of `deployments.json`. -/
def turing : Deployment where
  contractChainId := 11155111
  contractAddress := ⟨[0xe5, 0x42, 0xdb, 0x21, 0x9a, 0x7e, 0x2b, 0x29, 0xc7, 0xae, 0xae, 0xac, 0xe2, 0x42,
    0xc9, 0xa2, 0xcd, 0x52, 0x8f, 0x96], rfl⟩
  cursorStartBlock := 5655941

/-- `deployments.json`. -/
def deployments : List Deployment :=
  [turing,
    ⟨11155111, ⟨[0xbc, 0x28, 0x13, 0x67, 0xe1, 0xf2, 0xdb, 0x1c, 0x3e, 0x92, 0x25, 0x5a, 0xa2, 0xf0,
      0x40, 0xb1, 0xc6, 0x42, 0xec, 0x75], rfl⟩, 5655976⟩,
    ⟨11155111, ⟨[0x57, 0x0f, 0x6a, 0x19, 0x36, 0x38, 0x6a, 0x4e, 0x06, 0x0c, 0x2d, 0xae, 0xbb, 0xd0,
      0xb6, 0xf5, 0xc9, 0x1e, 0x13, 0x6f], rfl⟩, 5540894⟩,
    ⟨421614, ⟨[0xbc, 0x28, 0x13, 0x67, 0xe1, 0xf2, 0xdb, 0x1c, 0x3e, 0x92, 0x25, 0x5a, 0xa2, 0xf0,
      0x40, 0xb1, 0xc6, 0x42, 0xec, 0x75], rfl⟩, 31672190⟩]

/-- A log with the topic of the indexer, two blocks after the start of the first deployment. -/
def turingLog : Log where
  address := turing.contractAddress
  blockNumber := 5655943
  topics := [eventTopic Reference.keccak256 storedEventSignature]
  data := HeaderRangeCommitmentStoredTuple.abiEncode
    (0, 5, ArrayVariable.replicate 32 7, ArrayVariable.replicate 32 7)

/-- The heads are one and two blocks after the start, and the second iteration stops before it
writes the cursor. -/
def turingIterations : List Iteration :=
  [⟨[⟨5655942, true⟩], 1⟩, ⟨[⟨5655943, true⟩], 1⟩]

theorem eventScan_holdsRanges_turing :
    (∃ stored, HoldsRanges Reference.keccak256 (fun _ => [turingLog]) 5655943 turing
      (Run.run (scanStep Reference.keccak256 (fun _ => [turingLog]) deployments) Redis.empty
        turingIterations).1 stored) ∧
    ∀ (chainLogs : List Log) (contractAddress : Address) (startBlock endBlock : UInt64),
      (scan Reference.keccak256 chainLogs contractAddress startBlock endBlock).ending ≠ .outOfFuel ∧
      ∀ q ∈ (scan Reference.keccak256 chainLogs contractAddress startBlock endBlock).queries,
        q.toBlock.toNat - q.fromBlock.toNat + 1 ≤ 50001 :=
  eventScan_holdsRanges Reference.keccak256 (fun _ => [turingLog]) deployments turingIterations 5655943
    (by decide) turing (by decide)

/-- The range of the second block is in the set, and the cursor is still at the first one. -/
theorem not_emitted_upTo_cursor : ¬∀ (keccak256 : List UInt8 → Bytes32) (logs : UInt64 → List Log)
    (deployments : List Deployment) (iterations : List Iteration) (d : Deployment) (c : UInt64),
    d ∈ deployments →
    (Run.run (scanStep keccak256 logs deployments) Redis.empty iterations).1.cursor d.key = some c →
    ∀ range, range.member ∈ ((Run.run (scanStep keccak256 logs deployments) Redis.empty
      iterations).1.ranges d.key).members → d.Emitted keccak256 logs c range := by
  intro hclaim
  obtain ⟨log, hlog, ⟨-, -, hto, -⟩, -⟩ := hclaim Reference.keccak256 (fun _ => [turingLog]) deployments
    turingIterations turing 5655942 List.mem_cons_self (by decide +kernel) committedRange
    (by decide +kernel)
  obtain rfl := List.mem_singleton.mp hlog
  exact absurd hto (by decide)

end VectorX
