import VectorX.Bin.EventScanRun
import VectorX.Bin.JustificationStore

/-!
# One database for all clients

Reference: `RedisClient` of `circuits/input/mod.rs`. The indexers of all chains share one database,
where every value has a text as its key. The texts of different keys differ, so each client finds
what it would find in a store of its own, and no command meets a value of another type.
-/

namespace VectorX

open Plonky2x Solidity

/-- The contract of a write. -/
def Write.key : Write → ContractKey
  | .addDataCommitmentRange key _ => key
  | .setContractCursor key _ => key

namespace RedisClient

/-! ## Texts of numbers -/

section Numbers

/-- A number in decimal digits. -/
def decimal (n : ℕ) : List Char := Nat.toDigits 10 n

/-- `from_str` of an unsigned integer below `bound`, after the sign. -/
def parseDigits (bound : ℕ) (digits : List Char) : Option ℕ :=
  if digits ≠ [] ∧ digits.all Char.isDigit ∧ Nat.ofDigitChars 10 digits 0 < bound then
    some (Nat.ofDigitChars 10 digits 0)
  else none

/-- `from_str` of an unsigned integer below `bound`. -/
def parseUnsigned (bound : ℕ) : List Char → Option ℕ
  | '+' :: digits => parseDigits bound digits
  | digits => parseDigits bound digits

def parseU32 (text : List Char) : Option UInt32 := (parseUnsigned (2 ^ 32) text).map UInt32.ofNat

def parseU64 (text : List Char) : Option UInt64 := (parseUnsigned (2 ^ 64) text).map UInt64.ofNat

variable {n bound : ℕ}

theorem isDigit_of_mem_decimal {c : Char} (h : c ∈ decimal n) : c.isDigit = true :=
  Nat.isDigit_of_mem_toDigits (by decide) (by decide) h

theorem decimal_injective : Function.Injective decimal := by
  intro n m h
  calc
    n = Nat.ofDigitChars 10 (decimal n) 0 := Nat.ofDigitChars_ten_toDigits.symm
    _ = Nat.ofDigitChars 10 (decimal m) 0 := by rw [h]
    _ = m := Nat.ofDigitChars_ten_toDigits

theorem decimal_toNat_injective : Function.Injective fun b : UInt32 => decimal b.toNat :=
  fun _ _ h => UInt32.toNat_inj.mp (decimal_injective h)

theorem parseDigits_decimal (h : n < bound) : parseDigits bound (decimal n) = some n := by
  have hvalue : Nat.ofDigitChars 10 (decimal n) 0 = n := Nat.ofDigitChars_ten_toDigits
  have hdigits : (decimal n).all Char.isDigit = true :=
    List.all_eq_true.mpr fun _ => isDigit_of_mem_decimal
  rw [parseDigits, hvalue, if_pos ⟨Nat.toDigits_ne_nil, hdigits, h⟩]

/-- What is written in decimal digits is read again. -/
theorem parseUnsigned_decimal (h : n < bound) : parseUnsigned bound (decimal n) = some n := by
  rw [← parseDigits_decimal h, parseUnsigned.eq_def]
  split
  · rename_i digits heq
    have hsign : '+' ∈ decimal n := heq ▸ List.mem_cons_self
    exact absurd (isDigit_of_mem_decimal hsign) (by decide)
  · rfl

theorem parseU32_decimal (b : UInt32) : parseU32 (decimal b.toNat) = some b := by
  rw [parseU32, parseUnsigned_decimal b.toNat_lt, Option.map_some, UInt32.ofNat_toNat]

theorem parseU64_decimal (b : UInt64) : parseU64 (decimal b.toNat) = some b := by
  rw [parseU64, parseUnsigned_decimal b.toNat_lt, Option.map_some, UInt64.ofNat_toNat]

end Numbers

/-! ## Keys -/

section Keys

/-- The keys that the clients use. -/
inductive Key
  | justification (availChainId : List Char) (blockNumber : UInt32)
  | sortedBlock (availChainId : List Char)
  | cursor (key : ContractKey)
  | ranges (key : ContractKey)

/-- An address with its prefix. -/
def hexAddress (address : Address) : List Char := "0x".toList ++ hexEncode address.data

/-- The text of a key. -/
def Key.text : Key → List Char
  | .justification availChainId blockNumber =>
    availChainId ++ ":justification:".toList ++ decimal blockNumber.toNat
  | .sortedBlock availChainId => availChainId ++ ":justification:blocks".toList
  | .cursor (chainId, address) =>
    decimal chainId.toNat ++ ":".toList ++ hexAddress address ++ ":cursor".toList
  | .ranges (chainId, address) =>
    decimal chainId.toNat ++ ":".toList ++ hexAddress address ++ ":ranges".toList

/-- The last part of a key, after the last colon, and what is before it. -/
def Key.lastPart : Key → List Char × List Char
  | .justification availChainId blockNumber =>
    (availChainId ++ ":justification".toList, decimal blockNumber.toNat)
  | .sortedBlock availChainId => (availChainId ++ ":justification".toList, "blocks".toList)
  | .cursor (chainId, address) =>
    (decimal chainId.toNat ++ ':' :: hexAddress address, "cursor".toList)
  | .ranges (chainId, address) =>
    (decimal chainId.toNat ++ ':' :: hexAddress address, "ranges".toList)

/-- A text is split in one way at a separator that the last part does not contain. -/
theorem append_cons_inj {l l' s s' : List Char} {c : Char} (hs : c ∉ s) (hs' : c ∉ s')
    (h : l ++ c :: s = l' ++ c :: s') : l = l' ∧ s = s' := by
  rcases List.append_eq_append_iff.mp h with ⟨m, rfl, hm⟩ | ⟨m, rfl, hm⟩
  · rcases m with - | ⟨d, m⟩
    · exact ⟨(List.append_nil l).symm, (List.cons.inj hm).2⟩
    · exact absurd (by rw [(List.cons.inj hm).2]; simp) hs
  · rcases m with - | ⟨d, m⟩
    · exact ⟨List.append_nil l', (List.cons.inj hm).2.symm⟩
    · exact absurd (by rw [(List.cons.inj hm).2]; simp) hs'

theorem notMem_decimal {n : ℕ} {c : Char} (hc : c.isDigit = false) : c ∉ decimal n := fun h =>
  absurd (isDigit_of_mem_decimal h) (by rw [hc]; exact Bool.false_ne_true)

theorem notMem_hexEncode {bytes : List UInt8} : ':' ∉ hexEncode bytes := by
  rw [hexEncode, List.mem_flatMap]
  rintro ⟨b, -, hmem⟩
  have hne : ∀ d : Fin 16, ':' ≠ Nat.digitChar d := by decide
  have hb := b.toNat_lt
  rcases List.mem_cons.mp hmem with hhigh | hlow
  · exact hne ⟨b.toNat / 16, by omega⟩ hhigh
  · exact hne ⟨b.toNat % 16, by omega⟩ (List.mem_singleton.mp hlow)

theorem text_eq (key : Key) : key.text = key.lastPart.1 ++ ':' :: key.lastPart.2 := by
  cases key <;> simp [Key.text, Key.lastPart]

theorem notMem_lastPart (key : Key) : ':' ∉ key.lastPart.2 := by
  cases key with
  | justification => exact notMem_decimal (by decide)
  | sortedBlock => exact (by decide : ':' ∉ "blocks".toList)
  | cursor => exact (by decide : ':' ∉ "cursor".toList)
  | ranges => exact (by decide : ':' ∉ "ranges".toList)

/-- A contract is determined by its chain id and address in a key. -/
theorem contractKey_inj {key key' : ContractKey}
    (h : decimal key.1.toNat ++ ':' :: hexAddress key.2 =
      decimal key'.1.toNat ++ ':' :: hexAddress key'.2) : key = key' := by
  have hcolon : ∀ address : Address, ':' ∉ hexAddress address := by
    intro address hmem
    rcases List.mem_append.mp hmem with hmem | hmem
    · revert hmem
      decide
    · exact notMem_hexEncode hmem
  obtain ⟨hid, haddress⟩ := append_cons_inj (hcolon _) (hcolon _) h
  obtain ⟨chainId, address⟩ := key
  obtain ⟨chainId', address'⟩ := key'
  obtain rfl := UInt64.toNat_inj.mp (decimal_injective hid)
  have hdata := hexEncode_injective (List.append_cancel_left haddress)
  obtain rfl : address = address' := ArrayVariable.ext hdata
  rfl

/-- A number is no word. -/
theorem decimal_ne {n : ℕ} {word : List Char} (h : ∃ c ∈ word, c.isDigit = false) :
    decimal n ≠ word := by
  rintro rfl
  obtain ⟨c, hmem, hc⟩ := h
  exact notMem_decimal hc hmem

/-- Different keys have different texts, whatever the name of the chain. -/
theorem text_injective : Function.Injective Key.text := by
  intro key key' h
  rw [text_eq, text_eq] at h
  obtain ⟨hfirst, hlast⟩ := append_cons_inj (notMem_lastPart key) (notMem_lastPart key') h
  have hblocks : ∃ c ∈ "blocks".toList, c.isDigit = false := ⟨'b', by simp, rfl⟩
  have hcursor : ∃ c ∈ "cursor".toList, c.isDigit = false := ⟨'c', by simp, rfl⟩
  have hranges : ∃ c ∈ "ranges".toList, c.isDigit = false := ⟨'r', by simp, rfl⟩
  have hblocksCursor : "blocks".toList ≠ "cursor".toList := by decide
  have hblocksRanges : "blocks".toList ≠ "ranges".toList := by decide
  have hcursorRanges : "cursor".toList ≠ "ranges".toList := by decide
  cases key with
  | justification id b =>
    cases key' with
    | justification id' b' =>
      obtain rfl := UInt32.toNat_inj.mp (decimal_injective hlast)
      rw [List.append_cancel_right hfirst]
    | sortedBlock => exact absurd hlast (decimal_ne hblocks)
    | cursor => exact absurd hlast (decimal_ne hcursor)
    | ranges => exact absurd hlast (decimal_ne hranges)
  | sortedBlock id =>
    cases key' with
    | justification => exact absurd hlast.symm (decimal_ne hblocks)
    | sortedBlock => rw [List.append_cancel_right hfirst]
    | cursor => exact absurd hlast hblocksCursor
    | ranges => exact absurd hlast hblocksRanges
  | cursor key =>
    cases key' with
    | justification => exact absurd hlast.symm (decimal_ne hcursor)
    | sortedBlock => exact absurd hlast.symm hblocksCursor
    | cursor => rw [contractKey_inj hfirst]
    | ranges => exact absurd hlast hcursorRanges
  | ranges key =>
    cases key' with
    | justification => exact absurd hlast.symm (decimal_ne hranges)
    | sortedBlock => exact absurd hlast.symm hblocksRanges
    | cursor => exact absurd hlast.symm hcursorRanges
    | ranges => rw [contractKey_inj hfirst]

end Keys

/-! ## The database -/

section Database

inductive Value
  | json (justification : StoredJustificationData)
  | sortedSet (members : SortedSet (List Char))
  | string (text : List Char)

/-- The values by the texts of their keys. -/
abbrev Database := List Char → Option Value

inductive Command
  | jsonSet (key : List Char) (justification : StoredJustificationData)
  | zadd (key : List Char) (score : ℕ) (member : List Char)
  | set (key : List Char) (text : List Char)

/-- A command. The client panics if it is an error, which it is at a value of another type, except
for `SET`. -/
def Database.exec (db : Database) : Command → Option Database
  | .jsonSet key justification =>
    match db key with
    | none | some (.json _) => some (Function.update db key (some (.json justification)))
    | _ => none
  | .zadd key score member =>
    match db key with
    | none => some (Function.update db key (some (.sortedSet (SortedSet.empty.zadd score member))))
    | some (.sortedSet members) =>
      some (Function.update db key (some (.sortedSet (members.zadd score member))))
    | _ => none
  | .set key text => some (Function.update db key (some (.string text)))

/-- `get_justification`: `none` inside if the reply does not deserialize, which the empty one does
not. -/
def Database.getJustification (db : Database) (availChainId : List Char) (blockNumber : UInt32) :
    Option (Option StoredJustificationData) :=
  match db (Key.justification availChainId blockNumber).text with
  | none => some none
  | some (.json justification) => some (some justification)
  | _ => none

/-- `get_blocks_in_range`. -/
def Database.getBlocksInRange (db : Database) (availChainId : List Char) (start stop : UInt32) :
    Option (List UInt32) :=
  match db (Key.sortedBlock availChainId).text with
  | none => some []
  | some (.sortedSet members) => (members.zrangebyscore start.toNat stop.toNat).mapM parseU32
  | _ => none

/-- `get_contract_cursor`, where every error is `None`. -/
def Database.getContractCursor (db : Database) (key : ContractKey) : Option UInt64 :=
  match db (Key.cursor key).text with
  | some (.string text) => parseU64 text
  | _ => none

/-- The ranges that are stored for a contract. -/
def Database.rangeMembers (db : Database) (key : ContractKey) : List (List Char) :=
  match db (Key.ranges key).text with
  | some (.sortedSet members) => members.members
  | _ => []

/-- A write of a client for the justifications of a chain, or for a contract. -/
inductive ClientWrite
  | justification (availChainId : List Char) (write : StoreWrite)
  | contract (write : Write)

/-- The key that is written. -/
def ClientWrite.key : ClientWrite → Key
  | .justification availChainId (.jsonSet stored) => .justification availChainId stored.blockNumber
  | .justification availChainId (.zadd _) => .sortedBlock availChainId
  | .contract (.addDataCommitmentRange key _) => .ranges key
  | .contract (.setContractCursor key _) => .cursor key

/-- The command of a write in `add_justification`, `add_data_commitment_range` and
`set_contract_cursor`. -/
def ClientWrite.command (w : ClientWrite) : Command :=
  match w with
  | .justification _ (.jsonSet stored) => .jsonSet w.key.text stored
  | .justification _ (.zadd blockNumber) =>
    .zadd w.key.text blockNumber.toNat (decimal blockNumber.toNat)
  | .contract (.addDataCommitmentRange _ range) => .zadd w.key.text range.endBlock.toNat range.member
  | .contract (.setContractCursor _ cursor) => .set w.key.text (decimal cursor.toNat)

end Database

/-! ## A store for each chain and for the contracts -/

section Stores

structure Stores where
  justifications : List Char → JustificationStore
  contracts : Redis

def Stores.empty : Stores where
  justifications _ := .empty
  contracts := .empty

def Stores.write (stores : Stores) : ClientWrite → Stores
  | .justification availChainId write =>
    { stores with
      justifications := Function.update stores.justifications availChainId
        ((stores.justifications availChainId).write write) }
  | .contract write => { stores with contracts := stores.contracts.write write }

/-- A sorted set is there once it has a member. -/
def sortedSetValue (members : SortedSet (List Char)) : Option Value :=
  if members.entries = [] then none else some (.sortedSet members)

/-- The block numbers as the database has them. -/
def blockMembers (blocks : SortedSet UInt32) : SortedSet (List Char) :=
  blocks.map (fun b => decimal b.toNat) decimal_toNat_injective

/-- What the database has for the stores under a key. -/
def Stores.value (stores : Stores) : Key → Option Value
  | .justification availChainId blockNumber =>
    ((stores.justifications availChainId).records blockNumber).map .json
  | .sortedBlock availChainId =>
    sortedSetValue (blockMembers (stores.justifications availChainId).blocks)
  | .cursor key => (stores.contracts.cursor key).map fun cursor => .string (decimal cursor.toNat)
  | .ranges key => sortedSetValue (stores.contracts.ranges key)

/-- The database has the stores. -/
def Represents (db : Database) (stores : Stores) : Prop := ∀ key : Key, db key.text = stores.value key

variable {db : Database} {stores : Stores}

theorem justifications_write_self (id : List Char) (write : StoreWrite) :
    (stores.write (.justification id write)).justifications id =
      (stores.justifications id).write write := Function.update_self ..

theorem justifications_write_of_ne {id id' : List Char} (h : id' ≠ id) (write : StoreWrite) :
    (stores.write (.justification id write)).justifications id' = stores.justifications id' :=
  Function.update_of_ne h _ _

theorem sortedSetValue_zadd (members : SortedSet (List Char)) (score : ℕ) (m : List Char) :
    sortedSetValue (members.zadd score m) = some (.sortedSet (members.zadd score m)) :=
  if_neg (members.entries_zadd_ne_nil score m)

/-- A write leaves what is under other keys. -/
theorem value_write_of_ne {w : ClientWrite} {key : Key} (h : key ≠ w.key) :
    (stores.write w).value key = stores.value key := by
  cases w with
  | justification id write =>
    cases key with
    | justification id' b =>
      rw [Stores.value, Stores.value]
      by_cases hne : id' = id
      · subst hne
        rw [justifications_write_self]
        cases write with
        | jsonSet stored =>
          have hb : b ≠ stored.blockNumber := fun heq => h (by rw [heq]; rfl)
          exact congrArg (Option.map Value.json) (Function.update_of_ne hb _ _)
        | zadd => rfl
      · rw [justifications_write_of_ne hne]
    | sortedBlock id' =>
      rw [Stores.value, Stores.value]
      by_cases hne : id' = id
      · subst hne
        rw [justifications_write_self]
        cases write with
        | jsonSet => rfl
        | zadd => exact absurd rfl h
      · rw [justifications_write_of_ne hne]
    | cursor | ranges => rfl
  | contract write =>
    cases key with
    | justification | sortedBlock => rfl
    | cursor key =>
      cases write with
      | addDataCommitmentRange => rfl
      | setContractCursor key' cursor =>
        have hne : key ≠ key' := fun heq => h (by rw [heq]; rfl)
        exact congrArg (Option.map _) (Function.update_of_ne hne _ _)
    | ranges key =>
      cases write with
      | addDataCommitmentRange key' range =>
        have hne : key ≠ key' := fun heq => h (by rw [heq]; rfl)
        exact congrArg sortedSetValue (Function.update_of_ne hne _ _)
      | setContractCursor => rfl

/-- `ZADD` on the value of a sorted set, also if it is empty and there is no value. -/
theorem exec_zadd {members : SortedSet (List Char)} {key : List Char}
    (h : db key = sortedSetValue members)
    (score : ℕ) (m : List Char) : db.exec (.zadd key score m) =
      some (Function.update db key (sortedSetValue (members.zadd score m))) := by
  rw [sortedSetValue_zadd, Database.exec, h, sortedSetValue]
  by_cases hempty : members.entries = []
  · obtain ⟨entries, hsorted, hnodup⟩ := members
    obtain rfl : entries = [] := hempty
    rfl
  · rw [if_neg hempty]

/-- **Step.** A write of a client is no error, and the database has the stores after it. -/
theorem Represents.exec (h : Represents db stores) (w : ClientWrite) :
    ∃ db', db.exec w.command = some db' ∧ Represents db' (stores.write w) := by
  suffices hexec : db.exec w.command =
      some (Function.update db w.key.text ((stores.write w).value w.key)) by
    refine ⟨_, hexec, fun key => ?_⟩
    by_cases hkey : key = w.key
    · rw [hkey, Function.update_self]
    · rw [Function.update_of_ne (text_injective.ne hkey), value_write_of_ne hkey]
      exact h key
  cases w with
  | justification id write =>
    cases write with
    | jsonSet stored =>
      have hvalue : (stores.write (.justification id (.jsonSet stored))).value
          (.justification id stored.blockNumber) = some (.json stored) := by
        have hrecord : ((stores.justifications id).write (.jsonSet stored)).records
            stored.blockNumber = some stored := Function.update_self ..
        rw [Stores.value, justifications_write_self, hrecord, Option.map_some]
      have hold := h (.justification id stored.blockNumber)
      rw [Stores.value] at hold
      rw [ClientWrite.command, ClientWrite.key, hvalue, Database.exec, hold]
      cases (stores.justifications id).records stored.blockNumber <;> rfl
    | zadd b =>
      have hvalue : (stores.write (.justification id (.zadd b))).value (.sortedBlock id) =
          sortedSetValue ((blockMembers (stores.justifications id).blocks).zadd b.toNat
            (decimal b.toNat)) := by
        rw [Stores.value, justifications_write_self]
        exact congrArg sortedSetValue (SortedSet.map_zadd _ decimal_toNat_injective _ _ _)
      rw [ClientWrite.command, ClientWrite.key, hvalue]
      exact exec_zadd (h (.sortedBlock id)) _ _
  | contract write =>
    cases write with
    | addDataCommitmentRange key range =>
      have hvalue : (stores.write (.contract (.addDataCommitmentRange key range))).value (.ranges key) =
          sortedSetValue ((stores.contracts.ranges key).zadd range.endBlock.toNat range.member) :=
        congrArg sortedSetValue (Function.update_self ..)
      rw [ClientWrite.command, ClientWrite.key, hvalue]
      exact exec_zadd (h (.ranges key)) _ _
    | setContractCursor key cursor =>
      have hvalue : (stores.write (.contract (.setContractCursor key cursor))).value (.cursor key) =
          some (.string (decimal cursor.toNat)) := by
        have hcursor : (stores.write (.contract (.setContractCursor key cursor))).contracts.cursor key =
            some cursor := Function.update_self ..
        rw [Stores.value, hcursor, Option.map_some]
      rw [ClientWrite.command, ClientWrite.key, hvalue]
      rfl

/-- **Run.** The same for the writes of all clients, in any order. -/
theorem Represents.foldlM_exec (h : Represents db stores) (writes : List ClientWrite) :
    ∃ db', (writes.map ClientWrite.command).foldlM Database.exec db = some db' ∧
      Represents db' (writes.foldl Stores.write stores) := by
  induction writes generalizing db stores with
  | nil => exact ⟨db, rfl, h⟩
  | cons w writes ih =>
    obtain ⟨db₁, hexec, h₁⟩ := h.exec w
    obtain ⟨db₂, hrun, h₂⟩ := ih h₁
    refine ⟨db₂, ?_, h₂⟩
    rw [List.map_cons, List.foldlM_cons, hexec]
    exact hrun

end Stores

/-! ## What is read -/

section Reads

variable {db : Database} {stores : Stores}

theorem Represents.getJustification (h : Represents db stores) (id : List Char) (b : UInt32) :
    db.getJustification id b = some ((stores.justifications id).getJustification b) := by
  have hvalue := h (.justification id b)
  rw [Stores.value] at hvalue
  rw [Database.getJustification, hvalue, JustificationStore.getJustification]
  cases (stores.justifications id).records b <;> rfl

theorem Represents.getBlocksInRange (h : Represents db stores) (id : List Char) (start stop : UInt32) :
    db.getBlocksInRange id start stop =
      some ((stores.justifications id).getBlocksInRange start stop) := by
  have hvalue := h (.sortedBlock id)
  rw [Stores.value] at hvalue
  rw [Database.getBlocksInRange, hvalue, JustificationStore.getBlocksInRange, sortedSetValue]
  by_cases hempty : (blockMembers (stores.justifications id).blocks).entries = []
  · rw [if_pos hempty, SortedSet.zrangebyscore, List.map_eq_nil_iff.mp hempty]
    rfl
  · rw [if_neg hempty]
    show ((blockMembers (stores.justifications id).blocks).zrangebyscore _ _).mapM parseU32 = _
    rw [blockMembers, SortedSet.zrangebyscore_map, List.mapM_map]
    have hparse := (TreeReduce.mapM_eq_some_map
      ((stores.justifications id).blocks.zrangebyscore start.toNat stop.toNat)).mpr
        fun b _ => parseU32_decimal b
    rwa [List.map_id'] at hparse

theorem Represents.getContractCursor (h : Represents db stores) (key : ContractKey) :
    db.getContractCursor key = stores.contracts.cursor key := by
  have hvalue := h (.cursor key)
  rw [Stores.value] at hvalue
  rw [Database.getContractCursor, hvalue]
  cases stores.contracts.cursor key with
  | none => rfl
  | some cursor => exact parseU64_decimal cursor

theorem Represents.rangeMembers (h : Represents db stores) (key : ContractKey) :
    db.rangeMembers key = (stores.contracts.ranges key).members := by
  have hvalue := h (.ranges key)
  rw [Stores.value, sortedSetValue] at hvalue
  rw [Database.rangeMembers, hvalue]
  by_cases hempty : (stores.contracts.ranges key).entries = []
  · rw [if_pos hempty, SortedSet.members, hempty]
    rfl
  · rw [if_neg hempty]

end Reads

/-! ## Isolation -/

section Isolation

/-- The write of a client for the justifications of a chain. -/
def ClientWrite.forChain (availChainId : List Char) : ClientWrite → Option StoreWrite
  | .justification id write => if id = availChainId then some write else none
  | .contract _ => none

/-- The write of a client for a contract. -/
def ClientWrite.forContract (key : ContractKey) : ClientWrite → Option Write
  | .justification _ _ => none
  | .contract write => if write.key = key then some write else none

variable (writes : List ClientWrite)

/-- The store of a chain, with the writes for this chain alone. -/
def chainStore (availChainId : List Char) : JustificationStore :=
  (writes.filterMap (ClientWrite.forChain availChainId)).foldl JustificationStore.write .empty

/-- The store of a contract, with the writes for this contract alone. -/
def contractStore (key : ContractKey) : Redis :=
  (writes.filterMap (ClientWrite.forContract key)).foldl Redis.write .empty

/-- What is read for a chain or a contract is what a store of its own has. -/
structure Isolated (db : Database) : Prop where
  justification : ∀ id b, db.getJustification id b = some ((chainStore writes id).getJustification b)
  blocks : ∀ id start stop,
    db.getBlocksInRange id start stop = some ((chainStore writes id).getBlocksInRange start stop)
  cursor : ∀ key, db.getContractCursor key = (contractStore writes key).cursor key
  ranges : ∀ key, db.rangeMembers key = ((contractStore writes key).ranges key).members

variable {writes} {stores : Stores}

/-- The writes for other chains and for contracts do not matter. -/
theorem justifications_foldl_write (id : List Char) :
    (writes.foldl Stores.write stores).justifications id =
      (writes.filterMap (ClientWrite.forChain id)).foldl JustificationStore.write
        (stores.justifications id) := by
  induction writes generalizing stores with
  | nil => rfl
  | cons w writes ih =>
    rw [List.foldl_cons, ih]
    cases w with
    | contract write =>
      rw [List.filterMap_cons_none rfl]
      rfl
    | justification id' write =>
      by_cases hid : id' = id
      · subst hid
        have hfor : ClientWrite.forChain id' (.justification id' write) = some write := if_pos rfl
        rw [List.filterMap_cons_some hfor, List.foldl_cons, justifications_write_self]
      · have hfor : ClientWrite.forChain id (.justification id' write) = none := if_neg hid
        rw [List.filterMap_cons_none hfor, justifications_write_of_ne (Ne.symm hid)]

/-- Two stores have the same for a contract. -/
structure AgreesAt (key : ContractKey) (s s' : Redis) : Prop where
  cursor : s.cursor key = s'.cursor key
  ranges : s.ranges key = s'.ranges key

variable {key : ContractKey} {s s' : Redis}

/-- **Step.** The same write in two stores. -/
theorem AgreesAt.write (h : AgreesAt key s s') (w : Write) :
    AgreesAt key (s.write w) (s'.write w) := by
  obtain ⟨hcursor, hranges⟩ := h
  cases w with
  | addDataCommitmentRange key' range =>
    refine ⟨hcursor, ?_⟩
    by_cases hkey : key = key'
    · subst hkey
      rw [Redis.write, Redis.write]
      simp only [Function.update_self, hranges]
    · rw [Redis.write, Redis.write]
      simp only [Function.update_of_ne hkey, hranges]
  | setContractCursor key' cursor =>
    refine ⟨?_, hranges⟩
    by_cases hkey : key = key'
    · subst hkey
      rw [Redis.write, Redis.write]
      simp only [Function.update_self]
    · rw [Redis.write, Redis.write]
      simp only [Function.update_of_ne hkey, hcursor]

/-- A write for another contract. -/
theorem agreesAt_write {w : Write} (h : w.key ≠ key) : AgreesAt key (s.write w) s := by
  cases w with
  | addDataCommitmentRange => exact ⟨rfl, Function.update_of_ne (Ne.symm h) ..⟩
  | setContractCursor => exact ⟨Function.update_of_ne (Ne.symm h) .., rfl⟩

/-- **Run.** The writes for other contracts and for chains do not matter. -/
theorem AgreesAt.foldl_write (h : AgreesAt key stores.contracts s) :
    AgreesAt key (writes.foldl Stores.write stores).contracts
      ((writes.filterMap (ClientWrite.forContract key)).foldl Redis.write s) := by
  induction writes generalizing stores s with
  | nil => exact h
  | cons w writes ih =>
    rw [List.foldl_cons]
    cases w with
    | justification id write =>
      rw [List.filterMap_cons_none rfl]
      exact ih h
    | contract write =>
      by_cases hkey : write.key = key
      · have hfor : ClientWrite.forContract key (.contract write) = some write := if_pos hkey
        rw [List.filterMap_cons_some hfor]
        exact ih (h.write write)
      · have hfor : ClientWrite.forContract key (.contract write) = none := if_neg hkey
        have hkept : AgreesAt key (stores.contracts.write write) stores.contracts := agreesAt_write hkey
        rw [List.filterMap_cons_none hfor]
        exact ih ⟨hkept.cursor.trans h.cursor, hkept.ranges.trans h.ranges⟩

end Isolation

/-- **Isolation.** Let any clients write to one database, in any order: justifications of any
chains, and ranges and cursors of any contracts. No write is an error, no read panics, and what is
read for a chain or a contract depends on the writes for it alone. -/
theorem redisClient_isolated (writes : List ClientWrite) :
    ∃ db, (writes.map ClientWrite.command).foldlM Database.exec (fun _ => none) = some db ∧
      Isolated writes db := by
  have hempty : Represents (fun _ => none) Stores.empty := by
    intro key
    cases key with
    | justification | cursor => rfl
    | sortedBlock | ranges => rfl
  obtain ⟨db, hrun, hdb⟩ := hempty.foldlM_exec writes
  refine ⟨db, hrun, ?_, ?_, ?_, ?_⟩
  · intro id b
    rw [hdb.getJustification, justifications_foldl_write]
    rfl
  · intro id start stop
    rw [hdb.getBlocksInRange, justifications_foldl_write]
    rfl
  · intro key
    rw [hdb.getContractCursor]
    exact (AgreesAt.foldl_write ⟨rfl, rfl⟩).cursor
  · intro key
    rw [hdb.rangeMembers, (AgreesAt.foldl_write (s := .empty) ⟨rfl, rfl⟩).ranges]
    rfl

end RedisClient

end VectorX
