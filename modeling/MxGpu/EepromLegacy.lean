import MxGpu.ByteWrites
import MxGpu.RasEeprom

/- The records of a table in the formats before V3 (`hw/common/ras_eeprom_legacy.c`). A record does
not cross a page of 256 bytes, and behind the end of the EEPROM the table starts again. -/
namespace MxGpu.Ras.Legacy

open ByteStore List

inductive Version
  | v1
  | v2
  | v21
  deriving DecidableEq

variable (version : Version)

/-- `EEPROM_RECORD_START`, `EEPROM_RECORD_START_V2` and `EEPROM_RECORD_START_V2_1`. -/
def recordStart : Version → Nat
  | .v1 | .v2 => 20
  | .v21 => 276

def maxRecordNum : Version → Nat
  | .v1 => (256000 - 256) / 256 * (256 / 24)
  | .v2 => 100
  | .v21 => (256000 - 256 - 256) / 256 * (256 / 24)

/-- Where `__update_extra_gpu_info` writes, and how much. -/
def extraGpuInfo : Version → Option (Nat × Nat)
  | .v1 => none
  | .v2 => some (20 + 24 * 100, 8)
  | .v21 => some (20, 4)

def recordEnd : Version → Nat
  | .v1 | .v21 => 256000
  | .v2 => 20 + 24 * 100

def correctEepromDestAddress (currAddress : Nat) : Nat :=
  let nextAddress := u32 (currAddress + 24)
  if 256000 < nextAddress then recordStart version
  else if currAddress &&& 0x3ff00 ≠ nextAddress &&& 0x3ff00 then nextAddress &&& 0x3ff00
  else currAddress

/-- The address of a message: bits 16 and 17 are bits 1 and 2 of the device address, and the others
are its first two bytes. -/
def messageAddress (nextAddr : Nat) : Nat :=
  let deviceBits := (nextAddr &&& 0x3ff00) >>> 15
  (deviceBits >>> 1 &&& 3) <<< 16 ||| (nextAddr >>> 8 &&& 0xff) <<< 8 ||| (nextAddr &&& 0xff)

/-- The addresses that the loop of `ras_eeprom_legacy_process_records` puts into messages. -/
def msgAddrs (nextAddr : Nat) : Nat → List Nat
  | 0 => []
  | num + 1 =>
    let addr := correctEepromDestAddress version nextAddr
    messageAddress addr :: msgAddrs (u32 (addr + 24)) num

/-- `next_addr` after the loop. -/
def nextAfter (nextAddr : Nat) : Nat → Nat
  | 0 => nextAddr
  | num + 1 => nextAfter (u32 (correctEepromDestAddress version nextAddr + 24)) num

/-- `next_addr` and `num_recs`, and what is in the EEPROM. -/
structure Table where
  nextAddr : Nat
  numRecs : Nat
  rom : Store

/-- The records that one call writes, and the header and the extra info that it writes behind
them. -/
structure Batch where
  records : List Record
  header : List UInt8
  info : List UInt8
  header_length : header.length = 20
  info_length : ∀ place ∈ extraGpuInfo version, info.length = place.2

variable {version}

def Batch.tail (batch : Batch version) : List (Nat × List UInt8) :=
  (0, batch.header) :: ((extraGpuInfo version).map fun place => (place.1, batch.info)).toList

/-- `ras_eeprom_legacy_process_records` to write, with the addresses that it visits; the transfer
goes through. -/
def processWrite (table : Table) (batch : Batch version) : Table × List Nat :=
  let num := batch.records.length
  if num = 0 ∨ maxRecordNum version < num then (table, [])
  else
    -- all versions start again at the first
    let nextAddr := if 256000 < u32 (table.nextAddr + 24 * num) then 20 else table.nextAddr
    let addrs := msgAddrs version nextAddr num
    ({ nextAddr := nextAfter version nextAddr num
       numRecs := u32 (table.numRecs + num)
       rom := applyWrites table.rom
        (addrs.zip (batch.records.map Record.toBuf) ++ batch.tail) }, addrs)

variable (version)

/-- `ras_eeprom_legacy_process_records` to read, with the addresses that it visits and the
records. -/
def processRead (table : Table) (num : Nat) : Table × List Nat × List Record :=
  if num = 0 ∨ maxRecordNum version < num then (table, [], [])
  else
    let addrs := msgAddrs version table.nextAddr num
    ({ table with nextAddr := nextAfter version table.nextAddr num }, addrs,
      addrs.map fun addr => Record.ofBuf (read table.rom addr 24))

variable {version}

def writeAll (table : Table) : List (Batch version) → Table × List Nat
  | [] => (table, [])
  | batch :: rest =>
    let call := processWrite table batch
    let further := writeAll call.1 rest
    (further.1, call.2 ++ further.2)

variable (version)

def readAll (table : Table) : List Nat → Table × List Nat × List Record
  | [] => (table, [], [])
  | num :: rest =>
    let call := processRead version table num
    let further := readAll call.1 rest
    (further.1, call.2.1 ++ further.2.1, call.2.2 ++ further.2.2)

def InArea (addr : Nat) : Prop := recordStart version ≤ addr ∧ addr + 24 ≤ recordEnd version

def roomV2 (addr : Nat) : Nat :=
  if addr < 2304 then (255 - addr % 256) / 24 + 10 * (8 - addr / 256) + 4 else (2420 - addr) / 24

/-- A call stays in the record area: it starts there, in V2 it has room before the extra info, and
in the others it does not come to the last page 24 bytes before its end. -/
def StaysInside (nextAddr num : Nat) : Prop :=
  (recordStart version ≤ nextAddr ∨ 256000 < nextAddr + 24) ∧
    match version with
    | .v2 => num ≤ roomV2 (if 256000 < nextAddr + 24 then 20 else nextAddr)
    | .v1 | .v21 => ¬ (255744 ≤ nextAddr ∧ nextAddr ≤ 255976 ∧ nextAddr % 24 = 16 ∧
        255976 < nextAddr + 24 * num)

/-- A call that writes starts where a read would: it ends before the end of the EEPROM, or a read
starts again at the same address. -/
def StartsAlike (nextAddr num : Nat) : Prop :=
  nextAddr + 24 * num ≤ 256000 ∨ 256000 < nextAddr + 24 ∧ recordStart version = 20

variable {version}

def Meets (table : Table) : List (Batch version) → Prop
  | [] => True
  | batch :: rest =>
    (batch.records ≠ [] → StartsAlike version table.nextAddr batch.records.length ∧
      StaysInside version table.nextAddr batch.records.length) ∧
      Meets (processWrite table batch).1 rest

section Addresses

theorem and_msbMask {addr : Nat} (small : addr < 2 ^ 18) : addr &&& 0x3ff00 = addr / 256 * 256 := by
  have bits : (0x3ff00 : Nat) = (2 ^ 10 - 1) <<< 8 := rfl
  have page : addr / 256 < 2 ^ 10 := by omega
  calc addr &&& 0x3ff00 = (addr >>> 8 &&& 2 ^ 10 - 1) <<< 8 := by
        rw [bits]
        apply Nat.eq_of_testBit_eq
        intro j
        simp only [Nat.testBit_and, Nat.testBit_shiftLeft, Nat.testBit_shiftRight]
        by_cases high : 8 ≤ j
        · simp [high]
        · simp [high]
    _ = addr / 256 * 256 := by
        rw [Nat.and_two_pow_sub_one_eq_mod, Nat.shiftRight_eq_div_pow, Nat.shiftLeft_eq,
          Nat.mod_eq_of_lt page]

theorem messageAddress_eq {addr : Nat} (small : addr < 2 ^ 18) : messageAddress addr = addr := by
  have device : (addr / 256 * 256) >>> 15 >>> 1 &&& 3 = addr / 65536 := by
    rw [Nat.and_two_pow_sub_one_eq_mod _ 2, Nat.shiftRight_eq_div_pow, Nat.shiftRight_eq_div_pow]
    omega
  have middle : addr >>> 8 &&& 0xff = addr / 256 % 256 := by
    rw [Nat.and_two_pow_sub_one_eq_mod _ 8, Nat.shiftRight_eq_div_pow]
  have low : addr &&& 0xff = addr % 256 := Nat.and_two_pow_sub_one_eq_mod addr 8
  have upper : (addr / 65536) <<< 16 ||| (addr / 256 % 256) <<< 8 = (addr / 256) <<< 8 := by
    have fits : (addr / 256 % 256) <<< 8 < 2 ^ 16 := by
      rw [Nat.shiftLeft_eq]
      omega
    rw [← Nat.shiftLeft_add_eq_or_of_lt fits, Nat.shiftLeft_eq, Nat.shiftLeft_eq, Nat.shiftLeft_eq]
    omega
  have fits : addr % 256 < 2 ^ 8 := Nat.mod_lt addr (by decide)
  simp only [messageAddress]
  rw [and_msbMask small, device, middle, low, upper, ← Nat.shiftLeft_add_eq_or_of_lt fits,
    Nat.shiftLeft_eq]
  omega

variable {version : Version} {a n : Nat}

/-- Where the record after `a` goes. -/
def slot (version : Version) (a : Nat) : Nat :=
  if 256000 < a + 24 then recordStart version
  else if a / 256 = (a + 24) / 256 then a
  else (a + 24) / 256 * 256

theorem slot_cases (version : Version) (a : Nat) :
    256000 < a + 24 ∧ slot version a = recordStart version ∨
      a + 24 ≤ 256000 ∧ a / 256 = (a + 24) / 256 ∧ slot version a = a ∨
      a + 24 ≤ 256000 ∧ a / 256 ≠ (a + 24) / 256 ∧ slot version a = (a + 24) / 256 * 256 := by
  unfold slot
  split
  · rename_i past
    exact .inl ⟨past, rfl⟩
  · rename_i inside
    have inside := Nat.le_of_not_lt inside
    split
    · rename_i same
      exact .inr (.inl ⟨inside, same, rfl⟩)
    · rename_i crosses
      exact .inr (.inr ⟨inside, crosses, rfl⟩)

def slots (version : Version) (a : Nat) : Nat → List Nat
  | 0 => []
  | n + 1 => slot version a :: slots version (slot version a + 24) n

theorem recordStart_le (version : Version) : recordStart version ≤ 276 := by
  cases version <;> decide

theorem slot_le (version : Version) (a : Nat) : slot version a ≤ 256000 := by
  have start := recordStart_le version
  unfold slot
  split
  · omega
  · split <;> omega

theorem correctEepromDestAddress_eq (version : Version) (small : a < 2 ^ 18) :
    correctEepromDestAddress version a = slot version a := by
  have next : u32 (a + 24) = a + 24 := Nat.mod_eq_of_lt (by omega)
  simp only [correctEepromDestAddress, slot, next]
  by_cases past : 256000 < a + 24
  · rw [if_pos past, if_pos past]
  · rw [if_neg past, if_neg past, and_msbMask small, and_msbMask (by omega)]
    by_cases same : a / 256 = (a + 24) / 256
    · rw [if_pos same, if_neg (by omega)]
    · rw [if_neg same, if_pos (by omega)]

theorem msgAddrs_eq (version : Version) (small : a < 2 ^ 18) (n : Nat) :
    msgAddrs version a n = slots version a n := by
  induction n generalizing a with
  | zero => rfl
  | succ n ih =>
    have bound := slot_le version a
    have next : u32 (slot version a + 24) = slot version a + 24 := Nat.mod_eq_of_lt (by omega)
    simp only [msgAddrs, slots]
    rw [correctEepromDestAddress_eq version small, messageAddress_eq (by omega), next,
      ih (by omega)]

theorem nextAfter_lt (version : Version) (small : a < 2 ^ 18) (n : Nat) :
    nextAfter version a n < 2 ^ 18 := by
  induction n generalizing a with
  | zero => exact small
  | succ n ih =>
    have bound := slot_le version a
    have next : u32 (slot version a + 24) = slot version a + 24 := Nat.mod_eq_of_lt (by omega)
    simp only [nextAfter]
    rw [correctEepromDestAddress_eq version small, next]
    exact ih (by omega)

theorem nextAfter_succ (version : Version) (small : a < 2 ^ 18) (n : Nat) :
    nextAfter version a (n + 1) = nextAfter version (slot version a + 24) n := by
  have bound := slot_le version a
  have next : u32 (slot version a + 24) = slot version a + 24 := Nat.mod_eq_of_lt (by omega)
  simp only [nextAfter]
  rw [correctEepromDestAddress_eq version small, next]

theorem slots_add (version : Version) (small : a < 2 ^ 18) (m n : Nat) :
    slots version a (m + n) = slots version a m ++ slots version (nextAfter version a m) n := by
  induction m generalizing a with
  | zero =>
    rw [Nat.zero_add]
    rfl
  | succ m ih =>
    have bound := slot_le version a
    rw [Nat.succ_add, slots, slots, ih (by omega), nextAfter_succ version small, cons_append]

@[simp] theorem slots_length (version : Version) (a n : Nat) :
    (slots version a n).length = n := by
  induction n generalizing a with
  | zero => rfl
  | succ n ih => rw [slots, length_cons, ih]

end Addresses

section Area

variable {version : Version} {a n : Nat}

theorem staysInside_v2 : StaysInside .v2 a n ↔
    (20 ≤ a ∨ 256000 < a + 24) ∧ n ≤ roomV2 (if 256000 < a + 24 then 20 else a) := Iff.rfl

theorem roomV2_slot (inside : a + 24 ≤ 256000) : roomV2 a =
    if slot .v2 a + 24 ≤ 2420 then roomV2 (slot .v2 a + 24) + 1 else 0 := by
  rcases slot_cases .v2 a with ⟨past, -⟩ | ⟨-, same, eq⟩ | ⟨-, crosses, eq⟩
  · omega
  · rw [eq]
    unfold roomV2
    split_ifs <;> omega
  · rw [eq]
    unfold roomV2
    split_ifs <;> omega

theorem staysInside_v2_succ (a n : Nat) : StaysInside .v2 a (n + 1) ↔
    InArea .v2 (slot .v2 a) ∧ (n = 0 ∨ StaysInside .v2 (slot .v2 a + 24) n) := by
  rw [staysInside_v2, staysInside_v2, InArea, recordStart, recordEnd]
  rcases slot_cases .v2 a with ⟨past, eq⟩ | ⟨inside, same, eq⟩ | ⟨inside, crosses, eq⟩
  · have first : roomV2 20 = 93 := by decide
    have second : roomV2 (slot .v2 a + 24) = 92 := by
      rw [eq]
      decide
    have again : slot .v2 a = 20 := eq
    rw [if_pos past, first, if_neg (by omega), second]
    omega
  · rw [if_neg (by omega), roomV2_slot inside]
    split_ifs <;> omega
  · rw [if_neg (by omega), roomV2_slot inside]
    split_ifs <;> omega

theorem staysInside_succ (version : Version) (a n : Nat) : StaysInside version a (n + 1) ↔
    InArea version (slot version a) ∧
      (n = 0 ∨ StaysInside version (slot version a + 24) n) := by
  cases version with
  | v1 =>
    simp only [StaysInside, InArea, recordEnd]
    rcases slot_cases .v1 a with ⟨past, eq⟩ | ⟨inside, same, eq⟩ | ⟨inside, crosses, eq⟩ <;>
      simp only [eq, recordStart] <;> omega
  | v2 => exact staysInside_v2_succ a n
  | v21 =>
    simp only [StaysInside, InArea, recordEnd]
    rcases slot_cases .v21 a with ⟨past, eq⟩ | ⟨inside, same, eq⟩ | ⟨inside, crosses, eq⟩ <;>
      simp only [eq, recordStart] <;> omega

theorem slots_inArea (version : Version) (a n : Nat) :
    (∀ addr ∈ slots version a n, InArea version addr) ↔ n = 0 ∨ StaysInside version a n := by
  induction n generalizing a with
  | zero => simp [slots]
  | succ n ih =>
    rw [slots, forall_mem_cons, ih, staysInside_succ]
    simp

end Area

section Apart

variable {version : Version} {a n : Nat}

def rank (addr : Nat) : Nat := 10 * (addr / 256) + 10 - (255 - addr % 256) / 24

theorem rank_mono {b : Nat} (le : a ≤ b) : rank a ≤ rank b := by
  unfold rank
  omega

theorem rank_slot (version : Version) (inside : InArea version (slot version a))
    (before : rank a < 10000) :
    rank (slot version a) = rank a ∧ rank (slot version a + 24) = rank a + 1 ∧
      a ≤ slot version a := by
  have bound : recordEnd version ≤ 256000 := by cases version <;> decide
  obtain ⟨-, fits⟩ := inside
  rcases slot_cases version a with ⟨past, eq⟩ | ⟨low, same, eq⟩ | ⟨low, crosses, eq⟩
  · unfold rank at before
    omega
  · rw [eq]
    unfold rank
    omega
  · rw [eq] at fits ⊢
    unfold rank at before ⊢
    omega

theorem slot_again (version : Version) (inside : InArea version (slot version a))
    (full : 10000 ≤ rank a) : slot version a = recordStart version := by
  have bound : recordEnd version ≤ 256000 := by cases version <;> decide
  obtain ⟨-, fits⟩ := inside
  unfold rank at full
  rcases slot_cases version a with ⟨past, eq⟩ | ⟨low, same, eq⟩ | ⟨low, crosses, eq⟩
  · exact eq
  · omega
  · omega

theorem rank_nextAfter (version : Version) (small : a < 2 ^ 18)
    (inside : ∀ addr ∈ slots version a n, InArea version addr) (fits : rank a + n ≤ 10000) :
    rank (nextAfter version a n) = rank a + n := by
  induction n generalizing a with
  | zero => rfl
  | succ n ih =>
    rw [slots, forall_mem_cons] at inside
    have bound := slot_le version a
    obtain ⟨-, one, -⟩ := rank_slot version inside.1 (by omega)
    rw [nextAfter_succ version small, ih (by omega) inside.2 (by omega), one]
    omega

theorem slots_increasing (version : Version)
    (inside : ∀ addr ∈ slots version a n, InArea version addr) (fits : rank a + n ≤ 10000) :
    (slots version a n).Pairwise (fun x y => x + 24 ≤ y) ∧
      ∀ addr ∈ slots version a n, a ≤ addr ∧ rank a ≤ rank addr ∧
        ∀ place, rank a + n < rank place → addr + 24 ≤ place := by
  induction n generalizing a with
  | zero => simp [slots]
  | succ n ih =>
    rw [slots, forall_mem_cons] at inside
    obtain ⟨first, further⟩ := inside
    obtain ⟨same, one, behind⟩ := rank_slot version first (by omega)
    obtain ⟨pairs, bounds⟩ := ih further (by omega)
    constructor
    · exact pairwise_cons.mpr ⟨fun addr listed => (bounds addr listed).1, pairs⟩
    · intro addr listed
      rcases mem_cons.mp listed with rfl | listed
      · refine ⟨behind, Nat.le_of_eq same.symm, fun place above => ?_⟩
        by_contra within
        have le := rank_mono (Nat.le_of_lt (Nat.lt_of_not_le within))
        omega
      · obtain ⟨low, high, ends⟩ := bounds addr listed
        refine ⟨by omega, by omega, fun place above => ends place (by omega)⟩

theorem slots_again (version : Version)
    (inside : ∀ addr ∈ slots version a n, InArea version addr) (full : 10000 ≤ rank a) :
    slots version a n = slots version (recordStart version) n := by
  cases n with
  | zero => rfl
  | succ n =>
    rw [slots, forall_mem_cons] at inside
    have start : slot version (recordStart version) = recordStart version := by
      cases version <;> decide
    rw [slots, slots, slot_again version inside.1 full, start]

theorem slots_apart (version : Version) (small : a < 2 ^ 18)
    (inside : ∀ addr ∈ slots version a n, InArea version addr) (few : n ≤ maxRecordNum version) :
    (slots version a n).Pairwise fun x y => x + 24 ≤ y ∨ y + 24 ≤ x := by
  have turn : rank (recordStart version) + maxRecordNum version < 10000 := by
    cases version <;> decide
  by_cases fits : rank a + n ≤ 10000
  · exact (slots_increasing version inside fits).1.imp .inl
  · -- the records up to the end, and those from the start again
    obtain ⟨k, last⟩ : ∃ k, k = 10000 - rank a := ⟨_, rfl⟩
    obtain ⟨rest, rfl⟩ : ∃ rest, n = k + rest := Nat.exists_eq_add_of_le (by omega)
    rw [slots_add version small, forall_mem_append] at inside
    obtain ⟨before, behind⟩ := inside
    have full : 10000 ≤ rank (nextAfter version a k) := by
      rcases Nat.eq_zero_or_pos k with rfl | positive
      · exact Nat.le_of_sub_eq_zero last.symm
      · rw [rank_nextAfter version small before (by omega)]
        omega
    have again := slots_again version behind full
    rw [again] at behind
    obtain ⟨pairs, bounds⟩ := slots_increasing version behind (by omega)
    rw [slots_add version small, again]
    refine pairwise_append.mpr ⟨?_, pairs.imp .inl, ?_⟩
    · rcases Nat.eq_zero_or_pos k with rfl | positive
      · exact List.Pairwise.nil
      · exact (slots_increasing version before (by omega)).1.imp .inl
    · intro x early y late
      right
      apply (bounds y late).2.2
      have positive : 0 < k := by
        rcases Nat.eq_zero_or_pos k with rfl | positive
        · cases early
        · exact positive
      have high := ((slots_increasing version before (by omega)).2 x early).2.1
      omega

end Apart

section Calls

variable {version : Version}

def total (batches : List (Batch version)) : Nat :=
  (batches.map fun batch => batch.records.length).sum

theorem maxRecordNum_le (version : Version) : maxRecordNum version ≤ 9990 := by
  cases version <;> decide

theorem processWrite_eq {table : Table} {batch : Batch version} (small : table.nextAddr < 2 ^ 18)
    (positive : 0 < batch.records.length) (few : batch.records.length ≤ maxRecordNum version) :
    let next := if 256000 < table.nextAddr + 24 * batch.records.length then 20
      else table.nextAddr
    processWrite table batch =
      ({ nextAddr := nextAfter version next batch.records.length
         numRecs := u32 (table.numRecs + batch.records.length)
         rom := applyWrites table.rom ((slots version next batch.records.length).zip
          (batch.records.map Record.toBuf) ++ batch.tail) },
        slots version next batch.records.length) := by
  have most := maxRecordNum_le version
  have sum : u32 (table.nextAddr + 24 * batch.records.length) =
      table.nextAddr + 24 * batch.records.length := Nat.mod_eq_of_lt (by omega)
  have some_ : ¬ (batch.records.length = 0 ∨ maxRecordNum version < batch.records.length) := by
    omega
  have low : (if 256000 < table.nextAddr + 24 * batch.records.length then 20
      else table.nextAddr) < 2 ^ 18 := by
    split
    · decide
    · exact small
  simp only [processWrite]
  rw [if_neg some_, sum, msgAddrs_eq version low]

theorem processWrite_nextAddr_lt {table : Table} {batch : Batch version}
    (small : table.nextAddr < 2 ^ 18) : (processWrite table batch).1.nextAddr < 2 ^ 18 := by
  simp only [processWrite]
  split
  · exact small
  · apply nextAfter_lt
    split
    · decide
    · exact small

theorem slot_startsAlike {a n : Nat} (positive : 0 < n) (few : n ≤ maxRecordNum version) :
    slot version (if 256000 < a + 24 * n then 20 else a) = slot version a ↔
      StartsAlike version a n := by
  have most := maxRecordNum_le version
  have first : slot version 20 = 20 := by cases version <;> decide
  unfold StartsAlike
  split
  · rename_i past
    rw [first]
    rcases slot_cases version a with ⟨high, eq⟩ | ⟨low, same, eq⟩ | ⟨low, crosses, eq⟩
    · rw [eq]
      omega
    · rw [eq]
      omega
    · rw [eq]
      omega
  · omega

theorem slots_congr {a b n : Nat} (small : a < 2 ^ 18) (small' : b < 2 ^ 18) (positive : 0 < n)
    (same : slot version a = slot version b) :
    slots version a n = slots version b n ∧ nextAfter version a n = nextAfter version b n := by
  obtain ⟨n, rfl⟩ := Nat.exists_eq_add_one_of_ne_zero (Nat.ne_of_gt positive)
  rw [slots, slots, nextAfter_succ version small, nextAfter_succ version small', same]
  exact ⟨rfl, rfl⟩

theorem total_cons (batch : Batch version) (rest : List (Batch version)) :
    total (batch :: rest) = batch.records.length + total rest := by
  simp [total]

theorem writeAll_cons (table : Table) (batch : Batch version) (rest : List (Batch version)) :
    writeAll table (batch :: rest) = ((writeAll (processWrite table batch).1 rest).1,
      (processWrite table batch).2 ++ (writeAll (processWrite table batch).1 rest).2) := rfl

theorem processWrite_nil {table : Table} {batch : Batch version} (empty : batch.records = []) :
    processWrite table batch = (table, []) := by
  simp [processWrite, empty]

theorem writeAll_iff {table : Table} {batches : List (Batch version)}
    (small : table.nextAddr < 2 ^ 18) (few : total batches ≤ maxRecordNum version) :
    (writeAll table batches).2 = slots version table.nextAddr (total batches) ∧
      (∀ addr ∈ (writeAll table batches).2, InArea version addr) ↔ Meets table batches := by
  induction batches generalizing table with
  | nil => simp [writeAll, Meets, total, slots]
  | cons batch rest ih =>
    rw [total_cons] at few
    have small' : (processWrite table batch).1.nextAddr < 2 ^ 18 := processWrite_nextAddr_lt small
    rw [writeAll_cons, Meets, total_cons, ← ih small' (by omega)]
    by_cases empty : batch.records = []
    · rw [processWrite_nil empty, empty, length_nil, Nat.zero_add, nil_append]
      simp
    · have positive : 0 < batch.records.length := length_pos_iff.mpr empty
      have alike : slot version (if 256000 < table.nextAddr + 24 * batch.records.length then 20
          else table.nextAddr) = slot version table.nextAddr ↔
          StartsAlike version table.nextAddr batch.records.length :=
        slot_startsAlike positive (by omega)
      rw [processWrite_eq small positive (by omega)]
      have low : (if 256000 < table.nextAddr + 24 * batch.records.length then 20
          else table.nextAddr) < 2 ^ 18 := by
        split
        · decide
        · exact small
      generalize (if 256000 < table.nextAddr + 24 * batch.records.length then 20
          else table.nextAddr) = next at alike low ⊢
      rw [slots_add version small, forall_mem_append, forall_prop_of_true empty]
      simp only
      constructor
      · rintro ⟨same, inside, further⟩
        obtain ⟨first, later⟩ := append_inj same (by rw [slots_length, slots_length])
        have equal : slot version next = slot version table.nextAddr := by
          obtain ⟨n, count⟩ := Nat.exists_eq_add_one_of_ne_zero (Nat.ne_of_gt positive)
          rw [count, slots, slots] at first
          exact (cons.inj first).1
        rw [first, slots_inArea] at inside
        rw [(slots_congr low small positive equal).2]
        rw [(slots_congr low small positive equal).2] at later further
        exact ⟨⟨alike.mp equal, inside.resolve_left (Nat.ne_of_gt positive)⟩, later, further⟩
      · rintro ⟨⟨starts, stays⟩, later, further⟩
        obtain ⟨first, after⟩ := slots_congr low small positive (alike.mpr starts)
        rw [after, first] at later further ⊢
        rw [slots_inArea]
        exact ⟨by rw [later], .inr stays, further⟩

theorem tail_misses {batch : Batch version} {addr : Nat} (inside : InArea version addr) :
    ∀ entry ∈ batch.tail, Misses addr 24 entry := by
  obtain ⟨above, below⟩ := inside
  intro entry listed
  unfold Misses
  rcases mem_cons.mp listed with rfl | listed
  · have length := batch.header_length
    have start : 20 ≤ recordStart version := by cases version <;> decide
    simp only
    omega
  · obtain ⟨place, given, rfl⟩ := Option.map_eq_some_iff.mp (Option.mem_toList.mp listed)
    have length := batch.info_length place given
    cases version with
    | v1 => cases given
    | v2 =>
      cases given
      left
      exact below
    | v21 =>
      cases given
      right
      simp only [recordStart] at above
      simp only at length ⊢
      omega

theorem processWrite_keeps {table : Table} {batch : Batch version} (small : table.nextAddr < 2 ^ 18)
    (few : batch.records.length ≤ maxRecordNum version) {addr : Nat}
    (inside : InArea version addr)
    (apart : ∀ other ∈ (processWrite table batch).2, addr + 24 ≤ other ∨ other + 24 ≤ addr) :
    read (processWrite table batch).1.rom addr 24 = read table.rom addr 24 := by
  by_cases empty : batch.records = []
  · rw [processWrite_nil empty]
  · rw [processWrite_eq small (length_pos_iff.mpr empty) few] at apart ⊢
    apply read_applyWrites
    intro entry listed
    rcases mem_append.mp listed with record | tail
    · obtain ⟨place, cell⟩ := of_mem_zip (show (entry.1, entry.2) ∈ _ from record)
      obtain ⟨given, -, same⟩ := mem_map.mp cell
      have length : entry.2.length = 24 := by
        rw [← same]
        exact Record.toBuf_length given
      have away := apart entry.1 place
      unfold Misses
      omega
    · exact tail_misses inside entry tail

theorem writeAll_keeps {table : Table} {batches : List (Batch version)}
    (small : table.nextAddr < 2 ^ 18) (few : total batches ≤ maxRecordNum version) {addr : Nat}
    (inside : InArea version addr)
    (apart : ∀ other ∈ (writeAll table batches).2, addr + 24 ≤ other ∨ other + 24 ≤ addr) :
    read (writeAll table batches).1.rom addr 24 = read table.rom addr 24 := by
  induction batches generalizing table with
  | nil => rfl
  | cons batch rest ih =>
    rw [total_cons] at few
    rw [writeAll_cons, forall_mem_append] at apart
    rw [writeAll_cons]
    rw [ih (processWrite_nextAddr_lt small) (by omega) apart.2]
    exact processWrite_keeps small (by omega) inside apart.1

theorem processWrite_rom {table : Table} {batch : Batch version} (small : table.nextAddr < 2 ^ 18)
    (few : batch.records.length ≤ maxRecordNum version)
    (inside : ∀ addr ∈ (processWrite table batch).2, InArea version addr)
    (apart : (processWrite table batch).2.Pairwise fun x y => x + 24 ≤ y ∨ y + 24 ≤ x) :
    (processWrite table batch).2.map (fun addr => read (processWrite table batch).1.rom addr 24) =
      batch.records.map Record.toBuf := by
  by_cases empty : batch.records = []
  · rw [processWrite_nil empty, empty]
    rfl
  · rw [processWrite_eq small (length_pos_iff.mpr empty) few] at inside apart ⊢
    generalize (if 256000 < table.nextAddr + 24 * batch.records.length then 20
      else table.nextAddr) = next at inside apart ⊢
    have sizes : ∀ cell ∈ batch.records.map Record.toBuf, cell.length = 24 := by
      intro cell listed
      obtain ⟨given, -, rfl⟩ := mem_map.mp listed
      exact Record.toBuf_length given
    have lengths : (slots version next batch.records.length).length =
        (batch.records.map Record.toBuf).length := by
      rw [slots_length, length_map]
    have cells := @read_applyWrites_zip table.rom 24 _ _ sizes lengths apart
    refine Eq.trans ?_ cells
    apply map_congr_left
    intro addr listed
    rw [applyWrites_append]
    exact read_applyWrites (tail_misses (inside addr listed))

def written (batches : List (Batch version)) : List Record := batches.flatMap Batch.records

theorem writeAll_rom {table : Table} {batches : List (Batch version)}
    (small : table.nextAddr < 2 ^ 18) (few : total batches ≤ maxRecordNum version)
    (inside : ∀ addr ∈ (writeAll table batches).2, InArea version addr)
    (apart : (writeAll table batches).2.Pairwise fun x y => x + 24 ≤ y ∨ y + 24 ≤ x) :
    (writeAll table batches).2.map (fun addr => read (writeAll table batches).1.rom addr 24) =
      (written batches).map Record.toBuf := by
  induction batches generalizing table with
  | nil => rfl
  | cons batch rest ih =>
    rw [total_cons] at few
    rw [writeAll_cons] at inside apart ⊢
    rw [forall_mem_append] at inside
    obtain ⟨first, further, between⟩ := pairwise_append.mp apart
    have small' : (processWrite table batch).1.nextAddr < 2 ^ 18 := processWrite_nextAddr_lt small
    have later := ih small' (by omega) inside.2 further
    have here := processWrite_rom small (by omega) inside.1 first
    have kept : ∀ addr ∈ (processWrite table batch).2,
        read (writeAll (processWrite table batch).1 rest).1.rom addr 24 =
          read (processWrite table batch).1.rom addr 24 := by
      intro addr listed
      exact writeAll_keeps small' (by omega) (inside.1 addr listed) (between addr listed)
    have split : written (batch :: rest) = batch.records ++ written rest := rfl
    rw [map_append, later, map_congr_left kept, here, split, map_append]

theorem processRead_eq {table : Table} {n : Nat} (small : table.nextAddr < 2 ^ 18)
    (few : n ≤ maxRecordNum version) : processRead version table n =
      ({ table with nextAddr := nextAfter version table.nextAddr n },
        slots version table.nextAddr n, (slots version table.nextAddr n).map fun addr =>
          Record.ofBuf (read table.rom addr 24)) := by
  cases n with
  | zero => rfl
  | succ n =>
    simp only [processRead]
    rw [if_neg (by omega), msgAddrs_eq version small]

theorem readAll_eq {table : Table} {counts : List Nat} (small : table.nextAddr < 2 ^ 18)
    (few : counts.sum ≤ maxRecordNum version) : (readAll version table counts).2 =
      (slots version table.nextAddr counts.sum, (slots version table.nextAddr counts.sum).map
        fun addr => Record.ofBuf (read table.rom addr 24)) := by
  induction counts generalizing table with
  | nil => rfl
  | cons n rest ih =>
    rw [sum_cons] at few ⊢
    have call := processRead_eq small (show n ≤ maxRecordNum version by omega)
    have next : nextAfter version table.nextAddr n < 2 ^ 18 := nextAfter_lt version small n
    simp only [readAll, call]
    rw [ih next (by omega), slots_add version small, map_append]

theorem writeAll_numRecs {table : Table} {batches : List (Batch version)}
    (few : total batches ≤ maxRecordNum version) (fits : table.numRecs + total batches < 2 ^ 32) :
    (writeAll table batches).1.numRecs = table.numRecs + total batches := by
  induction batches generalizing table with
  | nil => rfl
  | cons batch rest ih =>
    rw [total_cons] at few fits ⊢
    have call : (processWrite table batch).1.numRecs =
        table.numRecs + batch.records.length := by
      by_cases empty : batch.records = []
      · rw [processWrite_nil empty, empty, length_nil, Nat.add_zero]
      · have some_ := length_pos_iff.mpr empty
        simp only [processWrite]
        rw [if_neg (by omega)]
        exact Nat.mod_eq_of_lt (by omega)
    rw [writeAll_cons, ih (by omega) (by omega), call, Nat.add_assoc]

end Calls

/-- From any start address, the calls that write visit what reads of all their records visit then,
only in the record area, and the reads return what was written, exactly when each call starts
alike and stays inside. -/
theorem legacy_walk_iff {version : Version} {start : Nat} {rom : Store}
    {batches : List (Batch version)} (small : start < 2 ^ 18)
    (few : total batches ≤ maxRecordNum version) :
    (∀ counts, counts.sum = (writeAll ⟨start, 0, rom⟩ batches).1.numRecs →
        (readAll version ⟨start, (writeAll ⟨start, 0, rom⟩ batches).1.numRecs,
          (writeAll ⟨start, 0, rom⟩ batches).1.rom⟩ counts).2 =
          ((writeAll ⟨start, 0, rom⟩ batches).2, (written batches).map Record.stored)) ∧
      (∀ addr ∈ (writeAll ⟨start, 0, rom⟩ batches).2, InArea version addr) ↔
      Meets ⟨start, 0, rom⟩ batches := by
  obtain ⟨table, eq⟩ : ∃ table : Table, table = ⟨start, 0, rom⟩ := ⟨_, rfl⟩
  have low : table.nextAddr < 2 ^ 18 := by rwa [eq]
  have next : table.nextAddr = start := by rw [eq]
  have most := maxRecordNum_le version
  have numRecs : (writeAll table batches).1.numRecs = total batches := by
    have zero : table.numRecs = 0 := by rw [eq]
    rw [writeAll_numRecs few (by omega), zero, Nat.zero_add]
  rw [← eq, numRecs, ← writeAll_iff low few, next]
  have reads : ∀ counts : List Nat, counts.sum = total batches →
      (readAll version ⟨start, total batches, (writeAll table batches).1.rom⟩ counts).2 =
        (slots version start (total batches), (slots version start (total batches)).map
          fun addr => Record.ofBuf (read (writeAll table batches).1.rom addr 24)) := by
    intro counts sum
    rw [readAll_eq small (by omega), sum]
  constructor
  · rintro ⟨same, inside⟩
    have one := same [total batches] sum_singleton
    rw [reads _ sum_singleton] at one
    exact ⟨(congrArg Prod.fst one).symm, inside⟩
  · rintro ⟨same, inside⟩
    refine ⟨fun counts sum => ?_, inside⟩
    have apart := slots_apart version small (same ▸ inside) few
    rw [← same] at apart
    have cells := writeAll_rom low few inside apart
    have decoded := congrArg (map Record.ofBuf) cells
    rw [map_map, map_map] at decoded
    rw [reads counts sum, ← same]
    refine Prod.ext rfl (Eq.trans decoded ?_)
    exact map_congr_left fun record _ => Record.ofBuf_toBuf record

def sixRecords (page : UInt64) : Batch .v21 where
  records := replicate 6 ⟨1, 0, 0, 0, 0, 0, page⟩
  header := replicate 20 0
  info := replicate 4 0
  header_length := rfl
  info_length := by
    rintro place ⟨⟩
    rfl

/-- Two batches from 276 on, which cross the page of the EEPROM at 512, are read in three calls. -/
theorem legacy_walk_crossing :
    let done := writeAll ⟨276, 0, fun _ => 0⟩ [sixRecords 7, sixRecords 9]
    (readAll .v21 ⟨276, done.1.numRecs, done.1.rom⟩ [5, 5, 2]).2.2 =
      ((sixRecords 7).records ++ (sixRecords 9).records).map Record.stored := by
  have meets : Meets ⟨276, 0, fun _ => 0⟩ [sixRecords 7, sixRecords 9] :=
    ⟨fun _ => ⟨.inl (by decide), .inl (by decide), by decide⟩,
      fun _ => ⟨.inl (by decide), .inl (by decide), by decide⟩, trivial⟩
  have reads := ((legacy_walk_iff (by decide) (by decide)).mpr meets).1 [5, 5, 2] (by decide)
  dsimp only
  rw [reads]
  rfl

def manyRecords : Batch .v2 where
  records := replicate 94 ⟨1, 0, 0, 0, 0, 0, 16⟩
  header := replicate 20 0
  info := replicate 8 0
  header_length := rfl
  info_length := by
    rintro place ⟨⟩
    rfl

/-- The last of them is where the extra info is written. -/
theorem extra_info_overlapped : ¬ ∀ (version : Version) (rom : Store)
    (batches : List (Batch version)), total batches ≤ maxRecordNum version →
      ∀ addr ∈ (writeAll ⟨recordStart version, 0, rom⟩ batches).2, InArea version addr := by
  intro all
  have inside := all .v2 (fun _ => 0) [manyRecords] (by decide)
  have small : (Table.mk 20 0 fun _ => 0).nextAddr < 2 ^ 18 := by decide
  have positive : 0 < manyRecords.records.length := by decide
  have few : manyRecords.records.length ≤ maxRecordNum .v2 := by decide
  rw [writeAll_cons, forall_mem_append] at inside
  have first := inside.1
  rw [recordStart, processWrite_eq small positive few, slots_inArea] at first
  rcases first with none_ | ⟨-, room⟩
  · exact absurd none_ (by decide)
  · exact absurd room (by decide)

end MxGpu.Ras.Legacy
