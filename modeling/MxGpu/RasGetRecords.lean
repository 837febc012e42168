import MxGpu.PendingBanks
import MxGpu.RasPages

/- Reading EEPROM records by index, from the table that the driver keeps (`rascore/ras_eeprom.c`)
and from the one that the firmware keeps (`rascore/ras_eeprom_fw.c`). -/
namespace MxGpu.Ras

open SlotRing PendingBanks Function

section Reading

variable {α : Type}

/-- A read of `num` records from `start` on gives the records at these places. -/
def Reads (record : Nat → Option α) (start num : Nat) (result : Option (List α)) : Prop :=
  ∃ records, result = some records ∧ records.length = num ∧
    ∀ i < num, records[i]? = record (start + i)

def readOne (get : Nat → Nat → Option (List α)) (i : Nat) : Option α :=
  (get i 1).bind List.head?

def oneByOne (get : Nat → Nat → Option (List α)) : List Nat → List (Nat × α)
  | [] => []
  | i :: rest =>
    match readOne get i with
    | none => []
    | some record => (i, record) :: oneByOne get rest

theorem Reads.none_iff {record : Nat → Option α} {start num : Nat} :
    Reads record start num none ↔ False :=
  iff_of_false (fun ⟨_, none_, _⟩ => Option.some_ne_none _ none_.symm) id

theorem Reads.some_iff {record : Nat → Option α} {start num : Nat} {records : List α} :
    Reads record start num (some records) ↔
      records.length = num ∧ ∀ i < num, records[i]? = record (start + i) := by
  constructor
  · rintro ⟨_, same, read⟩
    cases same
    exact read
  · intro read
    exact ⟨records, rfl, read⟩

theorem Reads.one (record : Nat → Option α) {get : Nat → Nat → Option (List α)} {i : Nat}
    (length : ∀ records, get i 1 = some records → records.length = 1) :
    Reads record i 1 (get i 1) ↔ readOne get i = record i ∧ record i ≠ none := by
  unfold readOne
  cases read : get i 1 with
  | none =>
    rw [Option.bind_none, Reads.none_iff]
    exact iff_of_false id fun ⟨same, some_⟩ => some_ same.symm
  | some records =>
    obtain ⟨one, rfl⟩ := List.length_eq_one_iff.mp (length records read)
    rw [Option.bind_some, List.head?_cons, Reads.some_iff]
    constructor
    · rintro ⟨-, there⟩
      have first := there 0 Nat.one_pos
      rw [List.getElem?_cons_zero, Nat.add_zero] at first
      exact ⟨first, first ▸ Option.some_ne_none one⟩
    · rintro ⟨same, -⟩
      refine ⟨rfl, ?_⟩
      intro i less
      rw [Nat.lt_one_iff.mp less]
      exact same

theorem oneByOne_reads (record : Nat → Option α) (get : Nat → Nat → Option (List α))
    (length : ∀ i records, get i 1 = some records → records.length = 1) (first num : Nat) :
    Reads record first num (some ((oneByOne get (List.range' first num)).map Prod.snd)) ↔
      ∀ i, first ≤ i → i < first + num → Reads record i 1 (get i 1) := by
  induction num generalizing first with
  | zero =>
    refine iff_of_true ⟨[], rfl, rfl, nofun⟩ ?_
    intro i low high
    omega
  | succ num ih =>
    have here := Reads.one record (length first)
    have others : (∀ i, first ≤ i → i < first + (num + 1) → Reads record i 1 (get i 1)) ↔
        Reads record first 1 (get first 1) ∧
          ∀ i, first + 1 ≤ i → i < first + 1 + num → Reads record i 1 (get i 1) := by
      constructor
      · intro all
        exact ⟨all first (Nat.le_refl _) (by omega), fun i low high =>
          all i (by omega) (by omega)⟩
      · rintro ⟨now, later⟩ i low high
        rcases Nat.eq_or_lt_of_le low with rfl | further
        · exact now
        · exact later i further (by omega)
    rw [others, here, ← ih (first + 1), List.range'_succ]
    cases read : readOne get first with
    | none =>
      simp only [oneByOne, read, List.map_nil]
      rw [Reads.some_iff]
      constructor
      · rintro ⟨short, -⟩
        cases short
      · rintro ⟨⟨same, some_⟩, -⟩
        exact absurd same.symm some_
    | some one =>
      simp only [oneByOne, read, List.map_cons]
      rw [Reads.some_iff, Reads.some_iff]
      constructor
      · rintro ⟨long, there⟩
        have now := there 0 (Nat.succ_pos _)
        rw [List.getElem?_cons_zero, Nat.add_zero] at now
        refine ⟨⟨now, now ▸ Option.some_ne_none one⟩, Nat.succ.inj long, ?_⟩
        intro i less
        have later := there (i + 1) (Nat.succ_lt_succ less)
        rwa [List.getElem?_cons_succ, ← Nat.add_assoc, Nat.add_right_comm] at later
      · rintro ⟨⟨same, -⟩, long, there⟩
        refine ⟨congrArg Nat.succ long, ?_⟩
        intro i less
        cases i with
        | zero => exact same
        | succ i =>
          rw [List.getElem?_cons_succ, there i (Nat.lt_of_succ_lt_succ less)]
          congr 1
          omega

theorem mapM_reads {record get : Nat → Option α} (first num : Nat)
    (read : ∀ i, first ≤ i → i < first + num → get i = record i) :
    Reads record first num ((List.range' first num).mapM get) ↔
      ∀ i, first ≤ i → i < first + num → record i ≠ none := by
  constructor
  · rintro ⟨records, -, length, there⟩ i low high missing
    have less : i - first < num := by omega
    have at_ := there (i - first) less
    rw [Nat.add_sub_cancel' low, missing, List.getElem?_eq_none_iff, length] at at_
    omega
  · induction num generalizing first with
    | zero =>
      intro _
      exact ⟨[], rfl, rfl, nofun⟩
    | succ num ih =>
      intro all
      obtain ⟨one, here⟩ := Option.ne_none_iff_exists'.mp (all first (Nat.le_refl _) (by omega))
      obtain ⟨records, others, length, there⟩ := ih (first + 1)
        (fun i low high => read i (by omega) (by omega))
        fun i low high => all i (by omega) (by omega)
      refine ⟨one :: records, ?_, congrArg Nat.succ length, ?_⟩
      · rw [List.range'_succ, List.mapM_cons, read first (Nat.le_refl _) (by omega), here, others]
        rfl
      · intro i less
        cases i with
        | zero => exact here.symm
        | succ i =>
          rw [List.getElem?_cons_succ, there i (Nat.lt_of_succ_lt_succ less)]
          congr 1
          omega

theorem mapM_length {β : Type} {get : β → Option α} {places : List β} {records : List α}
    (read : places.mapM get = some records) : records.length = places.length := by
  induction places generalizing records with
  | nil =>
    cases read
    rfl
  | cons place rest ih =>
    rw [List.mapM_cons] at read
    simp only [Option.pure_def, Option.bind_eq_bind, Option.bind_eq_some_iff,
      Option.some.injEq] at read
    obtain ⟨record, -, others, further, rfl⟩ := read
    exact congrArg Nat.succ (ih further)

end Reading

section FirmwareTable

structure EepromErrRecord where
  timestamp : Nat
  mcaAddr : Nat
  ipid : Nat
  deriving DecidableEq

/-- `struct fw_eeprom_control`, with the records that were read and their count. -/
structure FwEepromControl where
  records : Nat → EepromErrRecord
  recordCount : Nat

def maxEepromErrRecordNum : Nat := 1024

/-- What MP1 answers: `ras_mp1_get_record_count` and `ras_mp1_get_record`. -/
structure Mp1 where
  recordCount : Option Nat
  record : Nat → Option EepromErrRecord

/-- The loop of `fw_eeprom_sync_data`. -/
def fwSyncRecords (mp1 : Mp1) (ctl : FwEepromControl) : List Nat → FwEepromControl
  | [] => ctl
  | idx :: rest =>
    match mp1.record idx with
    | none => ctl
    | some errRec =>
      fwSyncRecords mp1 ⟨update ctl.records idx errRec, u32 (idx + 1)⟩ rest

def fwEepromSyncData (mp1 : Mp1) (ctl : FwEepromControl) : FwEepromControl :=
  match mp1.recordCount with
  | none => ctl
  | some fwErrRecNum =>
    if fwErrRecNum = 0 ∨ fwErrRecNum = ctl.recordCount then ctl
    else if fwErrRecNum < ctl.recordCount then ctl
    else if maxEepromErrRecordNum < fwErrRecNum then ctl
    else fwSyncRecords mp1 ctl (List.range' ctl.recordCount (fwErrRecNum - ctl.recordCount))

/-- `fw_eeprom_get_record_count`; the count is in the control. -/
def fwEepromGetRecordCount (inReset : Bool) (mp1 : Mp1) (ctl : FwEepromControl) :
    FwEepromControl :=
  if inReset then ctl else fwEepromSyncData mp1 ctl

/-- `fw_eeprom_reset_ras_table`, if the firmware erases its table and if it does not. -/
def fwEepromResetRasTable (erased : Bool) (ctl : FwEepromControl) : FwEepromControl :=
  if erased then ⟨fun _ => ⟨0, 0, 0⟩, 0⟩ else ctl

def EepromErrRecord.bank (record : EepromErrRecord) (nps : Nat) : BankEcc :=
  ⟨record.timestamp, nps, 0, 0, record.ipid, record.mcaAddr⟩

def fwEepromGetRecord (env : LogEnv) (ctl : FwEepromControl) (idx : Nat) : Option UmcRecord :=
  if ctl.recordCount ≤ idx then none
  else bankToUmcRecord env ((ctl.records idx).bank env.umc.nps)

/-- `fw_eeprom_get_records`; `env` is what the record at a place meets. -/
def fwEepromGetRecords (env : Nat → LogEnv) (ctl : FwEepromControl) (start num : Nat) :
    Option (List UmcRecord) :=
  (List.range' start num).mapM fun i => fwEepromGetRecord (env i) ctl (u32 i)

structure FwSys where
  firmware : List EepromErrRecord
  control : FwEepromControl

inductive FwEvent
  /-- the firmware finds an error -/
  | found (record : EepromErrRecord)
  /-- `counted` and `acked` are whether the messages for the count and for a record are answered -/
  | getRecordCount (inReset counted : Bool) (acked : Nat → Bool)
  | reset (erased : Bool)

def FwSys.mp1 (s : FwSys) (counted : Bool) (acked : Nat → Bool) : Mp1 where
  recordCount := if counted then some (u32 s.firmware.length) else none
  record idx := if acked idx then s.firmware[idx]? else none

def fwNext (s : FwSys) : FwEvent → FwSys
  | .found record => { s with firmware := s.firmware ++ [record] }
  | .getRecordCount inReset counted acked =>
    { s with control := fwEepromGetRecordCount inReset (s.mp1 counted acked) s.control }
  | .reset erased =>
    { firmware := if erased then [] else s.firmware
      control := fwEepromResetRasTable erased s.control }

def FwStart (s : FwSys) : Prop := s.control.recordCount = 0

def FwRun : FwSys → Prop :=
  Transition.Run FwStart (fun s event s' => s' = fwNext s event) Transition.always

structure FwInv (s : FwSys) : Prop where
  few : s.control.recordCount ≤ maxEepromErrRecordNum
  seen : ∀ i < s.control.recordCount, s.firmware[i]? = some (s.control.records i)

variable {s : FwSys}

theorem fwSyncRecords_inv {mp1 : Mp1}
    (honest : ∀ idx record, mp1.record idx = some record → s.firmware[idx]? = some record)
    (num : Nat) {ctl : FwEepromControl} (inv : FwInv ⟨s.firmware, ctl⟩)
    (few : ctl.recordCount + num ≤ maxEepromErrRecordNum) :
    FwInv ⟨s.firmware, fwSyncRecords mp1 ctl (List.range' ctl.recordCount num)⟩ := by
  induction num generalizing ctl with
  | zero => exact inv
  | succ num ih =>
    rw [List.range'_succ]
    unfold fwSyncRecords
    cases read : mp1.record ctl.recordCount with
    | none => exact inv
    | some errRec =>
      unfold maxEepromErrRecordNum at few
      have count : u32 (ctl.recordCount + 1) = ctl.recordCount + 1 := u32_of_lt (by omega)
      simp only [count]
      apply ih
      · constructor
        · unfold maxEepromErrRecordNum
          simp only
          omega
        · intro i less
          by_cases last : i = ctl.recordCount
          · rw [last]
            simp only [update_self]
            exact honest _ _ read
          · have before : i < ctl.recordCount := by
              simp only at less
              omega
            simp only [update_of_ne last]
            exact inv.seen i before
      · unfold maxEepromErrRecordNum
        simp only
        omega

theorem FwInv.next (inv : FwInv s) (event : FwEvent) : FwInv (fwNext s event) := by
  cases event with
  | found record =>
    refine ⟨inv.few, ?_⟩
    intro i less
    have old := inv.seen i less
    have within : i < s.firmware.length := (List.getElem?_eq_some_iff.mp old).1
    show (s.firmware ++ [record])[i]? = _
    rw [List.getElem?_append_left within]
    exact old
  | getRecordCount inReset counted acked =>
    show FwInv ⟨s.firmware, fwEepromGetRecordCount inReset (s.mp1 counted acked) s.control⟩
    unfold fwEepromGetRecordCount
    split
    · exact inv
    · unfold fwEepromSyncData
      split
      · exact inv
      · rename_i count answered
        split
        · exact inv
        · split
          · exact inv
          · split
            · exact inv
            · apply fwSyncRecords_inv _ _ inv
              · omega
              · intro idx record read
                simp only [FwSys.mp1] at read
                split at read
                · exact read
                · cases read
  | reset erased =>
    cases erased with
    | false => exact inv
    | true => exact ⟨Nat.zero_le _, nofun⟩

theorem FwRun.inv (run : FwRun s) : FwInv s := by
  refine Transition.Run.invariant FwInv ?_ ?_ run
  · intro s start
    rw [FwStart] at start
    refine ⟨by omega, ?_⟩
    intro i less
    omega
  · rintro s event _ inv - rfl
    exact inv.next event

end FirmwareTable

section Backends

def rasEepromGetRecords (t : Table) (_start num : Nat) : Option (List UmcRecord) :=
  (eepromRead t num).1.map fun records => records.map UmcRecord.loaded

/-- The operations that the EEPROM manager has for the IP version, `ras_drv_eeprom_ops` or
`ras_fw_eeprom_ops`, with what they work on. -/
inductive EepromOps
  | drv (t : Table)
  | fw (s : FwSys)

namespace EepromOps

variable (ops : EepromOps) (env : Nat → LogEnv)

/-- `ras_eeprom_mgr_get_record_count`, after the count of the firmware was read. -/
def recordCount : Nat :=
  match ops with
  | drv t => t.control.rasNumRecs
  | fw s => s.control.recordCount

def getRecords (start num : Nat) : Option (List UmcRecord) :=
  match ops with
  | drv t => rasEepromGetRecords t start num
  | fw s => fwEepromGetRecords env s.control start num

/-- The record at a place of the list that was appended to: the live records of the table, oldest
first, or the records that the firmware found. -/
def record (i : Nat) : Option UmcRecord :=
  match ops with
  | drv t => (live t)[i]?.map fun buf => UmcRecord.loaded (Record.ofBuf buf)
  | fw s => s.firmware[i]?.bind fun errRec =>
      bankToUmcRecord (env i) (errRec.bank (env i).umc.nps)

/-- The records that `ras_umc_dump_fw_records` hands to `ras_umc_add_bad_pages`. -/
def dumped (umcCount : Nat) : List (Nat × UmcRecord) :=
  oneByOne (ops.getRecords env) (List.range' umcCount (ops.recordCount - umcCount))

/-- The driver's table is as it was initialised and used, and the firmware's was reached. -/
def Sound : Prop :=
  match ops with
  | drv t => Sized t.control
  | fw s => FwRun s

/-- Records are read by index, and a dump adds every new one. -/
structure ByIndex (start num umcCount : Nat) : Prop where
  get : Reads (ops.record env) start num (ops.getRecords env start num)
  dump : Reads (ops.record env) umcCount (ops.recordCount - umcCount)
    (some ((ops.dumped env umcCount).map Prod.snd))

/-- What a read needs: in the driver's table, some record, and at each place the record that is as
far from the first place; in the firmware's, that the records convert. -/
def Meets (start num : Nat) : Prop :=
  match ops with
  | drv t => 0 < num ∧ ∀ i < num,
      (live t)[start + i]?.map Record.ofBuf = (live t)[i]?.map Record.ofBuf
  | fw s => ∀ i < num, ∀ errRec ∈ s.firmware[start + i]?,
      bankToUmcRecord (env (start + i)) (errRec.bank (env (start + i)).umc.nps) ≠ none

variable {ops} {env}

theorem drv_getRecords {t : Table} (sized : Sized t.control) {start num : Nat} (positive : 0 < num)
    (within : num ≤ t.control.rasNumRecs) :
    rasEepromGetRecords t start num = some (((live t).take num).map fun buf =>
      UmcRecord.loaded (Record.ofBuf buf)) := by
  unfold rasEepromGetRecords
  rw [eepromRead_live sized positive within, Option.map_some, List.map_map]
  rfl

theorem loaded_injective {a b : Record} (same : UmcRecord.loaded a = UmcRecord.loaded b) : a = b :=
  congrArg UmcRecord.rom same

theorem drv_reads_iff {t : Table} (sized : Sized t.control) {start num : Nat}
    (within : start + num ≤ t.control.rasNumRecs) :
    Reads ((drv t).record env) start num ((drv t).getRecords env start num) ↔
      (drv t).Meets env start num := by
  have length : (live t).length = t.control.rasNumRecs := window_length
  show Reads _ _ _ (rasEepromGetRecords t start num) ↔
    0 < num ∧ ∀ i < num, (live t)[start + i]?.map Record.ofBuf = (live t)[i]?.map Record.ofBuf
  rcases Nat.eq_zero_or_pos num with zero | positive
  · have refused : rasEepromGetRecords t start num = none := by
      unfold rasEepromGetRecords eepromRead
      rw [if_pos (.inl zero)]
      rfl
    rw [refused, Reads.none_iff]
    exact iff_of_false id fun ⟨positive, _⟩ => absurd zero (Nat.ne_of_gt positive)
  · rw [drv_getRecords sized positive (by omega), Reads.some_iff]
    have long : (((live t).take num).map fun buf => UmcRecord.loaded (Record.ofBuf buf)).length =
        num := by
      rw [List.length_map, List.length_take, length]
      omega
    have each : ∀ i < num, ((((live t).take num).map fun buf =>
          UmcRecord.loaded (Record.ofBuf buf))[i]? = (drv t).record env (start + i) ↔
        (live t)[start + i]?.map Record.ofBuf = (live t)[i]?.map Record.ofBuf) := by
      intro i less
      show _ = (live t)[start + i]?.map _ ↔ _
      have there : i < (live t).length := by omega
      have further : start + i < (live t).length := by omega
      rw [List.getElem?_map, List.getElem?_take_of_lt less, List.getElem?_eq_getElem there,
        List.getElem?_eq_getElem further]
      simp only [Option.map_some, Option.some.injEq]
      exact ⟨fun same => (loaded_injective same).symm, fun same => congrArg _ same.symm⟩
    constructor
    · rintro ⟨-, same⟩
      exact ⟨positive, fun i less => (each i less).mp (same i less)⟩
    · rintro ⟨-, same⟩
      exact ⟨long, fun i less => (each i less).mpr (same i less)⟩

theorem fw_record {s : FwSys} (inv : FwInv s) {i : Nat} (read : i < s.control.recordCount) :
    fwEepromGetRecord (env i) s.control (u32 i) = (fw s).record env i := by
  have few := inv.few
  unfold maxEepromErrRecordNum at few
  have place : u32 i = i := u32_of_lt (by omega)
  show _ = s.firmware[i]?.bind _
  rw [place, inv.seen i read]
  unfold fwEepromGetRecord
  rw [if_neg (by omega), Option.bind_some]

theorem fw_reads_iff {s : FwSys} (run : FwRun s) {start num : Nat}
    (within : start + num ≤ s.control.recordCount) :
    Reads ((fw s).record env) start num ((fw s).getRecords env start num) ↔
      (fw s).Meets env start num := by
  have inv := run.inv
  have there : ∀ i, start ≤ i → i < start + num →
      fwEepromGetRecord (env i) s.control (u32 i) = (fw s).record env i :=
    fun i _ high => fw_record inv (Nat.lt_of_lt_of_le high within)
  have loop := mapM_reads start num there
  refine loop.trans ?_
  show _ ↔ ∀ i < num, ∀ errRec ∈ s.firmware[start + i]?,
    bankToUmcRecord (env (start + i)) (errRec.bank (env (start + i)).umc.nps) ≠ none
  constructor
  · intro all i less errRec there
    have here : s.firmware[start + i]?.bind (fun errRec =>
        bankToUmcRecord (env (start + i)) (errRec.bank (env (start + i)).umc.nps)) ≠ none :=
      all (start + i) (Nat.le_add_right _ _) (by omega)
    rwa [Option.mem_def.mp there] at here
  · intro all i low high
    have place : start + (i - start) = i := Nat.add_sub_cancel' low
    have seen := inv.seen i (by omega)
    have converts := all (i - start) (by omega)
    rw [place] at converts
    show s.firmware[i]?.bind (fun errRec =>
      bankToUmcRecord (env i) (errRec.bank (env i).umc.nps)) ≠ none
    rw [seen]
    exact converts _ seen

theorem reads_iff (env : Nat → LogEnv) (sound : ops.Sound) {start num : Nat}
    (within : start + num ≤ ops.recordCount) :
    Reads (ops.record env) start num (ops.getRecords env start num) ↔
      ops.Meets env start num := by
  cases ops with
  | drv t => exact drv_reads_iff sound within
  | fw s => exact fw_reads_iff sound within

theorem getRecords_length {start num : Nat} {records : List UmcRecord}
    (read : ops.getRecords env start num = some records) : records.length = num := by
  cases ops with
  | drv t =>
    obtain ⟨decoded, done, rfl⟩ := Option.map_eq_some_iff.mp read
    rw [List.length_map]
    unfold eepromRead at done
    split at done
    · cases done
    · cases done
      unfold decodeRecords
      rw [List.length_map, List.length_range]
  | fw s => exact (mapM_length read).trans List.length_range'

end EepromOps

open EepromOps in
/-- Whichever table it is, a read gives the records that it asks for if and only if what it needs is
there, and a dump adds every new record if and only if it is there for each of them. -/
theorem get_records_iff {ops : EepromOps} (sound : ops.Sound) (env : Nat → LogEnv)
    {start num : Nat} (within : start + num ≤ ops.recordCount) (umcCount : Nat) :
    ops.ByIndex env start num umcCount ↔ ops.Meets env start num ∧
      ∀ i, umcCount ≤ i → i < ops.recordCount → ops.Meets env i 1 := by
  have get := reads_iff env sound within
  have dump := oneByOne_reads (ops.record env) (ops.getRecords env)
    (fun _ _ read => getRecords_length read) umcCount (ops.recordCount - umcCount)
  have each : (∀ i, umcCount ≤ i → i < umcCount + (ops.recordCount - umcCount) →
        Reads (ops.record env) i 1 (ops.getRecords env i 1)) ↔
      ∀ i, umcCount ≤ i → i < ops.recordCount → ops.Meets env i 1 := by
    constructor
    · intro all i low high
      exact (reads_iff env sound (by omega)).mp (all i low (by omega))
    · intro all i low high
      exact (reads_iff env sound (by omega)).mpr (all i low (by omega))
  constructor
  · intro byIndex
    exact ⟨get.mp byIndex.get, each.mp (dump.mp byIndex.dump)⟩
  · rintro ⟨here, new⟩
    exact ⟨get.mpr here, dump.mpr (each.mpr new)⟩

def foundTwo : FwSys :=
  [.found ⟨1, 0x40, 0⟩, .found ⟨2, 0x80, 0⟩,
    .getRecordCount false true fun _ => true].foldl fwNext ⟨[], ⟨fun _ => ⟨0, 0, 0⟩, 0⟩⟩

theorem foundTwo_run : FwRun foundTwo := by
  have nothing : FwRun ⟨[], ⟨fun _ => ⟨0, 0, 0⟩, 0⟩⟩ := .start (Eq.refl 0)
  have one : FwRun _ := .next (.found ⟨1, 0x40, 0⟩) nothing trivial rfl
  have two : FwRun _ := .next (.found ⟨2, 0x80, 0⟩) one trivial rfl
  exact .next (.getRecordCount false true fun _ => true) two trivial rfl

/-- The second record is read by its index. -/
theorem get_records_second : (EepromOps.fw foundTwo).ByIndex (fun _ => logEnv 1 true) 1 1 0 :=
  (@get_records_iff (.fw foundTwo) foundTwo_run _ 1 1 (by decide +kernel) 0).mpr
    ⟨by
      intro i _ errRec _
      exact Option.some_ne_none _, by
      intro i _ _ j _ errRec _
      exact Option.some_ne_none _⟩

def appendedTwo : Table :=
  (eepromAppend (emptyTable 0).table [onePage, { onePage with retiredRowPfn := 0x78 }] 2).2

/-- The driver's table gives the first record for the second one. -/
theorem start_ignored : ¬ ∀ (ops : EepromOps) (env : Nat → LogEnv) (start num umcCount : Nat),
    ops.Sound → start + num ≤ ops.recordCount → ops.ByIndex env start num umcCount := by
  intro all
  have sized : Sized appendedTwo.control :=
    ⟨by decide +kernel, by decide +kernel, by decide +kernel⟩
  have get := (all (.drv appendedTwo) (fun _ => logEnv 1 true) 1 1 2 sized
    (by decide +kernel)).get
  have same := ((Reads.one _ fun _ => EepromOps.getRecords_length).mp get).1
  revert same
  decide +kernel

end Backends

end MxGpu.Ras
