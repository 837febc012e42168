import MxGpu.MaEquivalence

/- Loading the bad pages of an older table on UMC 12, and writing the table back as one of version 3
(`core/amdgv_umc.c`, `core/hw/AI/mi300/umc_v12_0.c`). -/
namespace MxGpu.UmcV12.Upgrade

/-- What is read of `struct eeprom_table_record`. -/
structure EepromTableRecord where
  retiredPage : Nat
  ts : Nat
  address : Nat
  memChannel : Nat
  mcumcId : Nat
  deriving DecidableEq

/-- The device: `nps` is its partition mode, `totalFbInMb` the size of its frame buffer, or zero,
and `grows` says whether a buffer for so many records can be had. -/
structure Adapter where
  vramType : DgpuVramType
  nps : Nat
  nps_lt : nps < 2 ^ 8
  socketId : Nat
  totalFbInMb : Nat
  maxRecordNum : Nat
  grows : Nat → Bool

def getNpsFromPa (pa : Nat) : Nat := pa >>> 40 &&& 0xff

def setNpsToPa (pa nps : Nat) : Nat := pa ^^^ (pa &&& 0xff <<< 40) ||| nps <<< 40

def invMemPfn : Nat := 2 ^ 64 - 1

section Translation

variable (adapt : Adapter)

/-- The address that `convert_ma_to_nps_pa` gives for a record, or the zero before it. -/
def recordPa (record : EepromTableRecord) (nps : Nat) (isMa : Bool) : Nat :=
  let addrIn : UmcMcaAddr := {
    errAddr := record.address
    chInst := record.memChannel
    umcInst := record.mcumcId
    nodeInst := umcInvAidNode
    socketId := adapt.socketId }
  ((convertMaToNpsPa adapt.vramType addrIn nps isMa).map UmcPhyAddr.pa).getD 0

def checkLegacyRecord (record : EepromTableRecord) : Bool :=
  clearNpsPaMaskBits adapt.vramType (recordPa adapt record 1 false) 1 true / 2 ^ 12 =
    clearNpsPaMaskBits adapt.vramType (record.retiredPage * 2 ^ 12) 1 true / 2 ^ 12

/-- `convert_eeprom_record_to_mem_addr`, up to the address -/
def memAddr (record : EepromTableRecord) : Nat :=
  if getNpsFromPa record.retiredPage ≠ adapt.nps then
    recordPa adapt record adapt.nps (!checkLegacyRecord adapt record)
  else setNpsToPa record.retiredPage 0 * 2 ^ 12

def eepromRecordToPa (record : EepromTableRecord) : Nat :=
  if getNpsFromPa record.retiredPage ≠ adapt.nps then
    clearNpsPaMaskBits adapt.vramType (memAddr adapt record) adapt.nps false / 2 ^ 12
  else setNpsToPa record.retiredPage 0

def eepromRecordToPages (record : EepromTableRecord) : List Nat :=
  libgvLookupBadPagesInARow adapt.vramType (memAddr adapt record) adapt.nps 16

/-- `amdgv_umc_check_invalid_bp` of a record from the EEPROM: the record with its page translated,
or nothing if it is skipped. -/
def checkInvalidBp (record : EepromTableRecord) : Option EepromTableRecord :=
  if record.ts = 0 then none
  else
    let record := { record with
      retiredPage := setNpsToPa (eepromRecordToPa adapt record)
        (getNpsFromPa record.retiredPage) }
    if adapt.totalFbInMb ≠ 0 ∧
        adapt.totalFbInMb * 2 ^ 20 ≤ setNpsToPa record.retiredPage 0 * 2 ^ 12 then none
    else some record

end Translation

/-- `struct ras_err_handler_data` -/
structure EhData where
  bps : List EepromTableRecord
  romData : List EepromTableRecord
  lastRetiredPfn : Nat

/-- What happens to the writes of an upgrade: whether the table is reset and whether the records are
written, and what is in the table when one of these fails. -/
structure Outcome where
  resets : Bool
  writes : Bool
  left : List EepromTableRecord

section Load

variable (adapt : Adapter)

/-- `amdgv_umc_update_eeprom_ram_data`, when the buffer has grown. -/
def updateEepromRamData (record : EepromTableRecord) (bps : List EepromTableRecord) :
    List EepromTableRecord :=
  bps ++ (eepromRecordToPages adapt record).map fun page => { record with retiredPage := page }

/-- `amdgv_umc_add_bad_pages` of records from the EEPROM; a failure ends it, and what was added
stays. -/
def addBadPages : List EepromTableRecord → EhData → EhData
  | [], data => data
  | record :: rest, data =>
    if adapt.maxRecordNum ≤ data.bps.length then data
    else
      match checkInvalidBp adapt record with
      | none => addBadPages rest data
      | some record =>
        if adapt.grows (data.romData.length + 1) then
          let data := { data with romData := data.romData ++ [record] }
          -- the pages of the record before are also the pages of this one
          if setNpsToPa data.lastRetiredPfn 0 = setNpsToPa record.retiredPage 0 then
            addBadPages rest data
          else
            let data := { data with lastRetiredPfn := record.retiredPage }
            if adapt.grows (data.bps.length + 16) then
              addBadPages rest { data with bps := updateEepromRamData adapt record data.bps }
            else data
        else data

def newRecords (bps : List EepromTableRecord) : Option (List EepromTableRecord) :=
  (List.range (bps.length / 16)).foldlM (fun romData i =>
    if adapt.grows (romData.length + 1) then
      bps[i * 16]?.map fun record =>
        romData ++ [{ record with retiredPage := setNpsToPa record.retiredPage adapt.nps }]
    else none) []

/-- `amdgv_umc_load_bad_pages` of the records of a table before version 3: the handler's data and
the records in the table afterwards. That `amdgv_umc_add_bad_pages` failed does not end it. -/
def loadBadPages (outcome : Outcome) (read : List EepromTableRecord) :
    EhData × List EepromTableRecord :=
  let data := addBadPages adapt read ⟨[], [], invMemPfn⟩
  if outcome.resets then
    if data.romData = [] then (data, [])
    else
      match newRecords adapt data.bps with
      | none => (data, [])
      | some romData =>
        ({ data with romData := romData }, if outcome.writes then romData else outcome.left)
  else (data, outcome.left)

end Load

def Expanded (adapt : Adapter) (records : List EepromTableRecord) (page : Nat) : Prop :=
  ∃ record ∈ records, (checkInvalidBp adapt record).isSome = true ∧
    page ∈ eepromRecordToPages adapt record

/-- The upgrade of a table keeps its pages: the new table has them, and if it is not written they
are in memory. -/
def Keeps (adapt : Adapter) (read : List EepromTableRecord) : Prop :=
  ∀ outcome : Outcome,
    (outcome.resets = true → outcome.writes = true → ∀ page,
      Expanded adapt (loadBadPages adapt outcome read).2 page ↔ Expanded adapt read page) ∧
    ∀ page, Expanded adapt read page →
      (∃ record ∈ (loadBadPages adapt outcome read).1.bps, record.retiredPage = page) ∨
        Expanded adapt (loadBadPages adapt outcome read).2 page

end MxGpu.UmcV12.Upgrade
