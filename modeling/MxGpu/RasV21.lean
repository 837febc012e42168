import MxGpu.RasEeprom

/- The bad page table of the host driver (`hw/common/ras_eeprom_v2_1.c`). -/
namespace MxGpu.RasV21

open ByteStore
open Ras (Record TableHeader u32)

def eepromTableHeaderSize : Nat := 20
def eepromTableRecordSize : Nat := 24
def eepromTableHdrVal : Nat := 0x414d4452
/-- 'BADG' -/
def eepromTableHdrBad : Nat := 0x42414447
def eepromTableVerV21 : Nat := 0x00021000
def eepromTableVerV3 : Nat := 0x00030000
def eepromTableTotalExtraInfoSize : Nat := 256
def eepromTableV21ExtraGpuInfoStart : Nat := eepromTableHeaderSize
def eepromSizeBytes : Nat := 256000
def eepromRecordStartV21 : Nat := eepromTableHeaderSize + eepromTableTotalExtraInfoSize
/-- `max_record_num` of a table of version 2.1 or 3 -/
def maxRecordNumV21 : Nat :=
  (eepromSizeBytes - eepromTableHeaderSize - eepromTableTotalExtraInfoSize) / eepromTableRecordSize
def gpuHealthyUsable : Nat := 0
def gpuRetiredEccInCriticalRegion : Nat := 1
def gpuRetiredEccReachThreshold : Nat := 2

/-- `struct amdgv_ras_eeprom_extra_gpu_info_v2_1`; its padding is never anything but zero. -/
structure ExtraGpuInfo where
  rmaStatus : Nat
  gpuHealthy : Nat
  eccPageThreshold : Nat
  deriving DecidableEq

/-- `adapt->bp_msg_type` -/
inductive BpMsg where
  | invalid
  | inPfFb
  | inCriticalRegion
  | inVfCriticalRegion
  | recordThresholdReached
  deriving DecidableEq

/-- `struct amdgv_ras_eeprom_control`. The records are those of `struct eeprom_table_record` with
what the table keeps of them, `retired_page` in the place of the row. -/
structure Control where
  tblHdr : TableHeader
  tblEgi : ExtraGpuInfo
  nextAddr : Nat
  numRecs : Nat
  tblByteSum : Nat
  maxRecordNum : Nat
  badChannelBitmap : Nat

/-- The EEPROM, how far it was ever written, the control, and what the adapter has beside it. -/
structure Table where
  rom : Store
  /-- the end of the highest write so far -/
  reach : Nat
  control : Control
  bpMsgType : BpMsg
  updateChannelFlag : Bool

structure Env where
  /-- `BAD_PAGE_RECORD_THRESHOLD` -/
  threshold : Nat
  ignoreRma : Bool
  /-- `umc.eeprom_version` is version 3 -/
  versionV3 : Bool

/-- Which I2C transfers of one operation succeed. -/
structure Xfers where
  record : Nat → Bool
  header : Bool
  extra : Bool

section Bytes

def byteSum (bytes : List UInt8) : Nat := (bytes.map UInt8.toNat).sum

/-- `ras_eeprom_v2_1_encode_extra_info_to_buff`: four bytes. -/
def ExtraGpuInfo.toBuff (egi : ExtraGpuInfo) : List UInt8 :=
  leBytes 1 egi.rmaStatus ++ leBytes 1 egi.gpuHealthy ++ leBytes 2 egi.eccPageThreshold

def ExtraGpuInfo.bytes (egi : ExtraGpuInfo) : List UInt8 := egi.toBuff ++ List.replicate 252 0

/-- `__calc_hdr_byte_sum`: the header up to its checksum. -/
def calcHdrByteSum (c : Control) : Nat := byteSum (c.tblHdr.toBuf.take 16)

def calcExtraInfoByteSum (c : Control) : Nat := byteSum c.tblEgi.bytes

def calcRecsByteSum (records : List Record) : Nat := byteSum (records.map Record.toBuf).flatten

def calcTblByteSum (c : Control) (records : List Record) : Nat :=
  u32 (calcHdrByteSum c + calcExtraInfoByteSum c + calcRecsByteSum records)

end Bytes

section Header

variable (env : Env) (xfers : Xfers)

def Table.put (addr : Nat) (bytes : List UInt8) (t : Table) : Table :=
  { t with rom := write t.rom addr bytes, reach := max t.reach (addr + bytes.length) }

def writeTableHeader (t : Table) : Table :=
  if xfers.header then t.put 0 t.control.tblHdr.toBuf else t

def writeTableHeaderExt (writeReserved : Bool) (t : Table) : Table :=
  if xfers.extra then
    t.put eepromTableV21ExtraGpuInfoStart
      (if writeReserved then t.control.tblEgi.bytes else t.control.tblEgi.toBuff)
  else t

def updateTblChecksum (records : List Record) (oldHdrByteSum oldExtraInfoByteSum : Nat)
    (c : Control) : Control :=
  let tblByteSum := u32 (c.tblByteSum + (2 ^ 32 - oldExtraInfoByteSum) + (2 ^ 32 - oldHdrByteSum) +
    calcTblByteSum c records)
  { c with
    tblByteSum := tblByteSum
    tblHdr := { c.tblHdr with checksum := 256 - tblByteSum % 256 } }

/-- `amdgv_ras_eeprom_is_header_bad` -/
def isGpuBad (c : Control) : Bool := !env.ignoreRma && c.tblHdr.header == eepromTableHdrBad

/-- `ras_eeprom_v2_1_mark_gpu_healthy_status` and `__mark_gpu_bad` -/
def markGpuBad (status : Nat) (c : Control) : Control :=
  { c with
    tblEgi := { c.tblEgi with rmaStatus := status, gpuHealthy := 0 }
    tblHdr := { c.tblHdr with header := eepromTableHdrBad } }

def calcGpuHealthy (c : Control) : Control :=
  { c with
    tblEgi := { c.tblEgi with
      gpuHealthy := u32 ((env.threshold + (2 ^ 32 - c.numRecs)) * 100) / env.threshold % 2 ^ 8 } }

def updateGpuHealth (bpMsgType : BpMsg) (c : Control) : Control :=
  if isGpuBad env c then c
  else
    match bpMsgType with
    | .inPfFb | .inCriticalRegion | .inVfCriticalRegion =>
      markGpuBad gpuRetiredEccInCriticalRegion c
    | .recordThresholdReached => markGpuBad gpuRetiredEccReachThreshold c
    | .invalid => calcGpuHealthy env c

def resetTable (t : Table) : Bool × Table :=
  let c := updateTblChecksum [] 0 0
    { t.control with
      tblHdr := { t.control.tblHdr with
        header := eepromTableHdrVal
        version := if env.versionV3 then eepromTableVerV3 else eepromTableVerV21
        firstRecOffset := eepromRecordStartV21
        tblSize := eepromTableHeaderSize + eepromTableTotalExtraInfoSize }
      tblEgi := ⟨gpuHealthyUsable, 100, env.threshold % 2 ^ 16⟩
      nextAddr := eepromRecordStartV21
      tblByteSum := 0
      numRecs := 0
      maxRecordNum := maxRecordNumV21 }
  let t := writeTableHeader xfers { t with control := c }
  (xfers.header && xfers.extra, if xfers.header then writeTableHeaderExt xfers true t else t)

end Header

section Records

variable (env : Env) (xfers : Xfers)

def entryOverflow (c : Control) : Bool :=
  c.maxRecordNum < u32 (c.nextAddr + (2 ^ 32 - c.tblHdr.firstRecOffset)) / eepromTableRecordSize

/-- `__update_bad_channel_bitmap` -/
def noteChannel (record : Record) (t : Table) : Table :=
  if record.memChannel.toNat < 32 ∧ ¬ t.control.badChannelBitmap.testBit record.memChannel.toNat then
    { t with
      control := { t.control with
        badChannelBitmap := t.control.badChannelBitmap ||| 1 <<< record.memChannel.toNat }
      updateChannelFlag := true }
  else t

/-- `ras_eeprom_v2_1_process_record` for a write that succeeds. -/
def writeRecord (record : Record) (t : Table) : Table :=
  let t := t.put t.control.nextAddr record.toBuf
  noteChannel record { t with control :=
    { t.control with nextAddr := u32 (t.control.nextAddr + eepromTableRecordSize) } }

/-- The loop of `ras_eeprom_v2_1_process_records` when it writes. It comes back with the number of
records written, or without one when a transfer failed; the end of the EEPROM only ends it. -/
def writeRecords : Nat → List Record → Table → Option Nat × Table
  | i, [], t => (some i, t)
  | i, record :: rest, t =>
    if entryOverflow t.control then (some i, t)
    else if xfers.record i then writeRecords (i + 1) rest (writeRecord record t)
    else (none, t)

def updateTableHeader (records : List Record) (t : Table) : Table :=
  let c := updateGpuHealth env t.bpMsgType
    { t.control with
      numRecs := u32 (t.control.numRecs + records.length)
      tblHdr := { t.control.tblHdr with
        tblSize := u32 (t.control.tblHdr.tblSize + eepromTableRecordSize * records.length) } }
  let c := updateTblChecksum records (calcHdrByteSum t.control) (calcExtraInfoByteSum t.control) c
  writeTableHeaderExt xfers false (writeTableHeader xfers { t with control := c })

/-- `ras_eeprom_v2_1_process_records` with `write` -/
def processWrite (records : List Record) (t : Table) : Bool × Table :=
  match writeRecords xfers 0 records t with
  | (none, t) => (false, t)
  | (some i, t) => (true, updateTableHeader env xfers (records.take i) t)

/-- `ras_eeprom_v2_1_process_record` for a read that succeeds. -/
def readRecord (t : Table) : Record × Table :=
  let record := Record.ofBuf (read t.rom t.control.nextAddr eepromTableRecordSize)
  (record, noteChannel record { t with control :=
    { t.control with nextAddr := u32 (t.control.nextAddr + eepromTableRecordSize) } })

/-- The loop of `ras_eeprom_v2_1_process_records` when it reads. -/
def readRecords : Nat → Nat → Table → Option (List Record) × Table
  | _, 0, t => (some [], t)
  | i, num + 1, t =>
    if entryOverflow t.control then (some [], t)
    else if xfers.record i then
      let rest := readRecords (i + 1) num (readRecord t).2
      (rest.1.map ((readRecord t).1 :: ·), rest.2)
    else (none, t)

/-- `ras_eeprom_v2_1_process_records` without `write`, which ends with
`ras_eeprom_v2_1_update_tbl_byte_sum`. -/
def processRead (num : Nat) (t : Table) : Option (List Record) × Table :=
  match readRecords xfers 0 num t with
  | (none, t) => (none, t)
  | (some records, t) =>
    (some records,
      { t with control := { t.control with tblByteSum := calcTblByteSum t.control records } })

end Records

section FixUp

variable (env : Env) (xfers : Xfers)

def resetReadControl (t : Table) : Table :=
  { t with control := { t.control with
      nextAddr := eepromRecordStartV21
      tblByteSum := calcTblByteSum t.control [] } }

def fixHeaderExt (bpCache : List Record) (t : Table) : Table :=
  let t := resetReadControl t
  let c := updateTblChecksum bpCache (calcHdrByteSum t.control) (calcExtraInfoByteSum t.control)
    t.control
  resetReadControl
    (writeTableHeaderExt xfers true (writeTableHeader xfers { t with control := c }))

/-- What `ras_eeprom_v2_1_fix_threshold` makes of the control before the checksum. -/
def thresholdFixed (numRecs : Nat) (t : Table) : Table :=
  let c := { t.control with
    tblEgi := { t.control.tblEgi with eccPageThreshold := env.threshold % 2 ^ 16 } }
  if c.tblEgi.eccPageThreshold ≤ numRecs then
    { t with control := markGpuBad gpuRetiredEccReachThreshold c, bpMsgType := .recordThresholdReached }
  else
    { t with
      control := calcGpuHealthy env { c with tblHdr := { c.tblHdr with header := eepromTableHdrVal } }
      bpMsgType := .invalid }

def fixThreshold (bpCache : List Record) (t : Table) : Table :=
  let t' := thresholdFixed env bpCache.length (resetReadControl t)
  let c := updateTblChecksum bpCache (calcHdrByteSum t.control) (calcExtraInfoByteSum t.control)
    t'.control
  resetReadControl
    (writeTableHeaderExt xfers true (writeTableHeader xfers { t' with control := c }))

def needFixThreshold (numRecs : Nat) (c : Control) : Bool :=
  if c.tblEgi.rmaStatus ≠ gpuHealthyUsable ∧ c.tblEgi.rmaStatus ≠ gpuRetiredEccReachThreshold then
    false
  else if c.tblEgi.eccPageThreshold ≠ env.threshold then true
  else if isGpuBad env c then decide (numRecs < env.threshold)
  else decide (env.threshold ≤ numRecs)

/-- `ras_eeprom_v2_1_remove_dups`: of the records of one page the first stays. -/
def removeDups : List Record → List Record
  | [] => []
  | record :: rest =>
    record :: removeDups (rest.filter fun other => other.retiredRowPfn != record.retiredRowPfn)
termination_by records => records.length
decreasing_by
  simp only [List.unattach_filter, List.unattach_attach]
  exact Nat.lt_succ_of_le (List.length_filter_le ..)

def resetWriteControl (t : Table) : Table :=
  resetReadControl
    { t with control := { t.control with
        numRecs := 0
        tblHdr := { t.control.tblHdr with
          tblSize := eepromTableHeaderSize + eepromTableTotalExtraInfoSize } } }

def overwriteTable (bpCache : List Record) (t : Table) : Table :=
  let r := processWrite env xfers bpCache (resetWriteControl t)
  if r.1 then resetReadControl r.2 else r.2

/-- The transfers of the steps of a fix-up. -/
structure FixXfers where
  headerExt : Xfers
  overwrite : Xfers
  threshold : Xfers

def fixOverwriteTable (xfers : FixXfers) (forceWrite : Bool) (bpCache : List Record) (t : Table) :
    Table :=
  let cache := removeDups bpCache
  let overwrite := forceWrite || cache.length != t.control.numRecs
  let threshold := needFixThreshold env cache.length t.control
  let t := fixHeaderExt xfers.headerExt cache t
  let t := if overwrite then overwriteTable env xfers.overwrite cache t else t
  if threshold then fixThreshold env xfers.threshold cache t else t

end FixUp

end MxGpu.RasV21
