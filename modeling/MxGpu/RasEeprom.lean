import MxGpu.ByteStore
import MxGpu.SlotRing

/- The bad page table of the EEPROM (`rascore/ras_eeprom.c`). -/
namespace MxGpu.Ras

open ByteStore SlotRing

def u32 (value : Nat) : Nat := value % 2 ^ 32

def rasTableHeaderSize : Nat := 20
def rasTableRecordSize : Nat := 24
def rasTableHdrVal : Nat := 0x414d4452
/-- 'BADG' -/
def rasTableHdrBad : Nat := 0x42414447
def rasTblSizeBytes : Nat := 256 * 1024
def rasRecordStart : Nat := rasTableHeaderSize
def rasMaxRecordCount : Nat := (rasTblSizeBytes - rasTableHeaderSize) / rasTableRecordSize
def rasTableV21InfoSize : Nat := 256
def rasTableV21InfoStart : Nat := rasTableHeaderSize
def rasRecordStartV21 : Nat := rasTableHeaderSize + rasTableV21InfoSize
def rasMaxRecordCountV21 : Nat :=
  (rasTblSizeBytes - rasTableHeaderSize - rasTableV21InfoSize) / rasTableRecordSize
def rasTableVerV1 : Nat := 0x00010000
def rasTableVerV21 : Nat := 0x00021000
def rasTableVerV3 : Nat := 0x00030000
def rasGpuHealthUsable : Nat := 1
def rasGpuRetiredEccReachThreshold : Nat := 2

structure TableHeader where
  header : Nat
  version : Nat
  firstRecOffset : Nat
  tblSize : Nat
  checksum : Nat
  deriving DecidableEq

/-- `struct ras_eeprom_table_ras_info`; its padding is never anything but zero. -/
structure TableRasInfo where
  rmaStatus : Nat
  healthPercent : Nat
  eccPageThreshold : Nat
  deriving DecidableEq

/-- The fields of `struct eeprom_umc_record` that the table has. -/
structure Record where
  errType : UInt8
  bank : UInt8
  ts : UInt64
  offset : UInt64
  memChannel : UInt8
  mcumcId : UInt8
  retiredRowPfn : UInt64
  deriving DecidableEq

structure Control where
  tblHdr : TableHeader
  tblRai : TableRasInfo
  recordThresholdCount : Nat
  updateChannelFlag : Bool
  rasRecordOffset : Nat
  rasNumRecs : Nat
  rasFri : Nat
  rasMaxRecordCount : Nat
  badChannelBitmap : Nat

/-- The EEPROM behind `i2c_address` and the control of its table. -/
structure Table where
  rom : Store
  control : Control

section Encoding

def TableHeader.toBuf (hdr : TableHeader) : List UInt8 :=
  leBytes 4 hdr.header ++ leBytes 4 hdr.version ++ leBytes 4 hdr.firstRecOffset ++
    leBytes 4 hdr.tblSize ++ leBytes 4 hdr.checksum

/-- `__decode_table_header_from_buf` -/
def TableHeader.ofBuf (buf : List UInt8) : TableHeader where
  header := ofLe (buf.take 4)
  version := ofLe ((buf.drop 4).take 4)
  firstRecOffset := ofLe ((buf.drop 8).take 4)
  tblSize := ofLe ((buf.drop 12).take 4)
  checksum := ofLe ((buf.drop 16).take 4)

/-- `__encode_table_ras_info_to_buf`, into a buffer of zeros. -/
def TableRasInfo.toBuf (rai : TableRasInfo) : List UInt8 :=
  leBytes 1 rai.rmaStatus ++ leBytes 1 rai.healthPercent ++ leBytes 2 rai.eccPageThreshold ++
    List.replicate 252 0

def Record.toBuf (record : Record) : List UInt8 :=
  [record.errType, record.bank] ++ leBytes 8 record.ts.toNat ++ leBytes 6 record.offset.toNat ++
    [record.memChannel, record.mcumcId] ++ leBytes 6 record.retiredRowPfn.toNat

/-- `__decode_table_record_from_buf` -/
def Record.ofBuf (buf : List UInt8) : Record where
  errType := buf.getD 0 0
  bank := buf.getD 1 0
  ts := .ofNat (ofLe ((buf.drop 2).take 8))
  offset := .ofNat (ofLe ((buf.drop 10).take 6))
  memChannel := buf.getD 16 0
  mcumcId := buf.getD 17 0
  retiredRowPfn := .ofNat (ofLe ((buf.drop 18).take 6))

def Record.stored (record : Record) : Record :=
  { record with
    offset := .ofNat (record.offset.toNat % 2 ^ 48)
    retiredRowPfn := .ofNat (record.retiredRowPfn.toNat % 2 ^ 48) }

@[simp] theorem TableHeader.toBuf_length (hdr : TableHeader) :
    hdr.toBuf.length = rasTableHeaderSize := by
  simp [TableHeader.toBuf, rasTableHeaderSize]

@[simp] theorem TableRasInfo.toBuf_length (rai : TableRasInfo) :
    rai.toBuf.length = rasTableV21InfoSize := by
  simp only [TableRasInfo.toBuf, List.length_append, leBytes_length, List.length_replicate,
    rasTableV21InfoSize]

@[simp] theorem Record.toBuf_length (record : Record) :
    record.toBuf.length = rasTableRecordSize := by
  simp [Record.toBuf, rasTableRecordSize]

theorem Record.ofBuf_toBuf (record : Record) : Record.ofBuf record.toBuf = record.stored := by
  have hts : (record.toBuf.drop 2).take 8 = leBytes 8 record.ts.toNat := by
    simp only [Record.toBuf, List.append_assoc]
    exact take_drop_field rfl (leBytes_length ..)
  have hoffset : (record.toBuf.drop 10).take 6 = leBytes 6 record.offset.toNat := by
    simp only [Record.toBuf, List.append_assoc]
    rw [← List.append_assoc [_, _]]
    exact take_drop_field (by simp) (leBytes_length ..)
  have hpfn : (record.toBuf.drop 18).take 6 = leBytes 6 record.retiredRowPfn.toNat := by
    unfold Record.toBuf
    rw [← List.append_nil (_ ++ _), List.append_assoc]
    exact take_drop_field (by simp) (leBytes_length ..)
  have htsValue : record.ts.toNat % 256 ^ 8 = record.ts.toNat :=
    Nat.mod_eq_of_lt record.ts.toNat_lt
  unfold Record.ofBuf Record.stored
  rw [hts, hoffset, hpfn, ofLe_leBytes, ofLe_leBytes, ofLe_leBytes, htsValue, UInt64.ofNat_toNat]
  rfl

theorem Record.stored_ofBuf (buf : List UInt8) :
    (Record.ofBuf buf).stored = Record.ofBuf buf := by
  have hsix : ∀ at_, UInt64.ofNat ((UInt64.ofNat (ofLe ((buf.drop at_).take 6))).toNat % 2 ^ 48) =
      UInt64.ofNat (ofLe ((buf.drop at_).take 6)) := by
    intro at_
    have hlt := ofLe_lt ((buf.drop at_).take 6)
    have hle : 256 ^ ((buf.drop at_).take 6).length ≤ 256 ^ 6 :=
      Nat.pow_le_pow_right (by decide) (List.length_take_le ..)
    rw [UInt64.toNat_ofNat', Nat.mod_eq_of_lt (by omega), Nat.mod_eq_of_lt (by omega)]
  unfold Record.stored Record.ofBuf
  simp only [hsix]

end Encoding

section Checksum

/-- `__calc_hdr_byte_sum`: the header up to its checksum. -/
def calcHdrByteSum (control : Control) : UInt8 := (control.tblHdr.toBuf.take 16).sum

def calcRasInfoByteSum (control : Control) : UInt8 := control.tblRai.toBuf.sum

end Checksum

section Operations

inductive Status
  | ok
  | einval
  deriving DecidableEq

def noteChannels (control : Control) : List Record → Control
  | [] => control
  | record :: rest =>
    if record.memChannel.toNat < 32 ∧ ¬ control.badChannelBitmap.testBit record.memChannel.toNat then
      noteChannels { control with
        badChannelBitmap := control.badChannelBitmap ||| 1 <<< record.memChannel.toNat
        updateChannelFlag := true } rest
    else noteChannels control rest

def rasIndexToOffset (control : Control) (index : Nat) : Nat :=
  u32 (control.rasRecordOffset + index * rasTableRecordSize)

def eepromWrite (t : Table) (buf : List UInt8) (fri num : Nat) : Table :=
  { t with
    rom := write t.rom (rasIndexToOffset t.control fri)
      (buf.take (u32 (num * rasTableRecordSize))) }

/-- The end of `ras_eeprom_append_table`: the first index, and the count by the last one. -/
def settle (t : Table) (fri b : Nat) : Table :=
  let max := t.control.rasMaxRecordCount
  { t with control := { t.control with
      rasFri := fri
      rasNumRecs := 1 + u32 (max + b + (2 ^ 32 - fri)) % max } }

def eepromAppendTable (t : Table) (records : List Record) : Table :=
  let t := { t with control := noteChannels t.control records }
  let buf := (records.map Record.toBuf).flatten
  let num := records.length
  let max := t.control.rasMaxRecordCount
  let fri := t.control.rasFri
  let a := u32 (fri + t.control.rasNumRecs)
  let b := u32 (a + num + (2 ^ 32 - 1))
  if b < max then settle (eepromWrite t buf a num) fri b
  else if a < max then
    let g0 := max - a
    let g1 := b % max + 1
    let t := eepromWrite (eepromWrite t buf a g0) (buf.drop (g0 * rasTableRecordSize)) 0 g1
    settle t (if fri < g1 then g1 % max else fri) b
  else
    let a := a % max
    let b := b % max
    if a ≤ b then
      settle (eepromWrite t buf a num) (if fri ≤ b then (b + 1) % max else fri) b
    else
      let g0 := max - a
      let g1 := b + 1
      let t := eepromWrite (eepromWrite t buf a g0) (buf.drop (g0 * rasTableRecordSize)) 0 g1
      settle t (g1 % max) b

/-- What is left of the threshold in percent. The caller has saved a record, so the threshold is not
zero where this is used. -/
def healthPercent (threshold saved : Nat) : Nat :=
  u32 ((threshold - saved) * 100) / threshold % 2 ^ 8

/-- The header and the RMA info that `ras_eeprom_update_header` writes, without the checksum, when
`saved` records are in the cache. -/
def updatedControl (control : Control) (saved : Nat) : Control :=
  let beyond : Bool := control.recordThresholdCount ≤ saved
  let v21 : Bool := rasTableVerV21 ≤ control.tblHdr.version
  let rai := if beyond && v21 then
      { control.tblRai with rmaStatus := rasGpuRetiredEccReachThreshold, healthPercent := 0 }
    else control.tblRai
  { control with
    tblHdr := { control.tblHdr with
      header := if beyond then rasTableHdrBad else control.tblHdr.header
      tblSize := u32 (rasTableHeaderSize + (if v21 then rasTableV21InfoSize else 0) +
        control.rasNumRecs * rasTableRecordSize)
      checksum := 0 }
    tblRai := if v21 && saved ≤ control.recordThresholdCount then
        { rai with healthPercent := healthPercent control.recordThresholdCount saved }
      else rai }

/-- The checksum over the records that were read, the header and the RMA info. -/
def calcChecksum (control : Control) (buf : List UInt8) : UInt8 :=
  -(buf.sum + calcHdrByteSum control +
    if rasTableVerV21 ≤ control.tblHdr.version then calcRasInfoByteSum control else 0)

/-- `__write_table_header`, and `__write_table_ras_info` where the version has it. -/
def writeTable (rom : Store) (control : Control) : Store :=
  let rom := write rom 0 control.tblHdr.toBuf
  if rasTableVerV1 < control.tblHdr.version then
    write rom rasTableV21InfoStart control.tblRai.toBuf
  else rom

def sealTable (rom : Store) (control : Control) (buf : List UInt8) : Table :=
  let c := { control with
    tblHdr := { control.tblHdr with checksum := (calcChecksum control buf).toNat } }
  ⟨writeTable rom c, c⟩

def eepromResetTable (t : Table) : Table :=
  sealTable t.rom { t.control with
    tblHdr := { t.control.tblHdr with
      header := rasTableHdrVal
      version := rasTableVerV3
      firstRecOffset := rasRecordStartV21
      tblSize := rasTableHeaderSize + rasTableV21InfoSize }
    tblRai := ⟨rasGpuHealthUsable, 100, t.control.recordThresholdCount % 2 ^ 16⟩
    rasNumRecs := 0
    rasFri := 0
    badChannelBitmap := 0
    updateChannelFlag := false } []

def eepromUpdateHeader (t : Table) (saved : Nat) : Table :=
  sealTable t.rom (updatedControl t.control saved) (read t.rom t.control.rasRecordOffset
    (u32 (t.control.rasNumRecs * rasTableRecordSize)))

def eepromAppend (t : Table) (records : List Record) (saved : Nat) : Status × Table :=
  if records.length = 0 then (.einval, t)
  else if t.control.rasMaxRecordCount < u32 (records.length + t.control.rasNumRecs) then
    (.einval, t)
  else (.ok, eepromUpdateHeader (eepromAppendTable t records) saved)

/-- `__ras_eeprom_read` -/
def eepromReadBuf (t : Table) (fri num : Nat) : List UInt8 :=
  read t.rom (rasIndexToOffset t.control fri) (u32 (num * rasTableRecordSize))

def decodeRecords (buf : List UInt8) (num : Nat) : List Record :=
  (List.range num).map fun i =>
    Record.ofBuf ((buf.drop (i * rasTableRecordSize)).take rasTableRecordSize)

/-- The reads of `ras_eeprom_read`: up to the end of the table, and then from its beginning on. -/
def eepromReadRound (t : Table) (num : Nat) : List UInt8 :=
  let max := t.control.rasMaxRecordCount
  let g0 := u32 (t.control.rasFri + num + (2 ^ 32 - 1))
  if g0 < max then eepromReadBuf t t.control.rasFri num
  else eepromReadBuf t t.control.rasFri (max - t.control.rasFri) ++ eepromReadBuf t 0 (g0 % max + 1)

def eepromRead (t : Table) (num : Nat) : Option (List Record) × Table :=
  if num = 0 ∨ t.control.rasNumRecs < num then (none, t)
  else
    let records := decodeRecords (eepromReadRound t num) num
    (some records, { t with control := noteChannels t.control records })

end Operations

end MxGpu.Ras
