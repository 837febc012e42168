import MxGpu.CperWriters
import MxGpu.RasAcaCounts

/- How the RAS core makes records of the logged events of a batch (`ras_cper.c`). Offsets count from
the start of a record; the structures are packed. -/
namespace MxGpu.RasCper

open ByteStore Tiling
open Cper (hdrLen secDescLen)
open Cper.Host (Timestamp vsnprintf setBits field secDescOffset fillContext)

/-- `enum ras_log_event`, with what is no name of it. -/
inductive LogEvent
  | none
  | ue
  | de
  | ce
  | poisonCreation
  | poisonConsumption
  | rma
  | mce
  | boot
  | cpuRas
  | other (value : Nat)
  deriving DecidableEq

/-- `struct ras_log_info`, with the bytes of its union. -/
structure LogInfo where
  seqno : BitVec 64
  timestamp : BitVec 64
  event : LogEvent
  body : Store

inductive CperType
  | runtime
  | fatal
  | boot
  | rma
  deriving DecidableEq

/-- `enum ras_cper_severity` -/
def sevNonFatalUe : BitVec 32 := 0
def sevFatalUe : BitVec 32 := 1
def sevNonFatalCe : BitVec 32 := 2
def sevRma : BitVec 32 := 3

/-- `RAS_FATAL_SEC_LEN`, `RAS_BOOT_SEC_LEN` and `RAS_NONSTD_SEC_LEN` -/
def fatalSecLen : Nat := 176
def bootSecLen : Nat := 208
def nonstdSecLen : Nat := 272

def nonstdSecOffset (count idx : Nat) : Nat := hdrLen + secDescLen * count + nonstdSecLen * idx

/-- What the builders take from the core: the texts that they format (of the record's id all that the
local has behind it), the time, the parser of banks, and whether there is memory. -/
structure Core where
  recordId : BitVec 64 → List UInt8
  platformId : List UInt8
  fruText : List UInt8
  timestamp : BitVec 64 → Timestamp
  parseBank : List UInt8 → Option Aca.BankEcc
  zallocOk : Bool

/-- `trace->body.aca_reg.regs[idx]` -/
def LogInfo.reg (trace : LogInfo) (idx : Nat) : List UInt8 := read trace.body (8 * idx) 8

def setBitField (m : Store) (off : Nat) (mask bits : UInt8) : Store :=
  write m off [(m off &&& ~~~mask) ||| bits]

section Writers

variable (core : Core) (m : Store)

def cperGetTimestamp (ts : Timestamp) : Store :=
  write m 24 [ts.seconds, ts.minutes, ts.hours, 0, ts.day, ts.month, ts.year, ts.century]

def severity (sev : BitVec 32) : BitVec 32 := if sev = sevRma then sevFatalUe else sev

def notifyType (type : CperType) (sev : BitVec 32) : List UInt8 :=
  match type with
  | .boot => Cper.Host.bootType
  | .fatal | .rma => Cper.Host.mce
  | .runtime => if sev = sevNonFatalCe then Cper.Host.cmc else Cper.Host.mce

/-- `"CPER"` -/
def signature : List UInt8 := [0x43, 0x50, 0x45, 0x52]

def fillSectionHdr (type : CperType) (sev : BitVec 32) (trace : LogInfo) : Store :=
  let m := write m 0 signature
  let m := write m 4 (leBytes 2 0x100)
  let m := write m 6 (leBytes 4 0xffffffff)
  let m := write m 12 (leBytes 4 (severity sev).toNat)
  let m := setBits m 16 1
  let m := setBits m 16 2
  let m := cperGetTimestamp m (core.timestamp trace.timestamp)
  let m := write m 96 ((core.recordId (trace.seqno >>> 8)).take 8)
  let m := write m 32 (vsnprintf 16 core.platformId)
  let m := write m 64 (vsnprintf 16 [0x61, 0x6d, 0x64, 0x67, 0x70, 0x75])
  write m 80 (notifyType type sev)

def fillSectionDescriptor (desc : Nat) (sev : BitVec 32) (secType : List UInt8)
    (sectionOffset sectionLength : Nat) : Store :=
  let m := write m (desc + 8) [0x01]
  let m := write m (desc + 9) [0x22]
  let m := write m desc (leBytes 4 sectionOffset)
  let m := write m (desc + 4) (leBytes 4 sectionLength)
  let m := setBits m (desc + 10) 2
  let m := setBits m (desc + 12) 1
  let m := write m (desc + 48) (leBytes 4 (severity sev).toNat)
  let m := write m (desc + 16) secType
  let m := write m (desc + 52) (vsnprintf 20 core.fruText)
  let m := if sev = sevRma then setBits m (desc + 12) 8 else m
  if sev = sevNonFatalUe then setBits m (desc + 12) 16 else m

def fatalRegs (trace : LogInfo) : List UInt8 := [1, 2, 5, 6].flatMap trace.reg

/-- The registers of a runtime section that are filled: control, status, address, MISC0,
configuration, IPID and syndrome. -/
def runtimeRegs (trace : LogInfo) : List UInt8 := [0, 1, 2, 3, 4, 5, 6].flatMap trace.reg

def fillSectionFatal (sec : Nat) (trace : LogInfo) : Store :=
  fillContext sec 1 32 (fatalRegs trace) m

def fillSectionRuntime (sec : Nat) (trace : LogInfo) (sev : BitVec 32) : Store :=
  let m := setBitField m sec 0xfc 0x04
  let m := setBitField m (sec + 1) 0x3f 0x01
  let m := write m (sec + 64) Cper.Host.runtime
  let m := setBits m (sec + 88) 1
  let m := if sev = sevRma then
      setBits (setBitField (setBits m (sec + 80) 1) (sec + 90) 3 1) (sec + 90) 4
    else m
  fillContext sec 1 128 (runtimeRegs trace) m

def fillSectionBoot (sec : Nat) (log : LogInfo) : Store :=
  let m := write m (sec + 128) (read log.body 20 2)
  let m := write m (sec + 130) (read log.body 22 2)
  write m (sec + 144) (read log.body 24 (min (field m (sec + 130) 2) 64))

end Writers

section Records

variable (core : Core) (traceArr : Nat → LogInfo)

/-- The loop of `cper_generate_runtime_record`, in a record of which the header is filled. -/
def runtimeSections (sev : BitVec 32) (m : Store) : Nat → Store
  | 0 => m
  | i + 1 =>
    let m := runtimeSections sev m i
    let sec := nonstdSecOffset (field m 10 2) i
    let m := fillSectionDescriptor core m (secDescOffset i) sev Cper.Host.runtime sec nonstdSecLen
    fillSectionRuntime m sec (traceArr i) sev

def cperGenerateRuntimeRecord (buffer : Store) (arrNum : Nat) (sev : BitVec 32) : Store :=
  let m := fillSectionHdr core buffer .runtime sev (traceArr 0)
  let m := write m 20 (leBytes 4 (hdrLen + (secDescLen + nonstdSecLen) * arrNum))
  let m := write m 10 (leBytes 2 arrNum)
  runtimeSections core traceArr sev m arrNum

/-- The loop of `cper_generate_fatal_record`: the record at hand and the buffer. -/
def fatalRecords (buffer : Store) : Nat → Store × Store
  | 0 => (fun _ => 0, buffer)
  | i + 1 =>
    let (record, buffer) := fatalRecords buffer i
    let record := fillSectionHdr core record .fatal sevFatalUe (traceArr i)
    let record := write record 20 (leBytes 4 (hdrLen + secDescLen + fatalSecLen))
    let record := write record 10 (leBytes 2 1)
    let record := fillSectionDescriptor core record hdrLen sevFatalUe Cper.Host.crashdump
      (hdrLen + secDescLen) fatalSecLen
    let record := fillSectionFatal record (hdrLen + secDescLen) (traceArr i)
    (record, write buffer (i * field record 20 4) (read record 0 (field record 20 4)))

def cperGenerateFatalRecord (buffer : Store) (arrNum : Nat) : Store :=
  (fatalRecords core traceArr buffer arrNum).2

/-- The loop of `cper_generate_boot_record`. -/
def bootRecords (buffer : Store) : Nat → Store × Store
  | 0 => (fun _ => 0, buffer)
  | i + 1 =>
    let (record, buffer) := bootRecords buffer i
    let severity := BitVec.ofNat 32 (field (traceArr i).body 16 4)
    let record := fillSectionHdr core record .boot severity (traceArr i)
    let record := write record 20 (leBytes 4 (hdrLen + secDescLen + bootSecLen))
    let record := write record 10 (leBytes 2 1)
    let record := fillSectionDescriptor core record hdrLen severity (read (traceArr i).body 0 16)
      (hdrLen + secDescLen) (hdrLen + secDescLen + bootSecLen)
    let record := fillSectionBoot record (hdrLen + secDescLen) (traceArr i)
    (record, write buffer (i * field record 20 4) (read record 0 (field record 20 4)))

def cperGenerateBootRecord (buffer : Store) (arrNum : Nat) : Store :=
  if core.zallocOk then (bootRecords core traceArr buffer arrNum).2 else buffer

end Records

/-- `cper_get_record_size`, of the number of sections in 16 bits -/
def cperGetRecordSize (type : CperType) (sectionCount : BitVec 16) : Int :=
  let count : Int := sectionCount.toNat
  hdrLen + secDescLen * count +
    match type with
    | .runtime | .rma => nonstdSecLen * count
    | .fatal => fatalSecLen * count + hdrLen * (count - 1)
    | .boot => bootSecLen * count

def cperRasLogEventToCperType : LogEvent → CperType
  | .ue => .fatal
  | .de | .ce | .poisonCreation | .poisonConsumption => .runtime
  | .rma => .rma
  | _ => .runtime

def cperMceParseErrType (core : Core) (regs : List UInt8) : LogEvent :=
  match core.parseBank regs with
  | none => .none
  | some ecc =>
    if ecc.count .ue ≠ 0 then .ue
    else if ecc.count .ce ≠ 0 then .ce
    else if ecc.count .de ≠ 0 then .de
    else .none

/-- What a call leaves: its status, the events, the buffer and `*real_data_len`. -/
structure Result where
  status : Int
  traceList : Nat → LogInfo
  buf : Store
  realDataLen : BitVec 32

/-- `-RAS_CORE_ENOMEM` -/
def rasCoreEnomem : Int := -12

/-- The event of a batch is that of its first entry, which for a machine check is parsed. -/
def batchEvent (core : Core) (traceList : Nat → LogInfo) : LogEvent :=
  if (traceList 0).event = .mce then cperMceParseErrType core (read (traceList 0).body 0 128)
  else (traceList 0).event

def rasCperGenerateCper (core : Core) (traceList : Nat → LogInfo) (count : BitVec 32) (buf : Store)
    (bufLen realDataLen : BitVec 32) : Result :=
  let event := batchEvent core traceList
  let traceList := Function.update traceList 0 { traceList 0 with event }
  let recordSize := cperGetRecordSize (cperRasLogEventToCperType event) (count.setWidth 16)
  if recordSize > bufLen.toNat then ⟨rasCoreEnomem, traceList, buf, realDataLen⟩
  else
    let filled := match event with
      | .rma => cperGenerateRuntimeRecord core traceList buf count.toNat sevRma
      | .de => cperGenerateRuntimeRecord core traceList buf count.toNat sevNonFatalUe
      | .ce => cperGenerateRuntimeRecord core traceList buf count.toNat sevNonFatalCe
      | .ue => cperGenerateFatalRecord core traceList buf count.toNat
      | .boot => cperGenerateBootRecord core traceList buf count.toNat
      | _ => buf
    ⟨0, traceList, filled, BitVec.ofInt 32 recordSize⟩

/-- A record for its reader: where its sections are, and its length. -/
structure Record where
  sections : List Span
  length : Nat

/-- There is this record, with its sections one behind the other from the end of the descriptors to
the end of the record. -/
structure RecordAt (m : Store) (off : Nat) (record : Record) : Prop where
  signature : read m off 4 = signature
  sectionCount : field m (off + 10) 2 = record.sections.length
  recordLength : field m (off + 20) 4 = record.length
  described : ∀ i span, record.sections[i]? = some span →
    field m (off + secDescOffset i) 4 = span.1 ∧ field m (off + secDescOffset i + 4) 4 = span.2
  laid : Laid (· = ·) record.sections (secDescOffset record.sections.length) record.length

def Parses (m : Store) : Nat → List Record → Nat → Prop
  | off, [], last => off = last
  | off, record :: rest, last => RecordAt m off record ∧ Parses m (off + record.length) rest last

def runtimeRecord (count : Nat) : Record where
  sections := (List.range count).map fun i => (nonstdSecOffset count i, nonstdSecLen)
  length := hdrLen + (secDescLen + nonstdSecLen) * count

def fatalRecord : Record where
  sections := [(hdrLen + secDescLen, fatalSecLen)]
  length := hdrLen + secDescLen + fatalSecLen

def records (event : LogEvent) (count : Nat) : List Record :=
  match event with
  | .ue => List.replicate count fatalRecord
  | _ => [runtimeRecord count]

def sectionPlace (event : LogEvent) (count idx : Nat) : Nat :=
  match event with
  | .ue => idx * fatalRecord.length + (hdrLen + secDescLen)
  | _ => nonstdSecOffset count idx

def sectionRegs (event : LogEvent) (trace : LogInfo) : List UInt8 :=
  match event with
  | .ue => fatalRegs trace
  | _ => runtimeRegs trace

end MxGpu.RasCper
