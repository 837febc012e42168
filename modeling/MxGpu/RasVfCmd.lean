import MxGpu.ByteStore

/- The RAS commands of a VF (`amdgv_ras_handle_vf_cmd` and the handlers that it reaches). -/
namespace MxGpu.RasVf

open ByteStore

inductive Response where
  | success
  | exceedBuffer
  | unknownCmd
  | invalidCmd
  | version
  | invalidInputSize
  | invalidInputData
  | drvInitFail
  | accessDenied
  | generic
  | timeout
  | unsupport
  deriving DecidableEq

/-- The commands that `amdgv_ras_cmd_handle_vf_cmd` lets through. -/
inductive VfCmd where
  | getBlockEccStatus
  | getBadPages
  | getCperSnapshot
  | getCperRecord
  | getBatchTraceSnapshot
  | getBatchTraceRecord
  | getAllBlockEccStatus
  | setCmdAutoUpdate
  | checkAddressValidity
  | convertRetiredAddress
  deriving DecidableEq

/-- `enum ras_cmd_id`, with nothing for an id that a VF may not use. -/
def VfCmd.ofId (cmdId : BitVec 32) : Option VfCmd :=
  match cmdId.toNat with
  | 3 => some .getBlockEccStatus
  | 5 => some .getBadPages
  | 11 => some .getCperSnapshot
  | 12 => some .getCperRecord
  | 13 => some .getBatchTraceSnapshot
  | 14 => some .getBatchTraceRecord
  | 15 => some .getAllBlockEccStatus
  | 16 => some .setCmdAutoUpdate
  | 17 => some .checkAddressValidity
  | 18 => some .convertRetiredAddress
  | _ => none

def rasCmdIdMxgpuVfEnd : BitVec 32 := 0x40000

def amdgvMaxVfNum : BitVec 32 := 31

/-- `RAS_BLOCK_ID__LAST`. -/
def rasBlockIdLast : BitVec 32 := 39

def rasCmdMaxBufSize : BitVec 32 := 4096 * 13

def ossGpuPageSize : BitVec 32 := 0x1000

/-- The size of a `struct ras_cmd_ctx`, without its output buffer. -/
def ctxSize : BitVec 32 := 304

/-- `struct ras_cmd_block_ecc`. -/
structure EccCounts where
  ce : BitVec 32
  ue : BitVec 32
  de : BitVec 32
  deriving DecidableEq

def EccCounts.since (counts baseline : EccCounts) : EccCounts where
  ce := if counts.ce > baseline.ce then counts.ce - baseline.ce else 0
  ue := if counts.ue > baseline.ue then counts.ue - baseline.ue else 0
  de := if counts.de > baseline.de then counts.de - baseline.de else 0

/-- What `ras_cmd_update_bad_page_info` reads of a `struct eeprom_umc_record`. -/
structure UmcRecord where
  curNpsRetiredRowPfn : BitVec 64
  ts : BitVec 64
  errType : BitVec 32
  memChannel : BitVec 8
  mcumcId : BitVec 8
  address : BitVec 64
  bank : BitVec 8
  deriving DecidableEq

structure BadPageRecord where
  address : BitVec 64
  retiredPage : BitVec 64
  ts : BitVec 64
  errType : BitVec 32
  bank : BitVec 8
  memChannel : BitVec 8
  mcumcId : BitVec 8
  valid : BitVec 8
  deriving DecidableEq

structure LogInfo where
  seqno : BitVec 64
  timestamp : BitVec 64
  event : BitVec 32
  acaReg : List (BitVec 64)
  deriving DecidableEq

/-- `struct ras_cmd_bad_pages_info_rsp`; the records after these are zero. -/
structure BadPagesRsp where
  groupIndex : BitVec 32
  bpInGroup : BitVec 32
  bpTotalCnt : BitVec 32
  records : List BadPageRecord
  deriving DecidableEq

/-- `struct ras_cmd_cper_snapshot_rsp` and `struct ras_cmd_batch_trace_snapshot_rsp`. -/
structure SnapshotRsp where
  totalNum : BitVec 32
  startId : BitVec 64
  latestId : BitVec 64
  deriving DecidableEq

structure CperRecordRsp where
  realDataSize : BitVec 32
  realCperNum : BitVec 32
  remainNum : BitVec 32
  deriving DecidableEq

/-- `struct batch_ras_trace_info`. -/
structure BatchInfo where
  batchId : BitVec 64
  offset : BitVec 16
  traceNum : BitVec 8
  deriving DecidableEq

/-- `struct ras_cmd_batch_trace_record_rsp`; what is after these batches and records is zero. -/
structure BatchTraceRsp where
  realBatchNum : BitVec 16
  remainNum : BitVec 16
  startBatchId : BitVec 64
  batchs : List BatchInfo
  records : List LogInfo
  deriving DecidableEq

/-- The output buffer of a command; it is zero where nothing is put. -/
inductive Output where
  | zeros
  | blockEcc (counts : EccCounts)
  | badPages (rsp : BadPagesRsp)
  | snapshot (rsp : SnapshotRsp)
  | cperRecord (rsp : CperRecordRsp)
  | batchTrace (rsp : BatchTraceRsp)
  | blocksEcc (blocks : List EccCounts)
  | autoUpdate
  | addressCheck (result : BitVec 32)
  | convertRetired (retiredCount : BitVec 32) (retiredAddr : List (BitVec 64))
  deriving DecidableEq

/-- `struct ras_cmd_ctx`; `echo` is the magic number, the versions and the reserved words, which
nobody looks at. -/
structure RasCmdCtx where
  echo : List UInt8
  cmdId : BitVec 32
  cmdRes : BitVec 32
  inputSize : BitVec 32
  outputSize : BitVec 32
  outputBufSize : BitVec 32
  input : Store
  output : Output

/-- What `ras_cper_generate_cper` makes of the records of a batch: the size of the record, and how
many of its bytes are written. -/
structure CperRecord where
  size : BitVec 32
  written : BitVec 32

/-- What the commands read of the host, for one VF. `batchRecords` is what
`ras_log_ring_get_batch_records` finds, `rowPages` what `ras_umc_convert_record_to_row_pages`
puts into an array of a given length, and the last five say how allocations and the checks of user
memory go. -/
structure Host where
  rasMgr : Bool
  enabled : Bool
  inResetTooLong : Bool
  numVf : BitVec 32
  rasCaps : BitVec 64
  vfSlot : BitVec 64 → BitVec 32
  fbOffset : BitVec 32
  fbSize : BitVec 32
  ecc : BitVec 32 → Option EccCounts
  baseline : BitVec 32 → EccCounts
  startRptr : BitVec 64
  badPages : List UmcRecord
  firstBatch : BitVec 64
  lastBatch : BitVec 64
  batchRecords : BitVec 64 → List LogInfo
  cper : List LogInfo → CperRecord
  rowPages : BitVec 64 → BitVec 32 → List (BitVec 64)
  maxPagesPerRow : BitVec 32
  critical : BitVec 64 → Bool
  rowsAllocated : Bool
  traceAllocated : Bool
  accessOk : BitVec 64 → BitVec 32 → Bool
  bufAllocated : Option (BitVec 64)
  copiedToUser : Bool

/-- An access to memory other than the host's own buffers: a copy from or to the VF's frame
buffer, or a write to an address of the host or of a user. A copy to the VF says how large the
guest's buffer and the host's are, and which command answers what. -/
inductive Access where
  | copyFromVf (offset : BitVec 64) (size : BitVec 32)
  | copyToVf (offset : BitVec 64) (size gpaSize memSize : BitVec 32) (cmd : RasCmdCtx)
  | hostWrite (addr : BitVec 64) (size : BitVec 32)
  | userWrite (addr : BitVec 64) (size : BitVec 32)

/-- A command after its handler; `returned` is false where the handler is still at work. -/
structure Handled where
  cmd : RasCmdCtx
  res : Response
  accesses : List Access
  returned : Bool

/-- What `amdgv_ras_handle_vf_cmd` returns. -/
inductive Ret where
  | ok
  | einval
  | eperm
  | enomem
  | notSupported
  | copyFailed
  deriving DecidableEq

def Response.code : Response → BitVec 32
  | .success => 0
  | .exceedBuffer => 1
  | .unknownCmd => 2
  | .invalidCmd => 3
  | .version => 4
  | .invalidInputSize => 5
  | .invalidInputData => 6
  | .drvInitFail => 7
  | .accessDenied => 8
  | .generic => 9
  | .timeout => 10
  | .unsupport => 11

def field32 (input : Store) (offset : Nat) : BitVec 32 := BitVec.ofNat 32 (ofLe (read input offset 4))

def field64 (input : Store) (offset : Nat) : BitVec 64 := BitVec.ofNat 64 (ofLe (read input offset 8))

def setField64 (input : Store) (offset : Nat) (value : BitVec 64) : Store :=
  write input offset (leBytes 8 value.toNat)

def mbytesToBytes (mb : BitVec 32) : BitVec 64 := mb.setWidth 64 <<< 20

def fail (cmd : RasCmdCtx) (res : Response) : Handled := ⟨cmd, res, [], true⟩

def answer (cmd : RasCmdCtx) (output : Output) (outputSize : BitVec 32) : Handled :=
  ⟨{ cmd with output, outputSize }, .success, [], true⟩

section Handlers

variable (host : Host) (idxVf : BitVec 32) (cmd : RasCmdCtx)

def checkVfRasCmd : Bool := idxVf < host.numVf && idxVf < amdgvMaxVfNum

/-- `amdgv_ras_get_block_ecc_info` with `ras_get_block_ecc_info`. -/
def getBlockEccInfo : Handled :=
  let blockId := field32 cmd.input 8
  if blockId ≥ rasBlockIdLast then fail cmd .invalidInputData
  else if host.rasCaps &&& 1#64 <<< blockId.toNat = 0 then fail cmd .accessDenied
  else if !host.rasMgr then fail cmd .invalidInputData
  else if cmd.inputSize ≠ 32 ∨ cmd.outputBufSize < 40 then fail cmd .invalidInputSize
  else
    match host.ecc blockId with
    | none => fail cmd .generic
    | some counts => answer cmd (.blockEcc (counts.since (host.baseline blockId))) 40

def updateBadPageInfo (record : UmcRecord) : BadPageRecord where
  address := record.address
  retiredPage := record.curNpsRetiredRowPfn
  ts := record.ts
  errType := record.errType
  bank := record.bank
  memChannel := record.memChannel
  mcumcId := record.mcumcId
  valid := 1

/-- `ras_cmd_get_group_bad_pages`; 32 records are a group. -/
def getGroupBadPages (groupIndex : BitVec 32) : Option BadPagesRsp :=
  let bpCnt := host.badPages.length
  if bpCnt = 0 then some ⟨0, 0, 0, []⟩
  else
    let groupCnt := bpCnt / 32 + if bpCnt % 32 = 0 then 0 else 1
    if groupIndex.toNat ≥ groupCnt then none
    else
      let group := (host.badPages.drop (groupIndex.toNat * 32)).take 32
      some ⟨groupIndex, BitVec.ofNat 32 group.length, BitVec.ofNat 32 bpCnt,
        group.map updateBadPageInfo⟩

def zeroBadPage : BadPageRecord := ⟨0, 0, 0, 0, 0, 0, 0, 0⟩

/-- A bad page as its VF sees it; those of others are blanked. -/
def translateBadPage (rc : BadPageRecord) : BadPageRecord :=
  if idxVf = host.vfSlot (rc.retiredPage <<< 12) then
    { rc with retiredPage := rc.retiredPage - mbytesToBytes host.fbOffset >>> 12 }
  else zeroBadPage

/-- `amdgv_ras_get_bad_pages` with `ras_cmd_get_bad_pages`. -/
def getBadPages : Handled :=
  if cmd.inputSize ≠ 32 ∨ cmd.outputBufSize < 1312 then fail cmd .invalidInputSize
  else
    match getGroupBadPages host (field32 cmd.input 8) with
    | none => fail cmd .generic
    | some rsp =>
      if checkVfRasCmd host idxVf then
        answer cmd (.badPages { rsp with records := rsp.records.map (translateBadPage host idxVf) })
          1312
      else answer cmd (.badPages rsp) 1312

def snapshotSince : SnapshotRsp :=
  let baseline := host.startRptr
  if host.firstBatch < baseline then
    { totalNum := if baseline ≥ host.lastBatch then 0 else (host.lastBatch - baseline).setWidth 32
      startId := baseline
      latestId := host.lastBatch }
  else ⟨(host.lastBatch - host.firstBatch).setWidth 32, host.firstBatch, host.lastBatch⟩

/-- `amdgv_ras_get_cper_snapshot` and `amdgv_ras_get_batch_trace_snapshot`, with what they call in
the core. -/
def getSnapshot : Handled :=
  if !host.rasMgr then fail cmd .invalidInputData
  else if cmd.inputSize ≠ 8 then fail cmd .invalidInputSize
  else if cmd.outputBufSize < 40 then fail cmd .invalidInputSize
  else answer cmd (.snapshot (snapshotSince host)) 40

/-- The loop of `ras_cmd_get_cper_records`: where in the buffer how much is written, the offset
and the index at the end, and whether a record did not fit. -/
def cperLoop (start : BitVec 64) (bufSize : BitVec 32) :
    Nat → BitVec 32 → BitVec 32 → List (BitVec 32 × BitVec 32) × BitVec 32 × BitVec 32 × Bool
  | 0, i, offset => ([], offset, i, false)
  | left + 1, i, offset =>
    let batchId := start + i.setWidth 64
    if batchId ≥ host.lastBatch then ([], offset, i, false)
    else
      let trace := host.batchRecords batchId
      if trace = [] then cperLoop start bufSize left (i + 1) offset
      else
        let record := host.cper trace
        if record.size > bufSize - offset then ([], offset, i, true)
        else
          let (writes, last) := cperLoop start bufSize left (i + 1) (offset + record.size)
          ((offset, record.written) :: writes, last)

def clampStart (id : BitVec 64) : BitVec 64 := if id > host.startRptr then id else host.startRptr

/-- `ras_cmd_get_cper_records`, with what it writes. -/
def rasGetCperRecords : Handled × List (BitVec 32 × BitVec 32) :=
  let bufSize := field32 cmd.input 20
  let cperNum := field32 cmd.input 16
  if cmd.inputSize ≠ 48 ∨ cmd.outputBufSize < 32 then (fail cmd .invalidInputSize, [])
  else if bufSize = 0 ∨ field64 cmd.input 24 = 0 ∨ cperNum = 0 then
    (fail cmd .invalidInputData, [])
  else if !host.traceAllocated then (fail cmd .generic, [])
  else
    let (writes, offset, i, full) :=
      cperLoop host (field64 cmd.input 8) bufSize cperNum.toNat 0 0
    (answer cmd (.cperRecord ⟨offset, i, if full then cperNum - i else 0⟩) 32, writes)

def getCperRecords : Handled :=
  let bufPtr := field64 cmd.input 24
  let bufSize := field32 cmd.input 20
  if !host.rasMgr then fail cmd .invalidInputData
  else if cmd.inputSize ≠ 48 then fail cmd .invalidInputSize
  else if bufSize = 0 ∨ bufPtr = 0 ∨ field32 cmd.input 16 = 0 then fail cmd .invalidInputData
  else
    let start := clampStart host (field64 cmd.input 8)
    if host.accessOk bufPtr bufSize then
      match host.bufAllocated with
      | none => fail cmd .generic
      | some buf =>
        -- the records go to a buffer of the host and from there to the user
        let input := setField64 (setField64 cmd.input 24 buf) 8 start
        let handled := (rasGetCperRecords host { cmd with input }).1
        if handled.res ≠ .success then handled
        else
          { handled with
            cmd := { handled.cmd with input := setField64 handled.cmd.input 24 bufPtr }
            res := if host.copiedToUser then .success else .generic
            accesses := [.userWrite bufPtr bufSize] }
    else
      let (handled, writes) :=
        rasGetCperRecords host { cmd with input := setField64 cmd.input 8 start }
      { handled with
        accesses := writes.map fun (offset, size) =>
          .hostWrite (bufPtr + offset.setWidth 64) size }

/-- What the loop of `ras_cmd_get_batch_trace_records` has put, and whether it has come to the
last batch. -/
structure TraceRun where
  batchs : List BatchInfo
  records : List LogInfo
  i : BitVec 32
  completed : Bool

def batchTraceLoop (start : BitVec 64) : Nat → BitVec 32 → Nat → TraceRun
  | 0, i, _ => ⟨[], [], i, false⟩
  | left + 1, i, offset =>
    let id := start + i.setWidth 64
    if id ≥ host.lastBatch then ⟨[], [], i, true⟩
    else
      let trace := host.batchRecords id
      -- RAS_CMD_MAX_TRACE_NUM
      if trace.length > 0 ∧ offset + trace.length > 300 then ⟨[], [], i, false⟩
      else
        let rest := batchTraceLoop start left (i + 1) (offset + trace.length)
        { rest with
          batchs := ⟨id, BitVec.ofNat 16 offset, BitVec.ofNat 8 trace.length⟩ :: rest.batchs
          records := trace ++ rest.records }

/-- `ras_cmd_get_batch_trace_records`. -/
def rasGetBatchTraceRecords : Handled :=
  let batchNum := field32 cmd.input 16
  let start := field64 cmd.input 8
  if cmd.inputSize ≠ 40 ∨ cmd.outputBufSize < 50424 then fail cmd .invalidInputSize
  -- RAS_CMD_MAX_BATCH_NUM
  else if batchNum = 0 ∨ batchNum > 300 then fail cmd .invalidInputData
  else if start < host.firstBatch ∨ start ≥ host.lastBatch then fail cmd .invalidInputSize
  else if !host.traceAllocated then fail cmd .generic
  else
    let run := batchTraceLoop host start batchNum.toNat 0 0
    answer cmd (.batchTrace
      { realBatchNum := run.i.setWidth 16
        remainNum := if run.completed then 0 else (batchNum - run.i).setWidth 16
        startBatchId := start
        batchs := run.batchs
        records := run.records }) 50424

def getBatchTraceRecords : Handled :=
  if !host.rasMgr then fail cmd .invalidInputData
  else if cmd.inputSize ≠ 40 then fail cmd .invalidInputSize
  else if field32 cmd.input 16 = 0 then fail cmd .invalidInputData
  else
    let start := clampStart host (field64 cmd.input 8)
    rasGetBatchTraceRecords host { cmd with input := setField64 cmd.input 8 start }

/-- `amdgv_ras_get_all_block_ecc_info`; `MAX_RAS_BLOCK_NUM` blocks. -/
def getAllBlockEccInfo : Handled :=
  if cmd.inputSize ≠ 8 then fail cmd .invalidInputSize
  else if !host.rasMgr then fail cmd .invalidInputData
  else
    let blocks := (List.range 20).mapM fun blk =>
      if host.rasCaps &&& 1#64 <<< blk = 0 then some ⟨0, 0, 0⟩
      else (host.ecc (BitVec.ofNat 32 blk)).map (·.since (host.baseline (BitVec.ofNat 32 blk)))
    match blocks with
    | none => fail cmd .generic
    | some blocks => answer cmd (.blocksEcc blocks) 264

/-- `amdgv_ras_set_cmd_auto_update`. `added` tells whether `amdgv_ras_add_vf_cmd_to_auto_list`
gives a command back, and `nested` handles the command that is added. -/
def setCmdAutoUpdate (added : Bool) (nested : BitVec 64 → BitVec 32 → List Access × Option Ret) :
    Handled :=
  if !host.rasMgr || idxVf ≥ amdgvMaxVfNum then fail cmd .invalidInputData
  else if cmd.inputSize ≠ 48 then fail cmd .invalidInputSize
  else
    let done := answer cmd .autoUpdate 20
    if added && field32 cmd.input 8 ≠ 0 then
      let (accesses, ret) := nested (field64 cmd.input 16) (field32 cmd.input 24)
      { done with accesses, returned := ret.isSome }
    else done

def checkedAddress : BitVec 64 :=
  if field32 cmd.input 20 < host.numVf ∨ checkVfRasCmd host idxVf then
    field64 cmd.input 8 + mbytesToBytes host.fbOffset
  else field64 cmd.input 8

def checkAddressValidity : Handled :=
  if cmd.inputSize ≠ 40 ∨ field64 cmd.input 8 = 0 then fail cmd .invalidInputData
  else if !host.rowsAllocated then fail cmd .generic
  else
    let pages := host.rowPages (checkedAddress host idxVf cmd >>> 12) host.maxPagesPerRow
    if pages = [] then fail cmd .drvInitFail
    else
      let result := if pages.any fun pfn => host.critical (pfn <<< 12) then
        Response.accessDenied.code else 0
      answer cmd (.addressCheck result) 32

/-- The addresses of the pages that lie in the frame buffer of the VF. -/
def guestAddresses (pages : List (BitVec 64)) : List (BitVec 64) :=
  (pages.map fun pfn : BitVec 64 => (pfn <<< 12) - mbytesToBytes host.fbOffset).filter fun guestAddr =>
    guestAddr < mbytesToBytes host.fbSize

/-- `amdgv_ras_convert_retired_address`; at most `RAS_CMD_MAX_RETIRED_ADDR_COUNT` addresses. -/
def convertRetiredAddress : Handled :=
  if cmd.inputSize ≠ 40 then fail cmd .invalidInputData
  else
    let address := field64 cmd.input 8 + mbytesToBytes host.fbOffset
    let cmd := { cmd with input := setField64 cmd.input 8 address }
    let pages := host.rowPages (address >>> 12) 128
    if pages = [] then fail cmd .drvInitFail
    else if checkVfRasCmd host idxVf then
      -- the guest's addresses are put over the first of the pages
      let valid := guestAddresses host pages
      answer cmd (.convertRetired (BitVec.ofNat 32 valid.length)
        (valid ++ pages.drop valid.length)) 1032
    else answer cmd (.convertRetired 0 pages) 1032

/-- `amdgv_ras_handle_cmd`, for the commands of a VF. -/
def amdgvRasHandleCmd (added : Bool) (nested : BitVec 64 → BitVec 32 → List Access × Option Ret) :
    VfCmd → Handled
  | .getBlockEccStatus => getBlockEccInfo host cmd
  | .getBadPages => getBadPages host idxVf cmd
  | .getCperSnapshot => getSnapshot host cmd
  | .getCperRecord => getCperRecords host cmd
  | .getBatchTraceSnapshot => getSnapshot host cmd
  | .getBatchTraceRecord => getBatchTraceRecords host cmd
  | .getAllBlockEccStatus => getAllBlockEccInfo host cmd
  | .setCmdAutoUpdate => setCmdAutoUpdate host idxVf cmd added nested
  | .checkAddressValidity => checkAddressValidity host idxVf cmd
  | .convertRetiredAddress => convertRetiredAddress host idxVf cmd

/-- `amdgv_ras_submit_cmd`; its own result, beside the one of the command in the context. -/
def amdgvRasSubmitCmd (added : Bool) (nested : BitVec 64 → BitVec 32 → List Access × Option Ret)
    (vfCmd : VfCmd) : Handled :=
  let cmd := { cmd with cmdRes := Response.invalidCmd.code, outputSize := 0 }
  if !host.enabled then fail cmd .accessDenied
  else if host.inResetTooLong then fail cmd .timeout
  else
    let handled := amdgvRasHandleCmd host idxVf cmd added nested vfCmd
    { handled with
      cmd := { handled.cmd with cmdRes := handled.res.code }
      res := if handled.cmd.outputSize > handled.cmd.outputBufSize then .exceedBuffer
        else .success }

/-- `amdgv_ras_cmd_handle_vf_cmd`: the result of the submission goes over the one of the
command. -/
def amdgvRasCmdHandleVfCmd (added : Bool)
    (nested : BitVec 64 → BitVec 32 → List Access × Option Ret) : Handled :=
  match VfCmd.ofId cmd.cmdId with
  | none => fail cmd .accessDenied
  | some vfCmd =>
    let handled := amdgvRasSubmitCmd host idxVf cmd added nested vfCmd
    { handled with
      cmd := { handled.cmd with cmdRes := handled.res.code }
      res := .success }

end Handlers

/-- The RAS telemetry table of a VF: `amdgv_vfmgr` gives it 64 KB, and before that it has
nothing. -/
structure VfTable where
  offset : BitVec 64
  sizeKb : BitVec 64
  sized : sizeKb = 0 ∨ sizeKb = 64
  inside : offset.toNat + 0x10000 ≤ 2 ^ 64

/-- What one call finds: the host, the command in the frame buffer, and whether the allocation,
the two copies and the addition to the list of commands succeed. -/
structure Turn where
  host : Host
  allocated : Bool
  copiedFrom : Bool
  cmd : RasCmdCtx
  added : Bool
  copiedTo : Bool

/-- `KBYTES_TO_BYTES` of the size of the table. -/
def VfTable.size (table : VfTable) : BitVec 64 := table.sizeKb <<< 10

def memSize (gpaSize : BitVec 32) : BitVec 32 :=
  if gpaSize < ossGpuPageSize then ossGpuPageSize else gpaSize

/-- `amdgv_ras_handle_vf_cmd` and the calls that it makes of itself, each with what it finds; a
call for which there is nothing left is still to come. -/
def amdgvRasHandleVfCmd (table : VfTable) (idxVf : BitVec 32) :
    List Turn → BitVec 64 → BitVec 32 → List Access × Option Ret
  | [], _, _ => ([], none)
  | turn :: turns, gpaAddr, gpaSize =>
    if gpaAddr = 0 ∨ gpaSize < ctxSize ∨ gpaSize > rasCmdMaxBufSize ∨ idxVf ≥ amdgvMaxVfNum then
      ([], some .einval)
    else if !turn.host.rasMgr then ([], some .eperm)
    else if table.size = 0 ∨ gpaAddr < table.offset ∨
        gpaAddr - table.offset > table.size - gpaSize.setWidth 64 then ([], some .einval)
    else if !turn.allocated then ([], some .enomem)
    else
      let offset := table.offset + (gpaAddr - table.offset)
      let fetch := Access.copyFromVf offset ctxSize
      if !turn.copiedFrom then ([fetch], some .copyFailed)
      else if turn.cmd.cmdId = 0 ∨ turn.cmd.cmdId ≥ rasCmdIdMxgpuVfEnd then
        ([fetch], some .notSupported)
      else
        let cmd := { turn.cmd with
          output := .zeros, outputBufSize := memSize gpaSize - ctxSize }
        let handled := amdgvRasCmdHandleVfCmd turn.host idxVf cmd turn.added
          (amdgvRasHandleVfCmd table idxVf turns)
        if !handled.returned then (fetch :: handled.accesses, none)
        else
          let cmd := if handled.res ≠ .success then
            { handled.cmd with cmdRes := handled.res.code, outputSize := 0 } else handled.cmd
          let outDataSize := if handled.res ≠ .success then ctxSize else ctxSize + cmd.outputSize
          (fetch :: handled.accesses ++
              [.copyToVf offset outDataSize gpaSize (memSize gpaSize) cmd],
            some (if turn.copiedTo then .ok else .copyFailed))

end MxGpu.RasVf
