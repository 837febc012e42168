import MxGpu.MigTypes

/- The message of a migration file (`gim_mig.c`): the shadow of the dirty bits, what the source
exports into a message, and what the target accepts of one. -/
namespace MxGpu.Mig

def EFAULT : Int := 14
def EBUSY : Int := 16
def ENODEV : Int := 19
def EINVAL : Int := 22

/-! ### The schedule state of the function -/

inductive SchedState
  | unaval
  | avail
  | active
  | suspend
  | fullaccess
  deriving DecidableEq, Repr

/-- The three `GIM_MIG_VF_MIGRATION_*` verdicts. -/
inductive Validation
  | processed
  | skipped
  | failed
  deriving DecidableEq, Repr

/-- `__gim_mig_validate_vf_sched_state` -/
def validateTransition (current new : SchedState) : Validation :=
  match current with
  | .active => if new = .suspend ∨ new = .active then .processed else .failed
  | .suspend => if new = .suspend then .processed else .failed
  | .avail => if new = .avail then .skipped else .failed
  | .unaval => if new = .unaval then .skipped else .failed
  | .fullaccess => .failed

/-- `struct gim_mig_vf_ctx` and the abort flag of its function. No schedule state is
`GIM_MIG_VF_MIGRATION_INVALID`. -/
structure VfCtx where
  migf : File
  vfSchedState : Option SchedState
  abort : Bool

def VfCtx.setAbort (v : VfCtx) : VfCtx := { v with abort := true }

/-- `gim_mig_validate_vf_sched_state`; no `info` when the state could not be read. -/
def validateVfSchedState (v : VfCtx) (info : Option SchedState) : Int × VfCtx :=
  match info with
  | none => (-EFAULT, v.setAbort)
  | some state =>
    let result := validateTransition (v.vfSchedState.getD state) state
    let v := { v with vfSchedState := some state }
    match result with
    | .processed => (1, v)
    | .skipped => (0, v)
    | .failed => (-EFAULT, v.setAbort)

/-! ### The shadow of the dirty bits -/

def bitmapWeight (bitmap : Nat → Bool) (bits : Nat) : Nat := (List.range bits).countP bitmap

def getFbDirtySize (bitmap : Nat → Bool) (bits pageSize : Nat) : Nat :=
  pageSize * bitmapWeight bitmap bits

/-- What `gim_mig_query_dirtybit_data` comes back with: the pages it reports, or an error and
what it left in the buffer. -/
inductive Query
  | reported (pages : Nat → Bool)
  | failed (buffer : Nat → Bool)

/-- `gim_mig_update_shadow_dirtybit`: the result, the file and `shadow_dirty_fb_len`. -/
def updateShadowDirtybit (d : Device) (f : File) (query : Query) : Int × File × Nat :=
  match query with
  | .failed buffer => (-EFAULT, { f with shadowBitmap := buffer }, 0)
  | .reported pages =>
    let len := getFbDirtySize pages d.fbBitmapBits d.fbPageSize
    (0, { f with shadowBitmap := pages, shadowFbLen := len }, len)

/-- `gim_mig_get_dirtybit_from_shadow`: the shadow moves into the message. -/
def getDirtybitFromShadow (f : File) : Nat × File :=
  (f.shadowFbLen,
    { f with
      msg := { f.msg with bitmap := f.shadowBitmap }
      shadowBitmap := fun _ => false
      shadowFbLen := 0 })

/-! ### The header -/

def File.hdr (f : File) : MsgHeader := f.msg.hdr

def File.withHdr (f : File) (hdr : MsgHeader) : File := { f with msg := { f.msg with hdr } }

/-- `hdr->sec[c] = sec` -/
def File.withSec (f : File) (c : Content) (sec : Section) : File :=
  f.withHdr { f.hdr with sec := Function.update f.hdr.sec c sec }

def words (x : Nat) : List Nat := [x % 2 ^ 32, x / 2 ^ 32 % 2 ^ 32]

/-- The words of a section, its bit fields packed into the first two. -/
def Section.words (s : Section) : List Nat :=
  Mig.words (s.valid.toNat + s.granularity % 2 ^ 4 * 2 + s.length % 2 ^ 59 * 2 ^ 5) ++
    Mig.words s.offset

/-- `gim_mig_msg_checksum`: the sum of all words but the checksum; padding is zero. -/
def msgChecksum (hdr : MsgHeader) : Nat :=
  (hdr.version + (words hdr.length).sum + (words hdr.seq).sum + (hdr.sec .ctx).words.sum +
    (hdr.sec .vfHwStaticData).words.sum + (hdr.sec .vfHwDynamicData).words.sum +
    (hdr.sec .vfFbData).words.sum + (hdr.sec .vfFbBitmap).words.sum) % 2 ^ 32

def msgCheck (f : File) : Bool :=
  f.hdr.version == migVersion && f.hdr.checksum == msgChecksum f.hdr

/-! ### Export -/

structure ExportCalls where
  ctxFails : Bool
  staticFails : Bool
  dynamicFails : Bool

/-- One section of `gim_mig_vf_data_export` whose data the adapter fills in. -/
def exportSection (f : File) (c : Content) (length offset : Nat) (fails : Bool) : Bool × File :=
  if f.nextCopyMask c then
    let f := f.withSec c { f.hdr.sec c with length, offset }
    if fails then (false, f)
    else
      (true,
        { f.withSec c { f.hdr.sec c with valid := true } with
          copiedMask := f.copiedMask.set c
          nextCopyMask := f.nextCopyMask.clear c })
  else (true, f)

def exportSections (d : Device) (f : File) (calls : ExportCalls) : Int × File :=
  let offset := sizeofMsgHeader
  match exportSection f .ctx d.ctxSize offset calls.ctxFails with
  | (false, f) => (-EINVAL, f)
  | (true, f) =>
    let offset := offset + d.ctxSize
    match exportSection f .vfHwStaticData d.fwSSize offset calls.staticFails with
    | (false, f) => (-EFAULT, f)
    | (true, f) =>
      let offset := offset + d.fwSSize
      match exportSection f .vfHwDynamicData d.fwDSize offset calls.dynamicFails with
      | (false, f) => (-EFAULT, f)
      | (true, f) => (0, f)

/-- `hdr->length += gim_mig_get_dirtybit_from_shadow(migf)` -/
def exportTake (f : File) : File :=
  let (len, f) := getDirtybitFromShadow f
  f.withHdr { f.hdr with length := f.hdr.length + len }

def exportBitmap (d : Device) (f : File) : File :=
  { f.withSec .vfFbBitmap
      { length := d.fbBitmapSize
        offset := d.bitmapOffset
        granularity := Nat.log2 (d.fbPageSize >>> pageShift)
        valid := true } with
    copiedMask := f.copiedMask.set .vfFbBitmap
    nextCopyMask := f.nextCopyMask.clear .vfFbBitmap }

/-- The last lines of `gim_mig_vf_data_export`. -/
def exportFinish (d : Device) (f : File) : File :=
  let hdr := { f.hdr with
    seq := f.seq
    version := migVersion
    length := f.hdr.length + d.msgSize }
  { f.withHdr { hdr with checksum := msgChecksum hdr } with seq := f.seq + 1 }

def vfDataExport (d : Device) (f : File) (calls : ExportCalls) : Int × File :=
  if f.nextCopyMask.isZero then (0, f)
  else
    match exportSections d f calls with
    | (0, f) =>
      let f := if f.nextCopyMask .vfFbBitmap then exportBitmap d (exportTake f) else f
      (0, exportFinish d f)
    | (err, f) => (err, f)

/-! ### Import -/

/-- Which of the calls into the adapter fail, the comparison of the contexts included. -/
structure ImportCalls where
  ctxDiffers : Bool
  prepareFails : Bool
  staticFails : Bool
  dynamicFails : Bool

/-- `offset + length` of a section, in the 64 bits it is computed in. -/
def Section.ending (s : Section) : Nat := (s.offset + s.length) % 2 ^ 64

/-- One section of `gim_mig_vf_data_import` that is handed to the adapter, once. -/
def importSection (d : Device) (f : File) (c : Content) (call : Int) : Int × File :=
  let sec := f.hdr.sec c
  if sec.valid then
    if f.copiedMask c then (-EINVAL, f)
    else if d.msgSize < sec.ending then (-EINVAL, f)
    else if call ≠ 0 then (call, f)
    else (0, { f with copiedMask := f.copiedMask.set c })
  else (0, f)

def vfDataImport (d : Device) (f : File) (calls : ImportCalls) : Int × File :=
  if !msgCheck f then (-EINVAL, f)
  else
    let ctxCall := if calls.ctxDiffers then -EINVAL else if calls.prepareFails then -EFAULT else 0
    match importSection d f .ctx ctxCall with
    | (0, f) =>
      match importSection d f .vfHwStaticData (if calls.staticFails then -EFAULT else 0) with
      | (0, f) =>
        match importSection d f .vfHwDynamicData (if calls.dynamicFails then -EFAULT else 0) with
        | (0, f) =>
          let sec := f.hdr.sec .vfFbBitmap
          if sec.valid then
            if d.msgSize < sec.ending then (-EINVAL, f)
            else if d.fbPageSize ≠ (0x1 <<< sec.granularity) <<< pageShift then (-EINVAL, f)
            else (0, f)
          else (0, f)
        | (err, f) => (err, f)
      | (err, f) => (err, f)
    | (err, f) => (err, f)

/-! ### The entry points that refill the shadow -/

/-- The bits `gim_mig_update_msg_copy_info` sets before it queries. -/
def markSections (f : File) (isDyna : Bool) : File :=
  let mark (mask : CopyMask) (c : Content) (wanted : Bool) : CopyMask :=
    if wanted && !f.copiedMask c then mask.set c else mask
  { f with
    nextCopyMask :=
      mark (mark (mark f.nextCopyMask .ctx true) .vfHwStaticData true) .vfHwDynamicData isDyna }

/-- What `gim_mig_update_msg_copy_info` does with the outcome of its query. -/
def markBitmap (f : File) (shadowDirtyFbLen : Nat) : File :=
  if 0 < shadowDirtyFbLen then { f with nextCopyMask := f.nextCopyMask.set .vfFbBitmap } else f

/-- A failed query of `gim_mig_update_msg_copy_info`. -/
def dropSections (v : VfCtx) : VfCtx :=
  { v with migf := { v.migf with nextCopyMask := .zero } }.setAbort

/-- `gim_mig_update_msg_copy_info`: the result, the context, `*initial_bytes` and `*dirty_bytes`
where they are written. -/
def updateMsgCopyInfo (d : Device) (v : VfCtx) (info : Option SchedState) (query : Query)
    (isDyna : Bool) : Int × VfCtx × Option Nat × Option Nat :=
  let (ret, v) := validateVfSchedState v info
  if ret ≤ 0 then (ret, v, none, none)
  else if !v.migf.enabled then (-ENODEV, v.setAbort, none, none)
  else
    let (ret, f, len) := updateShadowDirtybit d (markSections v.migf isDyna) query
    if ret ≠ 0 then (-EFAULT, dropSections { v with migf := f }, none, none)
    else
      let f := markBitmap f len
      (0, { v with migf := f }, if f.nextCopyMask.isZero then none else some d.msgSize,
        if 0 < len then some len else none)

end MxGpu.Mig
