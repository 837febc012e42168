import MxGpu.DirtyPages
import MxGpu.MigExport

/- The copy thread's side of the data (`gim_mig.c`): message and dirty pages go into the ring on
the source, and out of it on the target, one chunk at a time. -/
namespace MxGpu.Mig

def findNextBit (bitmap : Nat → Bool) (bits start : Nat) : Nat :=
  ((List.range' start (bits - start)).find? bitmap).getD bits

def bitmapClear (bitmap : Nat → Bool) (start len : Nat) : Nat → Bool :=
  fun i => bitmap i && !(decide (start ≤ i) && decide (i < start + len))

/-- The arguments of `amdgv_vf_fb_copy`: where in the frame buffer, how much, where in the ring,
and in which direction. -/
structure FbCopy where
  fbOffset : Nat
  size : Nat
  gpuAddr : Nat
  toFb : Bool
  deriving DecidableEq, Repr

/-- A copy function's result: the bytes copied, or `-EFAULT`; `*is_done`; the file; and the calls
of `amdgv_vf_fb_copy` it made. -/
structure Copied where
  size : Option Nat
  isDone : Bool
  file : File
  calls : List FbCopy

def clearThreadCopyInfo (f : File) : File :=
  { f with msg := { hdr := .zero, bitmap := fun _ => false, bitPos := 0, off := 0 } }

def endMessage (f : File) : File :=
  let f := clearThreadCopyInfo f
  if !f.isTarget && f.nextCopyMask.isZero then { f with ring := { f.ring with state := .paused } }
  else f

/-- The inner loop of `gim_mig_vf_dirty_fb_copy`: `bit_cnt` and `bits_cnt` after merging the bits
next to `bit_cur`. -/
def mergeBits (bitmap : Nat → Bool) (bits shift left bitCur : Nat) :
    Nat → Nat → Nat → Nat × Nat
  | 0, bitCnt, _ => (bitCnt, 0)
  | bitsCnt + 1, bitCnt, bitNext =>
    let bitNext := findNextBit bitmap bits bitNext
    if bits ≤ bitNext then (bitCnt, bitsCnt + 1)
    else if bitNext = bitCur + bitCnt ∧ (bitCnt + 1) <<< shift % 2 ^ 32 < left then
      mergeBits bitmap bits shift left bitCur bitsCnt (bitCnt + 1) (bitNext + 1)
    else (bitCnt, bitsCnt + 1)

/-- `bits_cnt--` on a 32-bit counter. -/
def decBits (bitsCnt : Nat) : Nat := if bitsCnt = 0 then 2 ^ 32 - 1 else bitsCnt - 1

/-- What a round copies from `bit_cur` on: `sz`, and `bits_cnt` after it. -/
def roundSize (d : Device) (f : File) (bitsCnt left bitCur : Nat) : Nat × Nat :=
  let (bitCnt, bitsCnt) :=
    mergeBits f.msg.bitmap d.fbBitmapBits d.pgShift left bitCur (decBits bitsCnt) 1 (bitCur + 1)
  (min left (bitCnt <<< d.pgShift % 2 ^ 32), bitsCnt)

/-- The bits, the offset and the position after `sz` bytes from page `bit_cur` on. -/
def advance (d : Device) (f : File) (bitCur sz : Nat) : File :=
  let bitCnt := (f.msg.off + sz) >>> d.pgShift
  { f with
    msg := { f.msg with
      off := (f.msg.off + sz) &&& (0x1 <<< d.pgShift - 1)
      bitmap := bitmapClear f.msg.bitmap bitCur bitCnt
      bitPos := bitCur + bitCnt } }

section copy

variable (d : Device) (fails : FbCopy → Bool) (gpuAddr : Nat)

/-- The outer loop of `gim_mig_vf_dirty_fb_copy`. Each round moves at least one byte, so that the
length is fuel enough. -/
def dirtyFbCopyLoop : Nat → File → Nat → Nat → Nat → List FbCopy → Copied
  | 0, f, _, _, copied, calls => ⟨some copied, false, f, calls⟩
  | fuel + 1, f, bitsCnt, left, copied, calls =>
    if left = 0 then ⟨some copied, false, f, calls⟩
    else
      let bitCur := findNextBit f.msg.bitmap d.fbBitmapBits f.msg.bitPos
      if d.fbBitmapBits ≤ bitCur then ⟨some copied, true, endMessage f, calls⟩
      else
        let (sz, bitsCnt) := roundSize d f bitsCnt left bitCur
        let call := ⟨bitCur <<< d.pgShift + f.msg.off, sz, gpuAddr + copied, f.isTarget⟩
        if fails call then ⟨none, false, f, calls ++ [call]⟩
        else
          let f := advance d f bitCur sz
          if d.fbBitmapBits ≤ findNextBit f.msg.bitmap d.fbBitmapBits f.msg.bitPos then
            ⟨some (copied + sz), true, endMessage f, calls ++ [call]⟩
          else dirtyFbCopyLoop fuel f bitsCnt (left - sz) (copied + sz) (calls ++ [call])

def vfDirtyFbCopy (f : File) (len : Nat) : Copied :=
  dirtyFbCopyLoop d fails gpuAddr (len + 1) f (len >>> d.pgShift % 2 ^ 32) len 0 []

end copy

/-- What the copy functions meet outside: the outcomes of the adapter's calls, and on the target
the message that the ring brings. -/
structure Outside where
  exports : ExportCalls
  imports : ImportCalls
  incomingHdr : MsgHeader
  incomingBitmap : Nat → Bool
  fbCopyFails : FbCopy → Bool

def receive (o : Outside) (f : File) : File :=
  { f with msg := { f.msg with hdr := o.incomingHdr, bitmap := o.incomingBitmap } }

/-- `gim_mig_msg_copy`. The buffer of the target is read only when it is complete. -/
def msgCopy (d : Device) (o : Outside) (f : File) (len : Nat) : Option Nat × File :=
  let size := min len (d.msgSize - f.copiedSizeThread)
  let (ret, f) :=
    if !f.isTarget && f.copiedSizeThread = 0 then vfDataExport d f o.exports else (0, f)
  if ret ≠ 0 then (none, f)
  else if f.isTarget && f.copiedSizeThread + size = d.msgSize then
    match vfDataImport d (receive o f) o.imports with
    | (0, f) => (some size, f)
    | (_, f) => (none, f)
  else (some size, f)

/-- The part of `gim_mig_ringbuffer_data_copy` after its `sz` bytes of the message. -/
def fbPart (d : Device) (o : Outside) (f : File) (gpuAddr ringOffset len sz : Nat) : Copied :=
  let r : Copied :=
    if sz < len then
      vfDirtyFbCopy d o.fbCopyFails (gpuAddr + ringOffset + sz) f (len - sz)
    else ⟨some 0, false, f, []⟩
  match r.size with
  | none => ⟨none, r.isDone, r.file, r.calls⟩
  | some n =>
    let f := r.file
    let copied := if r.isDone then 0 else f.copiedSizeThread + (sz + n)
    ⟨some (sz + n), r.isDone, { f with copiedSizeThread := copied }, r.calls⟩

def ringbufferDataCopy (d : Device) (o : Outside) (f : File) (gpuAddr ringOffset len : Nat) :
    Copied :=
  if f.copiedSizeThread < d.msgSize then
    match msgCopy d o f len with
    | (none, f) => ⟨none, false, f, []⟩
    | (some sz, f) => fbPart d o f gpuAddr ringOffset len sz
  else fbPart d o f gpuAddr ringOffset len 0

end MxGpu.Mig
