import MxGpu.AlignUp

/- The state of one function's migration file (`gim_mig.h`): the message buffer, the shadow
bitmap and the ring that the copy thread shares with user space. -/
namespace MxGpu.Mig

open AlignUp (alignUp)

/-- `enum amdgv_migration_data_section`. -/
inductive Content
  | ctx
  | vfHwStaticData
  | vfHwDynamicData
  | vfFbData
  | vfFbBitmap
  deriving DecidableEq, Repr

/-- A mask of sections, one `GIM_MIG_COPY_MASK_*` bit each. -/
abbrev CopyMask := Content → Bool

/-- `mask == 0`. -/
def CopyMask.isZero (mask : CopyMask) : Bool :=
  !mask .ctx && !mask .vfHwStaticData && !mask .vfHwDynamicData && !mask .vfFbData &&
    !mask .vfFbBitmap

def CopyMask.zero : CopyMask := fun _ => false

/-- `mask |= bit`. -/
def CopyMask.set (mask : CopyMask) (c : Content) : CopyMask := Function.update mask c true

/-- `mask &= ~bit`. -/
def CopyMask.clear (mask : CopyMask) (c : Content) : CopyMask := Function.update mask c false

structure Section where
  valid : Bool
  granularity : Nat
  length : Nat
  offset : Nat
  deriving DecidableEq, Repr

structure MsgHeader where
  version : Nat
  length : Nat
  seq : Nat
  sec : Content → Section
  checksum : Nat

/-- The bytes of a header after `memset`. -/
def MsgHeader.zero : MsgHeader where
  version := 0
  length := 0
  seq := 0
  sec := fun _ => ⟨false, 0, 0, 0⟩
  checksum := 0

/-- The message buffer: its header, the dirty bitmap in it, and how far the bitmap has been
worked off. -/
structure Msg where
  hdr : MsgHeader
  bitmap : Nat → Bool
  bitPos : Nat
  off : Nat

inductive ThreadState
  | running
  | paused
  | abnormal
  deriving DecidableEq, Repr

/-- The ring buffer; `mem` is what `va_ptr` points at. -/
structure Ring where
  rptr : Nat
  wptr : Nat
  state : ThreadState
  mem : Nat → UInt8

structure File where
  enabled : Bool
  seq : Nat
  isTarget : Bool
  totalBytesFd : Nat
  leftBytesFd : Int
  copiedSizeThread : Nat
  nextCopyMask : CopyMask
  copiedMask : CopyMask
  shadowBitmap : Nat → Bool
  shadowFbLen : Nat
  msg : Msg
  ring : Ring

/-- What is fixed for a function while it migrates: the page size of the dirty bitmap, the size
of the frame buffer and of the sections, and `sizeof(struct amdgv_migration_ctx)`. The page
sizes in use are powers of two between a system page and the ring. -/
structure Device where
  pgShift : Nat
  fbSize : Nat
  ctxSize : Nat
  fwSSize : Nat
  fwDSize : Nat
  pgShift_ge : 12 ≤ pgShift
  pgShift_lt : pgShift < 25

def ringBufSize : Nat := 0x1 <<< 25

def bufMask : Nat := ringBufSize - 1

def pageShift : Nat := 12

/-- `sizeof(struct gim_mig_msg_header)` -/
def sizeofMsgHeader : Nat := 112

def migVersion : Nat := 1

namespace Device

def fbPageSize (d : Device) : Nat := 0x1 <<< d.pgShift

def bitmapOffset (d : Device) : Nat := sizeofMsgHeader + d.ctxSize + d.fwDSize + d.fwSSize

def fbBitmapBits (d : Device) : Nat := d.fbSize / d.fbPageSize

def fbBitmapSize (d : Device) : Nat := alignUp (d.fbBitmapBits >>> 3) (0x1 <<< pageShift)

/-- `GIM_MIG_VF_MSG_BUF_SIZE`, the size of the message buffer -/
def msgSize (d : Device) : Nat := alignUp (d.bitmapOffset + d.fbBitmapSize) d.fbPageSize

theorem fbPageSize_eq (d : Device) : d.fbPageSize = 2 ^ d.pgShift := Nat.one_shiftLeft _

theorem fbPageSize_pos (d : Device) : 0 < d.fbPageSize := by
  rw [fbPageSize_eq]
  exact Nat.two_pow_pos _

theorem fbPageSize_lt (d : Device) : d.fbPageSize < ringBufSize := by
  rw [fbPageSize_eq, ringBufSize, Nat.one_shiftLeft]
  exact Nat.pow_lt_pow_right (by omega) d.pgShift_lt

theorem fbPageSize_dvd_msgSize (d : Device) : d.fbPageSize ∣ d.msgSize :=
  AlignUp.dvd_alignUp _ _

theorem msgSize_pos (d : Device) : 0 < d.msgSize := by
  have hle : d.bitmapOffset + d.fbBitmapSize ≤ d.msgSize :=
    AlignUp.le_alignUp _ d.fbPageSize_pos
  have : sizeofMsgHeader ≤ d.bitmapOffset := by
    unfold bitmapOffset
    omega
  have : 0 < sizeofMsgHeader := by decide
  omega

end Device

@[simp] theorem CopyMask.zero_apply (c : Content) : CopyMask.zero c = false := rfl

@[simp] theorem CopyMask.set_self (mask : CopyMask) (c : Content) : mask.set c c = true := by
  simp [CopyMask.set]

@[simp] theorem CopyMask.clear_self (mask : CopyMask) (c : Content) :
    mask.clear c c = false := by
  simp [CopyMask.clear]

theorem CopyMask.set_of_ne (mask : CopyMask) {c c' : Content} (h : c' ≠ c) :
    mask.set c c' = mask c' := by
  simp [CopyMask.set, h]

theorem CopyMask.clear_of_ne (mask : CopyMask) {c c' : Content} (h : c' ≠ c) :
    mask.clear c c' = mask c' := by
  simp [CopyMask.clear, h]

theorem CopyMask.isZero_eq_false {mask : CopyMask} {c : Content} (h : mask c = true) :
    mask.isZero = false := by
  cases c <;> simp [CopyMask.isZero, h]

end MxGpu.Mig
