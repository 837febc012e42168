import MxGpu.MigFbCopy

/- The ring buffer of a migration file (`gim_mig.c`): how the copy thread and user space look at
it, and the data user space moves. On the source user space reads at `rptr` what the thread wrote
at `wptr`; on the target the thread reads at `rptr` what user space wrote at `wptr`. -/
namespace MxGpu.Mig

/-- `a - b` of two `size_t`. -/
def subSize (a b : Nat) : Nat := (a + 2 ^ 64 - b) % 2 ^ 64

def toSsize (x : Nat) : Int := if x < 2 ^ 63 then x else x - 2 ^ 64

/-- `memcpy` between two buffers. -/
def memcpy (dst : Nat → UInt8) (dstPos : Nat) (src : Nat → UInt8) (srcPos len : Nat) :
    Nat → UInt8 :=
  fun i => if dstPos ≤ i ∧ i < dstPos + len then src (srcPos + (i - dstPos)) else dst i

/-- The `length` field of a message header at an address. -/
def headerLength (mem : Nat → UInt8) (addr : Nat) : Nat :=
  (List.range 8).foldr (fun i rest => (mem (addr + 8 + i)).toNat + 256 * rest) 0

/-- `gim_mig_get_total_bytes`: too short a piece leaves the old total. -/
def getTotalBytes (f : File) (addr len : Nat) : File :=
  if 16 ≤ len then { f with totalBytesFd := headerLength f.ring.mem addr } else f

def startMessage (f : File) (addr len : Nat) : File :=
  if f.leftBytesFd = 0 then
    let f := getTotalBytes f addr len
    { f with leftBytesFd := toSsize f.totalBytesFd }
  else f

/-! ### The copy thread -/

def File.threadPtr (f : File) : Nat := if f.isTarget then f.ring.rptr else f.ring.wptr

/-- `gim_mig_thread_check_ringbuffer_space`: whether there is enough, `*available_space` and
`*wptr`. -/
def threadCheckRingbufferSpace (d : Device) (f : File) : Bool × Nat × Nat :=
  let available :=
    if f.isTarget then (f.ring.wptr + ringBufSize - f.ring.rptr) &&& bufMask
    else subSize (ringBufSize + f.ring.rptr - f.ring.wptr) d.fbPageSize &&& bufMask
  (decide (d.fbPageSize ≤ available), available, f.threadPtr)

def beforeEnd (available ptr : Nat) : Nat :=
  let wrapped := if ringBufSize < available + ptr then available + ptr - ringBufSize else 0
  available - wrapped

def threadRingbufferDataCopy (d : Device) (o : Outside) (f : File) (gpuAddr available wptr : Nat) :
    Copied :=
  let available := beforeEnd available wptr
  if 0 < available then
    ringbufferDataCopy d o f gpuAddr wptr (available / d.fbPageSize * d.fbPageSize)
  else ⟨some 0, false, f, []⟩

/-- `WRITE_ONCE(*wptr_ptr, wptr)` of the thread. -/
def publishThread (f : File) (ptr : Nat) : File :=
  if f.isTarget then { f with ring := { f.ring with rptr := ptr } }
  else { f with ring := { f.ring with wptr := ptr } }

/-! ### User space -/

def File.userPtr (f : File) : Nat := if f.isTarget then f.ring.wptr else f.ring.rptr

def userCheckRingbufferSpace (d : Device) (f : File) (rptr : Nat) : Nat :=
  if f.isTarget then
    subSize (subSize ringBufSize d.fbPageSize + f.ring.rptr) rptr &&& bufMask
  else (f.ring.wptr + ringBufSize - rptr) &&& bufMask

/-- `gim_mig_user_ringbuffer_do_data_copy`: the bytes copied, or `-EFAULT` when the copy to or
from user space broke off after `fault` bytes. -/
def userRingbufferDoDataCopy (f : File) (vaddr : Nat) (buf : Nat → UInt8) (off sz : Nat)
    (fault : Option Nat) : Option Nat × File × (Nat → UInt8) :=
  if sz = 0 then (some 0, f, buf)
  else
    let len := match fault with
      | none => sz
      | some k => min k sz
    let ret := match fault with
      | none => some sz
      | some _ => none
    if f.isTarget then
      (ret, { f with ring := { f.ring with mem := memcpy f.ring.mem vaddr buf off len } }, buf)
    else (ret, f, memcpy buf off f.ring.mem vaddr len)

/-- `gim_mig_user_ringbuffer_data_copy`, from `off` in the user's buffer on. -/
def userRingbufferDataCopy (f : File) (rptr available : Nat) (buf : Nat → UInt8) (off len : Nat)
    (fault fault' : Option Nat) : Option Nat × File × (Nat → UInt8) :=
  let wrapped := available - beforeEnd available rptr
  let sz := min (beforeEnd available rptr) len
  match userRingbufferDoDataCopy f rptr buf off sz fault with
  | (none, f, buf) => (none, f, buf)
  | (some sz, f, buf) =>
    let copied := sz
    let f := startMessage f rptr sz
    let sz := min wrapped (len - copied)
    match userRingbufferDoDataCopy f 0 buf (off + copied) sz fault' with
    | (none, f, buf) => (none, f, buf)
    | (some sz, f, buf) => (some (copied + sz), startMessage f 0 sz, buf)

/-- `WRITE_ONCE(*rptr_ptr, rptr)` of user space. -/
def publishUser (f : File) (ptr : Nat) : File :=
  if f.isTarget then { f with ring := { f.ring with wptr := ptr } }
  else { f with ring := { f.ring with rptr := ptr } }

end MxGpu.Mig
