import MxGpu.Transition
import Mathlib.Algebra.GroupWithZero.Nat
import Mathlib.Logic.Function.Basic

/- The interrupt handler ring (`amdgv_irqmgr.c`): the hardware writes vectors into it, the interrupt
handler takes them out, and hands them to a bottom half through a queue of its own. -/
namespace MxGpu.Ih

open Transition Function

/-- `struct amdgv_iv_entry`; `iv_entry` is `NULL` for what is queued. -/
structure IvEntry where
  clientId : BitVec 32
  srcId : BitVec 32
  ringId : BitVec 32
  vmId : BitVec 32
  vmIdSrc : BitVec 32
  timestamp : BitVec 64
  timestampSrc : BitVec 32
  pasId : BitVec 32
  nodeId : BitVec 32
  pasidSrc : BitVec 32
  srcData : List (BitVec 32)
  deriving DecidableEq

/-- What `amdgv_irqmgr_decode_iv` makes of the eight words of a vector. -/
def decodeIv (dw : Nat → BitVec 32) : IvEntry where
  clientId := dw 0 &&& 0xff
  srcId := (dw 0 >>> 8) &&& 0xff
  ringId := (dw 0 >>> 16) &&& 0xff
  vmId := (dw 0 >>> 24) &&& 0xf
  vmIdSrc := dw 0 >>> 31
  timestamp := (dw 1).zeroExtend 64 ||| ((dw 2 &&& 0xffff).zeroExtend 64 <<< 32)
  timestampSrc := dw 2 >>> 31
  pasId := dw 3 &&& 0xffff
  nodeId := (dw 3 >>> 16) &&& 0xff
  pasidSrc := dw 3 >>> 31
  srcData := [dw 4, dw 5, dw 6, dw 7]

def ihQueueEntryNum : Nat := 256

/-- What `amdgv_ih_ring_init` sets up: `rb_bufsz` is `order_base_2` of the ring's words. -/
structure Config where
  rbBufsz : Nat
  vector : 3 ≤ rbBufsz
  small : rbBufsz < 29
  useBh : Bool

def Config.ringSize (c : Config) : Nat := (1 <<< c.rbBufsz) * 4

def Config.ptrMask (c : Config) : Nat := c.ringSize - 1

/-- Where the interrupt handler is. Between two calls it remembers the write pointer that it has
read last, unless it has left because interrupts were off. -/
inductive TopPc where
  | idle (last : Option Nat)
  | entered
  | outer (wptr : Nat)
  | inner (wptr : Nat)
  | decode (wptr : Nat) (dw : List (BitVec 32))
  | handle (wptr : Nat) (entry : IvEntry)
  | copy (wptr : Nat) (entry : IvEntry)
  | copied (wptr : Nat) (entry : IvEntry)
  | queued (wptr : Nat)
  | setRptr
  | reread
  deriving DecidableEq

/-- Where the bottom half is, with what it has found in the slot that it is processing. -/
inductive WorkerPc where
  | idle
  | test
  | running (entry : IvEntry)
  | advance
  deriving DecidableEq

/-- The ring with its registers, the driver's side of it, and the queue between its two halves;
then the vectors that were written, whether each one that was taken was handled or lost, and what
has been dispatched. `attended` tells whether the last interrupt let its handler in and no handler
has stopped since because interrupts were off. -/
structure State where
  ring : Nat → BitVec 32
  hwWptr : Nat
  hwRptr : Nat
  rbOverflow : Bool
  intr : Bool
  rptr : Nat
  enabled : Bool
  ihQueue : Nat → IvEntry
  ihQueueWptr : Nat
  ihQueueRptr : Nat
  bhPending : Bool
  top : TopPc
  worker : WorkerPc
  queueFullLogs : Nat
  attended : Bool
  written : List (Nat → BitVec 32)
  outcomes : List Bool
  dispatched : List IvEntry

inductive Label where
  | hwWrite (vector : Nat → BitVec 32)
  | toggle (enable : Bool)
  | irq
  | topHalf
  | copyPart (entry : IvEntry)
  | startBh
  | bottomHalf

section Steps

variable (c : Config) (s : State)

/-- The hardware has room for a vector; one place of the ring stays empty. -/
def State.HasRoom : Prop := (s.hwWptr + 32) % c.ringSize ≠ s.hwRptr

instance : Decidable (s.HasRoom c) := inferInstanceAs (Decidable (_ ≠ _))

/-- The hardware writes a vector; without room it sets `RB_OVERFLOW`. -/
def State.hwWrite (vector : Nat → BitVec 32) : State :=
  let start := s.hwWptr >>> 2
  { s with
    ring := fun idx => if start ≤ idx ∧ idx < start + 8 then vector (idx - start) else s.ring idx
    hwWptr := (s.hwWptr + 32) % c.ringSize
    rbOverflow := s.rbOverflow || !decide (s.HasRoom c)
    intr := true
    written := s.written ++ [vector] }

/-- `get_wptr` of the ASICs. -/
def State.getWptr : State × Nat :=
  if s.rbOverflow then
    let rptr := s.hwWptr &&& c.ptrMask
    ({ s with rptr, hwRptr := rptr, rbOverflow := false }, s.hwWptr &&& c.ptrMask)
  else (s, s.hwWptr &&& c.ptrMask)

/-- `_amdgv_ih_process_handle`, up to and with its next access to what it shares with others. -/
def State.topHalf : State :=
  match s.top with
  | .idle _ => s
  | .entered | .reread =>
    let (read, wptr) := s.getWptr c
    { read with top := .outer wptr }
  | .outer wptr =>
    if wptr ≠ s.rptr then { s with top := .inner wptr }
    else { s with top := .idle (some wptr) }
  | .inner wptr =>
    if s.rptr ≠ wptr then
      if s.enabled then { s with top := .decode wptr [] }
      else { s with attended := false, top := .idle none }
    else { s with top := .setRptr }
  | .decode wptr dw =>
    if dw.length < 8 then
      { s with top := .decode wptr (dw ++ [s.ring ((s.rptr >>> 2) + dw.length)]) }
    else
      { s with
        rptr := (s.rptr + 32) % 2 ^ 32 &&& c.ptrMask
        top := .handle wptr (decodeIv fun i => dw.getD i 0) }
  | .handle wptr entry =>
    if c.useBh then
      if (s.ihQueueWptr + 1) % ihQueueEntryNum = s.ihQueueRptr then
        { s with
          queueFullLogs := s.queueFullLogs + 1
          outcomes := s.outcomes ++ [false]
          top := .inner wptr }
      else { s with top := .copy wptr entry }
    else
      { s with
        dispatched := s.dispatched ++ [entry]
        outcomes := s.outcomes ++ [true]
        top := .inner wptr }
  | .copy wptr entry =>
    { s with
      ihQueue := update s.ihQueue s.ihQueueWptr entry
      top := .copied wptr entry }
  | .copied wptr _ =>
    { s with
      ihQueueWptr := (s.ihQueueWptr + 1) % ihQueueEntryNum
      outcomes := s.outcomes ++ [true]
      top := .queued wptr }
  | .queued wptr => { s with bhPending := true, top := .inner wptr }
  | .setRptr => { s with hwRptr := s.rptr, top := .reread }

/-- `amdgv_ih_process_handle3`, up to and with its next access to what it shares with others. -/
def State.bottomHalf : State :=
  match s.worker with
  | .idle => s
  | .test =>
    if s.ihQueueRptr ≠ s.ihQueueWptr then
      { s with
        dispatched := s.dispatched ++ [s.ihQueue s.ihQueueRptr]
        worker := .running (s.ihQueue s.ihQueueRptr) }
    else { s with worker := .idle }
  | .running _ => { s with worker := .advance }
  | .advance =>
    { s with ihQueueRptr := (s.ihQueueRptr + 1) % ihQueueEntryNum, worker := .test }

/-- One step of the hardware, of the interrupt handler or of its bottom half. The lock of each half
lets one caller in at a time; a copy writes any bytes on its way. -/
def State.step : Label → Option State
  | .hwWrite vector => some (s.hwWrite c vector)
  | .toggle enable => some { s with enabled := enable }
  | .irq =>
    match s.top with
    | .idle _ =>
      if s.enabled then some { s with intr := false, attended := true, top := .entered }
      else some { s with intr := false, attended := s.attended && !s.intr }
    | _ => none
  | .topHalf => some (s.topHalf c)
  | .copyPart entry =>
    match s.top with
    | .copy _ _ => some { s with ihQueue := update s.ihQueue s.ihQueueWptr entry }
    | _ => none
  | .startBh =>
    match s.worker with
    | .idle => if s.bhPending then some { s with bhPending := false, worker := .test } else none
    | _ => none
  | .bottomHalf => some s.bottomHalf

def Step (label : Label) (t : State) : Prop := s.step c label = some t

end Steps

/-- After `amdgv_ih_ring_init` and `amdgv_ih_ring_set`, with interrupts on. -/
def initial : State where
  ring := fun _ => 0
  hwWptr := 0
  hwRptr := 0
  rbOverflow := false
  intr := false
  rptr := 0
  enabled := true
  ihQueue := fun _ => decodeIv fun _ => 0
  ihQueueWptr := 0
  ihQueueRptr := 0
  bhPending := false
  top := .idle none
  worker := .idle
  queueFullLogs := 0
  attended := true
  written := []
  outcomes := []
  dispatched := []

def Initial (s : State) : Prop := s = initial

/-- The hardware writes a vector only into a ring with room for it. -/
def Meets (c : Config) (s : State) : Label → Prop
  | .hwWrite _ => s.HasRoom c
  | _ => True

instance (c : Config) (s : State) : (label : Label) → Decidable (Meets c s label)
  | .hwWrite _ => inferInstanceAs (Decidable (s.HasRoom c))
  | .toggle _ | .irq | .topHalf | .copyPart _ | .startBh | .bottomHalf =>
    inferInstanceAs (Decidable True)

end MxGpu.Ih
