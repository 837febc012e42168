import MxGpu.Transition
import Mathlib.Algebra.GroupWithZero.Nat
import Mathlib.Logic.Function.Basic

/- The ioctls of the SMI driver on one file descriptor (`smi_drv_core.c`, `smi_drv_handshake.c`):
the context that they share, and what one call does between its accesses to it. -/
namespace MxGpu.Smi

open Transition Function

abbrev Bytes := Nat → BitVec 8

structure InHdr where
  code : BitVec 32
  inLen : Int
  outLen : Int

/-- `struct smi_cmd_entry`; the function is the one of the command. -/
structure CmdEntry where
  cmd : BitVec 32
  inBufferLen : Int
  outBufferLen : Int

/-- What `alloc_small_zero_memory` leaves in an entry. -/
def CmdEntry.zero : CmdEntry := ⟨0, 0, 0⟩

/-- `SMI_IOCTL` is bit 24, `SMI_CMD_FD_CLI2SER_MASK` bit 20. -/
def smiCmdCodeHandshake : BitVec 32 := 0x1000001
def smiCmdCodeCreateEvent : BitVec 32 := 0x1100008
def smiCmdCodeReadEvent : BitVec 32 := 0x100001a
def smiCmdCodeDestroyEvent : BitVec 32 := 0x100001b

def smiStatusSuccess : Int := 0
def smiStatusInval : Int := 1
def smiStatusNotSupported : Int := 2
def smiStatusTimeout : Int := 8
def smiStatusOutOfResources : Int := 15
def smiStatusNoData : Int := 40

def smiEio : Int := 5
def smiEnomem : Int := 12
def smiEacces : Int := 13
def smiEfault : Int := 14
def smiEinval : Int := 22

/-- `SMI_VERSION_BETA_0` (`SMI_VERSION_MIN`) to `SMI_VERSION_BETA_4` (`SMI_VERSION_MAX`). -/
def smiVersionMin : BitVec 32 := 3
def smiVersionMax : BitVec 32 := 7

/-- `sizeof(struct smi_handshake)`. -/
def handshakeSize : Int := 4

/-- The size of a payload, `SMI_MAX_PAYLOAD` words. -/
def payloadSize : Int := 4096

def Delivers (status : Int) : Prop :=
  status = smiStatusSuccess ∨ status = smiStatusNoData ∨ status = smiStatusTimeout

instance (status : Int) : Decidable (Delivers status) :=
  inferInstanceAs (Decidable (_ ∨ _ ∨ _))

def IsEvent (code : BitVec 32) : Prop :=
  code = smiCmdCodeCreateEvent ∨ code = smiCmdCodeReadEvent ∨ code = smiCmdCodeDestroyEvent

instance (code : BitVec 32) : Decidable (IsEvent code) :=
  inferInstanceAs (Decidable (_ ∨ _ ∨ _))

def firstBytes (count : Int) (bytes : Bytes) : Bytes :=
  fun i => if (i : Int) < count then bytes i else 0

/-- The `version` of `struct smi_handshake`. -/
def getVersion (payload : Bytes) : BitVec 32 :=
  payload 3 ++ payload 2 ++ payload 1 ++ payload 0

def putVersion (version : BitVec 32) (payload : Bytes) : Bytes :=
  fun i => if i < 4 then version.extractLsb' (8 * i) 8 else payload i

/-- `struct smi_ctx`, as far as the ioctls share it; `shaken` when a handshake has left its success
in it. -/
structure Ctx where
  ioctlMutex : Option Nat
  privileged : Bool
  version : BitVec 32
  tblCmd : Option (Nat → CmdEntry)
  maxCmd : Nat
  inHdr : InHdr
  inPayload : Bytes
  outStatus : Int
  outPayload : Bytes
  mutexFlag : Bool
  shaken : Bool

inductive Pc where
  | lock
  | header
  | snapshot
  | earlyUnlock
  | check
  | hsPayload
  | hsTable
  | hsFill
  | hsStore (status : Int)
  | hsTest
  | hsCopy
  | hsStatus
  | lookup (i : Nat)
  | lookupEnd (i : Nat)
  | alloc (i : Nat)
  | payload (i : Nat)
  | run (i : Nat)
  | test (i : Nat)
  | copyOut (i : Nat)
  | putStatus
  | unlock
  | done
  deriving DecidableEq

structure Ran where
  entry : CmdEntry
  input : Bytes
  inLen : Int
  outLen : Int
  privileged : Bool
  shaken : Bool
  status : Int
  output : Bytes

structure Call where
  reqHdr : InHdr
  reqPayload : Bytes
  pc : Pc
  hdr : InHdr
  earlyUnlocked : Bool
  inBuf : Bytes
  outBuf : Bytes
  status : Int
  ret : Int
  ran : Option Ran
  copied : Option (Int × Bytes)
  statusOut : Option Int
  faulted : Bool
  unlocks : Nat

/-- What the rest of the kernel does in a step: whether a copy from or to the user fails, whether an
allocation succeeds, and what the handler returns. -/
structure Outcome where
  fault : Bool
  allocOk : Bool
  status : Int
  output : Bytes

section Steps

-- the entries that `smi_cmd_handshake` puts into the table
variable (table : List CmdEntry)

def fullTable (i : Nat) : CmdEntry := table.getD i .zero

/-- `smi_cmd_handshake`, up to its allocation. -/
def hsTable (outcome : Outcome) (ctx : Ctx) (call : Call) : Ctx × Pc :=
  if call.hdr.inLen ≠ handshakeSize ∨ call.hdr.outLen ≠ handshakeSize then
    (ctx, .hsStore smiStatusInval)
  else
    let version := getVersion ctx.inPayload
    if smiVersionMin ≤ version ∧ version ≤ smiVersionMax then
      if outcome.allocOk then ({ ctx with tblCmd := some fun _ => .zero }, .hsFill)
      else ({ ctx with tblCmd := none }, .hsStore smiStatusOutOfResources)
    else
      let outPayload :=
        if version < smiVersionMin then putVersion smiVersionMin ctx.outPayload
        else putVersion smiVersionMax ctx.outPayload
      ({ ctx with outPayload }, .hsStore smiStatusNotSupported)

/-- `smi_core_ioctl_handler` from one access to the context to the next, with the mutex not held by
anyone else where it is taken. -/
def ioctlStep (id : Nat) (outcome : Outcome) (ctx : Ctx) (call : Call) : Option (Ctx × Call) :=
  match call.pc with
  | .lock =>
    match ctx.ioctlMutex with
    | some _ => none
    | none => some ({ ctx with ioctlMutex := some id }, { call with pc := .header })
  | .header =>
    if outcome.fault then
      some (ctx, { call with ret := -smiEfault, faulted := true, pc := .unlock })
    else some ({ ctx with inHdr := call.reqHdr }, { call with pc := .snapshot })
  | .snapshot =>
    let call := { call with hdr := ctx.inHdr }
    if IsEvent call.hdr.code then
      some ({ ctx with mutexFlag := false }, { call with pc := .earlyUnlock })
    else some ({ ctx with mutexFlag := true }, { call with pc := .check })
  | .earlyUnlock =>
    some ({ ctx with ioctlMutex := none },
      { call with earlyUnlocked := true, unlocks := call.unlocks + 1, pc := .check })
  | .check =>
    if call.hdr.inLen < 0 ∨ call.hdr.outLen < 0 then
      some (ctx, { call with ret := -smiEinval, pc := .unlock })
    else if !ctx.privileged then some (ctx, { call with ret := -smiEacces, pc := .unlock })
    else
      match ctx.tblCmd with
      | some _ => some (ctx, { call with pc := .lookup 0 })
      | none =>
        if call.hdr.code ≠ smiCmdCodeHandshake then
          some (ctx, { call with ret := -smiEacces, pc := .unlock })
        else some (ctx, { call with pc := .hsPayload })
  | .hsPayload =>
    if outcome.fault then
      some (ctx, { call with ret := -smiEfault, faulted := true, pc := .unlock })
    else
      let count := min call.hdr.inLen handshakeSize
      let inPayload : Bytes := fun i =>
        if (i : Int) < count then call.reqPayload i else ctx.inPayload i
      some ({ ctx with inPayload }, { call with pc := .hsTable })
  | .hsTable =>
    let (ctx, pc) := hsTable outcome ctx call
    some (ctx, { call with pc })
  | .hsFill =>
    let version := getVersion ctx.inPayload
    some ({ ctx with
        tblCmd := some (fullTable table)
        maxCmd := table.length
        outPayload := putVersion version ctx.outPayload
        version },
      { call with pc := .hsStore smiStatusSuccess })
  | .hsStore status =>
    some ({ ctx with outStatus := status, shaken := ctx.shaken || status = smiStatusSuccess },
      { call with status, pc := .hsTest })
  | .hsTest =>
    if ctx.outStatus ≠ smiStatusSuccess ∧ ctx.outStatus ≠ smiStatusNotSupported then
      some (ctx, { call with ret := -smiEio, pc := .hsStatus })
    else some (ctx, { call with pc := .hsCopy })
  | .hsCopy =>
    if outcome.fault then
      some (ctx, { call with ret := -smiEfault, faulted := true, pc := .unlock })
    else
      some (ctx, { call with copied := some (handshakeSize, ctx.outPayload), pc := .hsStatus })
  | .hsStatus =>
    if outcome.fault then some (ctx, { call with faulted := true, pc := .unlock })
    else some (ctx, { call with statusOut := some ctx.outStatus, pc := .unlock })
  | .lookup i =>
    if i < ctx.maxCmd then
      match ctx.tblCmd with
      | none => none
      | some tbl =>
        if (tbl i).cmd = call.hdr.code then some (ctx, { call with pc := .alloc i })
        else some (ctx, { call with pc := .lookup (i + 1) })
    else some (ctx, { call with pc := .lookupEnd i })
  | .lookupEnd i =>
    if i = ctx.maxCmd then some (ctx, { call with ret := -smiEinval, pc := .unlock })
    else some (ctx, { call with pc := .alloc i })
  | .alloc i =>
    if payloadSize < call.hdr.outLen ∨ outcome.allocOk = false then
      some (ctx, { call with ret := -smiEnomem, pc := .unlock })
    else
      some (ctx, { call with inBuf := fun _ => 0, outBuf := fun _ => 0, pc := .payload i })
  | .payload i =>
    match ctx.tblCmd with
    | none => none
    | some tbl =>
      if outcome.fault then
        some (ctx, { call with ret := -smiEfault, faulted := true, pc := .unlock })
      else
        let inBuf := firstBytes (min call.hdr.inLen (tbl i).inBufferLen) call.reqPayload
        some (ctx, { call with inBuf, pc := .run i })
  | .run i =>
    match ctx.tblCmd with
    | none => none
    | some tbl =>
      let ran : Ran :=
        { entry := tbl i, input := call.inBuf, inLen := call.hdr.inLen, outLen := call.hdr.outLen
          privileged := ctx.privileged, shaken := ctx.shaken
          status := outcome.status, output := outcome.output }
      some (ctx, { call with
        ran := some ran, status := outcome.status, outBuf := outcome.output, pc := .test i })
  | .test i =>
    if Delivers ctx.outStatus then some (ctx, { call with pc := .copyOut i })
    else some (ctx, { call with ret := -smiEio, pc := .putStatus })
  | .copyOut i =>
    match ctx.tblCmd with
    | none => none
    | some tbl =>
      if outcome.fault then
        some (ctx, { call with ret := -smiEfault, faulted := true, pc := .unlock })
      else
        let count := min call.hdr.outLen (tbl i).outBufferLen
        some (ctx, { call with copied := some (count, call.outBuf), pc := .putStatus })
  | .putStatus =>
    if outcome.fault then some (ctx, { call with faulted := true, pc := .unlock })
    else some (ctx, { call with statusOut := some call.status, pc := .unlock })
  | .unlock =>
    if call.earlyUnlocked then some (ctx, { call with pc := .done })
    else
      some ({ ctx with ioctlMutex := none },
        { call with unlocks := call.unlocks + 1, pc := .done })
  | .done => none

structure System where
  ctx : Ctx
  calls : Nat → Option Call

inductive Label where
  | start (id : Nat) (reqHdr : InHdr) (reqPayload : Bytes)
  | call (id : Nat) (outcome : Outcome)

def newCall (reqHdr : InHdr) (reqPayload : Bytes) : Call where
  reqHdr
  reqPayload
  pc := .lock
  hdr := ⟨0, 0, 0⟩
  earlyUnlocked := false
  inBuf := fun _ => 0
  outBuf := fun _ => 0
  status := 0
  ret := 0
  ran := none
  copied := none
  statusOut := none
  faulted := false
  unlocks := 0

def System.step (s : System) : Label → Option System
  | .start id reqHdr reqPayload =>
    match s.calls id with
    | some _ => none
    | none =>
      some { s with calls := update s.calls id (some (newCall reqHdr reqPayload)) }
  | .call id outcome =>
    match s.calls id with
    | none => none
    | some call =>
      match ioctlStep table id outcome s.ctx call with
      | none => none
      | some (ctx, call) => some ⟨ctx, update s.calls id (some call)⟩

def Step (s : System) (label : Label) (t : System) : Prop := s.step table label = some t

end Steps

/-- The context that `smi_core_open` makes. -/
def openCtx (privileged : Bool) : Ctx where
  ioctlMutex := none
  privileged
  version := 0
  tblCmd := none
  maxCmd := 0
  inHdr := ⟨0, 0, 0⟩
  inPayload := fun _ => 0
  outStatus := 0
  outPayload := fun _ => 0
  mutexFlag := false
  shaken := false

def Initial (s : System) : Prop := ∃ privileged, s = ⟨openCtx privileged, fun _ => none⟩

end MxGpu.Smi
