import MxGpu.MigMessage
import MxGpu.Transition

/- The device state of a migrating function (`gim_mig.c`): requests of VFIO that take one arc after
the other, and releases of the data file that change the state without the lock. -/
namespace MxGpu.Mig

open Transition (Run)

/-! ### The arcs of VFIO -/

/-- `enum vfio_device_mig_state`, with `VFIO_DEVICE_STATE_DEFAULT_GIM`. -/
inductive DeviceState
  | error
  | stop
  | running
  | stopCopy
  | resuming
  | runningP2p
  | preCopy
  | preCopyP2p
  | defaultGim
  | unknown (value : Nat)
  deriving DecidableEq

/-- The states a device has with these flags; `STOP_COPY` and `PRE_COPY` are always set. -/
def supported (p2p : Bool) : DeviceState → Bool
  | .stop | .running | .stopCopy | .resuming | .preCopy => true
  | .runningP2p | .preCopyP2p => p2p
  | .error | .defaultGim | .unknown _ => false

def vfioFromFsm : DeviceState → DeviceState → DeviceState
  | .stop, .stop => .stop
  | .stop, .stopCopy => .stopCopy
  | .stop, .resuming => .resuming
  | .stop, .error => .error
  | .stop, _ => .runningP2p
  | .running, .running => .running
  | .running, .preCopy => .preCopy
  | .running, .error => .error
  | .running, _ => .runningP2p
  | .preCopy, .preCopy => .preCopy
  | .preCopy, .preCopyP2p => .preCopyP2p
  | .preCopy, .stopCopy => .preCopyP2p
  | .preCopy, .error => .error
  | .preCopy, _ => .running
  | .preCopyP2p, .preCopy => .preCopy
  | .preCopyP2p, .preCopyP2p => .preCopyP2p
  | .preCopyP2p, .stopCopy => .stopCopy
  | .preCopyP2p, .error => .error
  | .preCopyP2p, _ => .runningP2p
  | .stopCopy, .stopCopy => .stopCopy
  | .stopCopy, .preCopy => .error
  | .stopCopy, .preCopyP2p => .error
  | .stopCopy, .error => .error
  | .stopCopy, _ => .stop
  | .resuming, .resuming => .resuming
  | .resuming, .error => .error
  | .resuming, _ => .stop
  | .runningP2p, .running => .running
  | .runningP2p, .preCopy => .running
  | .runningP2p, .preCopyP2p => .preCopyP2p
  | .runningP2p, .runningP2p => .runningP2p
  | .runningP2p, .error => .error
  | .runningP2p, _ => .stop
  | _, _ => .error

/-- Arcs over states that the device does not have are skipped; none is skipped twice. -/
def skipUnsupported (p2p : Bool) (next new : DeviceState) : DeviceState :=
  if next = .error ∨ supported p2p next then next else vfioFromFsm next new

def vfioMigGetNextState (p2p : Bool) (curr new : DeviceState) : Option DeviceState :=
  if supported p2p curr && supported p2p new then
    let next := skipUnsupported p2p (vfioFromFsm curr new) new
    if next = .error then none else some next
  else none

theorem fileArc_last {p2p : Bool} {curr new next : DeviceState}
    (h : vfioMigGetNextState p2p curr new = some next)
    (hfile : curr = .running ∧ next = .preCopy ∨ curr = .stop ∧ next = .resuming) :
    next = new := by
  obtain ⟨rfl, rfl⟩ | ⟨rfl, rfl⟩ := hfile <;> cases p2p <;> cases new <;>
    simp [vfioMigGetNextState, skipUnsupported, supported, vfioFromFsm] at h ⊢

/-! ### What an arc does -/

/-- `IS_ERR` of an `ERR_PTR` -/
def IsErr (code : Int) : Prop := -4095 ≤ code ∧ code < 0

instance (code : Int) : Decidable (IsErr code) := inferInstanceAs (Decidable (_ ∧ _))

/-- `struct file *` -/
inductive FilePtr
  | null
  /-- the data file of the `n`-th setup -/
  | file (n : Nat)
  /-- `ERR_PTR(code)` -/
  | errPtr (code : Int)
  deriving DecidableEq

def FilePtr.isErr : FilePtr → Bool
  | .errPtr code => decide (IsErr code)
  | _ => false

/-- A code of the kernel, as `PTR_ERR` yields it. -/
structure Errno where
  code : Int
  isErr : IsErr code

def ENOMEM : Int := 12

/-- What `gim_mig_setup_copy` runs into. -/
structure SetupCalls where
  bufferFails : Bool
  threadErr : Option Errno
  fileErr : Option Errno

structure ArcCalls where
  setVfMigrationState : Int
  suspendVf : Int
  resumeVf : Int
  setup : SetupCalls
  loadFails : Bool
  info : Option SchedState
  query : Query

inductive VfRun
  | active
  | suspended
  | stopped
  deriving DecidableEq

/-- A call of `gim_mig_stop_copy_device`: the schedule state that was read, and the context after
it. -/
structure StopCopyCall where
  info : Option SchedState
  ctx : VfCtx

/-- The context without its state: `migf.filp`, how many files there have been, the function, and
the entries into `STOP_COPY`. -/
structure MigVf where
  ctx : VfCtx
  filp : FilePtr
  files : Nat
  vf : VfRun
  entered : List StopCopyCall

def stopDevice (v : MigVf) (suspendVf : Int) : Int × MigVf :=
  (suspendVf, if suspendVf = 0 then { v with vf := .suspended } else v)

def runDevice (v : MigVf) (resumeVf : Int) : Int × MigVf :=
  (resumeVf, if resumeVf = 0 then { v with vf := .active } else v)

def threadInit (f : File) : File :=
  { f with
    ring := { f.ring with rptr := 0, wptr := 0, state := if f.isTarget then .running else .paused } }

def threadFini (f : File) : File :=
  { f with
    seq := 0
    enabled := false
    ring := { f.ring with rptr := 0, wptr := 0, state := .paused } }

/-- `gim_mig_buffer_init`: both buffers are zeroed. -/
def bufferInit (f : File) : File :=
  { f with
    shadowBitmap := fun _ => false
    msg := { f.msg with hdr := .zero, bitmap := fun _ => false } }

def bufferFini (f : File) : File := { f with shadowFbLen := 0 }

def setupCopy (v : MigVf) (isTarget : Bool) (calls : SetupCalls) : Int × MigVf :=
  if v.ctx.migf.enabled then (0, v)
  else
    let f : File := { v.ctx.migf with isTarget }
    if calls.bufferFails then (-ENOMEM, { v with ctx := { v.ctx with migf := f } })
    else
      let f := threadInit (bufferInit f)
      match calls.threadErr, calls.fileErr with
      | some err, _ => (err.code, { v with ctx := { v.ctx with migf := bufferFini f } })
      | none, some err =>
        (err.code, { v with
          ctx := { v.ctx with migf := bufferFini (threadFini f) }
          filp := .errPtr err.code })
      | none, none =>
        (0, { v with
          ctx := { v.ctx with migf := { f with seq := 0, enabled := true } }
          filp := .file (v.files + 1)
          files := v.files + 1 })

def stopCopyDevice (d : Device) (v : MigVf) (calls : ArcCalls) : Int × MigVf :=
  let (_, ctx, _, _) := updateMsgCopyInfo d v.ctx calls.info calls.query true
  (0, { v with ctx, entered := v.entered ++ [⟨calls.info, ctx⟩] })

def loadState (calls : ArcCalls) : Int := if calls.loadFails then -EFAULT else 0

def handleStateRunning (v : MigVf) (new : DeviceState) (calls : ArcCalls) : FilePtr × MigVf :=
  match new with
  | .stop =>
    let (ret, v) := stopDevice v calls.suspendVf
    if ret ≠ 0 then (.errPtr ret, v) else (.null, v)
  | .preCopy =>
    if calls.setVfMigrationState < 0 then (.errPtr calls.setVfMigrationState, v)
    else
      let (ret, v) := setupCopy v false calls.setup
      if ret ≠ 0 then (.errPtr ret, v) else (v.filp, v)
  | .runningP2p => (.null, v)
  | _ => (.errPtr (-EINVAL), v)

/-- The way into `STOP_COPY` from a function that runs. -/
def enterStopCopy (d : Device) (v : MigVf) (calls : ArcCalls) : FilePtr × MigVf :=
  if calls.setVfMigrationState < 0 then (.errPtr calls.setVfMigrationState, v)
  else
    let (ret, v) := stopDevice v calls.suspendVf
    if ret ≠ 0 then (.errPtr (-EBUSY), v)
    else
      let (ret, v) := stopCopyDevice d v calls
      if ret ≠ 0 then (.errPtr (-EBUSY), v) else (.null, v)

def handleStatePreCopy (d : Device) (v : MigVf) (new : DeviceState) (calls : ArcCalls) :
    FilePtr × MigVf :=
  match new with
  | .running => (.null, v)
  | .stopCopy => enterStopCopy d v calls
  | .preCopyP2p => (.null, v)
  | _ => (.errPtr (-EINVAL), v)

def handleStateStopCopy (v : MigVf) (new : DeviceState) : FilePtr × MigVf :=
  match new with
  | .stop => (.null, v)
  | _ => (.errPtr (-EINVAL), v)

def handleStateStop (d : Device) (v : MigVf) (new : DeviceState) (calls : ArcCalls) :
    FilePtr × MigVf :=
  match new with
  | .resuming =>
    let (ret, v) := setupCopy v true calls.setup
    if ret ≠ 0 then (.errPtr ret, v) else (v.filp, v)
  | .stopCopy =>
    if calls.setVfMigrationState < 0 then (.errPtr calls.setVfMigrationState, v)
    else
      let (ret, v) := stopCopyDevice d v calls
      if ret ≠ 0 then (.errPtr ret, v) else (.null, v)
  | .running | .runningP2p =>
    let (ret, v) := runDevice v calls.resumeVf
    if ret ≠ 0 then (.errPtr (-EBUSY), v) else (.null, v)
  | _ => (.errPtr (-EINVAL), v)

def handleStateResuming (v : MigVf) (new : DeviceState) (calls : ArcCalls) : FilePtr × MigVf :=
  match new with
  | .stop => if loadState calls ≠ 0 then (.errPtr (-EINVAL), v) else (.null, v)
  | _ => (.errPtr (-EINVAL), v)

def handleStatePreCopyP2p (d : Device) (v : MigVf) (new : DeviceState) (calls : ArcCalls) :
    FilePtr × MigVf :=
  match new with
  | .stopCopy => enterStopCopy d v calls
  | .preCopy => (.null, v)
  | .runningP2p => (.null, v)
  | _ => (.errPtr (-EINVAL), v)

def handleStateRunningP2p (v : MigVf) (new : DeviceState) (calls : ArcCalls) : FilePtr × MigVf :=
  match new with
  | .stop =>
    let (ret, v) := stopDevice v calls.suspendVf
    if ret ≠ 0 then (.errPtr ret, v) else (.null, v)
  | .running => (.null, v)
  | _ => (.errPtr (-EINVAL), v)

def setDeviceState (d : Device) (curr : DeviceState) (v : MigVf) (new : DeviceState)
    (calls : ArcCalls) : FilePtr × MigVf :=
  match curr with
  | .running => handleStateRunning v new calls
  | .preCopy => handleStatePreCopy d v new calls
  | .stopCopy => handleStateStopCopy v new
  | .stop => handleStateStop d v new calls
  | .resuming => handleStateResuming v new calls
  | .preCopyP2p => handleStatePreCopyP2p d v new calls
  | .runningP2p => handleStateRunningP2p v new calls
  | _ => (.errPtr (-EINVAL), v)

/-! ### Requests and releases -/

/-- A request under way: what it is for, how many files there were before it, the pointer of its
last arc, and the state this arc has still to assign. -/
structure StateRequest where
  new : DeviceState
  filesBefore : Nat
  f : FilePtr
  reached : Option DeviceState

structure Report where
  new : DeviceState
  atEnd : DeviceState
  result : FilePtr
  abort : Bool
  filesBefore : Nat
  filesAfter : Nat

/-- The function and its requests. User space holds the data file until it releases it, and the
release takes the lock for its last part only. -/
structure MigSys where
  curr : DeviceState
  v : MigVf
  request : Option StateRequest
  held : Bool
  releasing : Bool
  reports : List Report

/-- What the calls of `gim_migf_release_file` come back with. -/
structure ReleaseCalls where
  setVfMigrationState : Int
  stopVf : Int
  resumeVf : Int

def stopVf (v : MigVf) (ret : Int) : MigVf := if ret = 0 then { v with vf := .stopped } else v

/-- `gim_migf_release_file` up to the lock -/
def releaseFile (s : MigSys) (calls : ReleaseCalls) : MigSys :=
  let ctx := { s.v.ctx with
    vfSchedState := none
    abort := if calls.setVfMigrationState = 0 then false else s.v.ctx.abort }
  let v := { s.v with ctx }
  let s := { s with v, held := false, releasing := true }
  if v.ctx.migf.isTarget then
    if s.curr ≠ .running then { s with v := stopVf v calls.stopVf, curr := .defaultGim } else s
  else if s.curr = .stop then { s with v := stopVf v calls.stopVf }
  else { s with v := (runDevice v calls.resumeVf).2, curr := .running }

def doFinishCopy (f : File) : File :=
  if f.enabled then
    bufferFini (threadFini { f with
      enabled := false
      seq := 0
      nextCopyMask := .zero
      copiedMask := .zero
      leftBytesFd := 0
      totalBytesFd := 0
      copiedSizeThread := 0
      msg := ⟨.zero, fun _ => false, 0, 0⟩ })
  else f

/-- `gim_mig_set_state` from `out` on. A file whose release has begun is not held again. -/
def setStateOut (s : MigSys) (r : StateRequest) (f : FilePtr) : MigSys :=
  let result := if f.isErr then .null else f
  let v := if f.isErr then { s.v with ctx := s.v.ctx.setAbort } else s.v
  { s with
    v
    request := none
    held := s.held || decide (result = .file v.files) && !s.releasing
    reports := s.reports ++
      [⟨r.new, s.curr, result, v.ctx.abort, r.filesBefore, v.files⟩] }

inductive MigEvent
  /-- `gim_mig_set_state` has the lock -/
  | request (new : DeviceState)
  /-- a turn of its loop, up to the result of the handler -/
  | arc (calls : ArcCalls)
  /-- `vf_ctx->curr_state = next_state` -/
  | assign
  /-- the loop is over -/
  | out
  | release (calls : ReleaseCalls)
  /-- the release has the lock -/
  | finish

def migStep (d : Device) (p2p : Bool) (s : MigSys) (e : MigEvent) : Option MigSys :=
  match e, s.request with
  | .request new, none =>
    let r : StateRequest := ⟨new, s.v.files, .null, none⟩
    if s.curr = .defaultGim ∧ new = .running then
      some { s with curr := .running, request := some r }
    else some { s with request := some r }
  | .arc calls, some r =>
    if r.reached = none ∧ s.curr ≠ r.new then
      match vfioMigGetNextState p2p s.curr r.new with
      | none => some (setStateOut s r r.f)
      | some next =>
        let (f, v) := setDeviceState d s.curr s.v next calls
        if f.isErr then some (setStateOut { s with v } r f)
        else some { s with v, request := some { r with f, reached := some next } }
    else none
  | .assign, some r =>
    match r.reached with
    | some next => some { s with curr := next, request := some { r with reached := none } }
    | none => none
  | .out, some r =>
    if r.reached = none ∧ s.curr = r.new then some (setStateOut s r r.f) else none
  | .release calls, _ => if s.held then some (releaseFile s calls) else none
  | .finish, none =>
    if s.releasing then
      some { s with
        v := { s.v with ctx := { s.v.ctx with migf := doFinishCopy s.v.ctx.migf } }
        releasing := false }
    else none
  | _, _ => none

/-! ### What a truthful state machine is -/

def finalSections : List Content := [.ctx, .vfHwStaticData, .vfHwDynamicData]

/-- The file is enabled, and its next message has all that has not been copied. -/
def FinalScheduled (f : File) : Prop :=
  f.enabled = true ∧ ∀ c ∈ finalSections, f.nextCopyMask c = true ∨ f.copiedMask c = true

def DeviceState.Halts (st : DeviceState) : Prop := st = .stop ∨ st = .stopCopy ∨ st = .resuming

/-- No handler has succeeded whose state is still to be assigned. -/
def BetweenArcs (s : MigSys) : Prop := ∀ r, s.request = some r → r.reached = none

def FilesReturned (s : MigSys) : Prop :=
  ∀ r ∈ s.reports, ∀ n, r.filesBefore < n → n ≤ r.filesAfter → r.result = .file n

/-- The state machine as one would have it: success means that the state has been reached, and
every entry into `STOP_COPY` has scheduled the final message. -/
structure TruthfulStrict (s : MigSys) : Prop where
  reported : ∀ r ∈ s.reports, r.result.isErr = false → r.atEnd = r.new
  files : FilesReturned s
  suspended : BetweenArcs s → s.curr.Halts → s.v.vf = .suspended
  runs : BetweenArcs s → s.curr = .running ∨ s.curr = .preCopy → s.v.vf ≠ .suspended
  scheduled : ∀ c ∈ s.v.entered, FinalScheduled c.ctx.migf

/-- The state machine as it is: it always comes back without an error, and a request that has not
reached its state has set the abort flag, or no arc leads there; the release of a source's file in
`STOP` stops the function; and `STOP_COPY` without a final message has set the abort flag, or the
function is not in use and has nothing to transfer. -/
structure Truthful (p2p : Bool) (s : MigSys) : Prop where
  reported : ∀ r ∈ s.reports, r.result.isErr = false ∧
    (r.atEnd = r.new ∨ r.abort = true ∨ vfioMigGetNextState p2p r.atEnd r.new = none)
  files : FilesReturned s
  halted : BetweenArcs s → s.curr.Halts → s.v.vf = .suspended ∨ s.v.vf = .stopped
  runs : BetweenArcs s → s.curr = .running ∨ s.curr = .preCopy → s.v.vf ≠ .suspended
  scheduled : ∀ c ∈ s.v.entered, FinalScheduled c.ctx.migf ∨ c.ctx.abort = true ∨
    c.info = some .avail ∨ c.info = some .unaval

/-- A suspension that fails has an error number, and no state of the migration is refused with
less than one. -/
def ArcCalls.Errnos (calls : ArcCalls) : Prop :=
  (calls.suspendVf ≠ 0 → IsErr calls.suspendVf) ∧ -4095 ≤ calls.setVfMigrationState

/-- Failures have error numbers, and a file is released between two arcs; where the release has to
stop or resume a suspended function, it does. -/
def Orderly (s : MigSys) : MigEvent → Prop
  | .arc calls => calls.Errnos
  | .release calls => BetweenArcs s ∧ (s.v.vf = .suspended →
      (s.v.ctx.migf.isTarget = true → s.curr ≠ .running → calls.stopVf = 0) ∧
        (s.v.ctx.migf.isTarget = false → s.curr ≠ .stop → calls.resumeVf = 0))
  | _ => True

def MigSysStart (s : MigSys) : Prop :=
  s.curr = .defaultGim ∧ s.v.ctx.migf.enabled = false ∧ s.v.vf = .active ∧ s.v.entered = [] ∧
    s.request = none ∧ s.held = false ∧ s.releasing = false ∧ s.reports = []

def OrderlyRun (d : Device) (p2p : Bool) : MigSys → Prop :=
  Run MigSysStart (fun s e s' => migStep d p2p s e = some s') Orderly

/-! ### One arc -/

section arc

variable {d : Device} {p2p : Bool} {v v' : MigVf} {calls : ArcCalls} {f : FilePtr}
variable {curr next : DeviceState}

/-- A good entry into `STOP_COPY`. -/
def StopCopyCall.Good (c : StopCopyCall) : Prop :=
  FinalScheduled c.ctx.migf ∨ c.ctx.abort = true ∨ c.info = some .avail ∨ c.info = some .unaval

theorem validateVfSchedState_migf (w : VfCtx) (info : Option SchedState) :
    (validateVfSchedState w info).2.migf = w.migf := by
  unfold validateVfSchedState
  cases info with
  | none => rfl
  | some state =>
    simp only
    cases validateTransition (w.vfSchedState.getD state) state <;> rfl

theorem validateTransition_skipped {current new : SchedState}
    (h : validateTransition current new = .skipped) : new = .avail ∨ new = .unaval := by
  revert h
  cases current <;> cases new <;> decide

theorem validateVfSchedState_refuses {w : VfCtx} {info : Option SchedState}
    (h : (validateVfSchedState w info).1 ≤ 0) :
    (validateVfSchedState w info).2.abort = true ∨ info = some .avail ∨ info = some .unaval := by
  unfold validateVfSchedState at h ⊢
  cases info with
  | none => exact .inl rfl
  | some state =>
    simp only at h ⊢
    generalize hresult : validateTransition (w.vfSchedState.getD state) state = result at h ⊢
    cases result with
    | processed => simp at h
    | failed => exact .inl rfl
    | skipped =>
      rw [Option.some.injEq, Option.some.injEq]
      exact .inr (validateTransition_skipped hresult)

theorem markSections_scheduled (g : File) {c : Content} (hc : c ∈ finalSections) :
    (markSections g true).nextCopyMask c = true ∨ g.copiedMask c = true := by
  unfold markSections
  simp only [finalSections, List.mem_cons, List.not_mem_nil, or_false] at hc
  obtain rfl | rfl | rfl := hc <;> simp only <;> split_ifs <;>
    simp_all [CopyMask.set]

theorem FinalScheduled.markBitmap {g : File} (h : FinalScheduled g) (len : Nat) :
    FinalScheduled (markBitmap g len) := by
  unfold Mig.markBitmap
  split
  · refine ⟨h.1, fun c hc => ?_⟩
    have hbitmap : c ≠ .vfFbBitmap := by
      intro heq
      subst heq
      exact absurd hc (by decide)
    simpa [CopyMask.set_of_ne _ hbitmap] using h.2 c hc
  · exact h

theorem updateMsgCopyInfo_enabled (w : VfCtx) (info : Option SchedState) (query : Query)
    (isDyna : Bool) :
    (updateMsgCopyInfo d w info query isDyna).2.1.migf.enabled = w.migf.enabled := by
  have hmigf := validateVfSchedState_migf w info
  unfold updateMsgCopyInfo
  generalize validateVfSchedState w info = validated at hmigf ⊢
  obtain ⟨ret, w'⟩ := validated
  simp only at hmigf ⊢
  rw [← hmigf]
  cases query <;> simp only [updateShadowDirtybit] <;> split_ifs <;>
    simp [dropSections, VfCtx.setAbort, markSections, markBitmap] <;> split_ifs <;> rfl

theorem updateMsgCopyInfo_good (w : VfCtx) (info : Option SchedState) (query : Query) :
    StopCopyCall.Good ⟨info, (updateMsgCopyInfo d w info query true).2.1⟩ := by
  have hrefuses := @validateVfSchedState_refuses w info
  unfold StopCopyCall.Good updateMsgCopyInfo
  generalize validateVfSchedState w info = validated at hrefuses ⊢
  obtain ⟨ret, w'⟩ := validated
  simp only at hrefuses ⊢
  by_cases hret : ret ≤ 0
  · rw [if_pos hret]
    exact .inr (hrefuses hret)
  rw [if_neg hret]
  by_cases henabled : w'.migf.enabled = true
  · rw [if_neg (by simp [henabled])]
    cases query with
    | failed buffer => exact .inr (.inl rfl)
    | reported pages =>
      left
      show FinalScheduled (Mig.markBitmap { markSections w'.migf true with
        shadowBitmap := pages
        shadowFbLen := getFbDirtySize pages d.fbBitmapBits d.fbPageSize } _)
      apply FinalScheduled.markBitmap
      exact ⟨henabled, fun c hc => markSections_scheduled w'.migf hc⟩
  · rw [if_pos (by simpa using henabled)]
    exact .inr (.inl rfl)

/-- What a handler keeps of the context: a file that is enabled stays so and is `migf.filp`, and
entries into `STOP_COPY` are good ones. -/
structure ContextOk (v : MigVf) : Prop where
  filp : v.ctx.migf.enabled = true → v.filp = .file v.files
  entered : ∀ c ∈ v.entered, c.Good

/-- What an arc does to the context: it makes no file, or the first one since the last was
released. -/
structure ArcMoves (v v' : MigVf) : Prop where
  ok : ContextOk v → ContextOk v'
  enabled : v.ctx.migf.enabled = true → v'.ctx.migf.enabled = true
  files : v'.files = v.files ∨
    v'.files = v.files + 1 ∧ v.ctx.migf.enabled = false ∧ v'.ctx.migf.enabled = true

theorem ArcMoves.refl (v : MigVf) : ArcMoves v v := ⟨id, id, .inl rfl⟩

theorem stopDevice_moves (v : MigVf) (ret : Int) : ArcMoves v (stopDevice v ret).2 := by
  unfold stopDevice
  simp only
  split
  · exact ⟨fun h => ⟨h.filp, h.entered⟩, id, .inl rfl⟩
  · exact .refl v

theorem runDevice_moves (v : MigVf) (ret : Int) : ArcMoves v (runDevice v ret).2 := by
  unfold runDevice
  simp only
  split
  · exact ⟨fun h => ⟨h.filp, h.entered⟩, id, .inl rfl⟩
  · exact .refl v

theorem stopCopyDevice_moves (v : MigVf) (calls : ArcCalls) :
    ArcMoves v (stopCopyDevice d v calls).2 := by
  have henabled := updateMsgCopyInfo_enabled (d := d) v.ctx calls.info calls.query true
  have hgood := updateMsgCopyInfo_good (d := d) v.ctx calls.info calls.query
  unfold stopCopyDevice
  generalize updateMsgCopyInfo d v.ctx calls.info calls.query true = result at henabled hgood ⊢
  refine ⟨fun h => ⟨fun hon => h.filp (henabled ▸ hon), fun c hc => ?_⟩, ?_, .inl rfl⟩
  · rcases List.mem_append.mp hc with hc | hc
    · exact h.entered c hc
    · rw [List.mem_singleton.mp hc]
      exact hgood
  · intro hon
    exact henabled.trans hon

theorem setupCopy_moves (v : MigVf) (isTarget : Bool) (calls : SetupCalls) :
    ArcMoves v (setupCopy v isTarget calls).2 ∧
      (setupCopy v isTarget calls).2.vf = v.vf ∧
      ((setupCopy v isTarget calls).1 = 0 →
        (setupCopy v isTarget calls).2.ctx.migf.enabled = true) ∧
      ((setupCopy v isTarget calls).1 ≠ 0 → IsErr (setupCopy v isTarget calls).1 ∧
        (setupCopy v isTarget calls).2.files = v.files) := by
  unfold setupCopy
  by_cases henabled : v.ctx.migf.enabled = true
  · rw [if_pos henabled]
    exact ⟨.refl v, rfl, fun _ => henabled, fun h => absurd rfl h⟩
  rw [if_neg henabled]
  by_cases hbuffer : calls.bufferFails = true
  · rw [if_pos hbuffer]
    exact ⟨⟨fun h => ⟨fun hon => absurd hon henabled, h.entered⟩, fun hon => absurd hon henabled,
      .inl rfl⟩, rfl, fun h => absurd h (by decide : (-ENOMEM : Int) ≠ 0),
      fun _ => ⟨(by decide : IsErr (-ENOMEM)), rfl⟩⟩
  rw [if_neg hbuffer]
  have hnonzero (err : Errno) : err.code ≠ 0 := by
    have := err.isErr.2
    omega
  cases hthread : calls.threadErr with
  | some err =>
    exact ⟨⟨fun h => ⟨fun hon => absurd hon henabled, h.entered⟩, fun hon => absurd hon henabled,
      .inl rfl⟩, rfl, fun h => absurd h (hnonzero err), fun _ => ⟨err.isErr, rfl⟩⟩
  | none =>
    cases hfile : calls.fileErr with
    | some err =>
      exact ⟨⟨fun h => ⟨fun hon => Bool.noConfusion (show false = true from hon), h.entered⟩,
        fun hon => absurd hon henabled, .inl rfl⟩, rfl, fun h => absurd h (hnonzero err),
        fun _ => ⟨err.isErr, rfl⟩⟩
    | none =>
      exact ⟨⟨fun h => ⟨fun _ => rfl, h.entered⟩, fun _ => rfl,
        .inr ⟨rfl, by simpa using henabled, rfl⟩⟩, rfl, fun _ => rfl, fun h => absurd rfl h⟩

/-- The function does in the state what it should, or has been stopped. -/
def Fits (st : DeviceState) (vf : VfRun) : Prop :=
  match st with
  | .stop | .stopCopy | .resuming => vf ≠ .active
  | .error | .unknown _ => True
  | _ => vf ≠ .suspended

/-- The outcome of a handler: an error changes nothing but the context, and success brings the
function into the next state; a new file is what comes back. -/
structure ArcSpec (curr : DeviceState) (v : MigVf) (next : DeviceState) (f : FilePtr)
    (v' : MigVf) : Prop where
  moves : ArcMoves v v'
  failed : f.isErr = true → v'.vf = v.vf ∧ v'.files = v.files
  done : f.isErr = false → Fits curr v.vf → Fits next v'.vf
  file : v'.files ≠ v.files → f = v'.filp ∧
    (curr = .running ∧ next = .preCopy ∨ curr = .stop ∧ next = .resuming)
  named : ∀ n, f = .file n → v'.ctx.migf.enabled = true

theorem isErr_errPtr {code : Int} (hcode : IsErr code) : (FilePtr.errPtr code).isErr = true :=
  decide_eq_true hcode

theorem ArcSpec.refused {code : Int} (hcode : IsErr code) : ArcSpec curr v next (.errPtr code) v where
  moves := .refl v
  failed := fun _ => ⟨rfl, rfl⟩
  done := fun hok => by
    rw [isErr_errPtr hcode] at hok
    exact absurd hok.symm Bool.false_ne_true
  file := fun h => absurd rfl h
  named := fun _ h => FilePtr.noConfusion h

theorem ArcSpec.same (hfits : Fits curr v.vf → Fits next v.vf) : ArcSpec curr v next .null v where
  moves := .refl v
  failed := fun h => absurd h Bool.false_ne_true
  done := fun _ => hfits
  file := fun h => absurd rfl h
  named := fun _ h => FilePtr.noConfusion h

theorem isErr_inval : IsErr (-EINVAL) := by decide

theorem isErr_busy : IsErr (-EBUSY) := by decide

theorem ArcCalls.Errnos.state (h : calls.Errnos) (hneg : calls.setVfMigrationState < 0) :
    IsErr calls.setVfMigrationState := ⟨h.2, hneg⟩

theorem ArcSpec.suspends (hcalls : calls.Errnos) (hnext : next = .stop) {result : FilePtr × MigVf}
    (hresult : result =
      let (ret, v) := stopDevice v calls.suspendVf
      if ret ≠ 0 then (.errPtr ret, v) else (.null, v)) :
    ArcSpec curr v next result.1 result.2 := by
  subst hnext hresult
  have hmoves := stopDevice_moves v calls.suspendVf
  unfold stopDevice at hmoves ⊢
  by_cases hfails : calls.suspendVf = 0
  · simp only [hfails, ne_eq, not_true_eq_false, if_true, if_false] at hmoves ⊢
    refine ⟨hmoves, fun h => absurd h Bool.false_ne_true, fun _ _ => ?_, fun h => absurd rfl h,
      fun _ h => FilePtr.noConfusion h⟩
    show VfRun.suspended ≠ .active
    decide
  · simp only [hfails, ne_eq, not_false_eq_true, if_true, if_false]
    exact .refused (hcalls.1 hfails)

theorem ArcSpec.resumes (hnext : next = .running ∨ next = .runningP2p)
    {result : FilePtr × MigVf}
    (hresult : result =
      let (ret, v) := runDevice v calls.resumeVf
      if ret ≠ 0 then (.errPtr (-EBUSY), v) else (.null, v)) :
    ArcSpec curr v next result.1 result.2 := by
  subst hresult
  have hmoves := runDevice_moves v calls.resumeVf
  unfold runDevice at hmoves ⊢
  by_cases hfails : calls.resumeVf = 0
  · simp only [hfails, ne_eq, not_true_eq_false, if_true, if_false] at hmoves ⊢
    refine ⟨hmoves, fun h => absurd h Bool.false_ne_true, fun _ _ => ?_, fun h => absurd rfl h,
      fun _ h => FilePtr.noConfusion h⟩
    obtain rfl | rfl := hnext <;> exact (by decide : VfRun.active ≠ .suspended)
  · simp only [hfails, ne_eq, not_false_eq_true, if_true, if_false]
    exact .refused isErr_busy

theorem ArcSpec.setup {isTarget : Bool} (hok : ContextOk v)
    (hnext : curr = .running ∧ next = .preCopy ∨ curr = .stop ∧ next = .resuming)
    {result : FilePtr × MigVf}
    (hresult : result =
      let (ret, v) := setupCopy v isTarget calls.setup
      if ret ≠ 0 then (.errPtr ret, v) else (v.filp, v)) :
    ArcSpec curr v next result.1 result.2 := by
  subst hresult
  obtain ⟨hmoves, hvf, hmade, hfailed⟩ := setupCopy_moves v isTarget calls.setup
  generalize setupCopy v isTarget calls.setup = made at hmoves hvf hmade hfailed ⊢
  obtain ⟨ret, v'⟩ := made
  have hfits : Fits curr v.vf → Fits next v'.vf := by
    rw [hvf]
    obtain ⟨rfl, rfl⟩ | ⟨rfl, rfl⟩ := hnext <;> exact id
  by_cases hret : ret = 0
  · have hfilp := (hmoves.ok hok).filp (hmade hret)
    simp only [hret, ne_eq, not_true_eq_false, if_false]
    refine ⟨hmoves, fun herr => ?_, fun _ => hfits, fun _ => ⟨rfl, hnext⟩, fun _ _ => hmade hret⟩
    rw [hfilp] at herr
    exact absurd herr Bool.false_ne_true
  · obtain ⟨hcode, hfiles⟩ := hfailed hret
    simp only [hret, ne_eq, not_false_eq_true, if_true]
    refine ⟨hmoves, fun _ => ⟨hvf, hfiles⟩, fun hdone => ?_, fun hne => absurd hfiles hne,
      fun _ h => FilePtr.noConfusion h⟩
    rw [isErr_errPtr hcode] at hdone
    exact absurd hdone.symm Bool.false_ne_true

theorem ArcSpec.stopCopies (hcurr : curr = .stop) (hnext : next = .stopCopy) :
    ArcSpec curr v next .null (stopCopyDevice d v calls).2 := by
  subst hcurr hnext
  exact ⟨stopCopyDevice_moves v calls, fun h => absurd h Bool.false_ne_true, fun _ => id,
    fun h => absurd rfl h, fun _ h => FilePtr.noConfusion h⟩

theorem ArcMoves.trans {v₁ v₂ v₃ : MigVf} (h : ArcMoves v₁ v₂) (h' : ArcMoves v₂ v₃)
    (hfiles : v₃.files = v₂.files) : ArcMoves v₁ v₃ where
  ok := fun hok => h'.ok (h.ok hok)
  enabled := fun hon => h'.enabled (h.enabled hon)
  files := by
    rw [hfiles]
    exact h.files.imp id fun ⟨hnew, hoff, hon⟩ => ⟨hnew, hoff, h'.enabled hon⟩

theorem enterStopCopy_spec (hcalls : calls.Errnos) (hnext : next = .stopCopy) :
    ArcSpec curr v next (enterStopCopy d v calls).1 (enterStopCopy d v calls).2 := by
  subst hnext
  unfold enterStopCopy
  by_cases hstate : calls.setVfMigrationState < 0
  · rw [if_pos hstate]
    exact .refused (hcalls.state hstate)
  rw [if_neg hstate]
  by_cases hfails : calls.suspendVf = 0
  · have hsuspended := (stopDevice_moves v calls.suspendVf).trans
      (stopCopyDevice_moves (d := d) (stopDevice v calls.suspendVf).2 calls) rfl
    unfold stopDevice at hsuspended ⊢
    simp only [hfails, ne_eq, not_true_eq_false, if_true, if_false] at hsuspended ⊢
    refine ⟨hsuspended, fun h => absurd h Bool.false_ne_true, fun _ _ => ?_, fun h => absurd rfl h,
      fun _ h => FilePtr.noConfusion h⟩
    show VfRun.suspended ≠ .active
    decide
  · unfold stopDevice
    simp only [hfails, ne_eq, not_false_eq_true, if_true, if_false]
    exact .refused isErr_busy

theorem setDeviceState_spec (hok : ContextOk v) (hcalls : calls.Errnos) :
    ArcSpec curr v next (setDeviceState d curr v next calls).1
      (setDeviceState d curr v next calls).2 := by
  have hrefused : ArcSpec curr v next (.errPtr (-EINVAL)) v := .refused isErr_inval
  cases curr with
  | running =>
    unfold setDeviceState handleStateRunning
    cases next with
    | stop => exact .suspends hcalls rfl rfl
    | preCopy =>
      by_cases hstate : calls.setVfMigrationState < 0
      · simp only [hstate, if_true]
        exact .refused (hcalls.state hstate)
      · simp only [hstate, if_false]
        exact .setup hok (.inl ⟨rfl, rfl⟩) rfl
    | runningP2p => exact .same id
    | _ => exact hrefused
  | preCopy =>
    unfold setDeviceState handleStatePreCopy
    cases next with
    | running => exact .same id
    | stopCopy => exact enterStopCopy_spec hcalls rfl
    | preCopyP2p => exact .same id
    | _ => exact hrefused
  | stopCopy =>
    unfold setDeviceState handleStateStopCopy
    cases next with
    | stop => exact .same id
    | _ => exact hrefused
  | stop =>
    unfold setDeviceState handleStateStop
    cases next with
    | resuming => exact .setup hok (.inr ⟨rfl, rfl⟩) rfl
    | stopCopy =>
      by_cases hstate : calls.setVfMigrationState < 0
      · simp only [hstate, if_true]
        exact .refused (hcalls.state hstate)
      · simp only [hstate, if_false]
        exact .stopCopies rfl rfl
    | running => exact .resumes (.inl rfl) rfl
    | runningP2p => exact .resumes (.inr rfl) rfl
    | _ => exact hrefused
  | resuming =>
    unfold setDeviceState handleStateResuming
    cases next with
    | stop =>
      by_cases hload : loadState calls = 0
      · simp only [hload, ne_eq, not_true_eq_false, if_false]
        exact .same id
      · simp only [hload, ne_eq, not_false_eq_true, if_true]
        exact hrefused
    | _ => exact hrefused
  | preCopyP2p =>
    unfold setDeviceState handleStatePreCopyP2p
    cases next with
    | stopCopy => exact enterStopCopy_spec hcalls rfl
    | preCopy => exact .same id
    | runningP2p => exact .same id
    | _ => exact hrefused
  | runningP2p =>
    unfold setDeviceState handleStateRunningP2p
    cases next with
    | stop => exact .suspends hcalls rfl rfl
    | running => exact .same id
    | _ => exact hrefused
  | _ => exact hrefused

end arc

/-! ### Runs -/

section runs

variable {d : Device} {p2p : Bool} {s s' : MigSys}

/-- The state that the last arc led to, whether it has been assigned or not. -/
def reachedState (s : MigSys) : DeviceState :=
  match s.request with
  | some r => r.reached.getD s.curr
  | none => s.curr

/-- The request has made a file: it has been its last arc, and nobody else knows the file. -/
structure FileMade (s : MigSys) (r : StateRequest) : Prop where
  files : s.v.files = r.filesBefore + 1
  f : r.f = .file s.v.files
  last : reachedState s = r.new
  held : s.held = false
  releasing : s.releasing = false

structure MigInv (p2p : Bool) (s : MigSys) : Prop where
  ok : ContextOk s.v
  fits : Fits (reachedState s) s.v.vf
  held : s.held = true → s.v.ctx.migf.enabled = true
  releasing : s.releasing = true → s.v.ctx.migf.enabled = true ∧ s.held = false
  request : ∀ r, s.request = some r → (s.v.files = r.filesBefore ∨ FileMade s r) ∧
    ∀ n, r.f = .file n → s.v.ctx.migf.enabled = true
  reported : ∀ r ∈ s.reports, r.result.isErr = false ∧
    (r.atEnd = r.new ∨ r.abort = true ∨ vfioMigGetNextState p2p r.atEnd r.new = none)
  files : FilesReturned s

theorem reachedState_betweenArcs (h : BetweenArcs s) : reachedState s = s.curr := by
  unfold reachedState
  cases hrequest : s.request with
  | none => rfl
  | some r =>
    simp only
    rw [h r hrequest, Option.getD_none]

theorem MigInv.truthful (h : MigInv p2p s) : Truthful p2p s where
  reported := h.reported
  files := h.files
  halted := by
    intro hbetween hhalts
    have hfits := h.fits
    rw [reachedState_betweenArcs hbetween] at hfits
    have hvf : s.v.vf ≠ .active := by
      obtain hcurr | hcurr | hcurr := hhalts <;> rw [hcurr] at hfits <;> exact hfits
    cases hrun : s.v.vf with
    | active => exact absurd hrun hvf
    | suspended => exact .inl rfl
    | stopped => exact .inr rfl
  runs := by
    intro hbetween hruns
    have hfits := h.fits
    rw [reachedState_betweenArcs hbetween] at hfits
    obtain hcurr | hcurr := hruns <;> rw [hcurr] at hfits <;> exact hfits
  scheduled := h.ok.entered

theorem MigSysStart.inv (h : MigSysStart s) : MigInv p2p s := by
  obtain ⟨hcurr, henabled, hvf, hentered, hrequest, hheld, hreleasing, hreports⟩ := h
  refine ⟨⟨?_, ?_⟩, ?_, ?_, ?_, ?_, ?_, ?_⟩
  · intro hon
    rw [henabled] at hon
    exact absurd hon Bool.false_ne_true
  · rw [hentered]
    exact fun c hc => absurd hc List.not_mem_nil
  · unfold reachedState
    rw [hrequest, hcurr, hvf]
    exact (by decide : VfRun.active ≠ .suspended)
  · intro hon
    rw [hheld] at hon
    exact absurd hon Bool.false_ne_true
  · intro hon
    rw [hreleasing] at hon
    exact absurd hon Bool.false_ne_true
  · intro r hr
    rw [hrequest] at hr
    exact absurd hr.symm (Option.some_ne_none r)
  · rw [hreports]
    exact fun r hr => absurd hr List.not_mem_nil
  · unfold FilesReturned
    rw [hreports]
    exact fun r hr => absurd hr List.not_mem_nil

theorem MigInv.out {r : StateRequest} {f : FilePtr} (h : MigInv p2p s)
    (hfits : Fits s.curr s.v.vf)
    (hreported : s.curr = r.new ∨ f.isErr = true ∨ vfioMigGetNextState p2p s.curr r.new = none)
    (hfiles : s.v.files = r.filesBefore ∨ s.v.files = r.filesBefore + 1 ∧ f = .file s.v.files)
    (hnamed : ∀ n, f = .file n → s.v.ctx.migf.enabled = true) :
    MigInv p2p (setStateOut s r f) := by
  -- one more report, and what was known of the others
  have happend {new : Report} (hnew : new.result.isErr = false ∧ (new.atEnd = new.new ∨
        new.abort = true ∨ vfioMigGetNextState p2p new.atEnd new.new = none))
      (hreturned : ∀ n, new.filesBefore < n → n ≤ new.filesAfter → new.result = .file n) :
      (∀ r ∈ s.reports ++ [new], r.result.isErr = false ∧ (r.atEnd = r.new ∨ r.abort = true ∨
        vfioMigGetNextState p2p r.atEnd r.new = none)) ∧
      ∀ r ∈ s.reports ++ [new], ∀ n, r.filesBefore < n → n ≤ r.filesAfter →
        r.result = .file n := by
    simp only [List.mem_append, List.mem_singleton]
    refine ⟨fun r hr => ?_, fun r hr => ?_⟩
    · rcases hr with hr | rfl
      · exact h.reported r hr
      · exact hnew
    · rcases hr with hr | rfl
      · exact h.files r hr
      · exact hreturned
  unfold setStateOut
  cases herr : f.isErr with
  | true =>
    have hnone : s.v.files = r.filesBefore := by
      rcases hfiles with hsame | ⟨_, hfile⟩
      · exact hsame
      · rw [hfile] at herr
        exact absurd herr Bool.false_ne_true
    obtain ⟨hreports, hreturned⟩ :=
      @happend ⟨r.new, s.curr, .null, true, r.filesBefore, s.v.files⟩
        ⟨rfl, .inr (.inl rfl)⟩ (fun n hlt hle => by simp only at hlt hle; omega)
    simp only [if_true]
    exact ⟨⟨h.ok.filp, h.ok.entered⟩, hfits,
      fun hon => h.held (by simpa using hon),
      fun hon => ⟨(h.releasing hon).1, by simpa using (h.releasing hon).2⟩,
      fun r hr => absurd hr.symm (Option.some_ne_none r), hreports, hreturned⟩
  | false =>
    obtain ⟨hreports, hreturned⟩ :=
      @happend ⟨r.new, s.curr, f, s.v.ctx.abort, r.filesBefore, s.v.files⟩
        ⟨herr, hreported.imp id fun hother => hother.elim
          (fun hbad => by rw [herr] at hbad; exact absurd hbad Bool.false_ne_true) .inr⟩
        (fun n hlt hle => by
          simp only at hlt hle ⊢
          rcases hfiles with hsame | ⟨hmade, hfile⟩
          · omega
          · rw [hfile, show n = s.v.files by omega])
    simp only [Bool.false_eq_true, if_false]
    refine ⟨⟨h.ok.filp, h.ok.entered⟩, hfits, fun hon => ?_, fun hon => ⟨(h.releasing hon).1, ?_⟩,
      fun r hr => absurd hr.symm (Option.some_ne_none r), hreports, hreturned⟩
    · simp only [Bool.or_eq_true, Bool.and_eq_true, decide_eq_true_eq] at hon
      rcases hon with hheld | ⟨hfile, _⟩
      · exact h.held hheld
      · exact hnamed _ hfile
    · have hheld := (h.releasing hon).2
      simp only at hon ⊢
      rw [hheld, hon]
      simp

theorem MigInv.arc {r : StateRequest} {calls : ArcCalls} {next : DeviceState}
    (h : MigInv p2p s) (hrequest : s.request = some r) (hreached : r.reached = none)
    (hcurr : s.curr ≠ r.new) (hnext : vfioMigGetNextState p2p s.curr r.new = some next)
    (hcalls : calls.Errnos) (herr : (setDeviceState d s.curr s.v next calls).1.isErr = false) :
    MigInv p2p { s with
      v := (setDeviceState d s.curr s.v next calls).2
      request := some { r with
        f := (setDeviceState d s.curr s.v next calls).1, reached := some next } } := by
  have hspec := (@setDeviceState_spec d _ _ s.curr next) h.ok hcalls
  generalize setDeviceState d s.curr s.v next calls = result at hspec herr ⊢
  have hat : reachedState s = s.curr := by
    unfold reachedState
    rw [hrequest]
    simp only
    rw [hreached, Option.getD_none]
  have hbefore : s.v.files = r.filesBefore := by
    rcases (h.request r hrequest).1 with hsame | hmade
    · exact hsame
    · exact absurd (hat.symm.trans hmade.last) hcurr
  have hfits := h.fits
  rw [hat] at hfits
  refine ⟨hspec.moves.ok h.ok, hspec.done herr hfits, fun hon => hspec.moves.enabled (h.held hon),
    fun hon => ⟨hspec.moves.enabled (h.releasing hon).1, (h.releasing hon).2⟩, ?_, h.reported,
    h.files⟩
  intro r' hr'
  rw [← Option.some.inj hr']
  refine ⟨?_, hspec.named⟩
  rcases hspec.moves.files with hsame | ⟨hnew, hoff, hon⟩
  · exact .inl (hsame.trans hbefore)
  · -- nobody holds a file while none is enabled
    obtain ⟨hfilp, harc⟩ := hspec.file (by omega)
    refine .inr ⟨by rw [← hbefore]; exact hnew, ?_, ?_, ?_, ?_⟩
    · exact hfilp.trans ((hspec.moves.ok h.ok).filp hon)
    · exact fileArc_last hnext harc
    · cases hheld : s.held with
      | false => rfl
      | true => exact absurd ((h.held hheld).symm.trans hoff) (by decide)
    · cases hreleasing : s.releasing with
      | false => rfl
      | true => exact absurd ((h.releasing hreleasing).1.symm.trans hoff) (by decide)

theorem releaseFile_fits {calls : ReleaseCalls} (hfits : Fits s.curr s.v.vf)
    (horderly : s.v.vf = .suspended →
      (s.v.ctx.migf.isTarget = true → s.curr ≠ .running → calls.stopVf = 0) ∧
        (s.v.ctx.migf.isTarget = false → s.curr ≠ .stop → calls.resumeVf = 0)) :
    Fits (releaseFile s calls).curr (releaseFile s calls).v.vf := by
  unfold releaseFile
  cases htarget : s.v.ctx.migf.isTarget with
  | true =>
    by_cases hrunning : s.curr = .running
    · simpa [htarget, hrunning] using hrunning ▸ hfits
    · simp only [htarget, if_true, ne_eq, hrunning, not_false_eq_true]
      unfold stopVf
      split
      · exact (by decide : VfRun.stopped ≠ .suspended)
      · rename_i hfails
        intro hsuspended
        exact hfails ((horderly hsuspended).1 htarget hrunning)
  | false =>
    by_cases hstop : s.curr = .stop
    · simp only [htarget, Bool.false_eq_true, if_false, hstop, if_true]
      unfold stopVf
      split
      · exact (by decide : VfRun.stopped ≠ .active)
      · rw [hstop] at hfits
        exact hfits
    · simp only [htarget, Bool.false_eq_true, if_false, hstop]
      unfold runDevice
      simp only
      split
      · exact (by decide : VfRun.active ≠ .suspended)
      · rename_i hfails
        intro hsuspended
        exact hfails ((horderly hsuspended).2 htarget hstop)

theorem releaseFile_same (s : MigSys) (calls : ReleaseCalls) :
    (releaseFile s calls).request = s.request ∧ (releaseFile s calls).reports = s.reports ∧
      (releaseFile s calls).held = false ∧
      (releaseFile s calls).v.files = s.v.files ∧ (releaseFile s calls).v.filp = s.v.filp ∧
      (releaseFile s calls).v.entered = s.v.entered ∧
      (releaseFile s calls).v.ctx.migf = s.v.ctx.migf := by
  unfold releaseFile stopVf runDevice
  simp only
  split_ifs <;> exact ⟨rfl, rfl, rfl, rfl, rfl, rfl, rfl⟩

theorem MigInv.release {calls : ReleaseCalls} (h : MigInv p2p s) (hheld : s.held = true)
    (horderly : Orderly s (.release calls)) : MigInv p2p (releaseFile s calls) := by
  obtain ⟨hbetween, hworks⟩ := horderly
  have hfits := h.fits
  rw [reachedState_betweenArcs hbetween] at hfits
  have hfits' := releaseFile_fits hfits hworks
  obtain ⟨hrequest, hreports, hfree, hfiles, hfilp, hentered, hmigf⟩ := releaseFile_same s calls
  have hbetween' : BetweenArcs (releaseFile s calls) := by
    intro r hr
    rw [hrequest] at hr
    exact hbetween r hr
  refine ⟨⟨?_, ?_⟩, ?_, ?_, ?_, ?_, ?_, ?_⟩
  · rw [hmigf, hfilp, hfiles]
    exact h.ok.filp
  · rw [hentered]
    exact h.ok.entered
  · rw [reachedState_betweenArcs hbetween']
    exact hfits'
  · intro hon
    rw [hfree] at hon
    exact absurd hon Bool.false_ne_true
  · intro _
    rw [hmigf]
    exact ⟨h.held hheld, hfree⟩
  · intro r hr
    rw [hrequest] at hr
    rw [hmigf, hfiles]
    refine ⟨.inl ?_, (h.request r hr).2⟩
    rcases (h.request r hr).1 with hsame | hmade
    · exact hsame
    · exact absurd (hheld.symm.trans hmade.held) (by decide)
  · rw [hreports]
    exact h.reported
  · unfold FilesReturned
    rw [hreports]
    exact h.files

theorem MigInv.finish (h : MigInv p2p s) (hrequest : s.request = none)
    (hreleasing : s.releasing = true) :
    MigInv p2p { s with
      v := { s.v with ctx := { s.v.ctx with migf := doFinishCopy s.v.ctx.migf } }
      releasing := false } := by
  obtain ⟨henabled, hfree⟩ := h.releasing hreleasing
  have hoff : (doFinishCopy s.v.ctx.migf).enabled = false := by
    unfold doFinishCopy
    rw [if_pos henabled]
    rfl
  refine ⟨⟨fun hon => ?_, h.ok.entered⟩, h.fits, fun hon => ?_, fun hon => ?_, fun r hr => ?_,
    h.reported, h.files⟩
  · exact absurd (hoff.symm.trans hon) Bool.false_ne_true
  · exact absurd (hfree.symm.trans hon) Bool.false_ne_true
  · exact absurd hon Bool.false_ne_true
  · exact absurd (hrequest.symm.trans hr).symm (Option.some_ne_none r)

theorem MigInv.step (h : MigInv p2p s) (e : MigEvent) (horderly : Orderly s e)
    (hstep : migStep d p2p s e = some s') : MigInv p2p s' := by
  cases hrequest : s.request with
  | none =>
    have hat : reachedState s = s.curr := by
      unfold reachedState
      rw [hrequest]
    have hfits := h.fits
    rw [hat] at hfits
    cases e with
    | request new =>
      simp only [migStep, hrequest] at hstep
      have hnew : ∀ {curr : DeviceState}, Fits curr s.v.vf →
          MigInv p2p { s with
            curr, request := some (⟨new, s.v.files, .null, none⟩ : StateRequest) } := by
        intro curr hcurr
        refine ⟨h.ok, hcurr, h.held, h.releasing, fun r hr => ?_, h.reported, h.files⟩
        rw [← Option.some.inj hr]
        exact ⟨.inl rfl, fun n hn => FilePtr.noConfusion hn⟩
      split at hstep
      · rename_i hdefault
        rw [hdefault.1] at hfits
        rw [← Option.some.inj hstep]
        exact hnew hfits
      · rw [← Option.some.inj hstep]
        exact hnew hfits
    | release calls =>
      simp only [migStep] at hstep
      split at hstep
      · rename_i hheld
        rw [← Option.some.inj hstep]
        exact h.release hheld horderly
      · exact absurd hstep.symm (Option.some_ne_none s')
    | finish =>
      simp only [migStep, hrequest] at hstep
      split at hstep
      · rename_i hreleasing
        rw [← Option.some.inj hstep]
        have hfinished := h.finish hrequest hreleasing
        rw [hrequest] at hfinished
        exact hfinished
      · exact absurd hstep.symm (Option.some_ne_none s')
    | _ => simp [migStep, hrequest] at hstep
  | some r =>
    obtain ⟨hmade, hnamed⟩ := h.request r hrequest
    have hat : reachedState s = r.reached.getD s.curr := by
      unfold reachedState
      rw [hrequest]
    have hfits := h.fits
    rw [hat] at hfits
    cases e with
    | arc calls =>
      simp only [migStep, hrequest] at hstep
      split at hstep
      case isFalse => exact absurd hstep.symm (Option.some_ne_none s')
      rename_i hready
      obtain ⟨hreached, hcurr⟩ := hready
      rw [hreached, Option.getD_none] at hat hfits
      have hbefore : s.v.files = r.filesBefore := by
        rcases hmade with hsame | hmade
        · exact hsame
        · exact absurd (hat.symm.trans hmade.last) hcurr
      split at hstep
      · rename_i hnone
        rw [← Option.some.inj hstep]
        exact h.out hfits (.inr (.inr hnone)) (.inl hbefore) hnamed
      · rename_i next hnext
        split at hstep
        · rename_i herr
          have hspec := (@setDeviceState_spec d _ _ s.curr next) h.ok horderly
          obtain ⟨hvf, hfiles⟩ := hspec.failed herr
          have hkept : MigInv p2p { s with v := (setDeviceState d s.curr s.v next calls).2 } := by
            refine ⟨hspec.moves.ok h.ok, ?_, fun hon => hspec.moves.enabled (h.held hon),
              fun hon => ⟨hspec.moves.enabled (h.releasing hon).1, (h.releasing hon).2⟩,
              fun r' hr' => ?_, h.reported, h.files⟩
            · show Fits (reachedState s) (setDeviceState d s.curr s.v next calls).2.vf
              rw [hvf]
              exact h.fits
            · obtain rfl : r = r' := Option.some.inj (hrequest.symm.trans hr')
              exact ⟨.inl (hfiles.trans hbefore), fun n hn => hspec.moves.enabled (hnamed n hn)⟩
          rw [← Option.some.inj hstep]
          apply hkept.out
          · show Fits s.curr (setDeviceState d s.curr s.v next calls).2.vf
            rw [hvf]
            exact hfits
          · exact .inr (.inl herr)
          · exact .inl (hfiles.trans hbefore)
          · exact hspec.named
        · rename_i herr
          rw [← Option.some.inj hstep]
          exact h.arc hrequest hreached hcurr hnext horderly (by simpa using herr)
    | assign =>
      simp only [migStep, hrequest] at hstep
      split at hstep
      · rename_i next hreached
        rw [hreached, Option.getD_some] at hat hfits
        rw [← Option.some.inj hstep]
        refine ⟨h.ok, hfits, h.held, h.releasing, fun r' hr' => ?_, h.reported, h.files⟩
        rw [← Option.some.inj hr']
        refine ⟨hmade.imp id fun hmade => ?_, hnamed⟩
        exact ⟨hmade.files, hmade.f, hat.symm.trans hmade.last, hmade.held, hmade.releasing⟩
      · exact absurd hstep.symm (Option.some_ne_none s')
    | out =>
      simp only [migStep, hrequest] at hstep
      split at hstep
      · rename_i hdone
        rw [hdone.1, Option.getD_none] at hfits
        rw [← Option.some.inj hstep]
        exact h.out hfits (.inl hdone.2) (hmade.imp id fun hmade => ⟨hmade.files, hmade.f⟩) hnamed
      · exact absurd hstep.symm (Option.some_ne_none s')
    | release calls =>
      simp only [migStep] at hstep
      split at hstep
      · rename_i hheld
        rw [← Option.some.inj hstep]
        exact h.release hheld horderly
      · exact absurd hstep.symm (Option.some_ne_none s')
    | _ => simp [migStep, hrequest] at hstep

end runs

def idleFunction : MigSys where
  curr := .defaultGim
  v := {
    ctx := {
      migf := {
        enabled := false
        seq := 0
        isTarget := false
        totalBytesFd := 0
        leftBytesFd := 0
        copiedSizeThread := 0
        nextCopyMask := .zero
        copiedMask := .zero
        shadowBitmap := fun _ => false
        shadowFbLen := 0
        msg := ⟨.zero, fun _ => false, 0, 0⟩
        ring := ⟨0, 0, .paused, fun _ => 0⟩ }
      vfSchedState := none
      abort := false }
    filp := .null
    files := 0
    vf := .active
    entered := [] }
  request := none
  held := false
  releasing := false
  reports := []

theorem idleFunction_start : MigSysStart idleFunction := ⟨rfl, rfl, rfl, rfl, rfl, rfl, rfl, rfl⟩

def arcCalls (suspendVf : Int) : ArcCalls :=
  ⟨0, suspendVf, 0, ⟨false, none, none⟩, false, some .suspend, .reported fun _ => false⟩

theorem arcCalls_errnos : (arcCalls 0).Errnos := ⟨fun h => absurd rfl h, by decide⟩

theorem OrderlyRun.step {d : Device} {p2p : Bool} {s s' : MigSys} (h : OrderlyRun d p2p s)
    (e : MigEvent) (horderly : Orderly s e) (hstep : migStep d p2p s e = some s') :
    OrderlyRun d p2p s' :=
  .next e h horderly hstep

def MigRun (d : Device) (p2p : Bool) : MigSys → Prop :=
  Run MigSysStart (fun s e s' => migStep d p2p s e = some s') Transition.always

end MxGpu.Mig
