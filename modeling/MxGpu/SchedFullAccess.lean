import MxGpu.SchedReset

namespace MxGpu.Sched

/-- How the hardware, the guard and the allocator answer one call of
`amdgv_sched_enter_full_access`. Each `AutoReset` is the outcome of one
`amdgv_sched_reset_vf_auto` call site. -/
structure EnterEnv where
  now : Time
  switchedToPf : Bool
  pfReset : VfReset
  stateOk : Bool
  abnormalVf : Option Nat
  stopReset : AutoReset
  orphanReset : VfReset
  orphanAutoReset : AutoReset
  guardFull : Bool
  loadDfcOk : Bool
  critRegionReallocNeeded : Bool
  critRegionOk : Bool
  inHive : Bool
  fbSharingAllowed : Bool
  requestServed : Bool
  stateOkAfter : Bool
  eventQueued : Bool
  failReset : AutoReset

/-- The same for `amdgv_sched_exit_full_access`. -/
structure ExitEnv where
  oneVf : Bool
  vfInitialized : Bool
  shutdownOk : Bool
  releaseOk : Bool
  hungReset : AutoReset
  addVfActivates : Bool
  pendingRemove : Nat → Bool
  loopFailed : Option AutoReset

/-- The same for `amdgv_sched_exit_full_access_timeout`. -/
structure TimeoutEnv where
  vfReset : VfReset
  pendingRemove : Nat → Bool
  loopFailed : Option AutoReset

/-- `enum amdgv_sched_full_access_status` with the remaining time. -/
inductive FullAccessStatus
  | notEntered
  | timedOut
  | onGoing (timeRemain : Time)
  deriving DecidableEq, Repr

namespace SchedState

variable (cfg : Config) (s : SchedState)

/-- The end of a successful `amdgv_sched_enter_full_access`. It leaves
`used_time_full_access` as it is. -/
def grantFullAccess (now : Time) (idxVf : Nat) (id : EventId) : SchedState :=
  if cfg.enablePerPartitionFullAccess then
    { s.setVf idxVf (fun vf => { vf with
        inFullAccess := true, startTimeFullAccess := now, eventIdFullAccess := id }) with
      logicalSchedFaMask := s.logicalSchedFaMask ||| cfg.worldSwitchMask idxVf
      accessLog := s.accessLog ++ [.granted idxVf now] }
  else
    { s with
      inFullAccess := true
      idxVfFullAccess := idxVf
      startTimeFullAccess := now
      eventIdFullAccess := id
      accessLog := s.accessLog ++ [.granted idxVf now] }

/-- The end of both exits from full access; `used_time_full_access` stays here too. -/
def clearFullAccess (idxVf : Nat) : SchedState :=
  if cfg.enablePerPartitionFullAccess then
    { s.setVf idxVf (fun vf => { vf with inFullAccess := false, startTimeFullAccess := 0 }) with
      logicalSchedFaMask := s.logicalSchedFaMask &&& ~~~cfg.worldSwitchMask idxVf
      accessLog := s.accessLog ++ [.ended idxVf] }
  else
    { s with
      inFullAccess := false
      idxVfFullAccess := cfg.invalidIdxVf
      startTimeFullAccess := 0
      accessLog := s.accessLog ++ [.ended s.idxVfFullAccess] }

def fullAccessLeftTime (inEccRecovery : Bool) (now : Time) (idxVf : Nat) : FullAccessStatus :=
  if !s.isVfInFullAccess cfg idxVf then .notEntered
  else if inEccRecovery then .timedOut
  else if s.usedTime cfg idxVf ≠ 0 then .onGoing (cfg.allowTimeFullAccess.zeroExtend 64)
  else
    let usedTime := now - s.startTime cfg idxVf
    let leftTime := cfg.allowTimeFullAccess.zeroExtend 64 - usedTime
    if leftTime.slt 0 then .timedOut else .onGoing leftTime

def isEventPair (event : Event) : Bool :=
  let eventId := if cfg.enablePerPartitionFullAccess then
    (s.arrayVf event.idxVf).eventIdFullAccess else s.eventIdFullAccess
  match eventId with
  | .reqGpuInit | .reqGpuReset => event.id = .relGpuInit
  | .reqGpuFini => event.id = .relGpuFini
  | _ => false

/-- `amdgv_sched_add_vf`: a world switch that gives the function a time slice
makes it active. -/
def addVf (activates : Bool) (idxVf : Nat) : SchedState :=
  if activates then s.setToActiveVf idxVf else s

end SchedState

namespace Adapter

variable (cfg : Config) (a : Adapter)

/-- `amdgv_sched_queue_set_vf_cond_avail`: within a hive it is always function 0
that is queued, once more when the hive shares its frame buffer. -/
def queueSetVfCondAvail (inHive fbSharingAllowed accepted : Bool) (idxVf : Nat) : Adapter :=
  if inHive then
    let own := if a.sched.isCondAvailVf 0 then a
      else a.queueEvent accepted 0 .schedSetVfCondAvail
    if fbSharingAllowed then own.queueEvent accepted 0 .schedSetVfCondAvail else own
  else if a.sched.isCondAvailVf idxVf then a
  else a.queueEvent accepted idxVf .schedSetVfCondAvail

def eventSetVfCondAvail (idxVf : Nat) : Adapter := a.mapSched fun s => s.setToCondAvailVf idxVf

/-- `amdgv_sched_handle_orphan_vf`; true is success. -/
def handleOrphanVf (orphanReset : VfReset) (idxVf : Nat) : Adapter × Bool :=
  if a.sched.isActiveVf idxVf then
    (a.mapSched fun s => s.setToAvailVf idxVf).resetVf cfg orphanReset
  else (a, true)

/-- `amdgv_sched_enter_full_access` up to the request itself; true goes on. -/
def prepareFullAccess (env : EnterEnv) (event : Event) : Adapter × Bool :=
  -- PF soft FLR needs another forced reset before entering full access
  let pf := if event.id = .reqGpuReset ∧ event.idxVf = pfIdx ∧ env.switchedToPf then
    (a.resetVf cfg env.pfReset).1 else a
  let stopped := if env.stateOk then pf else (pf.resetVfAuto cfg env.stopReset).1
  -- the function that asked for FINI is the one that hangs: reject the request
  if !env.stateOk ∧ event.id = .reqGpuFini ∧ env.abnormalVf = some event.idxVf then
    (stopped, false)
  else if event.id = .reqGpuInit ∨ event.id = .reqGpuReset then
    let orphan := stopped.handleOrphanVf cfg env.orphanReset event.idxVf
    if !orphan.2 then ((orphan.1.resetVfAuto cfg env.orphanAutoReset).1, false)
    else (orphan.1, !env.guardFull)
  else (stopped, !env.guardFull)

/-- The switch of `amdgv_sched_enter_full_access` over the request; true is success. -/
def serveRequest (env : EnterEnv) (event : Event) : Adapter × Bool :=
  match event.id with
  | .reqGpuInit =>
    if cfg.usePf ∧ !env.loadDfcOk then (a, false)
    else if env.critRegionReallocNeeded ∧ !env.critRegionOk then
      ((a.eventSetVfCondAvail event.idxVf).queueSetVfCondAvail env.inHive env.fbSharingAllowed
        env.eventQueued event.idxVf, false)
    else (a, env.requestServed)
  | .reqGpuReset => (a, true)
  | .reqGpuFini =>
    if a.sched.isAvailVf event.idxVf then (a, false) else (a, env.requestServed)
  | _ => (a, true)

/-- `amdgv_sched_enter_full_access`; true is a return of 0. -/
def enterFullAccess (env : EnterEnv) (event : Event) : Adapter × Bool :=
  let prepared := a.prepareFullAccess cfg env event
  if !prepared.2 then (prepared.1, false)
  else
    let served := prepared.1.serveRequest cfg env event
    if !served.2 ∨ !env.stateOkAfter then
      if served.1.pipe.isFindEvent pfIdx .schedRasFed then
        (served.1.queueEvent env.eventQueued event.idxVf .reqGpuReset, false)
      else ((served.1.resetVfAuto cfg env.failReset).1, false)
    else (served.1.mapSched fun s => s.grantFullAccess cfg env.now event.idxVf event.id, true)

/-- `amdgv_sched_exit_full_access` up to the check for a hang. -/
def releaseRequest (env : ExitEnv) (event : Event) : Adapter × Bool :=
  if event.id = .relGpuFini then
    if !a.sched.lockWorldSwitch ∧ !env.shutdownOk then (a, false)
    else (a.mapSched fun s => s.setToAvailVf event.idxVf, env.releaseOk)
  else (a, env.releaseOk)

/-- `amdgv_sched_exit_full_access`. A function whose reset fails is not added
back to its world switches but leaves full access all the same. -/
def exitFullAccess (env : ExitEnv) (event : Event) : Adapter :=
  let released := a.releaseRequest env event
  let checked := if released.2 then (released.1, true)
    else released.1.resetVfAuto cfg env.hungReset
  let readded := if !checked.2 then checked.1 else
    let vfInit : Bool := event.id = .relGpuInit ∧ env.vfInitialized ∧ released.2
    let added := if vfInit then
      checked.1.mapSched fun s => s.addVf env.addVfActivates event.idxVf else checked.1
    if env.oneVf ∨ added.sched.lockWorldSwitch then added
    else added.contextOneTimeLoop cfg env.pendingRemove event.idxVf env.loopFailed
  readded.mapSched fun s => s.clearFullAccess cfg event.idxVf

def exitFullAccessTimeout (env : TimeoutEnv) (vfIdx : Nat) : Adapter :=
  let idxVf := if cfg.enablePerPartitionFullAccess then vfIdx else a.sched.idxVfFullAccess
  let reset := (a.mapSched fun s => s.setToAvailVf idxVf).resetVf cfg env.vfReset
  let looped := if reset.2 then
    reset.1.contextOneTimeLoop cfg env.pendingRemove idxVf env.loopFailed else reset.1
  looped.mapSched fun s => s.clearFullAccess cfg idxVf

/-- `amdgv_sched_partition_full_access_check_and_process`, over the functions it scans. -/
def partitionCheckAndProcess (inEccRecovery : Bool) (now : Nat → Time)
    (env : Nat → TimeoutEnv) : List Nat → Adapter → Adapter
  | [], a => a
  | idxVf :: rest, a =>
    match a.sched.fullAccessLeftTime cfg inEccRecovery (now idxVf) idxVf with
    | .timedOut => partitionCheckAndProcess inEccRecovery now env rest
        (a.exitFullAccessTimeout cfg (env idxVf) idxVf)
    | _ => partitionCheckAndProcess inEccRecovery now env rest a

def fullAccessCheckAndProcess (inEccRecovery : Bool) (now : Nat → Time)
    (env : Nat → TimeoutEnv) : Adapter :=
  if a.sched.skipFullAccessTimeoutCheck then a
  else if cfg.enablePerPartitionFullAccess then
    partitionCheckAndProcess cfg inEccRecovery now env (List.range cfg.numVf) a
  else
    match a.sched.fullAccessLeftTime cfg inEccRecovery (now cfg.invalidIdxVf) cfg.invalidIdxVf with
    | .timedOut => a.exitFullAccessTimeout cfg (env cfg.invalidIdxVf) cfg.invalidIdxVf
    | _ => a

end Adapter

end MxGpu.Sched
