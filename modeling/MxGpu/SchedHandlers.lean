import MxGpu.SchedFullAccess

namespace MxGpu.Sched

inductive LiveUpdateState
  | none | save | restore | ultralite
  deriving DecidableEq, Repr

/-- `struct amdgv_live_info_sched`, the scheduler block of a live update. -/
structure LiveInfoSched where
  inFullAccess : Bool
  idxVfFullAccess : Nat
  eventIdFullAccess : EventId
  usedTimeFullAccess : Time
  lockWorldSwitch : Bool
  logicalSchedFaMask : BitVec 32

/-- What one handled event reads of the rest of the adapter, and how the calls
it makes into the hardware turn out. `first` to `third` are the resets made at
successive failed checks. -/
structure Env where
  now : Time
  enter : EnterEnv
  exit : ExitEnv
  timeout : TimeoutEnv
  liveUpdateState : LiveUpdateState
  engineShared : Bool
  resetNotifyVfPending : Bool
  inXgmiChainReset : Bool
  first : Option AutoReset
  second : Option AutoReset
  third : Option AutoReset
  vfReset : VfReset
  autoReset : AutoReset
  gpuReset : GpuReset
  eventQueued : Bool
  inHive : Bool
  fbSharingAllowed : Bool
  critRegionOk : Bool
  vfFbCleared : Bool
  importStaticDone : Bool
  liveInfo : Option LiveInfoSched
  unprocessed : List (Nat × EventId)
  gpumonVfStates : List (Nat × Bool)
  stopAllOk : Bool
  powerSavingOk : Bool
  powerSavingAfter : Bool
  unrecovErr : Bool
  ignoreRma : Bool
  debugSwitchOk : Bool
  dfcFwDetected : Bool

/-- What a handler tells `amdgv_sched_process_event`: go on, or the two stops
`AMDGV_EVENT_STOP_AND_RELEASE` and `AMDGV_EVENT_STOP_AND_KEEP`. -/
inductive Verdict
  | next | release | keep
  deriving DecidableEq, Repr

/-- What the switch of `handle_event_in_full_access` selects. -/
inductive FullAccessAction
  | ignore
  | pushBack
  | release
  | suspendLive
  | resumeLive
  | exitFullAccess
  | exitTimeout
  | pauseFullAccess
  | suspendVf
  | resumeFullAccess
  | resumeVf
  | removeVf
  | stopFullAccess
  | crash
  deriving DecidableEq, Repr

/-- The ids a function that is not available may still have handled while full
access is held. -/
def handledUnavailInFullAccess : EventId → Bool
  | .schedForceResetGpu | .schedForceResetGpuInternal | .schedRma | .schedSetVfCondAvail
  | .schedInitVfFb | .schedRasEvent | .schedVfRasRemoteCmd | .schedRasUmc | .schedRasFed
  | .schedRasPoisonConsumption | .schedRasPoisonCreation | .schedSuspend | .schedResume
  | .schedSuspendLive | .schedResumeLive | .schedFwLiveUpdateDfc | .schedGpumon
  | .collectDiagData | .exitPowerSaving | .enterPowerSaving | .schedSetVfAccess
  | .schedMmschGeneralNotification | .schedPspVfGate | .schedUpdateTopology
  | .schedGetTopology | .schedVfReqRasErrorCount | .schedVfReqRasBadPages
  | .schedVfReqRasCperDump | .schedVfReqRasChkCritiRegion | .vfReqPtlUpdate => true
  | _ => false

/-- The same in `handle_event_in_non_full_access`. -/
def handledUnavailInNonFullAccess : EventId → Bool
  | .schedForceResetGpu | .schedForceResetGpuInternal | .schedRma | .schedSetVfCondAvail
  | .schedInitVfFb | .schedRasEvent | .schedVfRasRemoteCmd | .schedRasUmc
  | .schedRasPoisonConsumption | .schedRasPoisonCreation | .schedSuspend | .schedResume
  | .schedSuspendLive | .schedResumeLive | .schedFwLiveUpdateDfc | .schedGpumon
  | .schedPspVfCmdRelay | .collectDiagData | .exitPowerSaving | .enterPowerSaving
  | .schedSetVfAccess | .schedMmschGeneralNotification | .schedPspVfGate | .schedRasFed
  | .schedUpdateTopology | .schedGetTopology | .liveMigrationManifestData
  | .schedUpdateMcaBanks | .vfFbCopy | .vfFbCopyAsync | .queryDirtybitData
  | .setVfMigrationState | .vfMigrationSetAbort => true
  | _ => false

def handledLocked (inLiveDebugging : Bool) : EventId → Bool
  | .schedResume | .liveMigrationManifestData | .vfFbCopy | .vfFbCopyAsync
  | .queryDirtybitData | .setVfMigrationState | .vfMigrationSetAbort | .exitPowerSaving
  | .schedResumeLive => true
  | .relGpuDebug => inLiveDebugging
  | _ => false

variable (cfg : Config) (env : Env)

/-- `handle_event_in_full_access`, the decisions. -/
def fullAccessAction (s : SchedState) (event : Event) : FullAccessAction :=
  if s.isUnavailVf event.idxVf ∧ !handledUnavailInFullAccess event.id then .ignore
  else if s.lockWorldSwitch ∧ event.id ≠ .exitPowerSaving ∧ event.id ≠ .schedResumeLive ∧
      (!cfg.gpuvLiveUpdate ∨ env.liveUpdateState = .none) then .pushBack
  else if s.isInPowersaving ∧ event.id ≠ .exitPowerSaving then .pushBack
  else
    match event.id with
    | .schedRasEvent | .schedVfRasRemoteCmd | .schedRasUmc | .schedRasPoisonConsumption
    | .schedRasPoisonCreation => .ignore
    | .reqGpuInitData | .reqGpuInit | .reqGpuFini | .reqGpuReset | .schedGpumon
    | .schedMmschGeneralNotification | .schedUpdateMcaBanks | .reqGpuDebug
    | .schedVfReqGpuInitXchgRegion =>
      -- a PF reset request while the whole GPU reset waits for the PF is dropped
      if cfg.usePf ∧ event.idxVf = pfIdx ∧ event.id = .reqGpuReset ∧
          env.resetNotifyVfPending then .ignore
      else .pushBack
    | .schedSuspend | .schedResume =>
      if cfg.gpuvLiveUpdate ∧ env.liveUpdateState = .save then .release
      else if s.isFullAccessVf cfg pfIdx then .ignore
      else .pushBack
    | .schedSuspendLive => .suspendLive
    | .schedResumeLive => .resumeLive
    | .relGpuInit =>
      if s.isFullAccessVf cfg event.idxVf ∧ s.isEventPair cfg event then .exitFullAccess
      else .ignore
    | .relGpuFini =>
      if s.isFullAccessVf cfg event.idxVf then
        if s.isEventPair cfg event then .exitFullAccess else .exitTimeout
      else .ignore
    | .schedForceResetVf => if s.isFullAccessVf cfg event.idxVf then .ignore else .pushBack
    | .schedInitVfFb => if s.isFullAccessVf cfg pfIdx then .ignore else .pushBack
    | .hwSchedResetVf | .schedResetVf | .schedForceResetGpu | .schedForceResetGpuInternal
    | .schedRma | .schedSetVfCondAvail | .schedFwLiveUpdateDfc | .schedSetVfAccess
    | .schedPspVfGate => .pushBack
    | .schedSuspendVf =>
      if s.isFullAccessVf cfg event.idxVf then
        if env.engineShared then .ignore else .pauseFullAccess
      else if s.isActiveVf event.idxVf then .suspendVf
      else .ignore
    | .schedResumeVf =>
      if cfg.gpuvLiveUpdate ∧ env.liveUpdateState = .save then .ignore
      else if s.isFullAccessVf cfg event.idxVf then .resumeFullAccess
      else if s.isSuspendVf event.idxVf then .resumeVf
      else .ignore
    | .schedRemoveVf => .removeVf
    | .schedStopVf =>
      if s.isFullAccessVf cfg event.idxVf then .stopFullAccess
      else if s.isActiveVf event.idxVf then .crash
      else .ignore
    | .handleCrash | .exitPowerSaving | .enterPowerSaving | .schedRasFed | .curVfCtxEmpty
    | .schedUpdateTopology | .schedGetTopology | .vfFbCopy | .vfFbCopyAsync => .pushBack
    -- diagnosis, migration and guest RAS requests touch no scheduler state
    | _ => .ignore

namespace SchedState

/-- The `SCHED_SUSPEND_LIVE` case under full access: save the elapsed times. -/
def suspendLive (s : SchedState) (now : Time) : SchedState :=
  let saved := if cfg.enablePerPartitionFullAccess then
    { s with arrayVf := fun idxVf =>
        if idxVf < cfg.numVf ∧ s.isVfInFullAccess cfg idxVf then
          { s.arrayVf idxVf with
            usedTimeFullAccess := now - (s.arrayVf idxVf).startTimeFullAccess }
        else s.arrayVf idxVf }
    else { s with usedTimeFullAccess := now - s.startTimeFullAccess }
  { saved with
    lockWorldSwitch := true
    skipFullAccessTimeoutCheck := true
    accessLog := s.accessLog ++ [.liveSuspended now] }

/-- The `SCHED_RESUME_LIVE` case under full access: restore the start times. -/
def resumeLive (s : SchedState) (now : Time) : SchedState :=
  let restored := if cfg.enablePerPartitionFullAccess then
    { s with arrayVf := fun idxVf =>
        if idxVf < cfg.numVf ∧ s.isVfInFullAccess cfg idxVf then
          { s.arrayVf idxVf with
            startTimeFullAccess := now - (s.arrayVf idxVf).usedTimeFullAccess
            usedTimeFullAccess := 0 }
        else s.arrayVf idxVf }
    else { s with
      startTimeFullAccess := now - s.usedTimeFullAccess
      usedTimeFullAccess := 0 }
  { restored with
    lockWorldSwitch := false
    skipFullAccessTimeoutCheck := false
    accessLog := s.accessLog ++ [.liveResumed now] }

/-- `SCHED_SUSPEND_VF` of the function in full access. -/
def pauseFullAccess (s : SchedState) (now : Time) (idxVf : Nat) : SchedState :=
  { s.setUsedTime cfg idxVf (now - s.startTime cfg idxVf) with
    accessLog := s.accessLog ++ [.vmPaused idxVf now] }

/-- `SCHED_RESUME_VF` of the function in full access. -/
def resumeFullAccess (s : SchedState) (now : Time) (idxVf : Nat) : SchedState :=
  let restored := if s.usedTime cfg idxVf ≠ 0 then
    (s.setStartTime cfg idxVf (now - s.usedTime cfg idxVf)).setUsedTime cfg idxVf 0 else s
  { restored with accessLog := s.accessLog ++ [.vmResumed idxVf now] }

/-- `SCHED_STOP_VF` of the function in full access ends its pause. -/
def stopFullAccess (s : SchedState) (now : Time) (idxVf : Nat) : SchedState :=
  { s.setUsedTime cfg idxVf 0 with accessLog := s.accessLog ++ [.vmResumed idxVf now] }

def exportLiveData (s : SchedState) : LiveInfoSched where
  inFullAccess := s.inFullAccess
  idxVfFullAccess := s.idxVfFullAccess
  eventIdFullAccess := s.eventIdFullAccess
  usedTimeFullAccess := s.usedTimeFullAccess
  lockWorldSwitch := s.lockWorldSwitch
  logicalSchedFaMask := s.logicalSchedFaMask

/-- `amdgv_sched_import_live_data`. A driver with per-partition full access that
takes over from one without moves the adapter-wide registers to the function. -/
def importLiveData (s : SchedState) (info : LiveInfoSched) : SchedState :=
  if cfg.gpuvLiveUpdate ∧ !s.lockWorldSwitch then
    { s with lockWorldSwitch := info.lockWorldSwitch }
  else
    let imported := { s with
      inFullAccess := info.inFullAccess
      idxVfFullAccess := info.idxVfFullAccess
      eventIdFullAccess := info.eventIdFullAccess
      usedTimeFullAccess := info.usedTimeFullAccess
      lockWorldSwitch := info.lockWorldSwitch
      logicalSchedFaMask := info.logicalSchedFaMask
      skipFullAccessTimeoutCheck := info.inFullAccess || s.skipFullAccessTimeoutCheck
      accessLog := s.accessLog ++ [.replaced] }
    if cfg.enablePerPartitionFullAccess ∧ info.inFullAccess then
      { imported.setVf info.idxVfFullAccess (fun vf => { vf with
          inFullAccess := true
          usedTimeFullAccess := info.usedTimeFullAccess
          eventIdFullAccess := info.eventIdFullAccess }) with
        logicalSchedFaMask :=
          info.logicalSchedFaMask ||| cfg.worldSwitchMask info.idxVfFullAccess
        inFullAccess := false
        idxVfFullAccess := cfg.invalidIdxVf
        startTimeFullAccess := 0 }
    else imported

/-- The live-restore branch of `SCHED_RESUME_LIVE` outside full access. -/
def restoreLive (s : SchedState) (now : Time) (liveInfo : Option LiveInfoSched) : SchedState :=
  let imported := match liveInfo with
    | some info => s.importLiveData cfg info
    | none => s
  if imported.inFullAccess then { imported with startTimeFullAccess := now } else imported

/-- The functions a `SCHED_GPUMON` request configures or frees. -/
def gpumonVfStates (s : SchedState) (states : List (Nat × Bool)) : SchedState :=
  states.foldl (fun s vf => if vf.2 then s.setToAvailVf vf.1 else s.setToUnavailVf vf.1) s

/-- The loop of `amdgv_sched_event_handle_rma`. -/
def handleRma (s : SchedState) : SchedState :=
  { s with arrayVf := fun idxVf =>
      if idxVf < cfg.numVf ∧ s.isActiveVf idxVf then { s.arrayVf idxVf with state := .unavail }
      else s.arrayVf idxVf }

end SchedState

namespace Adapter

variable (a : Adapter)

/-- Push `event` back and stop. -/
def deferEvent (event : Event) : Adapter × Verdict :=
  ({ a with pipe := a.pipe.pushBackEvent event }, .keep)

def handleEventInFullAccess (event : Event) : Adapter × Verdict :=
  match fullAccessAction cfg env a.sched event with
  | .ignore => (a, .next)
  | .pushBack => a.deferEvent event
  | .release => (a, .release)
  | .suspendLive =>
    let saved := a.mapSched fun s => s.suspendLive cfg env.now
    (if cfg.gpuvLiveUpdate then saved.resetVfAutoIf cfg env.first else saved, .release)
  | .resumeLive => (a.mapSched fun s => s.resumeLive cfg env.now, .release)
  | .exitFullAccess => (a.exitFullAccess cfg env.exit event, .next)
  | .exitTimeout => (a.exitFullAccessTimeout cfg env.timeout event.idxVf, .next)
  | .pauseFullAccess => (a.mapSched fun s => s.pauseFullAccess cfg env.now event.idxVf, .next)
  | .suspendVf => (a.mapSched fun s => s.setToSuspendVf event.idxVf, .next)
  | .resumeFullAccess => (a.mapSched fun s => s.resumeFullAccess cfg env.now event.idxVf, .next)
  | .resumeVf => (a.mapSched fun s => s.setToActiveVf event.idxVf, .next)
  | .removeVf =>
    let exited := if a.sched.isFullAccessVf cfg event.idxVf then
      a.exitFullAccessTimeout cfg env.timeout event.idxVf else a
    (exited.mapSched fun s => s.setToUnavailVf event.idxVf, .next)
  | .stopFullAccess => (a.mapSched fun s => s.stopFullAccess cfg env.now event.idxVf, .next)
  | .crash => (a.queueEvent env.eventQueued event.idxVf .handleCrash, .next)

/-- The three requests for full access once their own checks pass. -/
def requestFullAccess (event : Event) : Adapter × Verdict :=
  let entered := a.enterFullAccess cfg env.enter event
  (entered.1, if entered.2 then .release else .next)

/-- The `REQ_GPU_INIT_DATA` case: `critRegionOk` is the outcome of the version
the guest and the host share, false also when they share none. -/
def initData (event : Event) : Adapter × Verdict :=
  let dirty := a.mapSched fun s => s.setVf event.idxVf fun vf => { vf with fbDirty := true }
  if env.critRegionOk then
    (if dirty.sched.isCondAvailVf event.idxVf then
      dirty.mapSched fun s => s.setToAvailVfForce event.idxVf else dirty, .next)
  else
    ((dirty.eventSetVfCondAvail event.idxVf).queueSetVfCondAvail env.inHive env.fbSharingAllowed
      env.eventQueued event.idxVf, .release)

/-- The `SCHED_FORCE_RESET_VF` case for an active function. -/
def forceResetVf (event : Event) : Adapter :=
  let stopped := a.resetVfAutoIf cfg env.first
  let switched := if stopped.sched.isActiveVf event.idxVf then
    stopped.resetVfAutoIf cfg env.second else stopped
  let reset := if switched.sched.isActiveVf event.idxVf then
    (switched.resetVf cfg env.vfReset).1 else switched
  reset.mapSched fun s => s.setToAvailVf event.idxVf

/-- Switch to the function and reset it, as `SCHED_STOP_VF` and `HANDLE_CRASH` do. -/
def stopAndReset (event : Event) : Adapter :=
  let switched := a.resetVfAutoIf cfg env.first
  if switched.sched.isActiveVf event.idxVf then (switched.resetVf cfg env.vfReset).1
  else switched

/-- The `HANDLE_CRASH` case. -/
def handleCrash (event : Event) : Adapter :=
  let reset := a.stopAndReset cfg env event
  let orphan := reset.handleOrphanVf cfg env.enter.orphanReset event.idxVf
  if orphan.2 then orphan.1 else (orphan.1.resetVfAuto cfg env.autoReset).1

/-- The `SCHED_RESUME_LIVE` case before it falls through to `SCHED_RESUME`. -/
def resumeLiveRestore : Adapter :=
  if cfg.gpuvLiveUpdate ∧ env.liveUpdateState = .restore then
    env.unprocessed.foldl (fun a e => a.queueEvent true e.1 e.2)
      (a.mapSched fun s => s.restoreLive cfg env.now env.liveInfo)
  else a

/-- `amdgv_sched_enter_power_saving`; refused while a function is active. -/
def enterPowerSaving : Adapter × Verdict :=
  if (List.range cfg.numVf).any fun idxVf => a.sched.isActiveVf idxVf then (a, .next)
  else if !env.stopAllOk then (a, .next)
  else
    (a.mapSched fun s => { s with
      lockWorldSwitch := env.powerSavingOk || env.unrecovErr
      isInPowersaving := env.powerSavingAfter },
      if env.powerSavingOk then .release else .next)

/-- The switch of `handle_event_in_non_full_access`. -/
def handleNonFullAccessSwitch (event : Event) : Adapter × Verdict :=
  match event.id with
  | .schedVfReqGpuInitXchgRegion =>
    (if env.critRegionOk then a else a.queueSetVfCondAvail env.inHive env.fbSharingAllowed
      env.eventQueued event.idxVf, .next)
  | .reqGpuInitData => a.initData env event
  | .reqGpuFini =>
    if a.sched.isActiveVf event.idxVf then a.requestFullAccess cfg env event else (a, .next)
  | .reqGpuInit =>
    if a.sched.isUnavailVf event.idxVf then (a, .next)
    -- conditionally available VF cannot do INIT
    else if a.sched.isCondAvailVf event.idxVf then (a, .next)
    else a.requestFullAccess cfg env event
  | .reqGpuReset =>
    if a.sched.isAvailVf event.idxVf ∨ a.sched.isActiveVf event.idxVf then
      a.requestFullAccess cfg env event
    else (a, .next)
  | .schedSuspend =>
    if a.sched.lockWorldSwitch then (a, .release)
    else ((a.resetVfAutoIf cfg env.first).mapSched fun s =>
      { s with lockWorldSwitch := true }, .release)
  | .schedSuspendLive =>
    ((a.resetVfAutoIf cfg env.first).mapSched fun s =>
      { s with lockWorldSwitch := true }, .release)
  | .schedResumeLive =>
    ((a.resumeLiveRestore cfg env).mapSched fun s => { s with lockWorldSwitch := false }, .release)
  | .schedResume => (a.mapSched fun s => { s with lockWorldSwitch := false }, .release)
  | .schedInitVfFb =>
    if !(a.sched.arrayVf event.idxVf).fbDirty ∧ event.fbClearType = .clearDirty then (a, .next)
    else
      let switched := (a.resetVfAutoIf cfg env.first).resetVfAutoIf cfg env.second
      let cleared := if env.vfFbCleared then
        switched.mapSched fun s => s.setVf event.idxVf fun vf => { vf with fbDirty := false }
        else switched
      (cleared.resetVfAutoIf cfg env.third, .next)
  | .schedForceResetVf =>
    if a.sched.isActiveVf event.idxVf then (a.forceResetVf cfg env event, .next) else (a, .next)
  | .schedResetVf =>
    if a.sched.isAvailVf event.idxVf then (a, .next)
    else (a.resetVfAutoIf cfg env.first, .next)
  | .hwSchedResetVf =>
    if ¬(cfg.usePf ∧ event.idxVf = pfIdx) ∧ !a.sched.isActiveVf event.idxVf then (a, .next)
    else ((a.resetVfAuto cfg env.autoReset).1, .next)
  | .schedSuspendVf =>
    if a.sched.isActiveVf event.idxVf then
      (a.mapSched fun s => s.setToSuspendVf event.idxVf, .next)
    else (a, .next)
  | .schedResumeVf =>
    if cfg.gpuvLiveUpdate ∧ env.liveUpdateState = .save then (a, .next)
    else if a.sched.isSuspendVf event.idxVf then
      (a.mapSched fun s => s.setToActiveVf event.idxVf, .next)
    else (a, .next)
  | .schedRemoveVf => (a.mapSched fun s => s.setToUnavailVf event.idxVf, .next)
  | .schedForceResetGpu | .schedForceResetGpuInternal =>
    ((a.gpuResetWrap cfg env.gpuReset).1, .next)
  | .schedStopVf =>
    let stopped := if a.sched.isActiveVf event.idxVf then a.stopAndReset cfg env event else a
    (stopped.mapSched fun s => s.setToAvailVf event.idxVf, .next)
  | .handleCrash => (a.handleCrash cfg env event, .next)
  | .schedGpumon =>
    if env.inXgmiChainReset then a.deferEvent event
    else ((a.resetVfAutoIf cfg env.first).mapSched fun s =>
      s.gpumonVfStates env.gpumonVfStates, .next)
  | .exitPowerSaving =>
    (a.mapSched fun s => { s with
      lockWorldSwitch := s.lockWorldSwitch && !env.powerSavingOk
      isInPowersaving := env.powerSavingAfter }, .next)
  | .enterPowerSaving => a.enterPowerSaving cfg env
  | .schedRma =>
    (if env.ignoreRma then a else a.mapSched fun s => s.handleRma cfg, .next)
  | .reqGpuDebug =>
    if a.sched.inLiveDebugging ∨ !env.debugSwitchOk then (a, .next)
    else (a.mapSched fun s => { s with inLiveDebugging := true, lockWorldSwitch := true }, .next)
  | .relGpuDebug =>
    if a.sched.inLiveDebugging then
      (a.mapSched fun s => { s with inLiveDebugging := false, lockWorldSwitch := false }, .next)
    else (a, .next)
  | .liveMigrationManifestData =>
    (if env.importStaticDone then a.mapSched fun s => s.setToSuspendVf event.idxVf else a, .next)
  | .schedSetVfCondAvail => (a.eventSetVfCondAvail event.idxVf, .next)
  | .schedFwLiveUpdateDfc =>
    if !env.dfcFwDetected then (a, .next)
    else
      let stopped := a.resetVfAutoIf cfg env.first
      -- the second reset is that of a failed switch to the PF
      (if env.second.isSome then stopped.resetVfAutoIf cfg env.second
        else stopped.mapSched fun s => { s with lockWorldSwitch := false }, .next)
  -- the remaining events, REL_GPU_INIT and REL_GPU_FINI among them, change
  -- nothing the scheduler keeps
  | _ => (a, .next)

def handleEventInNonFullAccess (event : Event) : Adapter × Verdict :=
  if a.sched.isUnavailVf event.idxVf ∧ !handledUnavailInNonFullAccess event.id then (a, .next)
  else if a.sched.lockWorldSwitch ∧ !handledLocked a.sched.inLiveDebugging event.id ∧
      (!cfg.gpuvLiveUpdate ∨ env.liveUpdateState = .none) then a.deferEvent event
  else if a.sched.isInPowersaving ∧ event.id ≠ .exitPowerSaving then a.deferEvent event
  else a.handleNonFullAccessSwitch cfg env event

/-- The dispatch of `amdgv_sched_process_event`. -/
def handleEvent (event : Event) : Adapter × Verdict :=
  if a.sched.isAnyShareEngineVfInFullAccess cfg event.idxVf then
    a.handleEventInFullAccess cfg env event
  else a.handleEventInNonFullAccess cfg env event

end Adapter

end MxGpu.Sched
