import MxGpu.SchedQueue

namespace MxGpu.Sched

structure Adapter where
  pipe : EventPipe
  sched : SchedState

/-- How far `amdgv_sched_init_pf_state_late` got when a reset with
`AMDGV_FLAG_USE_PF` reinitialised the device. -/
inductive PfReinit
  | notReached
  | saveFailed (now : Time)
  | finished

/-- Outcome of `amdgv_sched_gpu_reset_wrap`: dropped before anything is reset
(bad hive, or an orphan request, which still returns 0), failed, or done. -/
inductive GpuReset
  | dropped (ok : Bool)
  | failed (pf : PfReinit)
  | done (pf : PfReinit)

/-- Outcome of `amdgv_sched_reset_vf`: an FLR, or the whole GPU reset it falls
back to. `flr false` also stands for a reset refused in ECC recovery. -/
inductive VfReset
  | flr (ok : Bool)
  | gpu (reset : GpuReset)

/-- Outcome of `amdgv_sched_reset_vf_auto`: nothing abnormal (or a refusal in ECC
recovery), an FLR of the function found hanging, or a whole GPU reset, possibly
after that FLR. -/
inductive AutoReset
  | nothing (ok : Bool)
  | flr (idxVf : Nat) (pendingRemove : Nat → Bool)
  | flrFailed (idxVf : Nat)
  | flrThenGpu (idxVf : Nat) (reset : GpuReset)
  | gpu (reset : GpuReset)

namespace SchedState

variable (cfg : Config) (s : SchedState)

def activeVfNum : Nat := (List.range 32).countP fun idxVf => s.isActiveVf idxVf

/-- Record full access that is kept in the adapter-wide registers. -/
def logGlobalAccess (events : List AccessEvent) : List AccessEvent :=
  if cfg.enablePerPartitionFullAccess then s.accessLog else s.accessLog ++ events

/-- `amdgv_sched_init_pf_state_late` during a whole GPU reset. -/
def initPfStateLate (pf : PfReinit) : SchedState :=
  if cfg.usePf then
    match pf with
    | .notReached => s
    | .saveFailed now =>
      { s with
        inFullAccess := true
        idxVfFullAccess := pfIdx
        startTimeFullAccess := now
        eventIdFullAccess := .reqGpuInit
        accessLog := s.logGlobalAccess cfg [.replaced] }
    | .finished =>
      { s with
        inFullAccess := false
        idxVfFullAccess := cfg.invalidIdxVf
        startTimeFullAccess := 0
        eventIdFullAccess := .reqGpuInit
        accessLog := s.logGlobalAccess cfg [.replaced] }
  else s

/-- The last loop of `amdgv_sched_whole_gpu_reset`. -/
def availAfterGpuReset : SchedState :=
  { s with arrayVf := fun idxVf =>
      if idxVf < cfg.maxNumVf ∧ (s.isActiveVf idxVf ∨ s.isSuspendVf idxVf) then
        { s.arrayVf idxVf with state := .avail }
      else s.arrayVf idxVf }

def removePendingVfs (pendingRemove : Nat → Bool) (idxVf : Nat) : SchedState :=
  { s with arrayVf := fun vf =>
      if vf < pfIdx ∧ pendingRemove vf ∧ s.isActiveVf vf ∧
          cfg.worldSwitchMask vf &&& cfg.worldSwitchMask idxVf = cfg.worldSwitchMask vf then
        { s.arrayVf vf with state := .avail }
      else s.arrayVf vf }

end SchedState

namespace Adapter

variable (cfg : Config) (a : Adapter)

def mapSched (f : SchedState → SchedState) : Adapter := { a with sched := f a.sched }

/-- `amdgv_sched_queue_event`, called by a handler: no signal, and the caller
ignores a refusal. `accepted` is false when the guard or the allocator refuses. -/
def queueEvent (accepted : Bool) (idxVf : Nat) (id : EventId) : Adapter :=
  match a.pipe.queuePushEx a.sched.isInPowersaving accepted idxVf id none .init with
  | some pipe => { a with pipe := pipe }
  | none => a

/-- `amdgv_sched_gpu_reset_wrap` with `amdgv_sched_whole_gpu_reset`; true is success. -/
def gpuResetWrap : GpuReset → Adapter × Bool
  | .dropped ok => (a, ok)
  | .failed pf => (a.mapSched fun s => s.initPfStateLate cfg pf, false)
  | .done pf =>
    ({ pipe := a.pipe.removeStaleEventsAfterWgr
       sched := (a.sched.initPfStateLate cfg pf).availAfterGpuReset cfg }, true)

def resetVf : VfReset → Adapter × Bool
  | .flr ok => (a, ok)
  | .gpu reset => a.gpuResetWrap cfg reset

def resetVfAuto : AutoReset → Adapter × Bool
  | .nothing ok => (a, ok)
  | .flr idxVf pendingRemove =>
    (a.mapSched fun s => (s.setToAvailVf idxVf).removePendingVfs cfg pendingRemove idxVf, true)
  | .flrFailed idxVf => (a.mapSched fun s => s.setToAvailVf idxVf, false)
  | .flrThenGpu idxVf reset => (a.mapSched fun s => s.setToAvailVf idxVf).gpuResetWrap cfg reset
  | .gpu reset => a.gpuResetWrap cfg reset

def resetVfAutoIf : Option AutoReset → Adapter
  | none => a
  | some reset => (a.resetVfAuto cfg reset).1

/-- `amdgv_sched_context_one_time_loop`; `failed` is the reset made when a world
switch fails its loop. -/
def contextOneTimeLoop (pendingRemove : Nat → Bool) (idxVf : Nat)
    (failed : Option AutoReset) : Adapter :=
  if a.sched.activeVfNum = 0 ∨ cfg.enablePerPartitionFullAccess then a
  else (a.mapSched fun s => s.removePendingVfs cfg pendingRemove idxVf).resetVfAutoIf cfg failed

end Adapter

end MxGpu.Sched
