import Mathlib.Algebra.GroupWithZero.Nat
import Mathlib.Data.Fintype.Defs

namespace MxGpu.Sched

/-- `AMDGV_PF_IDX`: the last of the 32 function slots. -/
def pfIdx : Nat := 31

/-- Time stamps and durations are `uint64_t` microseconds. -/
abbrev Time := BitVec 64

/-- `enum amdgv_sched_event_id`; `other` is any value the enumeration has no name for. -/
inductive EventId
  | readyToAccessGpu | ipDataReady | textMessage
  | reqGpuInit | relGpuInit | reqGpuFini | relGpuFini | reqGpuReset | logVfError
  | reqGpuInitData | readyToReset | reqGpuDebug | relGpuDebug | vfReqPtlUpdate
  | schedForceResetVf | schedResetVf | hwSchedResetVf | schedSuspendVf | schedResumeVf
  | schedRemoveVf | schedForceResetGpu | schedStopVf | schedInitVfFb | schedRasUmc
  | schedSuspend | schedResume | schedFwLiveUpdateDfc | schedGpumon | schedSetVfAccess
  | schedMmschGeneralNotification | schedPspVfGate | schedPspVfCmdRelay | handleCrash
  | schedForceResetGpuInternal | schedSuspendLive | schedResumeLive | collectDiagData
  | enterPowerSaving | exitPowerSaving | schedRasPoisonConsumption | schedRasFed
  | curVfCtxEmpty | schedUpdateTopology | schedUpdateMcaBanks | schedGetTopology | schedRma
  | schedVfReqRasErrorCount | schedVfReqRasCperDump | schedRasPoisonCreation
  | schedVfReqRasBadPages | liveMigrationManifestData | vfFbCopy | vfFbCopyAsync
  | queryDirtybitData | setVfMigrationState | vfMigrationSetAbort
  | schedVfReqRasChkCritiRegion | schedSetVfCondAvail | schedUalPauseReq | schedUalResumeReq
  | schedVfReqGpuInitXchgRegion | schedRasEvent | schedVfRasRemoteCmd
  | other (code : Nat)
  deriving DecidableEq, Repr

inductive EventStatus
  | normal | finished
  deriving DecidableEq, Repr

/-- `enum amdgv_fb_clear_type`, carried by `SCHED_INIT_VF_FB`. -/
inductive FbClearType
  | init | clearForce | clearDirty
  deriving DecidableEq, Repr

/-- One `amdgv_sched_event` in its entry. `entry` is the address of the entry,
given out in allocation order; `signal = none` is `OSS_INVALID_HANDLE`. -/
structure Event where
  entry : Nat
  idxVf : Nat
  id : EventId
  status : EventStatus
  signal : Option Nat
  fbClearType : FbClearType
  deriving DecidableEq, Repr

/-- `AMDGV_SCHED_UNAVAL`, `AVAIL`, `ACTIVE` and `SUSPEND`. -/
inductive VfState
  | unavail | avail | active | suspend
  deriving DecidableEq, Repr

/-- The part of `amdgv_sched_vf_info` that event processing writes. -/
structure VfInfo where
  state : VfState
  isCondAvail : Bool
  fbDirty : Bool
  inFullAccess : Bool
  startTimeFullAccess : Time
  usedTimeFullAccess : Time
  eventIdFullAccess : EventId

/-- What stays fixed while events are processed: the flags of the adapter, its
function counts and the world switches each function is mapped to. -/
structure Config where
  numVf : Nat
  maxNumVf : Nat
  enablePerPartitionFullAccess : Bool
  worldSwitchMask : Nat → BitVec 32
  allowTimeFullAccess : BitVec 32
  usePf : Bool
  gpuvLiveUpdate : Bool

def Config.invalidIdxVf (cfg : Config) : Nat := cfg.maxNumVf + 1

/-- The negation of `AMDGV_IS_IDX_INVALID`. -/
def Config.isIdxValid (cfg : Config) (idxVf : Nat) : Prop := idxVf = pfIdx ∨ idxVf < cfg.numVf

instance (cfg : Config) (idxVf : Nat) : Decidable (cfg.isIdxValid idxVf) :=
  inferInstanceAs (Decidable (_ ∨ _))

/-- What happened to full access, in order; `replaced` is a reset or a live import
that set the registers without entering full access. The code keeps no such record:
it is written next to the registers it explains and read by no function. -/
inductive AccessEvent
  | granted (idxVf : Nat) (now : Time)
  | ended (idxVf : Nat)
  | vmPaused (idxVf : Nat) (now : Time)
  | vmResumed (idxVf : Nat) (now : Time)
  | liveSuspended (now : Time)
  | liveResumed (now : Time)
  | replaced
  deriving DecidableEq, Repr

/-- The scheduler state of `amdgv_sched` and `amdgv_adapter` that events read and write. -/
structure SchedState where
  arrayVf : Nat → VfInfo
  inFullAccess : Bool
  idxVfFullAccess : Nat
  startTimeFullAccess : Time
  usedTimeFullAccess : Time
  eventIdFullAccess : EventId
  logicalSchedFaMask : BitVec 32
  skipFullAccessTimeoutCheck : Bool
  lockWorldSwitch : Bool
  isInPowersaving : Bool
  inLiveDebugging : Bool
  accessLog : List AccessEvent

namespace SchedState

variable (cfg : Config) (s : SchedState) (idxVf : Nat)

/-- Write one slot of `sched.array_vf`. -/
def setVf (f : VfInfo → VfInfo) : SchedState :=
  { s with arrayVf := Function.update s.arrayVf idxVf (f (s.arrayVf idxVf)) }

@[simp] theorem setVf_self (f : VfInfo → VfInfo) :
    (s.setVf idxVf f).arrayVf idxVf = f (s.arrayVf idxVf) := by
  unfold setVf
  exact Function.update_self ..

@[simp] theorem setVf_other (f : VfInfo → VfInfo) {other : Nat} (ne : other ≠ idxVf) :
    (s.setVf idxVf f).arrayVf other = s.arrayVf other := by
  unfold setVf
  exact Function.update_of_ne ne ..

def isAvailVf : Bool := (s.arrayVf idxVf).state = .avail
def isActiveVf : Bool := (s.arrayVf idxVf).state = .active
def isSuspendVf : Bool := (s.arrayVf idxVf).state = .suspend
def isUnavailVf : Bool := (s.arrayVf idxVf).state = .unavail
def isCondAvailVf : Bool := (s.arrayVf idxVf).isCondAvail

def setToAvailVf : SchedState := s.setVf idxVf fun vf => { vf with state := .avail }
def setToActiveVf : SchedState := s.setVf idxVf fun vf => { vf with state := .active }
def setToSuspendVf : SchedState := s.setVf idxVf fun vf => { vf with state := .suspend }
def setToUnavailVf : SchedState := s.setVf idxVf fun vf => { vf with state := .unavail }

def setToAvailVfForce : SchedState :=
  s.setVf idxVf fun vf => { vf with isCondAvail := false, state := .avail }

def setToCondAvailVf : SchedState :=
  s.setVf idxVf fun vf => { vf with isCondAvail := true, state := .avail }

def isAnyShareEngineVfInFullAccess : Bool :=
  if cfg.enablePerPartitionFullAccess then
    s.logicalSchedFaMask &&& cfg.worldSwitchMask idxVf ≠ 0
  else s.inFullAccess

def isVfInFullAccess : Bool :=
  if cfg.enablePerPartitionFullAccess then (s.arrayVf idxVf).inFullAccess else s.inFullAccess

def isFullAccessVf : Bool :=
  if cfg.enablePerPartitionFullAccess then (s.arrayVf idxVf).inFullAccess
  else s.idxVfFullAccess = idxVf

def Holds : Prop := s.isVfInFullAccess cfg idxVf ∧ s.isFullAccessVf cfg idxVf

/-- Reading `USED_TIME_FULL_ACCESS`. -/
def usedTime : Time :=
  if cfg.enablePerPartitionFullAccess then (s.arrayVf idxVf).usedTimeFullAccess
  else s.usedTimeFullAccess

/-- Reading `START_TIME_FULL_ACCESS`. -/
def startTime : Time :=
  if cfg.enablePerPartitionFullAccess then (s.arrayVf idxVf).startTimeFullAccess
  else s.startTimeFullAccess

/-- Assigning `USED_TIME_FULL_ACCESS`. -/
def setUsedTime (time : Time) : SchedState :=
  if cfg.enablePerPartitionFullAccess then
    s.setVf idxVf fun vf => { vf with usedTimeFullAccess := time }
  else { s with usedTimeFullAccess := time }

/-- Assigning `START_TIME_FULL_ACCESS`. -/
def setStartTime (time : Time) : SchedState :=
  if cfg.enablePerPartitionFullAccess then
    s.setVf idxVf fun vf => { vf with startTimeFullAccess := time }
  else { s with startTimeFullAccess := time }

variable {cfg} {s}

theorem holds_partition (partitioned : cfg.enablePerPartitionFullAccess) {v : Nat} :
    s.Holds cfg v ↔ (s.arrayVf v).inFullAccess = true := by
  simp [Holds, isVfInFullAccess, isFullAccessVf, partitioned]

theorem holds_whole (whole : ¬cfg.enablePerPartitionFullAccess) {v : Nat} :
    s.Holds cfg v ↔ s.inFullAccess = true ∧ s.idxVfFullAccess = v := by
  simp [Holds, isVfInFullAccess, isFullAccessVf, whole]

theorem setVf_holds {idxVf : Nat} {f : VfInfo → VfInfo}
    (flag : ∀ vf, (f vf).inFullAccess = vf.inFullAccess) {v : Nat} :
    (s.setVf idxVf f).Holds cfg v ↔ s.Holds cfg v := by
  have same : ((s.setVf idxVf f).arrayVf v).inFullAccess = (s.arrayVf v).inFullAccess := by
    by_cases own : v = idxVf
    · rw [own, setVf_self, flag]
    · rw [setVf_other _ _ _ own]
  unfold Holds isVfInFullAccess isFullAccessVf
  rw [same]
  rfl

end SchedState

end MxGpu.Sched
