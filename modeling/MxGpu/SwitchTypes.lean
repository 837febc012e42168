import Mathlib.Algebra.GroupWithZero.Nat
import Mathlib.Logic.Function.Basic

/- The manual world switch: which function gets the GPU next, and for how long. -/
namespace MxGpu.Switch

open Function

/-- Time stamps and slices are `uint64_t` microseconds. -/
abbrev Time := BitVec 64

def pfIdx : Nat := 31

def maxVfSkipCnt : Nat := 8

/-- `DEFAULT_GFX_TIME_SLICE_1VF`. -/
def defaultGfxTimeSlice1Vf : Time := 0xffffffff

/-- `struct amdgv_sched_active_vf_entry`; its `idx_vf` is its place in `array_vf`. -/
structure Entry where
  timeSlice : Time
  lastTimeSlice : Time
  dummyVf : Bool
  startTs : Time
  beyondTimeCycle : Time
  totalTime : Time
  skipNextPunish : Bool
  skipCnt : Nat
  deriving DecidableEq, Repr

/-- What the scheduling functions read and write of `struct amdgv_sched_world_switch` and its
adapter: `pfActive` is `is_active_vf(AMDGV_PF_IDX)`, `usePf` is `AMDGV_FLAG_USE_PF`, `bpMode`
tells `bp_mode` from `AMDGV_BP_MODE_DISABLE`, `gfxTimeSlice` is `GET_GFX_TIME_SLICE`, and
`loaded` tells `AMDGV_VF_CONTEXT_LOADED` from the other context states. -/
structure WorldSwitch where
  fairnessMode : Bool
  vfBusyStatus : BitVec 32
  vfTimeout : BitVec 32
  vfInited : BitVec 32
  currIdxVf : Nat
  loaded : Bool
  activeVfList : List Nat
  arrayVf : Nat → Entry
  pfActive : Bool
  usePf : Bool
  bpMode : Bool
  gfxTimeSlice : Nat → Time

namespace WorldSwitch

def setEntry (ws : WorldSwitch) (idxVf : Nat) (e : Entry) : WorldSwitch :=
  { ws with arrayVf := update ws.arrayVf idxVf e }

@[simp] theorem setEntry_self (ws : WorldSwitch) (idxVf : Nat) (e : Entry) :
    (ws.setEntry idxVf e).arrayVf idxVf = e := update_self ..

theorem setEntry_of_ne (ws : WorldSwitch) {idxVf i : Nat} (e : Entry) (h : i ≠ idxVf) :
    (ws.setEntry idxVf e).arrayVf i = ws.arrayVf i := update_of_ne h ..

/-- `amdgv_list_move_tail` on the active list. -/
def moveTail (ws : WorldSwitch) (idxVf : Nat) : WorldSwitch :=
  { ws with activeVfList := ws.activeVfList.erase idxVf ++ [idxVf] }

@[simp] theorem moveTail_arrayVf (ws : WorldSwitch) (idxVf : Nat) :
    (ws.moveTail idxVf).arrayVf = ws.arrayVf := rfl

/-! Hybrid liquid scheduling. -/

/-- `skip_cnt++`. -/
def bumpSkip (arrayVf : Nat → Entry) (idxVf : Nat) : Nat → Entry :=
  update arrayVf idxVf { arrayVf idxVf with skipCnt := (arrayVf idxVf).skipCnt + 1 }

/-- The walk over the active list when some function is busy: the entries passed over are counted
up, and the walk ends at the entry it returns. -/
def liquidWalk (vfStatus : BitVec 32) (pfActive : Bool) (first last : Nat) :
    List Nat → (Nat → Entry) → (Nat → Entry) × Nat
  | [], arrayVf => (arrayVf, first)
  | i :: rest, arrayVf =>
    if vfStatus.getLsbD i then (arrayVf, i)
    else if i = last then (arrayVf, first)
    else if i = pfIdx ∧ ¬pfActive then liquidWalk vfStatus pfActive first last rest arrayVf
    else if maxVfSkipCnt ≤ (arrayVf i).skipCnt then (arrayVf, i)
    else liquidWalk vfStatus pfActive first last rest (bumpSkip arrayVf i)

/-- The entry of `amdgv_schedule_vfs_liquid`, its count not yet cleared. -/
def liquidPick (ws : WorldSwitch) (first last : Nat) : (Nat → Entry) × Nat :=
  let vfStatus := (ws.vfBusyStatus ||| ws.vfTimeout) &&& ws.vfInited
  if vfStatus = 0 then (ws.arrayVf, first)
  else liquidWalk vfStatus ws.pfActive first last ws.activeVfList ws.arrayVf

/-- `amdgv_schedule_vfs_liquid`: the function to run and its time slice; `none` is the use of an
empty list. -/
def scheduleVfsLiquid (ws : WorldSwitch) : Option (WorldSwitch × Nat × Time) :=
  match ws.activeVfList with
  | [] => none
  | head :: _ =>
    let ws := if head = pfIdx ∧ ¬ws.pfActive then ws.moveTail head else ws
    let r := ws.liquidPick (ws.activeVfList.head?.getD head) (ws.activeVfList.getLast?.getD head)
    let e := { r.1 r.2 with skipCnt := 0 }
    some ({ ws with arrayVf := update r.1 r.2 e }, r.2, e.timeSlice)

/-! Fair share scheduling. -/

/-- The slice and the credit that fairness mode gives an entry; `timeSlice` is the slice of the
function asked for. The comparisons are on `int64_t`. -/
def fairSlice (entry : Entry) (timeSlice : Time) : Entry :=
  let minTimeSlice := timeSlice / 2
  let timeSlice := timeSlice - entry.beyondTimeCycle
  if timeSlice.toInt ≤ 0 then
    { entry with
      lastTimeSlice := 0
      beyondTimeCycle := entry.beyondTimeCycle - entry.timeSlice }
  else if timeSlice.toInt ≤ minTimeSlice.toInt then
    { entry with
      lastTimeSlice := minTimeSlice
      beyondTimeCycle := minTimeSlice - timeSlice }
  else { entry with lastTimeSlice := timeSlice, beyondTimeCycle := 0 }

def target (ws : WorldSwitch) (idxVf : Nat) : Nat :=
  if (ws.arrayVf idxVf).dummyVf then pfIdx else idxVf

/-- What `amdgv_sched_world_switch_calculate_time_slice` leaves in that entry. -/
def sliceEntry (ws : WorldSwitch) (idxVf : Nat) : Entry :=
  let dummy := (ws.arrayVf idxVf).dummyVf
  let entry := ws.arrayVf (ws.target idxVf)
  if ws.fairnessMode then
    if entry.timeSlice = defaultGfxTimeSlice1Vf then
      { entry with
        beyondTimeCycle := 0
        lastTimeSlice := ws.gfxTimeSlice (ws.target idxVf) }
    else
      let entry := fairSlice entry (ws.arrayVf idxVf).timeSlice
      if dummy then { entry with beyondTimeCycle := 0 } else entry
  else { entry with lastTimeSlice := entry.timeSlice }

def calculateTimeSlice (ws : WorldSwitch) (idxVf : Nat) : Time × WorldSwitch :=
  ((ws.sliceEntry idxVf).lastTimeSlice,
    ws.setEntry (ws.target idxVf) (ws.sliceEntry idxVf))

def startRecordVfTime (ws : WorldSwitch) (idxVf : Nat) (now : Time) : WorldSwitch :=
  ws.setEntry idxVf { ws.arrayVf idxVf with startTs := now }

/-- `amdgv_sched_stop_record_vf_time`, without the histogram. -/
def stopRecordVfTime (ws : WorldSwitch) (idxVf : Nat) (currTs : Time) : WorldSwitch :=
  let entry := ws.arrayVf idxVf
  if entry.startTs ≠ 0 then
    let entry := { entry with totalTime := entry.totalTime + (currTs - entry.startTs) }
    let duration := currTs - (entry.startTs + entry.lastTimeSlice)
    let entry :=
      if 0 < duration.toInt then
        if entry.skipNextPunish || ws.bpMode then { entry with skipNextPunish := false }
        else { entry with beyondTimeCycle := entry.beyondTimeCycle + duration }
      else entry
    ws.setEntry idxVf { entry with startTs := 0 }
  else ws

/-- `amdgv_sched_manual_switch_add_vf`, the part on the entry and the list. `timeSlice` is a
`uint32_t` there. -/
def addVf (ws : WorldSwitch) (idxVf : Nat) (timeSlice : BitVec 32) (gfx : Bool) : WorldSwitch :=
  if timeSlice = 0 then ws
  else
    let ws := if idxVf = pfIdx then { ws with pfActive := true } else ws
    let entry := ws.arrayVf idxVf
    if ws.fairnessMode ∧ idxVf ≠ pfIdx then
      ws.setEntry idxVf { entry with dummyVf := false, timeSlice := timeSlice.setWidth 64 }
    else
      let entry := { entry with
        timeSlice := timeSlice.setWidth 64
        dummyVf := false
        skipCnt := if gfx ∧ idxVf ≠ pfIdx then 0 else entry.skipCnt }
      { ws.setEntry idxVf entry with activeVfList := ws.activeVfList ++ [idxVf] }

/-- `amdgv_sched_manual_switch_remove_vf`, the part on the entry and the list; `suspended` is
`is_suspend_vf`. Only the functions in the list, and the physical one, have a valid `idx_vf`. A
current function is saved first. What `amdgv_list_del` does to the old neighbours of a physical
function that is not linked is left out: `ManualSwitch.removeVf` follows the pointers. -/
def removeVf (ws : WorldSwitch) (idxVf : Nat) (suspended : Bool) : WorldSwitch :=
  if idxVf ≠ pfIdx ∧ idxVf ∉ ws.activeVfList then ws
  else
    let ws := if ws.currIdxVf = idxVf then { ws with loaded := false } else ws
    if ws.fairnessMode ∧ idxVf ≠ pfIdx then
      ws.setEntry idxVf { ws.arrayVf idxVf with dummyVf := true }
    else
      { ws with
        activeVfList := ws.activeVfList.erase idxVf
        vfInited := if suspended then ws.vfInited else ws.vfInited &&& ~~~(1#32 <<< idxVf) }

/-- `amdgv_sched_manual_switch_clear_time_slice` on the graphics block. -/
def clearTimeSlice (ws : WorldSwitch) (idxVf : Nat) : WorldSwitch :=
  ws.setEntry idxVf { ws.arrayVf idxVf with
    beyondTimeCycle := 0
    startTs := 0
    lastTimeSlice := 0
    totalTime := 0
    skipNextPunish := false }

end WorldSwitch

end MxGpu.Switch
