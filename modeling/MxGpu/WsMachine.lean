import Mathlib.Algebra.GroupWithZero.Nat
import Mathlib.Data.List.Basic

/- The world-switch state machine of the hardware schedulers (`core/amdgv_ws_state.c`). -/
namespace MxGpu.Ws

open Function

/-- The commands of the IOV interface; a scheduler's state is the command it took last. -/
inductive GpuState where
  | idleGpu
  | saveGpuState
  | loadGpuState
  | initGpu
  | runGpu
  | shutdownGpu
  | enableAutoHwSwitch
  | disableAutoHwSched
  | other (code : Nat)
  deriving DecidableEq

def pfIdx : Nat := 31
def maxVfSlot : Nat := 32
def maxNumHwSched : Nat := 32
/-- The `-1` a caller passes for a target function it does not know. -/
def unknownVf : Nat := 2 ^ 32 - 1

/-- What the commands have made of one function on one scheduler. -/
inductive Phase where
  | off
  | running
  | idled
  deriving DecidableEq

/-- The hardware behind one scheduler: the functions' phases, and whether it switches itself. -/
structure Hardware where
  phase : Nat → Phase
  auto : Bool

section Hardware

def Hardware.exec (hw : Hardware) (cmd : GpuState) (vf : Nat) : Hardware :=
  match cmd with
  | .runGpu => { hw with phase := update hw.phase vf .running }
  | .idleGpu =>
    if hw.phase vf = .running then { hw with phase := update hw.phase vf .idled } else hw
  | .saveGpuState =>
    if hw.phase vf = .idled then { hw with phase := update hw.phase vf .off } else hw
  | .enableAutoHwSwitch => { hw with auto := true }
  | _ => hw

def Hardware.reset : Hardware := ⟨fun _ => .off, false⟩

/-- Automatic switching has stopped, with at most the function `vf` still there. -/
def Hardware.stopped (vf : Nat) (left : Phase) : Hardware :=
  ⟨update (fun _ => .off) vf left, false⟩

/-- Automatic switching with no function on its list runs nothing. -/
def Hardware.emptied (hw : Hardware) : Hardware :=
  if hw.auto then .reset else hw

def Hardware.Quiet (hw : Hardware) : Prop := hw.auto = false ∧ ∀ g, hw.phase g = .off

/-- No function but `vf` is on the scheduler. -/
def Hardware.Only (hw : Hardware) (vf : Nat) : Prop :=
  hw.auto = false ∧ ∀ g, g ≠ vf → hw.phase g = .off

end Hardware

structure Sent where
  cmd : GpuState
  vf : Nat
  hw : Hardware

/-- `hw_state_machine[hw_sched_id]`, the states the functions have on this scheduler, the hardware
behind it and all it was sent. -/
structure Machine where
  curGpuState : GpuState
  curVfId : Nat
  curVfState : Nat → GpuState
  hw : Hardware
  sent : List Sent

inductive Outcome where
  | done
  | failed
  | late
  deriving DecidableEq

structure Config where
  auto : Bool
  gfx : Bool
  mm : Bool
  supportShutdownCmd : Bool
  numVfPerGfxSched : Nat
  disableSelfSwitch : Bool
  usePf : Bool
  useLegacyFlrSequence : Bool

structure Functions where
  suspended : Nat → Bool
  active : Nat → Bool
  autoRun : Nat → Bool
  pfInited : Bool

inductive Ret where
  | ok
  | failure
  | reentrantError
  | infiniteLoop
  | idleTimeout
  | runTimeout
  | saveTimeout
  | loadTimeout
  | shutdownTimeout
  | cmdError
  deriving DecidableEq

/-- A graphics scheduler with one function and with self switching turned off. -/
def Config.selfSwitchOff (cfg : Config) : Bool :=
  cfg.gfx && cfg.numVfPerGfxSched == 1 && cfg.disableSelfSwitch

def Config.shutdownCmd (cfg : Config) : Bool := cfg.gfx || (cfg.mm && cfg.supportShutdownCmd)

section Commands

variable (cfg : Config) (cmd : GpuState) (vf : Nat)

def Machine.setCmd (m : Machine) : Machine := { m with sent := m.sent ++ [⟨cmd, vf, m.hw⟩] }

def Machine.exec (m : Machine) : Machine := { m with hw := m.hw.exec cmd vf }

/-- The command is sent and waited for (`wait_cmd_complete`). -/
def Machine.command (outcome : Outcome) (m : Machine) : Machine :=
  if outcome = .failed then m.setCmd cmd vf else (m.setCmd cmd vf).exec cmd vf

def Machine.setVfState (m : Machine) : Machine :=
  { m with curVfState := update m.curVfState vf cmd }

/-- What `amdgv_gpuiov_init_vf`, `amdgv_gpuiov_save_vf` and `amdgv_gpuiov_run_vf` share with
`amdgv_gpuiov_load_vf` and `amdgv_gpuiov_idle_vf`: these two look at the index afterwards. -/
def gpuiovVf (checked : Bool) (outcome : Outcome) (m : Machine) : Machine × Bool :=
  if outcome = .done ∧ ¬ (checked ∧ maxVfSlot ≤ vf) then
    ((m.command cmd vf outcome).setVfState cmd vf, true)
  else (m.command cmd vf outcome, false)

def gpuiovInitVf : Outcome → Machine → Machine × Bool := gpuiovVf .initGpu vf false
def gpuiovSaveVf : Outcome → Machine → Machine × Bool := gpuiovVf .saveGpuState vf false
def gpuiovRunVf : Outcome → Machine → Machine × Bool := gpuiovVf .runGpu vf false
def gpuiovLoadVf : Outcome → Machine → Machine × Bool := gpuiovVf .loadGpuState vf true
def gpuiovIdleVf : Outcome → Machine → Machine × Bool := gpuiovVf .idleGpu vf true

def gpuiovShutdownVf (outcome : Outcome) (m : Machine) : Machine × Bool :=
  if cfg.useLegacyFlrSequence then (m, true)
  else if cfg.shutdownCmd then gpuiovVf .shutdownGpu vf false outcome m
  else (m.setVfState .shutdownGpu vf, true)

/-- The `amdgv_gpuiov_*_vf_no_wait` functions. -/
def gpuiovNoWait (m : Machine) : Machine :=
  if cmd = .shutdownGpu ∧ (cfg.useLegacyFlrSequence ∨ ¬ cfg.shutdownCmd) then m
  else m.setCmd cmd vf

def Machine.moved (m : Machine) : Machine := { m with curGpuState := cmd, curVfId := vf }

end Commands

section Manual

variable (cfg : Config) (fns : Functions) (targetVf : Nat) (targetState : GpuState)

def Machine.At (m : Machine) : Prop := m.curGpuState = targetState ∧ m.curVfId = targetVf

instance (m : Machine) : Decidable (m.At targetVf targetState) :=
  inferInstanceAs (Decidable (_ ∧ _))

/-- The `shutdown_gpu` label. -/
def leaveShutdown (m : Machine) : GpuState :=
  if targetState = .shutdownGpu ∧ m.curVfId ≠ targetVf ∧ m.curVfState targetVf = .saveGpuState then
    .shutdownGpu
  else if m.curVfState targetVf = .saveGpuState then .loadGpuState
  else .initGpu

/-- `world_switch_get_next_state`, which `world_switch_goto_state_manual` has written out in its
own loop. -/
def getNextState (m : Machine) : Option (GpuState × Nat) :=
  match m.curGpuState with
  | .idleGpu => some (.saveGpuState, m.curVfId)
  | .saveGpuState =>
    if targetState = .shutdownGpu ∧ m.curVfId = targetVf then some (.shutdownGpu, m.curVfId)
    else if targetState = .shutdownGpu ∧ m.curVfId ≠ targetVf ∧ fns.suspended targetVf then
      some (.shutdownGpu, targetVf)
    else some (leaveShutdown targetVf targetState m, targetVf)
  | .shutdownGpu => some (leaveShutdown targetVf targetState m, targetVf)
  | .loadGpuState | .initGpu => some (.runGpu, m.curVfId)
  | .runGpu => some (.idleGpu, m.curVfId)
  | _ => none

/-- The second `switch` of the manual loop: the command of the next state, and what the request
returns when it fails. -/
def manualCommand (nextState : GpuState) (nextVf : Nat) (outcome : Outcome) (m : Machine) :
    (Machine × Bool) × Ret :=
  match nextState with
  | .idleGpu => (gpuiovIdleVf nextVf outcome m, .idleTimeout)
  | .runGpu => (gpuiovRunVf nextVf outcome m, .runTimeout)
  | .saveGpuState => (gpuiovSaveVf nextVf outcome m, .saveTimeout)
  | .initGpu => (gpuiovInitVf nextVf outcome m, .loadTimeout)
  | .loadGpuState => (gpuiovLoadVf nextVf outcome m, .loadTimeout)
  | .shutdownGpu => (gpuiovShutdownVf cfg nextVf outcome m, .shutdownTimeout)
  | _ => ((m, false), .cmdError)

/-- The loop of `world_switch_goto_state_manual`; the first argument is `loop_okay`. -/
def manualLoop (answers : Nat → Outcome) : Nat → Machine → Machine × Ret
  | 0, m => if m.At targetVf targetState then (m, .ok) else (m, .infiniteLoop)
  | loopOkay + 1, m =>
    if m.At targetVf targetState then (m, .ok)
    else
      match getNextState fns targetVf targetState m with
      | none => (m, .cmdError)
      | some (nextState, nextVf) =>
        if (manualCommand cfg nextState nextVf (answers loopOkay) m).1.2 then
          manualLoop answers loopOkay
            ((manualCommand cfg nextState nextVf (answers loopOkay) m).1.1.moved nextState nextVf)
        else
          ((manualCommand cfg nextState nextVf (answers loopOkay) m).1.1,
            (manualCommand cfg nextState nextVf (answers loopOkay) m).2)

/-- `world_switch_goto_state_manual`, with the scheduler's lock taken. -/
def gotoStateManual (answers : Nat → Outcome) (m : Machine) : Machine × Ret :=
  manualLoop cfg fns targetVf targetState answers 20 m

end Manual

/-- `AMDGV_VF_CONTEXT_*`, as far as the automatic path tells them apart. -/
inductive VfContext where
  | saved
  | clear
  | other
  deriving DecidableEq

structure Answer where
  /-- of the turn's command -/
  outcome : Outcome
  /-- of `amdgv_gpuiov_wait_auto_sched_stop` -/
  stop : Outcome
  /-- `active_vfs` is not zero -/
  activeVfs : Bool
  activeVfIdx : Nat
  /-- how a stop of automatic switching leaves the function `activeVfIdx` -/
  left : Phase
  hwVfState : VfContext

inductive Turn where
  | next (m : Machine) (targetVf : Nat) (targetState : GpuState)
  | exit (m : Machine) (ret : Ret)

section Auto

variable (cfg : Config) (fns : Functions) (targetVf : Nat) (targetState : GpuState) (ans : Answer)

/-- What `amdgv_world_switch_do_enable_auto_sched` records. -/
def Machine.autoEnabled (m : Machine) : Machine :=
  { m with
    curVfId := targetVf
    curGpuState := .enableAutoHwSwitch
    curVfState := fun i => if i < maxVfSlot ∧ fns.autoRun i then .runGpu else m.curVfState i }

/-- `amdgv_world_switch_do_enable_auto_sched`: without an active function there is no command. -/
def doEnableAutoSched (m : Machine) : Turn :=
  if ans.activeVfs then
    if ans.outcome = .done then
      .next ((m.command .enableAutoHwSwitch unknownVf ans.outcome).autoEnabled fns targetVf) targetVf
        targetState
    else .exit (m.command .enableAutoHwSwitch unknownVf ans.outcome) .failure
  else .next (m.autoEnabled fns targetVf) targetVf targetState

/-- The `load_gpu` label, also reached with the target state replaced. -/
def loadGpu (m : Machine) : Turn :=
  if (gpuiovLoadVf targetVf ans.outcome m).2 then
    .next ((gpuiovLoadVf targetVf ans.outcome m).1.moved .loadGpuState targetVf) targetVf targetState
  else .exit (gpuiovLoadVf targetVf ans.outcome m).1 .loadTimeout

def recordTurn (state : GpuState) (ret : Ret) (r : Machine × Bool) : Turn :=
  if r.2 then .next { r.1 with curGpuState := state } targetVf targetState else .exit r.1 ret

def loadable : Bool := if targetVf = pfIdx then fns.pfInited else fns.active targetVf

/-- The part of the `shutdown_gpu` label that SAVE and SHUTDOWN share. -/
def autoLeaveShutdown (m : Machine) : Turn :=
  if maxVfSlot ≤ targetVf then .exit m .failure
  else if m.curVfState targetVf = .saveGpuState ∧ loadable fns targetVf then
    loadGpu targetVf targetState ans m
  else if (gpuiovInitVf targetVf ans.outcome m).2 then
    .next ((gpuiovInitVf targetVf ans.outcome m).1.moved .initGpu targetVf) targetVf targetState
  else .exit (gpuiovInitVf targetVf ans.outcome m).1 .loadTimeout

/-- A target function that is suspended counts as saved and takes the scheduler over. -/
def Machine.takenOver (m : Machine) : Machine :=
  if fns.suspended targetVf ∧ targetVf ≠ m.curVfId ∧ targetVf ≠ pfIdx then
    { m with curVfId := targetVf }
  else m

def autoEnter (m : Machine) : Turn :=
  if cfg.selfSwitchOff then loadGpu targetVf .runGpu ans m
  else doEnableAutoSched fns targetVf targetState ans m

def autoSave (m : Machine) : Turn :=
  if targetState = .shutdownGpu ∧ m.curVfId = targetVf then
    recordTurn targetVf targetState .shutdownGpu .shutdownTimeout
      (gpuiovShutdownVf cfg m.curVfId ans.outcome m)
  else if targetState = .enableAutoHwSwitch then autoEnter cfg fns targetVf targetState ans m
  else autoLeaveShutdown fns targetVf targetState ans m

def autoShutdown (m : Machine) : Turn :=
  if targetState = .enableAutoHwSwitch then autoEnter cfg fns targetVf targetState ans m
  else autoLeaveShutdown fns targetVf targetState ans m

def autoRunning (m : Machine) : Turn :=
  if targetState = .enableAutoHwSwitch ∧ ¬ cfg.gfx then
    doEnableAutoSched fns targetVf targetState ans m
  else
    recordTurn targetVf
      (if cfg.selfSwitchOff ∧ targetState = .enableAutoHwSwitch then .runGpu else targetState)
      .idleGpu .idleTimeout (gpuiovIdleVf m.curVfId ans.outcome m)

/-- Automatic switching is over; the function the hardware names is the current one. -/
def Machine.autoDisabled (vf : Nat) (m : Machine) : Machine :=
  { m with curVfId := vf, curGpuState := .disableAutoHwSched }

/-- A DISABLE that failed, or after which the engine did not come to rest. -/
def disableFailed (outcome : Outcome) (m : Machine) : Turn :=
  .exit
    { m with
      hw := if outcome = .late then .stopped ans.activeVfIdx ans.left else m.hw
      curVfId := ans.activeVfIdx }
    .failure

/-- `target_vf` once the function that automatic switching left is known. -/
def knownTarget (vf : Nat) : Nat := if targetVf = unknownVf then vf else targetVf

def autoDisable (m : Machine) : Turn :=
  if ans.outcome ≠ .done then
    disableFailed ans ans.outcome (m.setCmd .disableAutoHwSched unknownVf)
  else if ans.stop ≠ .done then
    disableFailed ans ans.stop (m.setCmd .disableAutoHwSched unknownVf)
  else
    .next
      ({ m.setCmd .disableAutoHwSched unknownVf with
        hw := .stopped ans.activeVfIdx ans.left }.autoDisabled ans.activeVfIdx)
      (knownTarget targetVf ans.activeVfIdx) targetState

def autoEnabledTurn (m : Machine) : Turn :=
  if ans.activeVfs then
    if cfg.selfSwitchOff ∧ targetState = .disableAutoHwSched then
      .next { m with curGpuState := .runGpu } targetVf .saveGpuState
    else autoDisable targetVf targetState ans m
  else
    .next ({ m with hw := m.hw.emptied }.autoDisabled pfIdx) (knownTarget targetVf pfIdx)
      targetState

def contextOf : VfContext := if cfg.gfx then .saved else ans.hwVfState

def Machine.contextsSet (needsIdle : Bool) (m : Machine) : Machine :=
  { m with
    curGpuState := if needsIdle then .idleGpu else .saveGpuState
    curVfState := fun i =>
      if i < maxVfSlot ∧ (fns.autoRun i ∨ (i = pfIdx ∧ cfg.usePf)) then
        if i = m.curVfId ∧ needsIdle then .idleGpu else .saveGpuState
      else m.curVfState i }

def autoDisabledTurn (m : Machine) : Turn :=
  match contextOf cfg ans with
  | .saved => .next (m.contextsSet cfg fns false) targetVf targetState
  | .clear => .next (m.contextsSet cfg fns true) targetVf targetState
  | .other =>
    if (gpuiovIdleVf m.curVfId ans.outcome m).2 then
      .next ((gpuiovIdleVf m.curVfId ans.outcome m).1.contextsSet cfg fns true) targetVf targetState
    else .exit (gpuiovIdleVf m.curVfId ans.outcome m).1 .idleTimeout

/-- One turn of the loop of `world_switch_goto_state_auto`. -/
def autoTurn (m : Machine) : Turn :=
  match m.curGpuState with
  | .idleGpu =>
    recordTurn targetVf targetState .saveGpuState .saveTimeout
      (gpuiovSaveVf m.curVfId ans.outcome m)
  | .saveGpuState => autoSave cfg fns targetVf targetState ans (m.takenOver fns targetVf)
  | .shutdownGpu => autoShutdown cfg fns targetVf targetState ans m
  | .loadGpuState | .initGpu =>
    recordTurn targetVf targetState .runGpu .runTimeout (gpuiovRunVf m.curVfId ans.outcome m)
  | .runGpu => autoRunning cfg fns targetVf targetState ans m
  | .enableAutoHwSwitch => autoEnabledTurn cfg targetVf targetState ans m
  | .disableAutoHwSched => autoDisabledTurn cfg fns targetVf targetState ans m
  | .other _ => .exit m .cmdError

end Auto

section Goto

variable (cfg : Config) (fns : Functions)

/-- The loop of `world_switch_goto_state_auto`; the first argument is `loop_okay`. -/
def autoLoop (answers : Nat → Answer) : Nat → Machine → Nat → GpuState → Machine × Ret
  | 0, m, targetVf, targetState =>
    if m.At targetVf targetState then (m, .ok) else (m, .infiniteLoop)
  | loopOkay + 1, m, targetVf, targetState =>
    if m.At targetVf targetState then (m, .ok)
    else
      match autoTurn cfg fns targetVf targetState (answers loopOkay) m with
      | .next m targetVf targetState => autoLoop answers loopOkay m targetVf targetState
      | .exit m ret => (m, ret)

def autoTarget (targetVf : Nat) (ans : Answer) (m : Machine) : Nat :=
  if targetVf = unknownVf ∧ m.curGpuState ≠ .enableAutoHwSwitch then ans.activeVfIdx else targetVf

/-- `world_switch_goto_state_auto`, with the scheduler's lock taken. -/
def gotoStateAuto (targetVf : Nat) (targetState : GpuState) (answers : Nat → Answer)
    (m : Machine) : Machine × Ret :=
  autoLoop cfg fns answers 20 m (autoTarget targetVf (answers 20) m) targetState

/-- `hw_state_machine[hw_sched_id].goto_state`, as `amdgv_hw_sched_init` sets it. Both functions
start with a try-lock. -/
def gotoState (targetVf : Nat) (targetState : GpuState) (answers : Nat → Answer) (locked : Bool)
    (m : Machine) : Machine × Ret :=
  if locked then (m, .reentrantError)
  else if cfg.auto then gotoStateAuto cfg fns targetVf targetState answers m
  else gotoStateManual cfg fns targetVf targetState (fun turn => (answers turn).outcome) m

/-- The head of `amdgv_hw_sched_state_run`: a graphics scheduler that runs is idled first. -/
def idleFirst (idle : Outcome) (m : Machine) : Machine × Bool :=
  if m.curGpuState = .runGpu ∧ cfg.gfx then
    if (gpuiovIdleVf m.curVfId idle m).2 then
      ({ (gpuiovIdleVf m.curVfId idle m).1 with curGpuState := .idleGpu }, true)
    else ((gpuiovIdleVf m.curVfId idle m).1, false)
  else (m, true)

def hwSchedStateRun (skipRun : Bool) (idxVf : Nat) (idle : Outcome) (answers : Nat → Answer)
    (locked : Bool) (m : Machine) : Machine × Ret :=
  if (idleFirst cfg idle m).2 then
    gotoState cfg fns idxVf (if skipRun then .loadGpuState else .runGpu) answers locked
      (idleFirst cfg idle m).1
  else ((idleFirst cfg idle m).1, .idleTimeout)

end Goto

/-- The schedulers of a mask, in the order of `for_each_id`. -/
def schedIds (mask : BitVec 32) : List Nat :=
  (List.range maxNumHwSched).filter fun hwSchedId => mask.getLsbD hwSchedId

structure Adapter where
  machine : Nat → Machine
  /-- `ws_lock` is held -/
  wsLock : Nat → Bool
  numCtrlBlocks : Nat

structure Round where
  /-- the command the scheduler was sent completes in time -/
  completes : Nat → Bool
  /-- `wait_for_first_cmd_complete` -/
  first : List Nat → Option Nat
  /-- the command has its effect after the deadline -/
  late : Nat → Bool
  first_mem : ∀ {waiting i}, first waiting = some i → i ∈ waiting ∧ completes i = true
  first_none : ∀ {waiting}, first waiting = none → ∀ i ∈ waiting, completes i = false

section Bulk

variable (cfg : Nat → Config) (fns : Functions) (targetVf : Nat) (targetState : GpuState)

def tryLocks : List Nat → (Nat → Bool) → (Nat → Bool) × Bool
  | [], wsLock => (wsLock, true)
  | i :: rest, wsLock =>
    if wsLock i then (wsLock, false) else tryLocks rest (update wsLock i true)

structure Plan where
  mask : List Nat
  bad : List Nat
  next : Nat → GpuState × Nat
  loopOkay : Nat
  /-- the budget of the whole request lasted -/
  inTime : Bool

def Plan.keep (i : Nat) (step : GpuState × Nat) (p : Plan) : Plan :=
  { p with mask := i :: p.mask, next := update p.next i step }

def Plan.drop (i : Nat) (p : Plan) : Plan := { p with bad := i :: p.bad }

def planRound (machine : Nat → Machine) : List Nat → Nat → Plan
  | [], loopOkay => ⟨[], [], fun _ => (.other 0, 0), loopOkay, true⟩
  | i :: rest, loopOkay =>
    if (machine i).At targetVf targetState then planRound machine rest loopOkay
    else
      match getNextState fns targetVf targetState (machine i), loopOkay with
      | none, 0 => ⟨[], [i], fun _ => (.other 0, 0), 0, false⟩
      | some _, 0 => ⟨[], [], fun _ => (.other 0, 0), 0, false⟩
      | none, left + 1 => (planRound machine rest left).drop i
      | some step, left + 1 => (planRound machine rest left).keep i step

def sendAll (next : Nat → GpuState × Nat) (mask : List Nat) (machine : Nat → Machine) :
    Nat → Machine :=
  fun i => if i ∈ mask then gpuiovNoWait (cfg i) (next i).1 (next i).2 (machine i) else machine i

def Machine.completed (step : GpuState × Nat) (m : Machine) : Machine :=
  ((m.exec step.1 step.2).moved step.1 step.2).setVfState step.1 step.2

/-- Step 3: the schedulers whose command completed are recorded one after the other; those that
still wait at the time out come back in the list. The first argument only bounds the loop. -/
def waitLoop (round : Round) (next : Nat → GpuState × Nat) :
    Nat → List Nat → (Nat → Machine) → (Nat → Machine) × List Nat
  | 0, waiting, machine => (machine, waiting)
  | left + 1, waiting, machine =>
    match round.first waiting with
    | some i =>
      waitLoop round next left (waiting.erase i)
        (update machine i ((machine i).completed (next i)))
    | none =>
      (fun i =>
        if i ∈ waiting ∧ round.late i then (machine i).exec (next i).1 (next i).2 else machine i,
        waiting)

def bulkRound (round : Round) (p : Plan) (machine : Nat → Machine) :
    (Nat → Machine) × List Nat :=
  waitLoop round p.next (p.mask.length + 1) p.mask (sendAll cfg p.next p.mask machine)

def bulkRet (bad : List Nat) (ret : Ret) : Ret := if bad = [] then ret else .failure

/-- The rounds of `world_switch_bulk_goto_state_manual`; every one costs the budget `loopOkay` at
least one, so a first argument above it is never used up. -/
def bulkLoop (rounds : Nat → Round) :
    Nat → Nat → List Nat → List Nat → (Nat → Machine) → (Nat → Machine) × Ret
  | 0, _, _, _, machine => (machine, .infiniteLoop)
  | turn + 1, loopOkay, mask, bad, machine =>
    let p := planRound fns targetVf targetState machine mask loopOkay
    if p.inTime then
      let waited := bulkRound cfg (rounds turn) p machine
      let mask := p.mask.filter (· ∉ waited.2)
      if mask = [] then (waited.1, bulkRet (bad ++ p.bad ++ waited.2) .ok)
      else bulkLoop rounds turn p.loopOkay mask (bad ++ p.bad ++ waited.2) waited.1
    else (machine, bulkRet (bad ++ p.bad) .infiniteLoop)

def bulkGotoStateManual (hwSchedMask : BitVec 32) (rounds : Nat → Round) (a : Adapter) :
    Adapter × Ret :=
  let locks := tryLocks (schedIds hwSchedMask) a.wsLock
  if locks.2 then
    let ran := bulkLoop cfg fns targetVf targetState rounds (20 * a.numCtrlBlocks + 1)
      (20 * a.numCtrlBlocks) (schedIds hwSchedMask) [] a.machine
    ({ a with
       machine := ran.1
       wsLock := fun i => if i ∈ schedIds hwSchedMask then false else locks.1 i }, ran.2)
  else ({ a with wsLock := locks.1 }, .reentrantError)

end Bulk

end MxGpu.Ws
