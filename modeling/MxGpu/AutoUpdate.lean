import Mathlib.Algebra.Group.Nat.Defs
import Mathlib.Logic.Function.Basic
import MxGpu.Transition

/- The commands that a VF has updated by themselves (`amdgv_ras_cmd.c`): guests put them on a list,
and the RAS events have those on it handled again. -/
namespace MxGpu.AutoUpdate

open Function

/-- What is used of `struct auto_update_cmd`; `entry` is its memory, which is never the same twice. -/
structure AutoUpdateCmd where
  entry : Nat
  disabled : Bool
  needUpdate : Bool
  exeErrCnt : BitVec 32
  cmdId : BitVec 32
  addr : BitVec 64
  len : BitVec 32
  deriving DecidableEq

/-- `struct vf_auto_cmd_mgr`, without its lock -/
structure VfAutoCmdMgr where
  cmdList : List AutoUpdateCmd
  listCount : BitVec 32
  needUpdateAll : Bool
  deriving DecidableEq

/-- What is used of `struct ras_cmd_auto_update_req`. -/
structure AutoUpdateReq where
  mode : BitVec 32
  cmdId : BitVec 32
  addr : BitVec 64
  len : BitVec 32

def amdgvMaxVfNum : Nat := 31

def allowedMaxFailureNum : BitVec 32 := 30

namespace VfAutoCmdMgr

def modify (mgr : VfAutoCmdMgr) (entry : Nat) (change : AutoUpdateCmd → AutoUpdateCmd) :
    VfAutoCmdMgr :=
  { mgr with cmdList := mgr.cmdList.map fun cmd => if cmd.entry = entry then change cmd else cmd }

def ids (mgr : VfAutoCmdMgr) : List (BitVec 32) := mgr.cmdList.map AutoUpdateCmd.cmdId

def entries (mgr : VfAutoCmdMgr) : List Nat := mgr.cmdList.map AutoUpdateCmd.entry

def following (mgr : VfAutoCmdMgr) (entry : Nat) : Option Nat :=
  (mgr.entries.dropWhile fun other => other ≠ entry).tail.head?

end VfAutoCmdMgr

/-- `amdgv_ras_add_vf_cmd_to_auto_list`, between the lock and the unlock. -/
def amdgvRasAddVfCmdToAutoList (mgr : VfAutoCmdMgr) (req : AutoUpdateReq) (memory : Option Nat) :
    VfAutoCmdMgr × Option Nat :=
  match mgr.cmdList.find? fun cmd => cmd.cmdId = req.cmdId with
  | some cmd =>
    if req.mode ≠ 0 then
      (mgr.modify cmd.entry fun cmd => { cmd with addr := req.addr, len := req.len },
        some cmd.entry)
    else
      ({ mgr with
          cmdList := mgr.cmdList.filter fun other => other.entry ≠ cmd.entry
          listCount := mgr.listCount - 1 }, none)
  | none =>
    match memory with
    | none => (mgr, none)
    | some entry =>
      ({ mgr with
          cmdList := mgr.cmdList ++ [⟨entry, false, false, 0, req.cmdId, req.addr, req.len⟩]
          listCount := mgr.listCount + 1 }, some entry)

def AutoUpdateCmd.updated (cmd : AutoUpdateCmd) (failed : Bool) : AutoUpdateCmd :=
  let exeErrCnt := if failed then cmd.exeErrCnt + 1 else 0
  if exeErrCnt = 0 then { cmd with exeErrCnt, needUpdate := false }
  else if exeErrCnt > allowedMaxFailureNum then { cmd with exeErrCnt, disabled := true }
  else { cmd with exeErrCnt, needUpdate := true }

inductive Control
  /-- It waits for an event. -/
  | idle
  /-- `amdgv_ras_handle_vf_cmd` is about to look at a command of the guest. -/
  | call
  /-- `amdgv_ras_set_cmd_auto_update` has got a command from the list. -/
  | started (entry : Nat)
  /-- `amdgv_ras_handle_vf_cmd` has returned. -/
  | back (failed : Bool)
  /-- `amdgv_ras_cmd_update_auto_list` is about to lock a list. -/
  | lock
  /-- It is at a command of the list, or behind the last one. -/
  | visit (entry : Option Nat)
  deriving DecidableEq

/-- Where `amdgv_ras_set_cmd_auto_update` is after the call for the list: only a command that is
enabled is handled. -/
def Control.added (mode : BitVec 32) (failed : Bool) : Option Nat → Control
  | some entry => if mode ≠ 0 then .started entry else .back failed
  | none => .back failed

/-- A thread that handles events: the VF it is at, the command of the list that its update has
handled, and those that `amdgv_ras_set_cmd_auto_update` has handled, the innermost first. -/
structure Thread where
  vf : Nat
  updating : Option Nat
  waiting : List Nat
  control : Control

/-- The lists of the VFs with their locks, the threads, and the memory that was not used so far.
`wanted` is what the guests asked for last, `usedFreed` tells that a command was used that was no
longer on its list, and `idleChanged` that a command was disabled that was not there, and the list
changed. -/
structure Sys where
  mgr : Nat → VfAutoCmdMgr
  lock : Nat → Option Nat
  thread : Nat → Thread
  fresh : Nat
  wanted : Nat → BitVec 32 → Bool
  usedFreed : Bool
  idleChanged : Bool

namespace Sys

variable (s : Sys)

def go (t : Nat) (th : Thread) : Sys := { s with thread := update s.thread t th }

def setMgr (vf : Nat) (mgr : VfAutoCmdMgr) : Sys := { s with mgr := update s.mgr vf mgr }

def setLock (vf : Nat) (owner : Option Nat) : Sys :=
  { s with lock := update s.lock vf owner }

def use (vf entry : Nat) : Sys :=
  { s with usedFreed := s.usedFreed || decide (entry ∉ (s.mgr vf).entries) }

/-- `amdgv_ras_set_cmd_auto_update`, until it handles the command that it is for; it waits for the
lock. -/
def setCmdAutoUpdate (t : Nat) (req : AutoUpdateReq) (allocated failed : Bool) : Option Sys :=
  let th := s.thread t
  let mgr := s.mgr th.vf
  if th.vf ≥ amdgvMaxVfNum ∨ s.lock th.vf ≠ none then none
  else
    let memory := if allocated then some s.fresh else none
    let (left, auto) := amdgvRasAddVfCmdToAutoList mgr req memory
    some {
      (s.setMgr th.vf left).go t { th with control := .added req.mode failed auto } with
      fresh := s.fresh + 1
      wanted := update s.wanted th.vf
        (update (s.wanted th.vf) req.cmdId (decide (req.mode ≠ 0)))
      idleChanged := s.idleChanged ||
        decide (req.mode = 0 ∧ req.cmdId ∉ mgr.ids ∧ left ≠ mgr) }

/-- `amdgv_ras_cmd_update_auto_list` at a command; `full` tells whether the VF has full access. -/
def visit (t entry : Nat) (full : Bool) : Sys :=
  let th := s.thread t
  let mgr := s.mgr th.vf
  let s := s.use th.vf entry
  let skip := { th with control := .visit (mgr.following entry) }
  match mgr.cmdList.find? fun cmd => cmd.entry = entry with
  | none => s.go t skip
  | some cmd =>
    if cmd.disabled then s.go t skip
    else if !mgr.needUpdateAll && !cmd.needUpdate then s.go t skip
    else if !full then
      (s.setMgr th.vf (mgr.modify entry fun cmd => { cmd with needUpdate := true })).go t skip
    else s.go t { th with updating := some entry, control := .call }

def resume (t : Nat) (failed outcome : Bool) : Sys :=
  let th := s.thread t
  let mgr := s.mgr th.vf
  match th.waiting, th.updating with
  | entry :: waiting, _ =>
    ((s.use th.vf entry).setMgr th.vf
      (mgr.modify entry fun cmd => { cmd with needUpdate := failed })).go t
        { th with waiting, control := .back outcome }
  | [], some entry =>
    ((s.use th.vf entry).setMgr th.vf (mgr.modify entry fun cmd => cmd.updated failed)).go t
      { th with updating := none, control := .visit (mgr.following entry) }
  | [], none => s.go t { th with control := .idle }

def advance (t : Nat) (outcome : Bool) : Option Sys :=
  let th := s.thread t
  match th.control with
  | .idle => none
  | .call => none
  | .started entry =>
    some ((s.use th.vf entry).go t { th with waiting := entry :: th.waiting, control := .call })
  | .back failed => some (s.resume t failed outcome)
  | .lock =>
    if th.vf ≥ amdgvMaxVfNum then some (s.go t { th with control := .idle })
    else if s.lock th.vf ≠ none then none
    else
      some ((s.setLock th.vf (some t)).go t
        { th with control := .visit (s.mgr th.vf).entries.head? })
  | .visit none =>
    some (((s.setMgr th.vf { s.mgr th.vf with needUpdateAll := false }).setLock th.vf none).go t
      { th with vf := th.vf + 1, control := .lock })
  | .visit (some entry) => some (s.visit t entry outcome)

end Sys

/-- What happens to a thread: a guest has a command for it, or the RAS events want an update, or a
guest goes; a command is not one for the list, or is, or the thread goes on. -/
inductive Action
  | event (vf : Nat)
  | update
  | clear (vf : Nat)
  | setAutoList (vf : Nat) (enable : Bool)
  | other (failed : Bool)
  | setAuto (req : AutoUpdateReq) (allocated failed : Bool)
  | advance (outcome : Bool)

def Sys.next (s : Sys) (label : Nat × Action) : Option Sys :=
  let (t, action) := label
  let th := s.thread t
  match action with
  | .event vf =>
    if th.control = .idle then some (s.go t { th with vf, control := .call }) else none
  | .update =>
    if th.control = .idle then some (s.go t { th with vf := 0, control := .lock }) else none
  -- `amdgv_ras_cmd_clear_vf_auto_list`
  | .clear vf =>
    if th.control = .idle ∧ vf < amdgvMaxVfNum ∧ s.lock vf = none then
      some { s.setMgr vf ⟨[], (s.mgr vf).listCount - BitVec.ofNat 32 (s.mgr vf).cmdList.length,
          false⟩ with
        wanted := update s.wanted vf fun _ => false }
    else none
  -- `amdgv_ras_cmd_set_auto_list`, for one VF
  | .setAutoList vf enable =>
    if s.lock vf = none then some (s.setMgr vf { s.mgr vf with needUpdateAll := enable }) else none
  | .other failed =>
    if th.control = .call then some (s.go t { th with control := .back failed }) else none
  | .setAuto req allocated failed =>
    if th.control = .call then s.setCmdAutoUpdate t req allocated failed else none
  | .advance outcome => s.advance t outcome

def Sys.initial : Sys where
  mgr _ := ⟨[], 0, false⟩
  lock _ := none
  thread _ := ⟨0, none, [], .idle⟩
  fresh := 0
  wanted _ _ := false
  usedFreed := false
  idleChanged := false

/-- The list of a VF is a set with a count, and what the guests want; what was removed is used no
more, and what is not there is not disabled. -/
structure Sys.Lawful (s : Sys) : Prop where
  once : ∀ vf, (s.mgr vf).ids.Nodup
  count : ∀ vf, (s.mgr vf).listCount.toNat = (s.mgr vf).cmdList.length
  wanted : ∀ vf id, id ∈ (s.mgr vf).ids ↔ s.wanted vf id
  live : s.usedFreed = false
  idle : s.idleChanged = false

def Thread.holds (th : Thread) : List Nat :=
  match th.control with
  | .started entry => entry :: th.waiting
  | _ => th.waiting

/-- What the requests have to find: a command that is disabled is on the list, and it is not being
updated for the guest; there is memory for a command that is not on it, and the count can hold it. -/
def Sys.Meets (s : Sys) (label : Nat × Action) : Prop :=
  match label with
  | (t, .setAuto req allocated _) =>
    let vf := (s.thread t).vf
    if req.cmdId ∈ (s.mgr vf).ids then
      req.mode = 0 → ∀ cmd ∈ (s.mgr vf).cmdList, cmd.cmdId = req.cmdId →
        ∀ other, (s.thread other).vf = vf → cmd.entry ∉ (s.thread other).holds
    else req.mode ≠ 0 ∧ allocated ∧ (s.mgr vf).cmdList.length + 1 < 2 ^ 32
  | (_, .clear vf) => ∀ other, (s.thread other).vf = vf → (s.thread other).holds = []
  | _ => True

end MxGpu.AutoUpdate
