import MxGpu.PickerRuns
import MxGpu.RingTail

/- The active list of a manual world switch as the links that `core/amdgv_sched_switch.c` writes,
and which functions are in it. -/
namespace MxGpu.Switch

open RingList Function
open Transition (Run)

/-- `struct amdgv_sched_world_switch` with its links: those of `active_vf_list` are at `none`, and
those of the entry of a function at its index. The `activeVfList` of `ws` is not looked at. -/
structure ManualSwitch where
  ws : WorldSwitch
  links : Links (Option Nat)
  idxVf : Nat → Nat
  numVf : Nat
  maxNumVf : Nat

namespace ManualSwitch

variable (s : ManualSwitch)

/-- `AMDGV_IS_IDX_INVALID` -/
def IsInvalid (idx : Nat) : Prop := idx ≠ pfIdx ∧ s.numVf ≤ idx

instance (idx : Nat) : Decidable (s.IsInvalid idx) := inferInstanceAs (Decidable (_ ∧ _))

def invalidIdxVf : Nat := s.maxNumVf + 1

/-- `amdgv_list_move_tail` of an entry. -/
def moveTail (idxVf : Nat) : ManualSwitch :=
  let entry := some idxVf
  { s with links := (s.links.unlink (s.links.prev entry) (s.links.next entry)).addTail entry none }

/-- `AMDGV_INIT_LIST_HEAD` and `amdgv_list_add_tail` of an entry. -/
def addTail (idxVf : Nat) : ManualSwitch :=
  { s with
    links := (s.links.init (some idxVf)).addTail (some idxVf) none
    idxVf := update s.idxVf idxVf idxVf }

/-- The entries that a loop over the list meets, if it comes back to the head. -/
def walkEntries (links : Links (Option Nat)) : Nat → Option Nat → Option (List Nat)
  | 0, _ => none
  | _ + 1, none => some []
  | fuel + 1, some idxVf => (walkEntries links fuel (links.next (some idxVf))).map (idxVf :: ·)

def entries : Option (List Nat) := walkEntries s.links (pfIdx + 2) (s.links.next none)

/-- `amdgv_sched_manual_switch_init` -/
def init (fairnessMode : Bool) (c : SliceSource) (allowedVfAssignment : BitVec 32) :
    ManualSwitch :=
  let s := { s with
    ws := s.ws.init fairnessMode c s.numVf allowedVfAssignment
    links := s.links.init none
    idxVf := fun _ => s.invalidIdxVf }
  let s :=
    if fairnessMode then (allowedVfs s.numVf allowedVfAssignment).foldl addTail s else s
  { s with
    links := s.links.init (some pfIdx)
    idxVf := update s.idxVf pfIdx pfIdx }

def addVf (idxVf : Nat) (timeSlice : BitVec 32) (gfx : Bool) : ManualSwitch :=
  if timeSlice = 0 then s
  else
    let added := { s with ws := s.ws.addVf idxVf timeSlice gfx }
    if s.ws.fairnessMode ∧ idxVf ≠ pfIdx then added else added.addTail idxVf

/-- The entry goes out of the list in `amdgv_sched_manual_switch_remove_vf`. -/
def Unlinks (idxVf : Nat) : Prop :=
  ¬ s.IsInvalid (s.idxVf idxVf) ∧ (s.ws.fairnessMode = true → idxVf = pfIdx)

/-- `amdgv_sched_manual_switch_remove_vf`; a save that fails leaves the function unloaded too. -/
def removeVf (idxVf : Nat) (suspended : Bool) (now : Time) : ManualSwitch :=
  if s.IsInvalid (s.idxVf idxVf) then s
  else
    let ws :=
      if s.ws.currIdxVf = s.idxVf idxVf ∧ s.ws.loaded then
        { s.ws.stopRecordVfTime s.ws.currIdxVf now with loaded := false }
      else s.ws
    if s.ws.fairnessMode ∧ idxVf ≠ pfIdx then
      { s with ws := ws.setEntry idxVf { ws.arrayVf idxVf with dummyVf := true } }
    else
      let entry := some idxVf
      { s with
        ws := { ws with
          vfInited := if suspended then ws.vfInited else ws.vfInited &&& ~~~(1#32 <<< idxVf) }
        links := s.links.unlink (s.links.prev entry) (s.links.next entry)
        idxVf :=
          if s.idxVf idxVf ≠ pfIdx then update s.idxVf idxVf s.invalidIdxVf
          else s.idxVf }

def updateTimeSlice (idxVf : Nat) (timeSlice : BitVec 32) : ManualSwitch :=
  if s.IsInvalid (s.idxVf idxVf) then s
  else { s with
    ws := s.ws.setEntry idxVf { s.ws.arrayVf idxVf with timeSlice := timeSlice.setWidth 64 } }

/-- A physical function that is not active does not stay the first. -/
def turn (idxVf : Nat) : ManualSwitch :=
  if s.idxVf idxVf = pfIdx ∧ ¬s.ws.pfActive then s.moveTail idxVf else s

/-- `amdgv_schedule_vfs_default`; the loop back to `re_schedule` uses up fuel, and nothing is the
entry of an empty list. -/
def scheduleVfsDefault : Nat → ManualSwitch → Option (ManualSwitch × Nat × Time)
  | 0, _ => none
  | fuel + 1, s =>
    match s.links.next none with
    | none => none
    | some head =>
      let s := s.turn head
      match s.links.next none with
      | none => none
      | some entry =>
        let r := s.ws.calculateTimeSlice (s.idxVf entry)
        let s := { s with ws := r.2 }
        if r.1 = 0 then scheduleVfsDefault fuel (s.moveTail entry)
        else if s.ws.fairnessMode ∧ (s.ws.arrayVf entry).dummyVf then
          some (s.moveTail entry, pfIdx, r.1)
        else some (s, s.idxVf entry, r.1)

def scheduleVfsLiquid : Option (ManualSwitch × Nat × Time) :=
  match s.links.next none with
  | none => none
  | some head =>
    let s := s.turn head
    match s.entries with
    | none => none
    | some entries =>
      let r := { s.ws with activeVfList := entries }.liquidPick (entries.head?.getD head)
        (entries.getLast?.getD head)
      let e := { r.1 r.2 with skipCnt := 0 }
      some ({ s with ws := { s.ws with arrayVf := update r.1 r.2 e } }, s.idxVf r.2,
        e.timeSlice)

/-- `amdgv_sched_active_list_empty`; the loop ends at the first function that is no dummy. -/
def activeListEmpty : Option Bool :=
  (s.links.walk (fun entry => entry.any fun idxVf => !(s.ws.arrayVf idxVf).dummyVf) none
    (pfIdx + 2) (s.links.next none)).map Option.isNone

/-- The current function is moved to the end once it is saved, but for a physical function that
runs while others are idle. -/
def Moves : Prop :=
  ¬ s.IsInvalid (s.idxVf s.ws.currIdxVf) ∧
    (s.idxVf s.ws.currIdxVf ≠ pfIdx ∨ s.ws.usePf ∧ s.ws.pfActive)

instance : Decidable s.Moves := inferInstanceAs (Decidable (_ ∧ _))

def saveCurrent (saved : Bool) (now : Time) : ManualSwitch :=
  let out := { s with ws := { s.ws.stopRecordVfTime s.ws.currIdxVf now with loaded := false } }
  if saved ∧ out.Moves then out.moveTail s.ws.currIdxVf else out

/-- `amdgv_load_world_context` -/
def load (idxVf : Nat) (started liquid : Bool) (now : Time) : ManualSwitch :=
  let ws := s.ws.startRecordVfTime idxVf now
  { s with
    ws := { ws with
      currIdxVf := idxVf
      loaded := started
      vfTimeout := if liquid then ws.vfTimeout &&& ~~~(1#32 <<< idxVf) else ws.vfTimeout } }

/-- What `amdgv_sched_manual_switch_process` does before it picks; the clock of a dummy stops. -/
def switchOut (saved : Bool) (now : Time) : ManualSwitch :=
  if s.ws.loaded then s.saveCurrent saved now
  else
    match s.links.prev none with
    | none => s
    | some last =>
      if (s.ws.arrayVf last).dummyVf ∧ s.ws.fairnessMode then
        { s with ws := s.ws.stopRecordVfTime (s.idxVf last) now }
      else s

/-- `amdgv_sched_manual_switch_process`, once it is not left early. -/
def process (fuel : Nat) (liquid saved started : Bool) (now : Time) : Option ManualSwitch :=
  match s.activeListEmpty with
  | none => none
  | some true => if s.ws.loaded then some s else some (s.load pfIdx started liquid now)
  | some false =>
    let out := s.switchOut saved now
    if s.ws.loaded ∧ ¬saved then some out
    else
      (if liquid then out.scheduleVfsLiquid else scheduleVfsDefault fuel out).map fun r =>
        r.1.load r.2.1 started liquid now

/-- `amdgv_sched_manual_switch_stop`, once it is not left early. -/
def stop (saved : Bool) (now : Time) : ManualSwitch :=
  if s.ws.loaded then s.saveCurrent saved now else s

end ManualSwitch

inductive Action
  | addVf (idxVf : Nat) (timeSlice : BitVec 32) (gfx : Bool)
  | removeVf (idxVf : Nat) (suspended : Bool) (now : Time)
  | updateTimeSlice (idxVf : Nat) (timeSlice : BitVec 32)
  | process (fuel : Nat) (liquid saved started : Bool) (now : Time)
  | stop (saved : Bool) (now : Time)
  /-- an event loads a function on its own -/
  | load (idxVf : Nat) (started liquid : Bool) (now : Time)
  | setPfState (active : Bool)
  | clearTimeSlice (idxVf : Nat)
  /-- the hardware is asked which functions are busy, a function is initialized or times out -/
  | setStatus (vfBusyStatus vfTimeout vfInited : BitVec 32)

namespace ManualSwitch

variable (s : ManualSwitch)

def act : Action → Option ManualSwitch
  | .addVf idxVf timeSlice gfx =>
    if idxVf = pfIdx ∨ idxVf < s.numVf then some (s.addVf idxVf timeSlice gfx) else none
  | .removeVf idxVf suspended now =>
    if idxVf = pfIdx ∨ idxVf < s.numVf then some (s.removeVf idxVf suspended now) else none
  | .updateTimeSlice idxVf timeSlice =>
    if idxVf = pfIdx ∨ idxVf < s.numVf then some (s.updateTimeSlice idxVf timeSlice) else none
  | .process fuel liquid saved started now => s.process fuel liquid saved started now
  | .stop saved now => some (s.stop saved now)
  | .load idxVf started liquid now =>
    if idxVf = pfIdx ∨ idxVf < s.numVf then some (s.load idxVf started liquid now) else none
  | .setPfState active => some { s with ws := { s.ws with pfActive := active } }
  | .clearTimeSlice idxVf => some { s with ws := s.ws.clearTimeSlice idxVf }
  | .setStatus vfBusyStatus vfTimeout vfInited =>
    some { s with ws := { s.ws with
      vfBusyStatus := vfBusyStatus
      vfTimeout := vfTimeout
      vfInited := vfInited } }

end ManualSwitch

/-- A world switch with the functions that were added, with a slice, and not removed since. -/
structure History where
  s : ManualSwitch
  added : Nat → Bool

/-- `added` after an action. -/
def noteAction (added : Nat → Bool) : Action → Nat → Bool
  | .addVf idxVf timeSlice _ => if timeSlice = 0 then added else update added idxVf true
  | .removeVf idxVf _ _ => update added idxVf false
  | _ => added

def Acts (before : History) (action : Action) (after : History) : Prop :=
  before.s.act action = some after.s ∧ after.added = noteAction before.added action

def InitsManual (h : History) : Prop :=
  ∃ (old : ManualSwitch) (fairnessMode : Bool) (c : SliceSource)
    (allowedVfAssignment : BitVec 32), old.numVf ≤ old.maxNumVf ∧ old.maxNumVf ≤ pfIdx ∧
      h.s = old.init fairnessMode c allowedVfAssignment ∧ h.added = fun _ => false

/-- The entry holds the index of its function, and the physical function was added. -/
def Owns (h : History) (idxVf : Nat) : Prop :=
  h.s.idxVf idxVf = idxVf ∧ (idxVf = pfIdx → h.added pfIdx = true)

def Suits (h : History) : Action → Prop
  | .addVf idxVf timeSlice _ =>
    timeSlice ≠ 0 → (h.s.ws.fairnessMode = true → idxVf = pfIdx) → h.added idxVf = false
  | .removeVf idxVf _ _ => h.s.Unlinks idxVf → Owns h idxVf
  | .process _ _ saved _ _ => h.s.activeListEmpty = some false → saved = true →
    h.s.ws.loaded = true → h.s.Moves → Owns h h.s.ws.currIdxVf
  | .stop saved _ => saved = true → h.s.ws.loaded = true → h.s.Moves → Owns h h.s.ws.currIdxVf
  | _ => True

end MxGpu.Switch
