import Mathlib.Algebra.Group.Nat.Defs
import Mathlib.Logic.Function.Basic

namespace MxGpu.Guard

/-- Readings of `oss_get_time_stamp` and intervals are `uint64_t` microseconds. -/
abbrev Time := BitVec 64

def pfIdx : Nat := 31

/-- The values of `enum amdgv_guard_type` below `AMDGV_GUARD_EVENT_MAX`. -/
inductive EventId
  | flr | exclusiveMod | exclusiveTimeout | allInt | rasErrCount | rasCperDump | rasBadPages
  | wgr | rasChkCriti | rasRemoteCmd
  deriving DecidableEq, Repr

def EventId.all : List EventId :=
  [.flr, .exclusiveMod, .exclusiveTimeout, .allInt, .rasErrCount, .rasCperDump, .rasBadPages,
    .wgr, .rasChkCriti, .rasRemoteCmd]

def guardAll : Nat := 11

/-- `AMDGV_GUARD_EVENT_NORMAL`, `FULL` and `OVERFLOW`: the state word of an event, which
`amdgv_guard_set_vf_info` may set to any other value. -/
def eventNormal : BitVec 32 := 0
def eventFull : BitVec 32 := 1
def eventOverflow : BitVec 32 := 2

/-- `AMDGV_GUARD_DISABLED` and `AMDGV_GUARD_ENABLED`. -/
def guardDisabled : BitVec 32 := 0
def guardEnabled : BitVec 32 := 1

def amdgvFailure : Int := -1

def amdgvEventOverflow : Int := -100

/-- `struct amdgv_monitor_event`. `threshold` never passes `amdgv_guard_get_max_threshold`, so the
sums of indices below are sums of small numbers. -/
structure MonitorEvent where
  state : BitVec 32
  amount : BitVec 32
  interval : Time
  threshold : Nat
  active : Nat
  originIdx : Nat
  recordArray : Nat → Time

structure VfGuard where
  state : BitVec 32
  ovEvent : BitVec 32
  event : EventId → MonitorEvent

/-- `adapt->num_vf`, the guard of every `array_vf` entry (`none` is `NULL`), and how often the
clock has been read. -/
structure Adapt where
  numVf : Nat
  guard : Nat → Option VfGuard
  ticks : Nat

def Adapt.idxInvalid (s : Adapt) (idxVf : Nat) : Bool := idxVf ≠ pfIdx && s.numVf ≤ idxVf

def Adapt.setGuard (s : Adapt) (idxVf : Nat) (g : VfGuard) : Adapt :=
  { s with guard := Function.update s.guard idxVf (some g) }

def VfGuard.setEvent (g : VfGuard) (id : EventId) (e : MonitorEvent) : VfGuard :=
  { g with event := Function.update g.event id e }

section calls

-- What the `k`-th reading of `oss_get_time_stamp` returns.
variable (clock : Nat → Time)

/-- The inner loop of `amdgv_guard_delete_expired_event`; it runs at most `active` times. `k`
counts the readings of the clock. -/
def expireLoop : Nat → MonitorEvent → Nat → MonitorEvent × Nat
  | 0, e, k => (e, k)
  | fuel + 1, e, k =>
    if 0 < e.active then
      let delta := clock k - e.recordArray e.originIdx
      if delta < e.interval then (e, k + 1)
      else
        expireLoop fuel { e with
          active := e.active - 1
          state := eventNormal
          originIdx := (e.originIdx + 1) % e.threshold } (k + 1)
    else (e, k)

/-- One turn of the outer loop of `amdgv_guard_delete_expired_event`. -/
def expireEvent (gk : VfGuard × Nat) (id : EventId) : VfGuard × Nat :=
  let r := expireLoop clock (gk.1.event id).active (gk.1.event id) gk.2
  (gk.1.setEvent id r.1, r.2)

def deleteExpiredEvent (g : VfGuard) (k : Nat) : VfGuard × Nat :=
  EventId.all.foldl (expireEvent clock) (g, k)

def decActiveEvent (s : Adapt) (idxVf : Nat) (id : EventId) : Int × Adapt :=
  if s.idxInvalid idxVf then (amdgvFailure, s)
  else
    match s.guard idxVf with
    | none => (amdgvFailure, s)
    | some g =>
      if g.state = guardDisabled then (0, s)
      else
        let e := g.event id
        if e.state = eventNormal ∧ 0 < e.active then
          (0, s.setGuard idxVf (g.setEvent id { e with active := e.active - 1 }))
        else (0, s)

/-- `amdgv_guard_add_active_event` from the test of the threshold on, for the guard that the
expiry has left and the next reading of the clock. -/
def addToEvent (g : VfGuard) (k : Nat) (id : EventId) : Int × VfGuard × Nat :=
  let e := g.event id
  if e.threshold ≤ e.active then
    (amdgvEventOverflow,
      { g with ovEvent := g.ovEvent + 1 }.setEvent id { e with state := eventOverflow }, k)
  else
    let idx := (e.originIdx + e.active) % e.threshold
    (0, g.setEvent id { e with
      recordArray := Function.update e.recordArray idx (clock k)
      active := e.active + 1
      amount := e.amount + 1
      state := if e.active + 1 = e.threshold then eventFull else e.state }, k + 1)

def addActiveEvent (s : Adapt) (idxVf : Nat) (id : EventId) : Int × Adapt :=
  if s.idxInvalid idxVf then (amdgvFailure, s)
  else
    match s.guard idxVf with
    | none => (amdgvFailure, s)
    | some g =>
      if g.state = guardDisabled then (amdgvFailure, s)
      else
        let (g, k) := deleteExpiredEvent clock g s.ticks
        let (ret, g, k) := addToEvent clock g k id
        (ret, { s.setGuard idxVf g with ticks := k })

/-- `info->parm` as `amdgv_guard_get_vf_info` fills it; `unset` leaves it as it was. -/
inductive Parm
  | general (state ovEvent : BitVec 32)
  | event (state : BitVec 32) (interval : Time) (threshold active : Nat) (amount : BitVec 32)
  | unset
  deriving DecidableEq, Repr

/-- `amdgv_guard_get_vf_info` for `info->type = type`; `none` is the use of a `NULL` guard. -/
def getVfInfo (s : Adapt) (idxVf type : Nat) : Option (Int × Parm × Adapt) :=
  if guardAll < type || s.idxInvalid idxVf then some (amdgvFailure, .unset, s)
  else if idxVf = pfIdx then
    some (0, if type = guardAll then .general 0 0 else .event 0 0 0 0 0, s)
  else
    match s.guard idxVf with
    | none => none
    | some g =>
      let (g, k) := deleteExpiredEvent clock g s.ticks
      let s := { s.setGuard idxVf g with ticks := k }
      if type = guardAll then some (0, .general g.state g.ovEvent, s)
      else
        match EventId.all[type]? with
        | none => some (0, .unset, s)
        | some id =>
          let e := g.event id
          some (0, .event e.state e.interval e.threshold e.active e.amount, s)

inductive Op
  | add (idxVf : Nat) (id : EventId)
  | dec (idxVf : Nat) (id : EventId)
  | isFull (idxVf : Nat) (id : EventId)
  | getInfo (idxVf type : Nat)
  deriving DecidableEq, Repr

def step (s : Adapt) : Op → Option Adapt
  | .add idxVf id => some (addActiveEvent clock s idxVf id).2
  | .dec idxVf id => some (decActiveEvent s idxVf id).2
  | .isFull _ _ => some s
  | .getInfo idxVf type => (getVfInfo clock s idxVf type).map fun r => r.2.2

end calls

def getMaxThreshold : EventId → Nat
  | .flr => 5
  | .wgr => 5
  | .exclusiveMod => 10
  | .exclusiveTimeout => 3
  | .allInt => 57
  | .rasErrCount => 15
  | .rasCperDump => 15
  | .rasBadPages => 15
  | .rasChkCriti => 15
  | .rasRemoteCmd => 30

def defaultThreshold : EventId → Nat
  | .flr => 3
  | .wgr => 3
  | .exclusiveMod => 9
  | .exclusiveTimeout => 2
  | .allInt => 56
  | .rasErrCount => 15
  | .rasCperDump => 15
  | .rasBadPages => 15
  | .rasChkCriti => 15
  | .rasRemoteCmd => 30 - 1

def defaultInterval : EventId → Time
  | .exclusiveTimeout => 500 * 1000 * 1000
  | _ => 60 * 1000 * 1000

/-- `amdgv_guard_vf_init`: `alloc` tells whether the memory and the locks are there, `sensitive`
is `AMDGV_FLAG_SENSITIVE_EVENT_GUARD`. -/
def vfInit (s : Adapt) (idxVf : Nat) (alloc sensitive : Bool) : Int × Adapt :=
  if alloc then
    (0, s.setGuard idxVf
      { state := if sensitive then guardEnabled else guardDisabled
        ovEvent := 0
        event := fun id =>
          { state := eventNormal
            amount := 0
            interval := defaultInterval id
            threshold := defaultThreshold id
            active := 0
            originIdx := 0
            recordArray := fun _ => 0 } })
  else (amdgvFailure, { s with guard := Function.update s.guard idxVf none })

def vfReset (s : Adapt) (idxVf : Nat) : Int × Adapt :=
  match s.guard idxVf with
  | none => (amdgvFailure, s)
  | some g =>
    (0, s.setGuard idxVf { g with
      ovEvent := 0
      event := fun id => { g.event id with
        amount := 0
        active := 0
        originIdx := 0
        recordArray := fun i =>
          if i < (g.event id).threshold then 0 else (g.event id).recordArray i
        state := eventNormal } })

/-- `amdgv_guard_set_vf_info` for `info->type = type`; `none` is the use of a `NULL` guard. -/
def setVfInfo (s : Adapt) (idxVf type : Nat) (generalState : BitVec 32)
    (state : BitVec 32) (interval : Time) (threshold : Nat) : Option (Int × Adapt) :=
  if guardAll < type || s.idxInvalid idxVf then some (amdgvFailure, s)
  else
    match s.guard idxVf with
    | none => none
    | some g =>
      if type = guardAll then some (0, s.setGuard idxVf { g with state := generalState })
      else
        match EventId.all[type]? with
        | none => some (0, s)
        | some id =>
          if getMaxThreshold id < threshold then some (amdgvFailure, s)
          else
            some (0, s.setGuard idxVf (g.setEvent id { g.event id with
              state := state
              interval := interval
              threshold := threshold }))

end MxGpu.Guard
