import MxGpu.MaskUnion
import MxGpu.SchedProcess

/- Full access is exclusive: adapter-wide one index, and with per-partition full
access a mask that is the union of the disjoint masks of the functions that have it. -/
namespace MxGpu.Sched

open Relation MaskUnion

structure Exclusive (cfg : Config) (s : SchedState) : Prop where
  held : ¬cfg.enablePerPartitionFullAccess → s.inFullAccess → cfg.isIdxValid s.idxVfFullAccess
  free : ¬cfg.enablePerPartitionFullAccess → ¬s.inFullAccess →
    s.idxVfFullAccess = cfg.invalidIdxVf
  partitions : cfg.enablePerPartitionFullAccess →
    Tracks cfg.worldSwitchMask (fun v => (s.arrayVf v).inFullAccess = true) s.logicalSchedFaMask

structure SameAccess (s s' : SchedState) : Prop where
  inFullAccess : s'.inFullAccess = s.inFullAccess
  idxVf : s'.idxVfFullAccess = s.idxVfFullAccess
  mask : s'.logicalSchedFaMask = s.logicalSchedFaMask
  flags : ∀ v, (s'.arrayVf v).inFullAccess = (s.arrayVf v).inFullAccess

/-- A live update block as the previous driver exported it: from a driver with the
same mode, whose flags the block of each function restored, or from one without
per-partition full access. -/
inductive Exported (cfg : Config) (s : SchedState) (info : LiveInfoSched) : Prop
  | same (old : SchedState) (exclusive : Exclusive cfg old) (block : info = old.exportLiveData)
      (outside : cfg.enablePerPartitionFullAccess → ¬old.inFullAccess)
      (flags : ∀ v, (s.arrayVf v).inFullAccess = (old.arrayVf v).inFullAccess)
  | upgraded (old : SchedState) (block : info = old.exportLiveData)
      (noMask : old.logicalSchedFaMask = 0) (flags : ∀ v, ¬(s.arrayVf v).inFullAccess)
      (partitioned : cfg.enablePerPartitionFullAccess)

variable {cfg : Config}

theorem Exclusive.same {s s' : SchedState} (exclusive : Exclusive cfg s)
    (same : SameAccess s s') : Exclusive cfg s' where
  held whole inside := by
    rw [same.idxVf]
    exact exclusive.held whole (same.inFullAccess ▸ inside)
  free whole outside := by
    rw [same.idxVf]
    exact exclusive.free whole (same.inFullAccess ▸ outside)
  partitions partitioned := by
    rw [same.mask]
    exact (exclusive.partitions partitioned).congr fun v => by rw [same.flags v]

theorem SameAccess.refl (s : SchedState) : SameAccess s s := ⟨rfl, rfl, rfl, fun _ => rfl⟩

theorem setVf_sameAccess (s : SchedState) (idxVf : Nat) {f : VfInfo → VfInfo}
    (flag : ∀ vf, (f vf).inFullAccess = vf.inFullAccess) : SameAccess s (s.setVf idxVf f) := by
  refine ⟨rfl, rfl, rfl, fun v => ?_⟩
  by_cases same : v = idxVf
  · rw [same, SchedState.setVf_self, flag]
  · rw [SchedState.setVf_other _ _ _ same]

theorem setUsedTime_sameAccess (s : SchedState) (idxVf : Nat) (time : Time) :
    SameAccess s (s.setUsedTime cfg idxVf time) := by
  unfold SchedState.setUsedTime
  split
  · exact setVf_sameAccess s idxVf fun _ => rfl
  · exact ⟨rfl, rfl, rfl, fun _ => rfl⟩

theorem setStartTime_sameAccess (s : SchedState) (idxVf : Nat) (time : Time) :
    SameAccess s (s.setStartTime cfg idxVf time) := by
  unfold SchedState.setStartTime
  split
  · exact setVf_sameAccess s idxVf fun _ => rfl
  · exact ⟨rfl, rfl, rfl, fun _ => rfl⟩

theorem SameAccess.trans {s s' s'' : SchedState} (first : SameAccess s s')
    (second : SameAccess s' s'') : SameAccess s s'' where
  inFullAccess := second.inFullAccess.trans first.inFullAccess
  idxVf := second.idxVf.trans first.idxVf
  mask := second.mask.trans first.mask
  flags v := (second.flags v).trans (first.flags v)

theorem SameAccess.logged {s s' : SchedState} (same : SameAccess s s')
    (accessLog : List AccessEvent) : SameAccess s { s' with accessLog := accessLog } :=
  ⟨same.inFullAccess, same.idxVf, same.mask, same.flags⟩

theorem resumeFullAccess_sameAccess (s : SchedState) (now : Time) (idxVf : Nat) :
    SameAccess s (s.resumeFullAccess cfg now idxVf) := by
  refine SameAccess.logged ?_ _
  split
  · exact (setStartTime_sameAccess s idxVf _).trans (setUsedTime_sameAccess _ idxVf _)
  · exact .refl s

theorem suspendLive_sameAccess (s : SchedState) (now : Time) :
    SameAccess s (s.suspendLive cfg now) := by
  unfold SchedState.suspendLive
  split
  · refine ⟨rfl, rfl, rfl, fun v => ?_⟩
    dsimp only
    split <;> rfl
  · exact ⟨rfl, rfl, rfl, fun _ => rfl⟩

theorem resumeLive_sameAccess (s : SchedState) (now : Time) :
    SameAccess s (s.resumeLive cfg now) := by
  unfold SchedState.resumeLive
  split
  · refine ⟨rfl, rfl, rfl, fun v => ?_⟩
    dsimp only
    split <;> rfl
  · exact ⟨rfl, rfl, rfl, fun _ => rfl⟩

theorem Disturbance.exclusive {s s' : SchedState} (exclusive : Exclusive cfg s)
    (reset : Disturbance cfg s s') : Exclusive cfg s' := by
  cases reset with
  | retire arrayVf each =>
    refine exclusive.same ⟨rfl, rfl, rfl, fun v => ?_⟩
    dsimp only
    rcases each v with same | avail | unavail
    · rw [same]
    · rw [avail]
    · rw [unavail]
  | pfReinit pf =>
    unfold SchedState.initPfStateLate
    split
    · cases pf with
      | notReached => exact exclusive
      | saveFailed now => exact ⟨fun _ _ => .inl rfl, fun _ outside => absurd rfl outside,
          exclusive.partitions⟩
      | finished => exact ⟨fun _ inside => (nomatch inside), fun _ _ => rfl,
          exclusive.partitions⟩
    · exact exclusive

theorem grantFullAccess_exclusive {s : SchedState} (exclusive : Exclusive cfg s) (now : Time)
    {idxVf : Nat} (id : EventId) (valid : cfg.isIdxValid idxVf)
    (free : cfg.enablePerPartitionFullAccess →
      s.logicalSchedFaMask &&& cfg.worldSwitchMask idxVf = 0) :
    Exclusive cfg (s.grantFullAccess cfg now idxVf id) := by
  unfold SchedState.grantFullAccess
  by_cases partitioned : cfg.enablePerPartitionFullAccess
  · rw [if_pos partitioned]
    refine ⟨fun whole => absurd partitioned whole, fun whole => absurd partitioned whole,
      fun _ => ?_⟩
    refine ((exclusive.partitions partitioned).claim (free partitioned)).congr fun v => ?_
    by_cases same : v = idxVf
    · simp [same]
    · simp [same]
  · rw [if_neg partitioned]
    exact ⟨fun _ _ => valid, fun _ outside => absurd rfl outside,
      fun whole => absurd whole partitioned⟩

theorem clearFullAccess_exclusive {s : SchedState} (exclusive : Exclusive cfg s) {idxVf : Nat}
    (held : cfg.enablePerPartitionFullAccess → (s.arrayVf idxVf).inFullAccess) :
    Exclusive cfg (s.clearFullAccess cfg idxVf) := by
  unfold SchedState.clearFullAccess
  by_cases partitioned : cfg.enablePerPartitionFullAccess
  · rw [if_pos partitioned]
    refine ⟨fun whole => absurd partitioned whole, fun whole => absurd partitioned whole,
      fun _ => ?_⟩
    refine ((exclusive.partitions partitioned).release (held partitioned)).congr fun v => ?_
    by_cases same : v = idxVf
    · simp [same]
    · simp [same]
  · rw [if_neg partitioned]
    exact ⟨fun _ inside => (nomatch inside), fun _ _ => rfl,
      fun whole => absurd whole partitioned⟩

theorem importLiveData_exclusive {s : SchedState} (exclusive : Exclusive cfg s)
    {info : LiveInfoSched} (exported : Exported cfg s info) :
    Exclusive cfg (s.importLiveData cfg info) := by
  unfold SchedState.importLiveData
  split
  · exact exclusive.same ⟨rfl, rfl, rfl, fun _ => rfl⟩
  dsimp only
  cases exported with
  | same old wasExclusive block outside flags =>
    subst block
    split
    · rename_i both
      exact absurd both.2 (by simpa [SchedState.exportLiveData] using outside both.1)
    · refine ⟨wasExclusive.held, wasExclusive.free, fun partitioned => ?_⟩
      exact (wasExclusive.partitions partitioned).congr fun v => by
        dsimp only
        rw [flags v]
  | upgraded old block noMask flags partitioned =>
    subst block
    have noBlockMask : old.exportLiveData.logicalSchedFaMask = 0 := noMask
    have none : Tracks cfg.worldSwitchMask (fun v => (s.arrayVf v).inFullAccess = true) 0 :=
      Tracks.empty.congr fun v => by simpa using flags v
    rw [noBlockMask]
    split
    · refine ⟨fun whole => absurd partitioned whole, fun whole => absurd partitioned whole,
        fun _ => (none.claim BitVec.zero_and).congr fun v => ?_⟩
      by_cases same : v = old.exportLiveData.idxVfFullAccess
      · simp [same]
      · simp [same]
    · exact ⟨fun whole => absurd partitioned whole, fun whole => absurd partitioned whole,
        fun _ => none⟩

theorem restoreLive_exclusive {s : SchedState} (exclusive : Exclusive cfg s) (now : Time)
    {live : Option LiveInfoSched} (exported : ∀ info, live = some info → Exported cfg s info) :
    Exclusive cfg (s.restoreLive cfg now live) := by
  have imported : ∀ imported, Exclusive cfg imported → Exclusive cfg
      (if imported.inFullAccess then { imported with startTimeFullAccess := now } else imported) := by
    intro imported exclusive
    split
    · exact exclusive.same ⟨rfl, rfl, rfl, fun _ => rfl⟩
    · exact exclusive
  unfold SchedState.restoreLive
  cases live with
  | none => exact imported s exclusive
  | some info => exact imported _ (importLiveData_exclusive exclusive (exported info rfl))

theorem Change.exclusive {env : Env} {event : Event} {s₀ s s' : SchedState}
    (valid : cfg.isIdxValid event.idxVf)
    (exported : event.id = .schedResumeLive → ∀ info, env.liveInfo = some info → Exported cfg s₀ info)
    (exclusive : Exclusive cfg s) (change : Change cfg env event s₀ s s') :
    Exclusive cfg s' := by
  cases change with
  | disturb reset => exact reset.exclusive exclusive
  | suspend idxVf _ => exact exclusive.same (setVf_sameAccess s idxVf fun _ => rfl)
  | importSuspend _ _ _ => exact exclusive.same (setVf_sameAccess s event.idxVf fun _ => rfl)
  | activate _ _ => exact exclusive.same (setVf_sameAccess s event.idxVf fun _ => rfl)
  | condAvail _ _ => exact exclusive.same (setVf_sameAccess s event.idxVf fun _ => rfl)
  | force _ _ => exact exclusive.same (setVf_sameAccess s event.idxVf fun _ => rfl)
  | dirty idxVf fbDirty => exact exclusive.same (setVf_sameAccess s idxVf fun _ => rfl)
  | grant now steady free _ _ _ =>
    refine grantFullAccess_exclusive exclusive now event.id valid fun partitioned => ?_
    rw [steady.mask]
    simpa [SchedState.isAnyShareEngineVfInFullAccess, partitioned] using free
  | clear idxVf held _ => exact clearFullAccess_exclusive exclusive held
  | suspendLive _ _ => exact exclusive.same (suspendLive_sameAccess _ env.now)
  | resumeLive _ _ => exact exclusive.same (resumeLive_sameAccess _ env.now)
  | pause _ _ _ _ =>
    exact exclusive.same ((setUsedTime_sameAccess _ event.idxVf _).logged _)
  | resume _ _ _ => exact exclusive.same (resumeFullAccess_sameAccess _ env.now event.idxVf)
  | stop _ _ _ =>
    exact exclusive.same ((setUsedTime_sameAccess _ event.idxVf _).logged _)
  | restore asked _ _ => exact restoreLive_exclusive exclusive env.now (exported asked)
  | locks _ _ _ _ => exact exclusive.same ⟨rfl, rfl, rfl, fun _ => rfl⟩

theorem not_holds_of_free {s : SchedState} (exclusive : Exclusive cfg s) {idxVf : Nat}
    (mapped : cfg.enablePerPartitionFullAccess → cfg.worldSwitchMask idxVf ≠ 0)
    (free : ¬s.isAnyShareEngineVfInFullAccess cfg idxVf) : ¬s.Holds cfg idxVf := by
  intro holds
  by_cases partitioned : cfg.enablePerPartitionFullAccess
  · have apart : s.logicalSchedFaMask &&& cfg.worldSwitchMask idxVf = 0 := by
      simpa [SchedState.isAnyShareEngineVfInFullAccess, partitioned] using free
    refine mapped partitioned (BitVec.eq_of_getLsbD_eq fun bit _ => ?_)
    cases set : (cfg.worldSwitchMask idxVf).getLsbD bit with
    | false => simp
    | true =>
      have within := (exclusive.partitions partitioned).within
        ((SchedState.holds_partition partitioned).mp holds) set
      have clear := not_both_of_and_eq_zero apart within
      rw [set] at clear
      cases clear
  · exact free (by simpa [SchedState.isAnyShareEngineVfInFullAccess, partitioned] using
      ((SchedState.holds_whole partitioned).mp holds).1)

namespace EventThread

variable {t : EventThread}

/-- What the callers promise: every event names a function slot, and a live update
takes in what a driver exported. -/
def Admits (cfg : Config) (t : EventThread) : Label → Prop
  | .process turn => ∀ event, t.inHand = some event → cfg.isIdxValid event.idxVf ∧
      (event.id = .schedResumeLive → ∀ info, turn.handler.liveInfo = some info →
        Exported cfg t.adapter.sched info)
  | .push _ | .pick | .checkTimeouts _ => True

theorem boot_exclusive (states : Nat → VfState) (now : Time) :
    Exclusive cfg (boot cfg states now).adapter.sched where
  held _ inside := by
    have usePf : cfg.usePf = true := inside
    exact .inl (by simp [boot, bootSched, usePf])
  free _ outside := by
    have noPf : cfg.usePf = false := by simpa [boot, bootSched] using outside
    simp [boot, bootSched, noPf]
  partitions _ := Tracks.empty.congr fun v => by simp [boot, bootSched]

theorem changes_exclusive {env : Env} {event : Event} {s₀ s : SchedState}
    (valid : cfg.isIdxValid event.idxVf)
    (exported : event.id = .schedResumeLive → ∀ info, env.liveInfo = some info → Exported cfg s₀ info)
    (exclusive : Exclusive cfg s₀) (changes : ReflTransGen (Change cfg env event s₀) s₀ s) :
    Exclusive cfg s := by
  induction changes with
  | refl => exact exclusive
  | tail _ change ih => exact change.exclusive valid exported ih

theorem step_exclusive {label : Label} {t' : EventThread}
    (exclusive : Exclusive cfg t.adapter.sched) (admits : t.Admits cfg label)
    (step : Step cfg t label t') : Exclusive cfg t'.adapter.sched := by
  cases step with
  | push request _ =>
    rw [push_sched]
    exact exclusive
  | pick _ => exact exclusive
  | @process turn event held =>
    obtain ⟨valid, exported⟩ := admits event held
    exact changes_exclusive valid exported exclusive (settled_changes t.adapter turn event)
  | checkTimeouts check _ =>
    exact changes_exclusive (.inl rfl) (by intro asked; cases asked) exclusive
      (checked_changes t.adapter check)

theorem run_exclusive (run : Transition.Run (Boots cfg) (Step cfg) (Admits cfg) t) :
    Exclusive cfg t.adapter.sched := by
  refine run.invariant (fun t => Exclusive cfg t.adapter.sched) ?_
    fun _ _ _ exclusive admits step => step_exclusive exclusive admits step
  rintro _ ⟨states, now, rfl⟩
  exact boot_exclusive states now

end EventThread

end MxGpu.Sched
