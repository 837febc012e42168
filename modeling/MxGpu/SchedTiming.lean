import MxGpu.SchedExclusive
import MxGpu.Stopwatch
import Mathlib.Data.BitVec

/- Accounting of full access time: the start and used registers against a
stopwatch that runs from the grant and pauses for the guest and for a live update. -/
namespace MxGpu.Sched

open Relation Stopwatch SchedState

/-- Why a full access is paused: its guest is suspended, or the driver is updated. -/
inductive PauseReason
  | vm | live
  deriving DecidableEq, Repr

def meterStep (idxVf : Nat) (watch : Option (Watch Time PauseReason)) :
    AccessEvent → Option (Watch Time PauseReason)
  | .granted v now => if v = idxVf then some (Watch.start now) else watch
  | .ended v => if v = idxVf then none else watch
  | .vmPaused v now => if v = idxVf then watch.map (·.pause .vm now) else watch
  | .vmResumed v now => if v = idxVf then watch.map (·.resume .vm now) else watch
  | .liveSuspended now => watch.map (·.pause .live now)
  | .liveResumed now => watch.map (·.resume .live now)
  | .replaced => none

namespace SchedState

variable (s : SchedState) (idxVf : Nat)

/-- The stopwatch of the current full access of a function, none when nothing
measured it. -/
def meter : Option (Watch Time PauseReason) := s.accessLog.foldl (meterStep idxVf) none

end SchedState

/-- What `amdgv_sched_full_access_left_time` has to answer after `used` has passed. -/
def leftAfter (cfg : Config) (used : Time) : FullAccessStatus :=
  let leftTime := cfg.allowTimeFullAccess.zeroExtend 64 - used
  if leftTime.slt 0 then .timedOut else .onGoing leftTime

/-- The registers of a function represent its stopwatch: it runs, or is paused by
the one mechanism that is in force. -/
def Represented (cfg : Config) (s : SchedState) (idxVf : Nat)
    (watch : Watch Time PauseReason) : Prop :=
  Running watch (s.startTime cfg idxVf) (s.usedTime cfg idxVf) ∨
    (¬s.skipFullAccessTimeoutCheck ∧ PausedBy watch .vm (s.usedTime cfg idxVf)) ∨
    (s.skipFullAccessTimeoutCheck ∧ PausedBy watch .live (s.usedTime cfg idxVf))

/-- Every function in full access is represented, and measured unless its registers
were set by a reset or an import. -/
structure Metered (cfg : Config) (s : SchedState) : Prop where
  represented : ∀ v watch, s.Holds cfg v → s.meter v = some watch → Represented cfg s v watch
  known : ∀ v, s.Holds cfg v → s.meter v = none → .replaced ∈ s.accessLog

/-- The registers are right, and nothing is left over from a full access that ended. -/
structure Clocked (cfg : Config) (s : SchedState) : Prop where
  metered : Metered cfg s
  idle : ∀ v, ¬s.isVfInFullAccess cfg v → s.usedTime cfg v = 0

/-- A reset that does not set up the PF anew. -/
def GpuReset.keepsPf : GpuReset → Bool
  | .dropped _ | .failed .notReached | .done .notReached => true
  | .failed _ | .done _ => false

def AutoReset.keepsPf : AutoReset → Bool
  | .flrThenGpu _ reset | .gpu reset => reset.keepsPf
  | .nothing _ | .flr .. | .flrFailed _ => true

/-- What must hold before an action under full access for the registers to stay right. -/
def TimelyAction (cfg : Config) (env : Env) (event : Event) (s : SchedState) :
    FullAccessAction → Prop
  -- a full access ends while its clock runs
  | .exitFullAccess | .exitTimeout => s.usedTime cfg event.idxVf = 0
  | .removeVf => s.isFullAccessVf cfg event.idxVf → s.usedTime cfg event.idxVf = 0
  -- the guest is suspended once, outside a live update, and some time has passed
  | .pauseFullAccess => s.usedTime cfg event.idxVf = 0 ∧
      env.now ≠ s.startTime cfg event.idxVf ∧ ¬s.skipFullAccessTimeoutCheck
  -- it is not resumed while a live update has the clock stopped
  | .resumeFullAccess => s.skipFullAccessTimeoutCheck → s.usedTime cfg event.idxVf = 0
  -- it is not stopped while its clock is
  | .stopFullAccess => s.usedTime cfg event.idxVf = 0
  -- a live update finds every clock running and each function in its loop, and the
  -- reset it makes leaves full access where it is
  | .suspendLive => (∀ v, s.Holds cfg v → s.usedTime cfg v = 0 ∧ env.now ≠ s.startTime cfg v ∧
        (cfg.enablePerPartitionFullAccess → v < cfg.numVf)) ∧
      (cfg.gpuvLiveUpdate → cfg.usePf → ¬cfg.enablePerPartitionFullAccess →
        ∀ reset, env.first = some reset → reset.keepsPf)
  -- it ends with every clock stopped by it
  | .resumeLive => ∀ v, s.Holds cfg v → s.skipFullAccessTimeoutCheck ∧ s.usedTime cfg v ≠ 0 ∧
      (cfg.enablePerPartitionFullAccess → v < cfg.numVf)
  | .ignore | .pushBack | .release | .suspendVf | .resumeVf | .crash => True

/-- The same before an event is handled: one outside full access is asked for by no
paused function whose world switches lost it, and a live update brings a used time
for a full access only. -/
def Timely (cfg : Config) (env : Env) (event : Event) (s : SchedState) : Prop :=
  if s.isAnyShareEngineVfInFullAccess cfg event.idxVf then
    TimelyAction cfg env event s (fullAccessAction cfg env s event)
  else
    ((event.id = .reqGpuInit ∨ event.id = .reqGpuFini ∨ event.id = .reqGpuReset) →
      s.Holds cfg event.idxVf → s.usedTime cfg event.idxVf = 0) ∧
    (event.id = .schedResumeLive → ¬cfg.enablePerPartitionFullAccess →
      ∀ info, env.liveInfo = some info → ¬info.inFullAccess → info.usedTimeFullAccess = 0)

variable {cfg : Config} {s s' : SchedState}

structure SameClock (cfg : Config) (s s' : SchedState) : Prop where
  inside : ∀ v, s'.isVfInFullAccess cfg v = s.isVfInFullAccess cfg v
  holds : ∀ v, s'.Holds cfg v → s.Holds cfg v
  start : ∀ v, s'.startTime cfg v = s.startTime cfg v
  used : ∀ v, s'.usedTime cfg v = s.usedTime cfg v
  log : s'.accessLog = s.accessLog
  skip : s'.skipFullAccessTimeoutCheck = s.skipFullAccessTimeoutCheck

theorem Metered.same (metered : Metered cfg s) (same : SameClock cfg s s') : Metered cfg s' where
  represented v watch holds measured := by
    unfold meter at measured
    rw [same.log] at measured
    unfold Represented
    rw [same.start, same.used, same.skip]
    exact metered.represented v watch (same.holds v holds) measured
  known v holds unmeasured := by
    unfold meter at unmeasured
    rw [same.log] at unmeasured ⊢
    exact metered.known v (same.holds v holds) unmeasured

/-- Only the used times of functions in full access may change. -/
theorem Clocked.unused (clocked : Clocked cfg s)
    (inside : ∀ v, s'.isVfInFullAccess cfg v = s.isVfInFullAccess cfg v)
    (used : ∀ v, ¬s.isVfInFullAccess cfg v → s'.usedTime cfg v = s.usedTime cfg v) (v : Nat)
    (outside : ¬s'.isVfInFullAccess cfg v) : s'.usedTime cfg v = 0 := by
  rw [inside] at outside
  rw [used v outside]
  exact clocked.idle v outside

theorem Clocked.same (clocked : Clocked cfg s) (same : SameClock cfg s s') : Clocked cfg s' :=
  ⟨clocked.metered.same same, clocked.unused same.inside fun v _ => same.used v⟩

theorem holds_of_sameAccess (same : SameAccess s s') {v : Nat} (holds : s'.Holds cfg v) :
    s.Holds cfg v := by
  simpa only [Holds, isVfInFullAccess, isFullAccessVf, same.flags,
    same.inFullAccess, same.idxVf] using holds

theorem isVfInFullAccess_of_sameAccess (same : SameAccess s s') (v : Nat) :
    s'.isVfInFullAccess cfg v = s.isVfInFullAccess cfg v := by
  unfold isVfInFullAccess
  rw [same.flags, same.inFullAccess]

theorem usedTime_whole (whole : ¬cfg.enablePerPartitionFullAccess) (v : Nat) :
    s.usedTime cfg v = s.usedTimeFullAccess := by
  unfold usedTime
  rw [if_neg whole]

theorem Represented.running_of_used {v : Nat} {watch : Watch Time PauseReason}
    (represented : Represented cfg s v watch) (unused : s.usedTime cfg v = 0) :
    Running watch (s.startTime cfg v) (s.usedTime cfg v) := by
  rcases represented with running | ⟨_, paused⟩ | ⟨_, paused⟩
  · exact running
  · exact absurd unused paused.nonzero
  · exact absurd unused paused.nonzero

theorem leftTime_of_running {v : Nat} {watch : Watch Time PauseReason}
    (running : Running watch (s.startTime cfg v) (s.usedTime cfg v)) (holds : s.Holds cfg v)
    (now : Time) :
    s.fullAccessLeftTime cfg false now v = leftAfter cfg (watch.reading now) := by
  unfold fullAccessLeftTime leftAfter
  rw [running.measures now, holds.1]
  simp [running.unused]

theorem leftAfter_timedOut {used : Time} (beyond : cfg.allowTimeFullAccess.toNat < used.toNat)
    (representable : used.toNat ≤ 2 ^ 63) : leftAfter cfg used = .timedOut := by
  have negative : (cfg.allowTimeFullAccess.zeroExtend 64 - used).slt 0 = true := by
    refine BitVec.slt_zero_iff_msb_cond.mpr ?_
    rw [BitVec.msb_eq_decide, BitVec.toNat_sub, BitVec.toNat_setWidth]
    simp only [decide_eq_true_eq]
    omega
  unfold leftAfter
  dsimp only
  rw [if_pos negative]

theorem sameClock_of_vfs (same : ∀ v, (s'.arrayVf v).inFullAccess = (s.arrayVf v).inFullAccess ∧
      (s'.arrayVf v).startTimeFullAccess = (s.arrayVf v).startTimeFullAccess ∧
      (s'.arrayVf v).usedTimeFullAccess = (s.arrayVf v).usedTimeFullAccess)
    (access : s'.inFullAccess = s.inFullAccess ∧ s'.idxVfFullAccess = s.idxVfFullAccess)
    (clock : s'.startTimeFullAccess = s.startTimeFullAccess ∧
      s'.usedTimeFullAccess = s.usedTimeFullAccess)
    (log : s'.accessLog = s.accessLog)
    (skip : s'.skipFullAccessTimeoutCheck = s.skipFullAccessTimeoutCheck) :
    SameClock cfg s s' := by
  refine ⟨fun v => ?_, fun v holds => ?_, fun v => ?_, fun v => ?_, log, skip⟩
  · simp only [isVfInFullAccess, (same v).1, access.1]
  · simpa only [Holds, isVfInFullAccess, isFullAccessVf,
      (same v).1, access.1, access.2] using holds
  · simp only [startTime, (same v).2.1, clock.1]
  · simp only [usedTime, (same v).2.2, clock.2]

theorem setVf_sameClock (s : SchedState) (idxVf : Nat) {f : VfInfo → VfInfo}
    (same : ∀ vf, (f vf).inFullAccess = vf.inFullAccess ∧
      (f vf).startTimeFullAccess = vf.startTimeFullAccess ∧
      (f vf).usedTimeFullAccess = vf.usedTimeFullAccess) :
    SameClock cfg s (s.setVf idxVf f) := by
  refine sameClock_of_vfs (fun v => ?_) ⟨rfl, rfl⟩ ⟨rfl, rfl⟩ rfl rfl
  by_cases own : v = idxVf
  · rw [own, setVf_self]
    exact same _
  · rw [setVf_other _ _ _ own]
    exact ⟨rfl, rfl, rfl⟩

theorem meter_append {v : Nat} {e : AccessEvent} (log : s'.accessLog = s.accessLog ++ [e]) :
    s'.meter v = meterStep v (s.meter v) e := by
  unfold meter
  rw [log, List.foldl_append]
  rfl

theorem meter_replaced {v : Nat} (log : s'.accessLog = s.accessLog ++ [.replaced]) :
    s'.meter v = none := meter_append log

theorem metered_replaced (log : s'.accessLog = s.accessLog ++ [.replaced]) : Metered cfg s' where
  represented v watch _ measured := by
    rw [meter_replaced log] at measured
    cases measured
  known _ _ _ := by
    rw [log]
    exact List.mem_append_right _ (List.mem_singleton_self _)

theorem Disturbance.metered (metered : Metered cfg s) (reset : Disturbance cfg s s') :
    Metered cfg s' := by
  cases reset with
  | retire arrayVf each =>
    refine metered.same (sameClock_of_vfs (fun v => ?_) ⟨rfl, rfl⟩ ⟨rfl, rfl⟩ rfl rfl)
    dsimp only
    rcases each v with same | avail | unavail
    · rw [same]
      exact ⟨rfl, rfl, rfl⟩
    · rw [avail]
      exact ⟨rfl, rfl, rfl⟩
    · rw [unavail]
      exact ⟨rfl, rfl, rfl⟩
  | pfReinit pf =>
    unfold initPfStateLate
    by_cases usePf : cfg.usePf
    · rw [if_pos usePf]
      by_cases partitioned : cfg.enablePerPartitionFullAccess
      · -- the adapter-wide registers are not those of the partitions
        have unchanged : ∀ s' : SchedState, s'.arrayVf = s.arrayVf →
            s'.accessLog = s.accessLog →
            s'.skipFullAccessTimeoutCheck = s.skipFullAccessTimeoutCheck →
            SameClock cfg s s' := by
          intro s' vfs log skip
          refine ⟨fun v => ?_, fun v holds => ?_, fun v => ?_, fun v => ?_, log, skip⟩
          · simp [isVfInFullAccess, partitioned, vfs]
          · simpa [Holds, isVfInFullAccess, isFullAccessVf,
              partitioned, vfs] using holds
          · simp [startTime, partitioned, vfs]
          · simp [usedTime, partitioned, vfs]
        cases pf <;>
          exact metered.same (unchanged _ rfl (by simp [logGlobalAccess, partitioned]) rfl)
      · cases pf with
        | notReached => exact metered
        | saveFailed now =>
          exact metered_replaced (s := s) (by simp [logGlobalAccess, partitioned])
        | finished =>
          exact metered_replaced (s := s) (by simp [logGlobalAccess, partitioned])
    · rw [if_neg usePf]
      exact metered

theorem Steady.usedTime (steady : Steady cfg s s') (v : Nat) :
    s'.usedTime cfg v = s.usedTime cfg v := by
  unfold SchedState.usedTime
  rw [steady.vf v, steady.used]

/-- A reset that takes full access away leaves nothing behind when the clock runs. -/
theorem Steady.clocked (steady : Steady cfg s s') (clocked : Clocked cfg s)
    (metered : Metered cfg s') (kept : ¬cfg.enablePerPartitionFullAccess →
      s.usedTimeFullAccess = 0 ∨ s'.inFullAccess) : Clocked cfg s' := by
  refine ⟨metered, fun v outside => ?_⟩
  by_cases partitioned : cfg.enablePerPartitionFullAccess
  · rw [steady.usedTime]
    refine clocked.idle v ?_
    simpa only [isVfInFullAccess, if_pos partitioned, steady.held] using outside
  · rcases kept partitioned with unused | inside
    · rw [usedTime_whole partitioned, steady.used, unused]
    · simp [isVfInFullAccess, partitioned, inside] at outside

theorem Disturbs.clocked {a a' : Adapter} (resets : Disturbs cfg a a')
    (clocked : Clocked cfg a.sched) (kept : ¬cfg.enablePerPartitionFullAccess →
      a.sched.usedTimeFullAccess = 0 ∨ a'.sched.inFullAccess) : Clocked cfg a'.sched := by
  have metered : ∀ s', ReflTransGen (Disturbance cfg) a.sched s' → Metered cfg s' := by
    intro s' chain
    induction chain with
    | refl => exact clocked.metered
    | tail _ reset ih => exact reset.metered ih
  exact resets.steady.clocked clocked (metered _ resets.2) kept

theorem metered_one {e : AccessEvent} (idxVf : Nat) (metered : Metered cfg s)
    (log : s'.accessLog = s.accessLog ++ [e])
    (skip : s'.skipFullAccessTimeoutCheck = s.skipFullAccessTimeoutCheck)
    (others : ∀ v, v ≠ idxVf → s'.Holds cfg v → s.Holds cfg v ∧
      s'.startTime cfg v = s.startTime cfg v ∧ s'.usedTime cfg v = s.usedTime cfg v ∧
      meterStep v (s.meter v) e = s.meter v)
    (own : s'.Holds cfg idxVf → ∀ watch, meterStep idxVf (s.meter idxVf) e = some watch →
      Represented cfg s' idxVf watch)
    (ownKnown : s'.Holds cfg idxVf → meterStep idxVf (s.meter idxVf) e = none →
      .replaced ∈ s.accessLog) : Metered cfg s' where
  represented v watch holds measured := by
    rw [meter_append log] at measured
    by_cases same : v = idxVf
    · subst same
      exact own holds watch measured
    · obtain ⟨held, start, used, meter⟩ := others v same holds
      rw [meter] at measured
      unfold Represented
      rw [start, used, skip]
      exact metered.represented v watch held measured
  known v holds unmeasured := by
    rw [meter_append log] at unmeasured
    rw [log]
    refine List.mem_append_left _ ?_
    by_cases same : v = idxVf
    · subst same
      exact ownKnown holds unmeasured
    · obtain ⟨held, _, _, meter⟩ := others v same holds
      rw [meter] at unmeasured
      exact metered.known v held unmeasured

theorem grantFullAccess_metered (metered : Metered cfg s) (now : Time) {idxVf : Nat}
    (id : EventId) (unused : s.usedTime cfg idxVf = 0) :
    Metered cfg (s.grantFullAccess cfg now idxVf id) := by
  have log : (s.grantFullAccess cfg now idxVf id).accessLog =
      s.accessLog ++ [.granted idxVf now] := by
    unfold grantFullAccess
    split <;> rfl
  have skip : (s.grantFullAccess cfg now idxVf id).skipFullAccessTimeoutCheck =
      s.skipFullAccessTimeoutCheck := by
    unfold grantFullAccess
    split <;> rfl
  have own : (s.grantFullAccess cfg now idxVf id).startTime cfg idxVf = now ∧
      (s.grantFullAccess cfg now idxVf id).usedTime cfg idxVf = s.usedTime cfg idxVf := by
    unfold grantFullAccess startTime usedTime
    split <;> simp
  refine metered_one idxVf metered log skip (fun v ne holds => ?_) (fun _ watch measured => ?_)
    (fun _ unmeasured => ?_)
  · by_cases partitioned : cfg.enablePerPartitionFullAccess
    · rw [holds_partition partitioned] at holds ⊢
      simpa [grantFullAccess, startTime, usedTime, partitioned,
        ne, meterStep, Ne.symm ne] using holds
    · rw [holds_whole partitioned] at holds
      simp only [grantFullAccess, if_neg partitioned] at holds
      exact absurd holds.2.symm ne
  · obtain rfl : Watch.start now = watch := by simpa [meterStep] using measured
    refine .inl ?_
    rw [own.1, own.2, unused]
    exact running_start now
  · simp [meterStep] at unmeasured

theorem clearFullAccess_metered (metered : Metered cfg s) (idxVf : Nat) :
    Metered cfg (s.clearFullAccess cfg idxVf) := by
  by_cases partitioned : cfg.enablePerPartitionFullAccess
  · have cleared : s.clearFullAccess cfg idxVf = { s.setVf idxVf (fun vf => { vf with
          inFullAccess := false, startTimeFullAccess := 0 }) with
        logicalSchedFaMask := s.logicalSchedFaMask &&& ~~~cfg.worldSwitchMask idxVf
        accessLog := s.accessLog ++ [.ended idxVf] } := by
      unfold clearFullAccess
      rw [if_pos partitioned]
    rw [cleared]
    have left : ¬Holds cfg { s.setVf idxVf (fun vf => { vf with
          inFullAccess := false, startTimeFullAccess := 0 }) with
        logicalSchedFaMask := s.logicalSchedFaMask &&& ~~~cfg.worldSwitchMask idxVf
        accessLog := s.accessLog ++ [.ended idxVf] } idxVf := by
      rw [holds_partition partitioned]
      simp
    refine metered_one idxVf metered rfl rfl (fun v ne holds => ?_)
      (fun holds => absurd holds left) (fun holds => absurd holds left)
    rw [holds_partition partitioned] at holds ⊢
    simpa [startTime, usedTime, partitioned, ne, meterStep,
      Ne.symm ne] using holds
  · have cleared : (s.clearFullAccess cfg idxVf).inFullAccess = false := by
      unfold clearFullAccess
      rw [if_neg partitioned]
    have nobody : ∀ v, ¬(s.clearFullAccess cfg idxVf).Holds cfg v := fun v holds => by
      have := ((holds_whole partitioned).mp holds).1
      rw [cleared] at this
      cases this
    exact ⟨fun v _ holds => absurd holds (nobody v), fun v holds => absurd holds (nobody v)⟩

theorem setUsedTime_clock (cfg : Config) (s : SchedState) (idxVf : Nat) (time : Time) :
    (s.setUsedTime cfg idxVf time).usedTime cfg idxVf = time ∧
      (s.setUsedTime cfg idxVf time).accessLog = s.accessLog ∧
      (s.setUsedTime cfg idxVf time).skipFullAccessTimeoutCheck = s.skipFullAccessTimeoutCheck ∧
      (∀ v, (s.setUsedTime cfg idxVf time).startTime cfg v = s.startTime cfg v) ∧
      ∀ v, cfg.enablePerPartitionFullAccess → v ≠ idxVf →
        (s.setUsedTime cfg idxVf time).usedTime cfg v = s.usedTime cfg v := by
  by_cases partitioned : cfg.enablePerPartitionFullAccess
  · have written : s.setUsedTime cfg idxVf time =
        s.setVf idxVf fun vf => { vf with usedTimeFullAccess := time } := by
      unfold setUsedTime
      rw [if_pos partitioned]
    rw [written]
    refine ⟨by simp [usedTime, partitioned], rfl, rfl, fun v => ?_,
      fun v _ ne => by simp [usedTime, partitioned, ne]⟩
    by_cases same : v = idxVf
    · simp [startTime, partitioned, same]
    · simp [startTime, partitioned, same]
  · have written : s.setUsedTime cfg idxVf time = { s with usedTimeFullAccess := time } := by
      unfold setUsedTime
      rw [if_neg partitioned]
    rw [written]
    exact ⟨by simp [usedTime, partitioned], rfl, rfl, fun v => rfl,
      fun v yes => absurd yes partitioned⟩

theorem setStartTime_clock (cfg : Config) (s : SchedState) (idxVf : Nat) (time : Time) :
    (s.setStartTime cfg idxVf time).startTime cfg idxVf = time ∧
      (s.setStartTime cfg idxVf time).accessLog = s.accessLog ∧
      (s.setStartTime cfg idxVf time).skipFullAccessTimeoutCheck =
        s.skipFullAccessTimeoutCheck ∧
      (∀ v, (s.setStartTime cfg idxVf time).usedTime cfg v = s.usedTime cfg v) ∧
      ∀ v, cfg.enablePerPartitionFullAccess → v ≠ idxVf →
        (s.setStartTime cfg idxVf time).startTime cfg v = s.startTime cfg v := by
  by_cases partitioned : cfg.enablePerPartitionFullAccess
  · have written : s.setStartTime cfg idxVf time =
        s.setVf idxVf fun vf => { vf with startTimeFullAccess := time } := by
      unfold setStartTime
      rw [if_pos partitioned]
    rw [written]
    refine ⟨by simp [startTime, partitioned], rfl, rfl, fun v => ?_,
      fun v _ ne => by simp [startTime, partitioned, ne]⟩
    by_cases same : v = idxVf
    · simp [usedTime, partitioned, same]
    · simp [usedTime, partitioned, same]
  · have written : s.setStartTime cfg idxVf time = { s with startTimeFullAccess := time } := by
      unfold setStartTime
      rw [if_neg partitioned]
    rw [written]
    exact ⟨by simp [startTime, partitioned], rfl, rfl, fun v => rfl,
      fun v yes => absurd yes partitioned⟩

theorem holds_other {v idxVf : Nat} (holds : s.Holds cfg idxVf) (other : s.Holds cfg v)
    (ne : v ≠ idxVf) : cfg.enablePerPartitionFullAccess := by
  by_contra whole
  exact ne (((holds_whole whole).mp other).2.symm.trans ((holds_whole whole).mp holds).2)

/-- An event of the function whose clock runs, which sets only its used time. -/
theorem setUsedTime_metered {e : AccessEvent} {idxVf : Nat} {time : Time}
    {turn : Watch Time PauseReason → Watch Time PauseReason}
    (metered : Metered cfg s) (holds : s.Holds cfg idxVf) (unused : s.usedTime cfg idxVf = 0)
    (turns : ∀ v watch, meterStep v watch e = if idxVf = v then watch.map turn else watch)
    (shows : ∀ watch, Running watch (s.startTime cfg idxVf) (s.usedTime cfg idxVf) →
      Represented cfg (s.setUsedTime cfg idxVf time) idxVf (turn watch)) :
    Metered cfg { s.setUsedTime cfg idxVf time with accessLog := s.accessLog ++ [e] } := by
  obtain ⟨_, _, skip, start, others⟩ := setUsedTime_clock cfg s idxVf time
  have held : ∀ v, (s.setUsedTime cfg idxVf time).Holds cfg v → s.Holds cfg v :=
    fun v => holds_of_sameAccess (setUsedTime_sameAccess s idxVf _)
  refine metered_one idxVf metered rfl skip (fun v ne other => ?_) (fun _ watch measured => ?_)
    (fun _ unmeasured => ?_)
  · exact ⟨held v other, start v, others v (holds_other holds (held v other) ne) ne,
      by rw [turns, if_neg (Ne.symm ne)]⟩
  · rw [turns, if_pos rfl] at measured
    obtain ⟨before, measuredBefore, rfl⟩ := Option.map_eq_some_iff.mp measured
    exact shows before
      ((metered.represented idxVf before holds measuredBefore).running_of_used unused)
  · rw [turns, if_pos rfl] at unmeasured
    exact metered.known idxVf holds (Option.map_eq_none_iff.mp unmeasured)

theorem pauseFullAccess_metered (metered : Metered cfg s) {now : Time} {idxVf : Nat}
    (holds : s.Holds cfg idxVf) (unused : s.usedTime cfg idxVf = 0)
    (passed : now ≠ s.startTime cfg idxVf) (outside : ¬s.skipFullAccessTimeoutCheck) :
    Metered cfg (s.pauseFullAccess cfg now idxVf) := by
  refine setUsedTime_metered metered holds unused (fun _ _ => rfl) fun watch running => ?_
  obtain ⟨used, _, skip, _⟩ := setUsedTime_clock cfg s idxVf (now - s.startTime cfg idxVf)
  refine .inr (.inl ⟨fun inside => outside (skip.symm.trans inside), ?_⟩)
  exact (running.pause PauseReason.vm passed).register used

theorem resumeFullAccess_metered (metered : Metered cfg s) {now : Time} {idxVf : Nat}
    (holds : s.Holds cfg idxVf)
    (outside : s.skipFullAccessTimeoutCheck → s.usedTime cfg idxVf = 0) :
    Metered cfg (s.resumeFullAccess cfg now idxVf) := by
  have known : ∀ {s' : SchedState}, s'.Holds cfg idxVf →
      meterStep idxVf (s.meter idxVf) (.vmResumed idxVf now) = none →
      .replaced ∈ s.accessLog := fun _ unmeasured =>
    metered.known idxVf holds (by simpa [meterStep] using unmeasured)
  by_cases unused : s.usedTime cfg idxVf = 0
  · have resumed : s.resumeFullAccess cfg now idxVf =
        { s with accessLog := s.accessLog ++ [.vmResumed idxVf now] } := by
      unfold resumeFullAccess
      dsimp only
      rw [if_neg (not_not.mpr unused)]
    rw [resumed]
    refine metered_one idxVf metered rfl rfl (fun v ne other => ?_) (fun _ watch measured => ?_)
      known
    · exact ⟨other, rfl, rfl, by simp [meterStep, Ne.symm ne]⟩
    · obtain ⟨before, measuredBefore, rfl⟩ : ∃ before, s.meter idxVf = some before ∧
          before.resume .vm now = watch := by simpa [meterStep] using measured
      have running := (metered.represented idxVf before holds measuredBefore).running_of_used
        unused
      exact .inl (running.resume PauseReason.vm now)
  · obtain ⟨start, log, skip, used, others⟩ :=
      setStartTime_clock cfg s idxVf (now - s.usedTime cfg idxVf)
    obtain ⟨used', log', skip', start', others'⟩ :=
      setUsedTime_clock cfg (s.setStartTime cfg idxVf (now - s.usedTime cfg idxVf)) idxVf 0
    have resumed : s.resumeFullAccess cfg now idxVf =
        { (s.setStartTime cfg idxVf (now - s.usedTime cfg idxVf)).setUsedTime cfg idxVf 0 with
          accessLog := s.accessLog ++ [.vmResumed idxVf now] } := by
      unfold resumeFullAccess
      dsimp only
      rw [if_pos unused]
    rw [resumed]
    refine metered_one idxVf metered rfl (skip'.trans skip) (fun v ne other => ?_)
      (fun _ watch measured => ?_) known
    · have heldBefore := holds_of_sameAccess (setStartTime_sameAccess s idxVf _)
        (holds_of_sameAccess (setUsedTime_sameAccess _ idxVf _) other)
      have partitioned := holds_other holds heldBefore ne
      exact ⟨heldBefore, (start' v).trans (others v partitioned ne),
        (others' v partitioned ne).trans (used v), by simp [meterStep, Ne.symm ne]⟩
    · obtain ⟨before, measuredBefore, rfl⟩ : ∃ before, s.meter idxVf = some before ∧
          before.resume .vm now = watch := by simpa [meterStep] using measured
      have paused : PausedBy before .vm (s.usedTime cfg idxVf) := by
        rcases metered.represented idxVf before holds measuredBefore with
          running | ⟨_, paused⟩ | ⟨live, _⟩
        · exact absurd running.unused unused
        · exact paused
        · exact absurd (outside live) unused
      exact .inl ((paused.resume now).registers ((start' idxVf).trans start) used')

theorem stopFullAccess_metered (metered : Metered cfg s) {now : Time} {idxVf : Nat}
    (holds : s.Holds cfg idxVf) (unused : s.usedTime cfg idxVf = 0) :
    Metered cfg (s.stopFullAccess cfg now idxVf) := by
  refine setUsedTime_metered metered holds unused (fun _ _ => rfl) fun watch running => ?_
  obtain ⟨used, _, _, start, _⟩ := setUsedTime_clock cfg s idxVf 0
  exact .inl ((running.resume PauseReason.vm now).registers (start idxVf)
    (used.trans unused.symm))

theorem suspendLive_clock (now : Time) {v : Nat}
    (inLoop : cfg.enablePerPartitionFullAccess → v < cfg.numVf) (holds : s.Holds cfg v) :
    (s.suspendLive cfg now).startTime cfg v = s.startTime cfg v ∧
      (s.suspendLive cfg now).usedTime cfg v = now - s.startTime cfg v := by
  unfold suspendLive
  by_cases partitioned : cfg.enablePerPartitionFullAccess
  · have inside : v < cfg.numVf ∧ s.isVfInFullAccess cfg v := ⟨inLoop partitioned, holds.1⟩
    simp [startTime, usedTime, partitioned, inside]
  · simp [startTime, usedTime, partitioned]

theorem resumeLive_clock (now : Time) {v : Nat}
    (inLoop : cfg.enablePerPartitionFullAccess → v < cfg.numVf) (holds : s.Holds cfg v) :
    (s.resumeLive cfg now).startTime cfg v = now - s.usedTime cfg v ∧
      (s.resumeLive cfg now).usedTime cfg v = 0 := by
  unfold resumeLive
  by_cases partitioned : cfg.enablePerPartitionFullAccess
  · have inside : v < cfg.numVf ∧ s.isVfInFullAccess cfg v := ⟨inLoop partitioned, holds.1⟩
    simp [startTime, usedTime, partitioned, inside]
  · simp [startTime, usedTime, partitioned]

theorem suspendLive_metered (metered : Metered cfg s) {now : Time}
    (ready : ∀ v, s.Holds cfg v → s.usedTime cfg v = 0 ∧ now ≠ s.startTime cfg v ∧
      (cfg.enablePerPartitionFullAccess → v < cfg.numVf)) :
    Metered cfg (s.suspendLive cfg now) := by
  have log : (s.suspendLive cfg now).accessLog = s.accessLog ++ [.liveSuspended now] := rfl
  refine ⟨fun v watch holds measured => ?_, fun v holds unmeasured => ?_⟩
  · have held := holds_of_sameAccess (suspendLive_sameAccess s now) holds
    obtain ⟨unused, passed, inLoop⟩ := ready v held
    obtain ⟨_, used⟩ := suspendLive_clock now inLoop held
    rw [meter_append log] at measured
    obtain ⟨before, measuredBefore, rfl⟩ : ∃ before, s.meter v = some before ∧
        before.pause .live now = watch := by simpa [meterStep] using measured
    have running := (metered.represented v before held measuredBefore).running_of_used unused
    exact .inr (.inr ⟨rfl, (running.pause PauseReason.live passed).register used⟩)
  · rw [meter_append log] at unmeasured
    rw [log]
    exact List.mem_append_left _ (metered.known v
      (holds_of_sameAccess (suspendLive_sameAccess s now) holds)
      (by simpa [meterStep] using unmeasured))

theorem resumeLive_metered (metered : Metered cfg s) {now : Time}
    (ready : ∀ v, s.Holds cfg v → s.skipFullAccessTimeoutCheck ∧ s.usedTime cfg v ≠ 0 ∧
      (cfg.enablePerPartitionFullAccess → v < cfg.numVf)) :
    Metered cfg (s.resumeLive cfg now) := by
  have log : (s.resumeLive cfg now).accessLog = s.accessLog ++ [.liveResumed now] := rfl
  refine ⟨fun v watch holds measured => ?_, fun v holds unmeasured => ?_⟩
  · have held := holds_of_sameAccess (resumeLive_sameAccess s now) holds
    obtain ⟨live, stopped, inLoop⟩ := ready v held
    obtain ⟨start, used⟩ := resumeLive_clock now inLoop held
    rw [meter_append log] at measured
    obtain ⟨before, measuredBefore, rfl⟩ : ∃ before, s.meter v = some before ∧
        before.resume .live now = watch := by simpa [meterStep] using measured
    have paused : PausedBy before .live (s.usedTime cfg v) := by
      rcases metered.represented v before held measuredBefore with
        running | ⟨outside, _⟩ | ⟨_, paused⟩
      · exact absurd running.unused stopped
      · exact absurd live outside
      · exact paused
    exact .inl ((paused.resume now).registers start used)
  · rw [meter_append log] at unmeasured
    rw [log]
    exact List.mem_append_left _ (metered.known v
      (holds_of_sameAccess (resumeLive_sameAccess s now) holds)
      (by simpa [meterStep] using unmeasured))

theorem restoreLive_metered (metered : Metered cfg s) (now : Time)
    (liveInfo : Option LiveInfoSched) (nobody : ¬cfg.enablePerPartitionFullAccess →
      ¬s.inFullAccess) : Metered cfg (s.restoreLive cfg now liveInfo) := by
  -- the start register set at the end is no partition's, and nobody's without partitions
  have started : ∀ imported : SchedState, Metered cfg imported →
      (¬cfg.enablePerPartitionFullAccess → ¬imported.inFullAccess) →
      Metered cfg (if imported.inFullAccess then { imported with startTimeFullAccess := now }
        else imported) := by
    intro imported metered outside
    split
    · rename_i inside
      have partitioned : cfg.enablePerPartitionFullAccess := by
        by_contra whole
        exact outside whole inside
      refine metered.same ⟨fun _ => rfl, fun v holds => ?_, fun v => ?_, fun v => ?_, rfl, rfl⟩
      · rw [holds_partition partitioned] at holds ⊢
        exact holds
      · simp [startTime, partitioned]
      · simp [usedTime, partitioned]
    · exact metered
  have replaced : ∀ imported : SchedState, imported.accessLog = s.accessLog ++ [.replaced] →
      Metered cfg (if imported.inFullAccess then { imported with startTimeFullAccess := now }
        else imported) := by
    intro imported log
    split
    · exact metered_replaced (s := s) log
    · exact metered_replaced (s := s) log
  unfold restoreLive
  cases liveInfo with
  | none => exact started s metered nobody
  | some info =>
    dsimp only
    unfold importLiveData
    split
    · exact started _ (metered.same
        ⟨fun _ => rfl, fun _ holds => holds, fun _ => rfl, fun _ => rfl, rfl, rfl⟩) nobody
    · dsimp only
      split
      · exact replaced _ rfl
      · exact replaced _ rfl

theorem grantFullAccess_clocked (clocked : Clocked cfg s) (now : Time) {idxVf : Nat}
    (id : EventId) (unused : s.usedTime cfg idxVf = 0) :
    Clocked cfg (s.grantFullAccess cfg now idxVf id) := by
  refine ⟨grantFullAccess_metered clocked.metered now id unused, fun v outside => ?_⟩
  unfold grantFullAccess at outside ⊢
  by_cases partitioned : cfg.enablePerPartitionFullAccess
  · rw [if_pos partitioned] at outside ⊢
    by_cases own : v = idxVf
    · simp [isVfInFullAccess, partitioned, own] at outside
    · refine (Eq.trans ?_ (clocked.idle v ?_))
      · simp [usedTime, partitioned, own]
      · simpa [isVfInFullAccess, partitioned, own] using outside
  · rw [if_neg partitioned] at outside
    simp [isVfInFullAccess, partitioned] at outside

theorem clearFullAccess_clocked (clocked : Clocked cfg s) {idxVf : Nat}
    (unused : s.usedTime cfg idxVf = 0) : Clocked cfg (s.clearFullAccess cfg idxVf) := by
  refine ⟨clearFullAccess_metered clocked.metered idxVf, fun v outside => ?_⟩
  unfold clearFullAccess at outside ⊢
  by_cases partitioned : cfg.enablePerPartitionFullAccess
  · rw [if_pos partitioned] at outside ⊢
    by_cases own : v = idxVf
    · rw [own, ← unused]
      simp [usedTime, partitioned]
    · refine (Eq.trans ?_ (clocked.idle v ?_))
      · simp [usedTime, partitioned, own]
      · simpa [isVfInFullAccess, partitioned, own] using outside
  · rw [if_neg partitioned, usedTime_whole partitioned]
    exact (usedTime_whole partitioned idxVf).symm.trans unused

/-- A function that is not in full access while another is: the mode is per-partition. -/
theorem outside_other {v idxVf : Nat} (holds : s.Holds cfg idxVf)
    (outside : ¬s.isVfInFullAccess cfg v) : cfg.enablePerPartitionFullAccess ∧ v ≠ idxVf := by
  refine ⟨?_, fun own => outside (own ▸ holds.1)⟩
  by_contra whole
  have inside := holds.1
  unfold isVfInFullAccess at inside outside
  rw [if_neg whole] at inside outside
  exact outside inside

theorem pauseFullAccess_clocked (clocked : Clocked cfg s) {now : Time} {idxVf : Nat}
    (holds : s.Holds cfg idxVf) (unused : s.usedTime cfg idxVf = 0)
    (passed : now ≠ s.startTime cfg idxVf) (outside : ¬s.skipFullAccessTimeoutCheck) :
    Clocked cfg (s.pauseFullAccess cfg now idxVf) := by
  refine ⟨pauseFullAccess_metered clocked.metered holds unused passed outside,
    clocked.unused (isVfInFullAccess_of_sameAccess
      ((setUsedTime_sameAccess s idxVf _).logged _)) fun v outside => ?_⟩
  obtain ⟨partitioned, other⟩ := outside_other holds outside
  exact (setUsedTime_clock cfg s idxVf _).2.2.2.2 v partitioned other

theorem resumeFullAccess_clocked (clocked : Clocked cfg s) {now : Time} {idxVf : Nat}
    (holds : s.Holds cfg idxVf)
    (stopped : s.skipFullAccessTimeoutCheck → s.usedTime cfg idxVf = 0) :
    Clocked cfg (s.resumeFullAccess cfg now idxVf) := by
  refine ⟨resumeFullAccess_metered clocked.metered holds stopped,
    clocked.unused (isVfInFullAccess_of_sameAccess
      (resumeFullAccess_sameAccess s now idxVf)) fun v outside => ?_⟩
  obtain ⟨partitioned, other⟩ := outside_other holds outside
  unfold resumeFullAccess
  dsimp only
  split
  · exact ((setUsedTime_clock cfg _ idxVf 0).2.2.2.2 v partitioned other).trans
      ((setStartTime_clock cfg s idxVf _).2.2.2.1 v)
  · rfl

theorem stopFullAccess_clocked (clocked : Clocked cfg s) {now : Time} {idxVf : Nat}
    (holds : s.Holds cfg idxVf) (unused : s.usedTime cfg idxVf = 0) :
    Clocked cfg (s.stopFullAccess cfg now idxVf) := by
  refine ⟨stopFullAccess_metered clocked.metered holds unused,
    clocked.unused (isVfInFullAccess_of_sameAccess
      ((setUsedTime_sameAccess s idxVf _).logged _)) fun v outside => ?_⟩
  obtain ⟨partitioned, other⟩ := outside_other holds outside
  exact (setUsedTime_clock cfg s idxVf _).2.2.2.2 v partitioned other

theorem suspendLive_clocked (clocked : Clocked cfg s) {now : Time}
    (shared : ¬cfg.enablePerPartitionFullAccess → s.inFullAccess)
    (ready : ∀ v, s.Holds cfg v → s.usedTime cfg v = 0 ∧ now ≠ s.startTime cfg v ∧
      (cfg.enablePerPartitionFullAccess → v < cfg.numVf)) :
    Clocked cfg (s.suspendLive cfg now) := by
  refine ⟨suspendLive_metered clocked.metered ready, clocked.unused
    (isVfInFullAccess_of_sameAccess (suspendLive_sameAccess s now)) fun v outside => ?_⟩
  by_cases partitioned : cfg.enablePerPartitionFullAccess
  · simp [suspendLive, usedTime, partitioned, outside]
  · exact absurd (shared partitioned)
      (by simpa [isVfInFullAccess, partitioned] using outside)

theorem resumeLive_clocked (clocked : Clocked cfg s) {now : Time}
    (ready : ∀ v, s.Holds cfg v → s.skipFullAccessTimeoutCheck ∧ s.usedTime cfg v ≠ 0 ∧
      (cfg.enablePerPartitionFullAccess → v < cfg.numVf)) :
    Clocked cfg (s.resumeLive cfg now) := by
  refine ⟨resumeLive_metered clocked.metered ready, fun v outside => ?_⟩
  by_cases partitioned : cfg.enablePerPartitionFullAccess
  · rw [isVfInFullAccess_of_sameAccess (resumeLive_sameAccess s now)] at outside
    rw [← clocked.idle v outside]
    simp [resumeLive, usedTime, partitioned, outside]
  · simp [resumeLive, usedTime, partitioned]

theorem restoreLive_clocked (clocked : Clocked cfg s) (now : Time)
    (liveInfo : Option LiveInfoSched)
    (nobody : ¬cfg.enablePerPartitionFullAccess → ¬s.inFullAccess)
    (saved : ¬cfg.enablePerPartitionFullAccess → ∀ info, liveInfo = some info →
      ¬info.inFullAccess → info.usedTimeFullAccess = 0) :
    Clocked cfg (s.restoreLive cfg now liveInfo) := by
  refine ⟨restoreLive_metered clocked.metered now liveInfo nobody, ?_⟩
  have started : ∀ imported : SchedState,
      (∀ v, ¬imported.isVfInFullAccess cfg v → imported.usedTime cfg v = 0) →
      ∀ v, ¬(if imported.inFullAccess then { imported with startTimeFullAccess := now }
          else imported).isVfInFullAccess cfg v →
        (if imported.inFullAccess then { imported with startTimeFullAccess := now }
          else imported).usedTime cfg v = 0 := by
    intro imported idle v outside
    split at outside
    · rename_i inside
      rw [if_pos inside]
      exact idle v outside
    · rename_i inside
      rw [if_neg inside]
      exact idle v outside
  unfold restoreLive
  refine started _ fun v outside => ?_
  cases liveInfo with
  | none => exact clocked.idle v outside
  | some info =>
    dsimp only at outside ⊢
    unfold importLiveData at outside ⊢
    by_cases locked : cfg.gpuvLiveUpdate ∧ !s.lockWorldSwitch
    · rw [if_pos locked] at outside ⊢
      exact clocked.idle v outside
    rw [if_neg locked] at outside ⊢
    dsimp only at outside ⊢
    by_cases moved : cfg.enablePerPartitionFullAccess ∧ info.inFullAccess
    · rw [if_pos moved] at outside ⊢
      by_cases own : v = info.idxVfFullAccess
      · simp [isVfInFullAccess, moved.1, own] at outside
      · refine Eq.trans ?_ (clocked.idle v ?_)
        · simp [usedTime, moved.1, own]
        · simpa [isVfInFullAccess, moved.1, own] using outside
    · rw [if_neg moved] at outside ⊢
      by_cases partitioned : cfg.enablePerPartitionFullAccess
      · refine Eq.trans ?_ (clocked.idle v ?_)
        · simp [usedTime, partitioned]
        · simpa [isVfInFullAccess, partitioned] using outside
      · rw [usedTime_whole partitioned]
        refine saved partitioned info rfl ?_
        simpa [isVfInFullAccess, partitioned] using outside

/-- An exit leaves nothing behind when the clock of the function runs. -/
theorem exitFullAccess_clocked {a : Adapter} (clocked : Clocked cfg a.sched) (env : ExitEnv)
    {event : Event} (unused : a.sched.usedTime cfg event.idxVf = 0) :
    Clocked cfg (a.exitFullAccess cfg env event).sched := by
  obtain ⟨checked, added, readded, toChecked, toAdded, toReadded, ends⟩ :=
    exitFullAccess_ends cfg a env event
  have zero : ∀ {b : Adapter}, b.sched.usedTime cfg event.idxVf = 0 →
      ∀ {b' : Adapter}, ¬cfg.enablePerPartitionFullAccess →
        b.sched.usedTimeFullAccess = 0 ∨ b'.sched.inFullAccess :=
    fun unused _ whole => .inl ((usedTime_whole whole event.idxVf).symm.trans unused)
  have first := toChecked.clocked clocked (zero unused)
  have usedChecked := (toChecked.steady.usedTime event.idxVf).trans unused
  have second : Clocked cfg added.sched ∧ added.sched.usedTime cfg event.idxVf = 0 := by
    rcases toAdded with rfl | rfl
    · exact ⟨first, usedChecked⟩
    · have same : SameClock cfg checked.sched (checked.sched.setToActiveVf event.idxVf) :=
        setVf_sameClock _ event.idxVf fun _ => ⟨rfl, rfl, rfl⟩
      exact ⟨first.same same, (same.used _).trans usedChecked⟩
  rw [ends]
  exact clearFullAccess_clocked (toReadded.clocked second.1 (zero second.2))
    ((toReadded.steady.usedTime _).trans second.2)

theorem exitFullAccessTimeout_clocked {a : Adapter} (clocked : Clocked cfg a.sched)
    (env : TimeoutEnv) {vfIdx : Nat} (unused : a.sched.usedTime cfg vfIdx = 0) :
    Clocked cfg (a.exitFullAccessTimeout cfg env vfIdx).sched ∧
      ∀ v, (a.exitFullAccessTimeout cfg env vfIdx).sched.usedTime cfg v =
        a.sched.usedTime cfg v := by
  obtain ⟨looped, toLooped, exited⟩ := exitFullAccessTimeout_ends cfg a env vfIdx
  have own : a.sched.usedTime cfg (timedOutVf cfg a.sched vfIdx) = 0 := by
    rw [← unused]
    unfold timedOutVf usedTime
    split <;> rfl
  have before := toLooped.clocked clocked fun whole =>
    .inl ((usedTime_whole whole vfIdx).symm.trans unused)
  rw [exited]
  refine ⟨clearFullAccess_clocked before ((toLooped.steady.usedTime _).trans own), fun v => ?_⟩
  refine Eq.trans ?_ (toLooped.steady.usedTime v)
  unfold Adapter.mapSched clearFullAccess usedTime
  by_cases partitioned : cfg.enablePerPartitionFullAccess
  · by_cases same : v = timedOutVf cfg a.sched vfIdx
    · simp [partitioned, same]
    · simp [partitioned, same]
  · simp [partitioned]

theorem resetVfAutoIf_inFullAccess (a : Adapter) {reset : Option AutoReset}
    (keeps : cfg.usePf → ∀ r, reset = some r → r.keepsPf) :
    (a.resetVfAutoIf cfg reset).sched.inFullAccess = a.sched.inFullAccess := by
  have whole : ∀ (b : Adapter) (r : GpuReset), (cfg.usePf → r.keepsPf) →
      (b.gpuResetWrap cfg r).1.sched.inFullAccess = b.sched.inFullAccess := by
    intro b r keeps
    by_cases usePf : cfg.usePf
    · cases r with
      | dropped ok => rfl
      | failed pf | done pf =>
        cases pf with
        | notReached =>
          simp [Adapter.gpuResetWrap, Adapter.mapSched, initPfStateLate,
            availAfterGpuReset]
        | saveFailed now => exact absurd (keeps usePf) (by simp [GpuReset.keepsPf])
        | finished => exact absurd (keeps usePf) (by simp [GpuReset.keepsPf])
    · cases r <;>
        simp [Adapter.gpuResetWrap, Adapter.mapSched, initPfStateLate, usePf,
          availAfterGpuReset]
  cases reset with
  | none => rfl
  | some r =>
    cases r with
    | nothing ok => rfl
    | flr idxVf pendingRemove => rfl
    | flrFailed idxVf => rfl
    | flrThenGpu idxVf r => exact whole _ r fun usePf => keeps usePf _ rfl
    | gpu r => exact whole a r fun usePf => keeps usePf _ rfl

theorem handleEventInFullAccess_clocked {env : Env} {a : Adapter} {event : Event}
    (clocked : Clocked cfg a.sched)
    (shared : a.sched.isAnyShareEngineVfInFullAccess cfg event.idxVf)
    (timely : TimelyAction cfg env event a.sched (fullAccessAction cfg env a.sched event)) :
    Clocked cfg (a.handleEventInFullAccess cfg env event).1.sched := by
  have justified := fullAccessAction_justified cfg env a.sched event
  have whole : ¬cfg.enablePerPartitionFullAccess → a.sched.inFullAccess := fun whole => by
    simpa [isAnyShareEngineVfInFullAccess, whole] using shared
  have held : a.sched.isFullAccessVf cfg event.idxVf → a.sched.Holds cfg event.idxVf := by
    intro holds
    refine ⟨?_, holds⟩
    by_cases partitioned : cfg.enablePerPartitionFullAccess
    · simpa [isVfInFullAccess, isFullAccessVf, partitioned] using holds
    · simpa [isVfInFullAccess, partitioned] using whole partitioned
  have stated : ∀ f : VfInfo → VfInfo, (∀ vf, (f vf).inFullAccess = vf.inFullAccess ∧
      (f vf).startTimeFullAccess = vf.startTimeFullAccess ∧
      (f vf).usedTimeFullAccess = vf.usedTimeFullAccess) → ∀ s, Clocked cfg s →
        Clocked cfg (s.setVf event.idxVf f) := fun f same s clocked =>
    clocked.same (setVf_sameClock s event.idxVf same)
  unfold Adapter.handleEventInFullAccess
  cases action : fullAccessAction cfg env a.sched event <;> rw [action] at justified timely <;>
    dsimp only [Justified, TimelyAction] at justified timely ⊢
  case ignore => exact clocked
  case pushBack => exact clocked
  case release => exact clocked
  case suspendLive =>
    have saved := suspendLive_clocked clocked whole timely.1
    split
    · rename_i gpuv
      refine (resetVfAutoIf_disturbs (a.mapSched fun s => s.suspendLive cfg env.now)
        env.first).clocked saved fun partitions => .inr ?_
      rw [resetVfAutoIf_inFullAccess _ fun usePf => timely.2 gpuv usePf partitions]
      exact (suspendLive_sameAccess a.sched env.now).inFullAccess.trans (whole partitions)
    · exact saved
  case resumeLive => exact resumeLive_clocked clocked timely
  case exitFullAccess => exact exitFullAccess_clocked clocked env.exit timely
  case exitTimeout => exact (exitFullAccessTimeout_clocked clocked env.timeout timely).1
  case pauseFullAccess =>
    exact pauseFullAccess_clocked clocked (held justified.2.1) timely.1 timely.2.1 timely.2.2
  case suspendVf =>
    exact stated (fun vf => { vf with state := .suspend }) (fun _ => ⟨rfl, rfl, rfl⟩) _ clocked
  case resumeFullAccess => exact resumeFullAccess_clocked clocked (held justified.2) timely
  case resumeVf =>
    exact stated (fun vf => { vf with state := .active }) (fun _ => ⟨rfl, rfl, rfl⟩) _ clocked
  case removeVf =>
    refine stated (fun vf => { vf with state := .unavail }) (fun _ => ⟨rfl, rfl, rfl⟩) _ ?_
    split
    · rename_i holds
      exact (exitFullAccessTimeout_clocked clocked env.timeout (timely holds)).1
    · exact clocked
  case stopFullAccess => exact stopFullAccess_clocked clocked (held justified.2) timely
  case crash =>
    unfold Adapter.queueEvent
    split <;> exact clocked

/-- Outside full access every other change leaves the clocks as they are. -/
theorem Change.clocked {env : Env} {event : Event} {s₀ : SchedState}
    (free : ¬s₀.isAnyShareEngineVfInFullAccess cfg event.idxVf)
    (other : event.id ≠ .schedResumeLive) (pending : event.status ≠ .finished)
    (again : (event.id = .reqGpuInit ∨ event.id = .reqGpuFini ∨ event.id = .reqGpuReset) →
      s₀.usedTime cfg event.idxVf = 0)
    (clocked : Clocked cfg s)
    (unused : ¬cfg.enablePerPartitionFullAccess → s.usedTimeFullAccess = 0)
    (change : Change cfg env event s₀ s s') :
    Clocked cfg s' ∧ (¬cfg.enablePerPartitionFullAccess → s'.usedTimeFullAccess = 0) := by
  cases change with
  | disturb reset =>
    exact ⟨reset.steady.clocked clocked (reset.metered clocked.metered)
      fun whole => .inl (unused whole), fun whole => reset.steady.used.trans (unused whole)⟩
  | suspend idxVf _ =>
    exact ⟨clocked.same (setVf_sameClock s idxVf fun _ => ⟨rfl, rfl, rfl⟩), unused⟩
  | importSuspend _ _ _ | activate _ _ | condAvail _ _ | force _ _ =>
    exact ⟨clocked.same (setVf_sameClock s event.idxVf fun _ => ⟨rfl, rfl, rfl⟩), unused⟩
  | dirty idxVf fbDirty =>
    exact ⟨clocked.same (setVf_sameClock s idxVf fun _ => ⟨rfl, rfl, rfl⟩), unused⟩
  | grant now steady _ _ _ asked =>
    refine ⟨grantFullAccess_clocked clocked now event.id
      ((steady.usedTime _).trans (again asked)), fun whole => ?_⟩
    unfold grantFullAccess
    rw [if_neg whole]
    exact unused whole
  | clear idxVf _ ends => exact (ends.elim free pending).elim
  | suspendLive _ shared | resumeLive _ shared | pause _ _ shared _ | resume _ shared _
  | stop _ shared _ => exact absurd shared free
  | restore asked _ _ => exact absurd asked other
  | locks _ _ _ _ =>
    exact ⟨clocked.same ⟨fun _ => rfl, fun _ holds => holds, fun _ => rfl, fun _ => rfl, rfl, rfl⟩,
      unused⟩

theorem queueEvent_sched (a : Adapter) (accepted : Bool) (idxVf : Nat) (id : EventId) :
    (a.queueEvent accepted idxVf id).sched = a.sched := by
  unfold Adapter.queueEvent
  split <;> rfl

theorem queueUnprocessed_sched (a : Adapter) (unprocessed : List (Nat × EventId)) :
    (unprocessed.foldl (fun a e => a.queueEvent true e.1 e.2) a).sched = a.sched := by
  induction unprocessed generalizing a with
  | nil => rfl
  | cons e rest ih => exact (ih _).trans (queueEvent_sched a true e.1 e.2)

theorem handleEvent_clocked {env : Env} {a : Adapter} {event : Event}
    (clocked : Clocked cfg a.sched) (pending : event.status ≠ .finished)
    (timely : Timely cfg env event a.sched) :
    Clocked cfg (a.handleEvent cfg env event).1.sched := by
  by_cases shared : a.sched.isAnyShareEngineVfInFullAccess cfg event.idxVf
  · unfold Adapter.handleEvent
    rw [if_pos shared]
    rw [Timely, if_pos shared] at timely
    exact handleEventInFullAccess_clocked clocked shared timely
  rw [Timely, if_neg shared] at timely
  have nobody : ¬cfg.enablePerPartitionFullAccess → ¬a.sched.inFullAccess := fun whole inside =>
    shared (by simpa [isAnyShareEngineVfInFullAccess, whole] using inside)
  have unused : ¬cfg.enablePerPartitionFullAccess → a.sched.usedTimeFullAccess = 0 := by
    intro whole
    refine (usedTime_whole whole event.idxVf).symm.trans (clocked.idle _ ?_)
    simpa [isVfInFullAccess, whole] using nobody whole
  by_cases live : event.id = .schedResumeLive
  · have restored : Clocked cfg (a.resumeLiveRestore cfg env).sched := by
      unfold Adapter.resumeLiveRestore
      split
      · rw [queueUnprocessed_sched]
        exact restoreLive_clocked clocked env.now env.liveInfo nobody (timely.2 live)
      · exact clocked
    unfold Adapter.handleEvent
    rw [if_neg shared]
    unfold Adapter.handleEventInNonFullAccess Adapter.handleNonFullAccessSwitch
    split
    · exact clocked
    · split
      · exact clocked
      · split
        · exact clocked
        · simp only [live]
          exact restored.same ⟨fun _ => rfl, fun _ holds => holds, fun _ => rfl, fun _ => rfl,
            rfl, rfl⟩
  · have again : (event.id = .reqGpuInit ∨ event.id = .reqGpuFini ∨ event.id = .reqGpuReset) →
        a.sched.usedTime cfg event.idxVf = 0 := by
      intro asked
      by_cases inside : a.sched.isVfInFullAccess cfg event.idxVf
      · refine timely.1 asked ⟨inside, ?_⟩
        by_cases partitioned : cfg.enablePerPartitionFullAccess
        · simpa [isVfInFullAccess, isFullAccessVf, partitioned] using inside
        · exact absurd (by simpa [isVfInFullAccess, partitioned] using inside)
            (nobody partitioned)
      · exact clocked.idle _ inside
    rcases @handleEvent_outcome cfg env a event with deferred | ⟨_, _, changes⟩
    · rw [deferred]
      exact clocked
    · have chain : ∀ s, ReflTransGen (Change cfg env event a.sched) a.sched s →
          Clocked cfg s ∧ (¬cfg.enablePerPartitionFullAccess → s.usedTimeFullAccess = 0) := by
        intro s changes
        induction changes with
        | refl => exact ⟨clocked, unused⟩
        | tail _ change ih => exact change.clocked shared live pending again ih.1 ih.2
      exact (chain _ changes).1

/-- A timeout ends no paused access: while a used time is kept, none is due, except
to ECC recovery. -/
theorem usedTime_of_timedOut {inEccRecovery : Bool} {now : Time} {v : Nat}
    (timedOut : s.fullAccessLeftTime cfg inEccRecovery now v = .timedOut)
    (running : inEccRecovery → s.usedTime cfg v = 0) : s.usedTime cfg v = 0 := by
  unfold fullAccessLeftTime at timedOut
  split at timedOut
  · cases timedOut
  · split at timedOut
    · rename_i recovery
      exact running recovery
    · split at timedOut
      · cases timedOut
      · rename_i zero
        exact not_not.mp zero

theorem fullAccessCheckAndProcess_clocked {a : Adapter} (clocked : Clocked cfg a.sched)
    (check : TimeoutCheck) (running : check.inEccRecovery →
      ¬a.sched.skipFullAccessTimeoutCheck → ∀ v, a.sched.Holds cfg v → a.sched.usedTime cfg v = 0) :
    Clocked cfg
      (a.fullAccessCheckAndProcess cfg check.inEccRecovery check.now check.env).sched := by
  have scan : ∀ (functions : List Nat) (b : Adapter), Clocked cfg b.sched →
      (check.inEccRecovery → ∀ v, b.sched.usedTime cfg v = 0) →
      Clocked cfg (Adapter.partitionCheckAndProcess cfg check.inEccRecovery check.now check.env
        functions b).sched := by
    intro functions b clocked running
    induction functions generalizing b with
    | nil => exact clocked
    | cons idxVf rest ih =>
      unfold Adapter.partitionCheckAndProcess
      split
      · rename_i timedOut
        obtain ⟨exited, used⟩ := exitFullAccessTimeout_clocked clocked (check.env idxVf)
          (usedTime_of_timedOut timedOut fun recovery => running recovery idxVf)
        exact ih _ exited fun recovery v => (used v).trans (running recovery v)
      · exact ih b clocked running
  unfold Adapter.fullAccessCheckAndProcess
  split
  · exact clocked
  rename_i checks
  have everywhere : check.inEccRecovery → ∀ v, a.sched.usedTime cfg v = 0 := by
    intro recovery v
    by_cases inside : a.sched.isVfInFullAccess cfg v
    · by_cases partitioned : cfg.enablePerPartitionFullAccess
      · refine running recovery checks v ((holds_partition partitioned).mpr ?_)
        simpa [isVfInFullAccess, partitioned] using inside
      · rw [usedTime_whole partitioned]
        refine (usedTime_whole partitioned _).symm.trans (running recovery checks _
          ((holds_whole partitioned).mpr ⟨?_, rfl⟩))
        simpa [isVfInFullAccess, partitioned] using inside
    · exact clocked.idle v inside
  split
  · exact scan _ a clocked everywhere
  · split
    · rename_i timedOut
      exact (exitFullAccessTimeout_clocked clocked _
        (usedTime_of_timedOut timedOut fun recovery => everywhere recovery _)).1
    · exact clocked

namespace EventThread

variable {t : EventThread}

/-- A step whose event, if it is handled, finds the clocks as it needs them; a check
during ECC recovery, which ends every full access, finds none paused. -/
def KeepsTime (cfg : Config) (t : EventThread) : Label → Prop
  | .process turn => ∀ event, t.inHand = some event → !Adapter.skipsEvent turn event →
      Timely cfg turn.handler event t.adapter.sched
  | .checkTimeouts check => check.inEccRecovery → ¬t.adapter.sched.skipFullAccessTimeoutCheck →
      ∀ v, t.adapter.sched.Holds cfg v → t.adapter.sched.usedTime cfg v = 0
  | .push _ | .pick => True

theorem boot_metered (states : Nat → VfState) (now : Time) :
    Metered cfg (boot cfg states now).adapter.sched := by
  by_cases partitioned : cfg.enablePerPartitionFullAccess
  · have nobody : ∀ v, ¬(boot cfg states now).adapter.sched.Holds cfg v := fun v holds => by
      rw [holds_partition partitioned] at holds
      cases holds
    exact ⟨fun v _ holds => absurd holds (nobody v), fun v holds => absurd holds (nobody v)⟩
  · by_cases usePf : cfg.usePf
    · have pf : ∀ v, (boot cfg states now).adapter.sched.Holds cfg v →
          (boot cfg states now).adapter.sched.meter v = some (Watch.start now) := by
        intro v holds
        obtain rfl : pfIdx = v := by
          have idx := ((holds_whole partitioned).mp holds).2
          simpa [boot, bootSched, usePf] using idx
        simp [boot, bootSched, meter, meterStep, usePf, partitioned]
      refine ⟨fun v watch holds measured => ?_, fun v holds unmeasured => ?_⟩
      · obtain rfl := Option.some.inj ((pf v holds).symm.trans measured)
        refine .inl ((running_start now).registers ?_ ?_)
        · simp [boot, bootSched, startTime, usePf, partitioned]
        · simp [boot, bootSched, usedTime, partitioned]
      · rw [pf v holds] at unmeasured
        cases unmeasured
    · have nobody : ∀ v, ¬(boot cfg states now).adapter.sched.Holds cfg v := fun v holds => by
        have inside := ((holds_whole partitioned).mp holds).1
        simp [boot, bootSched, usePf] at inside
      exact ⟨fun v _ holds => absurd holds (nobody v), fun v holds => absurd holds (nobody v)⟩

theorem boot_clocked (states : Nat → VfState) (now : Time) :
    Clocked cfg (boot cfg states now).adapter.sched := by
  refine ⟨boot_metered states now, fun v _ => ?_⟩
  simp [boot, bootSched, usedTime]

theorem step_clocked {label : Label} {t' : EventThread} (clocked : Clocked cfg t.adapter.sched)
    (keeps : t.KeepsTime cfg label) (step : Step cfg t label t') :
    Clocked cfg t'.adapter.sched := by
  cases step with
  | push request _ =>
    rw [push_sched]
    exact clocked
  | pick _ => exact clocked
  | @process turn event held =>
    by_cases skips : Adapter.skipsEvent turn event
    · rw [process_skipped skips]
      exact clocked
    · have pending : event.status ≠ .finished := fun finished =>
        skips (by simp [Adapter.skipsEvent, finished])
      unfold process Adapter.settleEvent
      rw [if_neg skips]
      exact handleEvent_clocked clocked pending (keeps event held (by simpa using skips))
  | checkTimeouts check _ => exact fullAccessCheckAndProcess_clocked clocked check keeps

/-- Function 0 is suspended while it has full access, function 1 asks meanwhile and is
deferred, function 0 is resumed and releases, and function 1 gets its turn. -/
def turns : List (Request × TurnEnv) :=
  [(⟨0, .reqGpuInit, none, .init, true⟩, ⟨false, false, Env.quiet 5⟩),
    (⟨0, .schedSuspendVf, none, .init, true⟩, ⟨false, false, Env.quiet 15⟩),
    (⟨1, .reqGpuInit, none, .init, true⟩, ⟨false, false, Env.quiet 20⟩),
    (⟨0, .schedResumeVf, none, .init, true⟩, ⟨false, false, Env.quiet 25⟩),
    (⟨0, .relGpuInit, none, .init, true⟩, ⟨false, false, Env.quiet 105⟩),
    (⟨0, .textMessage, none, .init, true⟩, ⟨false, false, Env.quiet 200⟩)]

def afterTurns (n : Nat) : EventThread :=
  (turns.take n).foldl (fun t turn => t.serve Config.pair turn.1 turn.2)
    (boot Config.pair (fun _ => .avail) 0)

theorem afterTurns_run {n : Nat} {turn : Request × TurnEnv} (event : Event)
    (run : Transition.Run (Boots Config.pair) (Step Config.pair) (KeepsTime Config.pair)
      (afterTurns n)) (next : turns[n]? = some turn) (free : (afterTurns n).inHand = none)
    (silent : turn.1.signal = none)
    (held : ((afterTurns n).push turn.1).pick.inHand = some event)
    (timely : Timely Config.pair turn.2.handler event
      ((afterTurns n).push turn.1).pick.adapter.sched) :
    Transition.Run (Boots Config.pair) (Step Config.pair) (KeepsTime Config.pair)
      (afterTurns (n + 1)) := by
  have step : afterTurns (n + 1) = (afterTurns n).serve Config.pair turn.1 turn.2 := by
    simp [afterTurns, List.take_add_one, next]
  rw [step]
  refine serve_run run free silent turn.2 trivial trivial fun other same _ => ?_
  obtain rfl := Option.some.inj (held.symm.trans same)
  exact timely

theorem timely_inside {env : Env} {event : Event} {s : SchedState} (action : FullAccessAction)
    (shared : s.isAnyShareEngineVfInFullAccess cfg event.idxVf)
    (selected : fullAccessAction cfg env s event = action)
    (timely : TimelyAction cfg env event s action) : Timely cfg env event s := by
  rw [Timely, if_pos shared, selected]
  exact timely

end EventThread

end MxGpu.Sched
