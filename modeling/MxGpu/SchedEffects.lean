import MxGpu.SchedHandlers

/- What one handled event can do to the adapter, said once: each handler is a
chain of the changes below, with the checks the code made before them. -/
namespace MxGpu.Sched

open Relation PriorityLists Function

def SameRequest (e e' : Event) : Prop := e' = { e with status := e'.status }

def queuedByHandler : EventId → Bool
  | .handleCrash | .schedSetVfCondAvail | .reqGpuReset => true
  | _ => false

def locksScheduler : EventId → Bool
  | .schedSuspend | .schedSuspendLive | .enterPowerSaving | .exitPowerSaving
  | .reqGpuDebug => true
  | _ => false

/-- Handlers mark events and queue events nobody waits for, each with an id that
is `asked`; nothing is lost. -/
structure Retains (asked : EventId → Prop) (p p' : EventPipe) : Prop where
  lists : ∀ level, List.Forall₂ SameRequest (p.eventList level) (p'.eventList level)
  queue : ∃ kept added, p'.eventQueue = kept ++ added ∧
    List.Forall₂ SameRequest p.eventQueue kept ∧
    added.Pairwise (fun e e' => e.entry < e'.entry) ∧
    ∀ e ∈ added, e.signal = none ∧ p.freshEntry ≤ e.entry ∧ e.entry < p'.freshEntry ∧ asked e.id
  cursor : p'.currEventListIdx = p.currEventListIdx ∧ p'.nextEvent = p.nextEvent
  fresh : p.freshEntry ≤ p'.freshEntry

/-- A function taken out of use: its state becomes available or unavailable. -/
def Retires (vf vf' : VfInfo) : Prop :=
  vf' = vf ∨ vf' = { vf with state := .avail } ∨ vf' = { vf with state := .unavail }

section

variable (cfg : Config)

inductive Disturbance : SchedState → SchedState → Prop
  | retire {s : SchedState} (arrayVf : Nat → VfInfo)
      (each : ∀ idxVf, Retires (s.arrayVf idxVf) (arrayVf idxVf)) :
      Disturbance s { s with arrayVf := arrayVf }
  | pfReinit {s : SchedState} (pf : PfReinit) : Disturbance s (s.initPfStateLate cfg pf)

structure Steady (cfg : Config) (s s' : SchedState) : Prop where
  vf : ∀ idxVf, s'.arrayVf idxVf = { s.arrayVf idxVf with state := (s'.arrayVf idxVf).state }
  mask : s'.logicalSchedFaMask = s.logicalSchedFaMask
  used : s'.usedTimeFullAccess = s.usedTimeFullAccess
  locks : s'.lockWorldSwitch = s.lockWorldSwitch ∧ s'.isInPowersaving = s.isInPowersaving
  /-- A reset gives full access to nobody but the PF. -/
  access : ∀ v, v ≠ pfIdx → s'.Holds cfg v → s.Holds cfg v

/-- One change made while `event` is handled from the state `s₀`. -/
inductive Change (env : Env) (event : Event) (s₀ : SchedState) : SchedState → SchedState → Prop
  | disturb {s s' : SchedState} (reset : Disturbance cfg s s') : Change env event s₀ s s'
  | suspend {s : SchedState} (idxVf : Nat) (active : s.isActiveVf idxVf) :
      Change env event s₀ s (s.setToSuspendVf idxVf)
  | importSuspend {s : SchedState} (asked : event.id = .liveMigrationManifestData)
      (done : env.importStaticDone) (cond : s.isCondAvailVf event.idxVf =
        s₀.isCondAvailVf event.idxVf) : Change env event s₀ s (s.setToSuspendVf event.idxVf)
  | activate {s : SchedState}
      (cond : s.isCondAvailVf event.idxVf = s₀.isCondAvailVf event.idxVf)
      (allowed : s₀.isFullAccessVf cfg event.idxVf ∧
          s₀.isAnyShareEngineVfInFullAccess cfg event.idxVf ∨ s₀.isSuspendVf event.idxVf) :
      Change env event s₀ s (s.setToActiveVf event.idxVf)
  | condAvail {s : SchedState} (free : ¬s₀.isAnyShareEngineVfInFullAccess cfg event.idxVf)
      (access : event.idxVf ≠ pfIdx → s.Holds cfg event.idxVf → s₀.Holds cfg event.idxVf) :
      Change env event s₀ s (s.setToCondAvailVf event.idxVf)
  | force {s : SchedState} (asked : event.id = .reqGpuInitData) (initialised : env.critRegionOk) :
      Change env event s₀ s (s.setToAvailVfForce event.idxVf)
  | dirty {s : SchedState} (idxVf : Nat) (fbDirty : Bool) :
      Change env event s₀ s (s.setVf idxVf fun vf => { vf with fbDirty := fbDirty })
  | grant {s : SchedState} (now : Time) (steady : Steady cfg s₀ s)
      (free : ¬s₀.isAnyShareEngineVfInFullAccess cfg event.idxVf)
      (init : event.id = .reqGpuInit → ¬s₀.isCondAvailVf event.idxVf)
      (fini : event.id = .reqGpuFini → s₀.isActiveVf event.idxVf)
      (asked : event.id = .reqGpuInit ∨ event.id = .reqGpuFini ∨ event.id = .reqGpuReset) :
      Change env event s₀ s (s.grantFullAccess cfg now event.idxVf event.id)
  /-- An exit from full access; a finished event stands for the timeout check. -/
  | clear {s : SchedState} (idxVf : Nat)
      (held : cfg.enablePerPartitionFullAccess → (s.arrayVf idxVf).inFullAccess)
      (ends : s₀.isAnyShareEngineVfInFullAccess cfg event.idxVf ∨ event.status = .finished) :
      Change env event s₀ s (s.clearFullAccess cfg idxVf)
  | suspendLive (asked : event.id = .schedSuspendLive)
      (shared : s₀.isAnyShareEngineVfInFullAccess cfg event.idxVf) :
      Change env event s₀ s₀ (s₀.suspendLive cfg env.now)
  | resumeLive (asked : event.id = .schedResumeLive)
      (shared : s₀.isAnyShareEngineVfInFullAccess cfg event.idxVf) :
      Change env event s₀ s₀ (s₀.resumeLive cfg env.now)
  | pause (asked : event.id = .schedSuspendVf) (alone : ¬env.engineShared)
      (shared : s₀.isAnyShareEngineVfInFullAccess cfg event.idxVf)
      (holds : s₀.isFullAccessVf cfg event.idxVf) :
      Change env event s₀ s₀ (s₀.pauseFullAccess cfg env.now event.idxVf)
  | resume (asked : event.id = .schedResumeVf)
      (shared : s₀.isAnyShareEngineVfInFullAccess cfg event.idxVf)
      (holds : s₀.isFullAccessVf cfg event.idxVf) :
      Change env event s₀ s₀ (s₀.resumeFullAccess cfg env.now event.idxVf)
  | stop (asked : event.id = .schedStopVf)
      (shared : s₀.isAnyShareEngineVfInFullAccess cfg event.idxVf)
      (holds : s₀.isFullAccessVf cfg event.idxVf) :
      Change env event s₀ s₀ (s₀.stopFullAccess cfg env.now event.idxVf)
  | restore (asked : event.id = .schedResumeLive) (gpuv : cfg.gpuvLiveUpdate)
      (free : ¬s₀.isAnyShareEngineVfInFullAccess cfg event.idxVf) :
      Change env event s₀ s₀ (s₀.restoreLive cfg env.now env.liveInfo)
  | locks {s : SchedState} (lockWorldSwitch isInPowersaving inLiveDebugging : Bool)
      (unlocks : locksScheduler event.id ∨
        lockWorldSwitch = false ∧ isInPowersaving = s.isInPowersaving) :
      Change env event s₀ s { s with
        lockWorldSwitch := lockWorldSwitch
        isInPowersaving := isInPowersaving
        inLiveDebugging := inLiveDebugging }

/-- Between two adapters: resets only, or any changes made for an event. -/
def Disturbs (a a' : Adapter) : Prop :=
  Retains (fun id => queuedByHandler id) a.pipe a'.pipe ∧
    ReflTransGen (Disturbance cfg) a.sched a'.sched

def Changes (env : Env) (event : Event) (s₀ : SchedState) (a a' : Adapter) : Prop :=
  Retains (fun id => queuedByHandler id ∨ event.id = .schedResumeLive) a.pipe a'.pipe ∧
    ReflTransGen (Change cfg env event s₀) a.sched a'.sched

end

theorem SameRequest.refl (e : Event) : SameRequest e e := rfl

theorem SameRequest.trans {e e' e'' : Event} (first : SameRequest e e')
    (second : SameRequest e' e'') : SameRequest e e'' := by
  unfold SameRequest at *
  rw [second, first]

theorem forall₂_sameRequest_refl (l : List Event) : List.Forall₂ SameRequest l l :=
  List.forall₂_same.mpr fun e _ => SameRequest.refl e

theorem forall₂_sameRequest_trans {l l' l'' : List Event}
    (first : List.Forall₂ SameRequest l l') (second : List.Forall₂ SameRequest l' l'') :
    List.Forall₂ SameRequest l l'' := by
  induction first generalizing l'' with
  | nil => cases second; exact .nil
  | cons same _ ih =>
    cases second with
    | cons same' rest => exact .cons (same.trans same') (ih rest)

theorem forall₂_sameRequest_map {α : Type} {l l' : List Event} (f : Event → α)
    (ignores : ∀ e status, f { e with status := status } = f e)
    (same : List.Forall₂ SameRequest l l') : l'.map f = l.map f := by
  induction same with
  | nil => rfl
  | @cons e e' _ _ request _ ih =>
    rw [List.map_cons, List.map_cons, ih, request, ignores]

theorem Retains.refl {asked : EventId → Prop} (p : EventPipe) : Retains asked p p where
  lists level := forall₂_sameRequest_refl _
  queue := ⟨p.eventQueue, [], by simp, forall₂_sameRequest_refl _, by simp⟩
  cursor := ⟨rfl, rfl⟩
  fresh := le_rfl

theorem forall₂_sameRequest_mem {l l' : List Event} (same : List.Forall₂ SameRequest l l')
    {e' : Event} (member : e' ∈ l') : ∃ e ∈ l, SameRequest e e' := by
  obtain ⟨i, bound, rfl⟩ := List.getElem_of_mem member
  have shorter : i < l.length := by rw [same.length_eq]; exact bound
  exact ⟨l[i], List.getElem_mem shorter, same.get shorter bound⟩

theorem forall₂_sameRequest_mem' {l l' : List Event} (same : List.Forall₂ SameRequest l l')
    {e : Event} (member : e ∈ l) : ∃ e' ∈ l', SameRequest e e' := by
  obtain ⟨i, bound, rfl⟩ := List.getElem_of_mem member
  have longer : i < l'.length := by rw [← same.length_eq]; exact bound
  exact ⟨l'[i], List.getElem_mem longer, same.get bound longer⟩

theorem Retains.weaken {asked weaker : EventId → Prop} {p p' : EventPipe}
    (implies : ∀ id, asked id → weaker id) (retains : Retains asked p p') :
    Retains weaker p p' where
  lists := retains.lists
  queue := by
    obtain ⟨kept, added, split, same, sorted, quiet⟩ := retains.queue
    refine ⟨kept, added, split, same, sorted, fun e member => ?_⟩
    obtain ⟨silent, low, high, id⟩ := quiet e member
    exact ⟨silent, low, high, implies _ id⟩
  cursor := retains.cursor
  fresh := retains.fresh

theorem Retains.trans {asked : EventId → Prop} {p p' p'' : EventPipe}
    (first : Retains asked p p') (second : Retains asked p' p'') : Retains asked p p'' where
  lists level := forall₂_sameRequest_trans (first.lists level) (second.lists level)
  queue := by
    obtain ⟨kept, added, split, same, sorted, quiet⟩ := first.queue
    obtain ⟨kept', added', split', same', sorted', quiet'⟩ := second.queue
    rw [split] at same'
    obtain ⟨early, late, parts, sameEarly, sameLate⟩ :
        ∃ early late, kept' = early ++ late ∧ List.Forall₂ SameRequest kept early ∧
          List.Forall₂ SameRequest added late := by
      refine ⟨kept'.take kept.length, kept'.drop kept.length, by simp, ?_, ?_⟩
      · have := List.forall₂_take kept.length same'
        simpa using this
      · have := List.forall₂_drop kept.length same'
        simpa using this
    have fromAdded : ∀ e ∈ late, e.signal = none ∧ p.freshEntry ≤ e.entry ∧
        e.entry < p'.freshEntry ∧ asked e.id := by
      intro e member
      obtain ⟨origin, there, request⟩ := forall₂_sameRequest_mem sameLate member
      rw [request]
      exact quiet origin there
    have sortedLate : late.Pairwise fun e e' => e.entry < e'.entry := by
      have entries := forall₂_sameRequest_map Event.entry (fun _ _ => rfl) sameLate
      have := List.pairwise_map.mpr sorted
      rw [← entries] at this
      exact List.pairwise_map.mp this
    refine ⟨early, late ++ added', by rw [split', parts, List.append_assoc],
      forall₂_sameRequest_trans same sameEarly,
      List.pairwise_append.mpr ⟨sortedLate, sorted', fun e old e' new =>
        lt_of_lt_of_le (fromAdded e old).2.2.1 (quiet' e' new).2.1⟩, ?_⟩
    intro e member
    rcases List.mem_append.mp member with old | new
    · obtain ⟨silent, low, high, id⟩ := fromAdded e old
      exact ⟨silent, low, lt_of_lt_of_le high second.fresh, id⟩
    · obtain ⟨silent, low, high, id⟩ := quiet' e new
      exact ⟨silent, le_trans first.fresh low, high, id⟩
  cursor := ⟨second.cursor.1.trans first.cursor.1, second.cursor.2.trans first.cursor.2⟩
  fresh := le_trans first.fresh second.fresh

theorem markFinished_sameRequest (id : EventId) (l : List Event) :
    List.Forall₂ SameRequest l (l.map (EventPipe.markFinished id)) := by
  refine List.forall₂_map_right_iff.mpr (List.forall₂_same.mpr fun e _ => ?_)
  unfold EventPipe.markFinished
  split <;> rfl

theorem finishEvent_retains {asked : EventId → Prop} (p : EventPipe) (level : Fin 6)
    (id : EventId) : Retains asked p (p.finishEvent level id) where
  lists other := by
    unfold EventPipe.finishEvent
    by_cases same : other = level
    · subst same
      simpa using markFinished_sameRequest id (p.eventList other)
    · simpa [update_of_ne same] using forall₂_sameRequest_refl _
  queue := ⟨p.eventQueue.map (EventPipe.markFinished id), [], by simp [EventPipe.finishEvent],
    markFinished_sameRequest id _, by simp⟩
  cursor := ⟨rfl, rfl⟩
  fresh := le_rfl

theorem removeStaleEventsAfterWgr_retains {asked : EventId → Prop} (p : EventPipe) :
    Retains asked p p.removeStaleEventsAfterWgr := by
  unfold EventPipe.removeStaleEventsAfterWgr
  iterate 7 refine Retains.trans ?_ (finishEvent_retains _ _ _)
  exact finishEvent_retains _ _ _

theorem queuePushEx_retains {asked : EventId → Prop} {p p' : EventPipe}
    {powersaving allocated : Bool} {idxVf : Nat} {id : EventId} {fbClearType : FbClearType}
    (own : asked id)
    (pushed : p.queuePushEx powersaving allocated idxVf id none fbClearType = some p') :
    Retains asked p p' := by
  unfold EventPipe.queuePushEx at pushed
  split at pushed
  · cases pushed
  split at pushed
  · cases pushed
  split at pushed
  · cases pushed
  obtain rfl := Option.some.inj pushed
  exact ⟨fun _ => forall₂_sameRequest_refl _,
    ⟨p.eventQueue, _, rfl, forall₂_sameRequest_refl _, by simp [own]⟩, ⟨rfl, rfl⟩, by simp⟩

section

variable {cfg : Config}

theorem VfInfo.retires_state (vf : VfInfo) {state : VfState}
    (quiet : state = .avail ∨ state = .unavail) : Retires vf { vf with state := state } := by
  rcases quiet with rfl | rfl
  · exact .inr (.inl rfl)
  · exact .inr (.inr rfl)

theorem retire_setVf (s : SchedState) (idxVf : Nat) {state : VfState}
    (quiet : state = .avail ∨ state = .unavail) :
    Disturbance cfg s (s.setVf idxVf fun vf => { vf with state := state }) := by
  refine .retire _ fun other => ?_
  by_cases same : other = idxVf
  · subst same
    rw [update_self]
    exact VfInfo.retires_state _ quiet
  · rw [update_of_ne same]
    exact .inl rfl

theorem setToAvailVf_disturbance (s : SchedState) (idxVf : Nat) :
    Disturbance cfg s (s.setToAvailVf idxVf) := retire_setVf s idxVf (.inl rfl)

theorem setToUnavailVf_disturbance (s : SchedState) (idxVf : Nat) :
    Disturbance cfg s (s.setToUnavailVf idxVf) := retire_setVf s idxVf (.inr rfl)

theorem availAfterGpuReset_disturbance (s : SchedState) :
    Disturbance cfg s (s.availAfterGpuReset cfg) := by
  refine .retire _ fun idxVf => ?_
  split
  · exact .inr (.inl rfl)
  · exact .inl rfl

theorem removePendingVfs_disturbance (s : SchedState) (pendingRemove : Nat → Bool)
    (idxVf : Nat) : Disturbance cfg s (s.removePendingVfs cfg pendingRemove idxVf) := by
  refine .retire _ fun other => ?_
  split
  · exact .inr (.inl rfl)
  · exact .inl rfl

theorem handleRma_disturbance (s : SchedState) : Disturbance cfg s (s.handleRma cfg) := by
  refine .retire _ fun idxVf => ?_
  split
  · exact .inr (.inr rfl)
  · exact .inl rfl

theorem Disturbance.steady {s s' : SchedState} (reset : Disturbance cfg s s') :
    Steady cfg s s' := by
  cases reset with
  | retire arrayVf each =>
    have vf : ∀ idxVf, arrayVf idxVf =
        { s.arrayVf idxVf with state := (arrayVf idxVf).state } := by
      intro idxVf
      rcases each idxVf with same | avail | unavail
      · rw [same]
      · rw [avail]
      · rw [unavail]
    refine ⟨vf, rfl, rfl, ⟨rfl, rfl⟩, fun v _ holds => ?_⟩
    have flag : (arrayVf v).inFullAccess = (s.arrayVf v).inFullAccess := by rw [vf v]
    simpa only [SchedState.Holds, SchedState.isVfInFullAccess, SchedState.isFullAccessVf,
      flag] using holds
  | pfReinit pf =>
    -- with partitions the flags decide, without them the index is the PF's or nobody's
    have access : ∀ s' : SchedState, s'.arrayVf = s.arrayVf →
        (s'.inFullAccess → s'.idxVfFullAccess = pfIdx) → ∀ v, v ≠ pfIdx → s'.Holds cfg v →
        s.Holds cfg v := by
      intro s' vfs index v vf holds
      by_cases partitioned : cfg.enablePerPartitionFullAccess
      · rw [SchedState.holds_partition partitioned] at holds ⊢
        rw [← vfs]
        exact holds
      · obtain ⟨inside, idx⟩ := (SchedState.holds_whole partitioned).mp holds
        exact absurd (idx.symm.trans (index inside)) vf
    unfold SchedState.initPfStateLate
    split
    · cases pf with
      | notReached => exact ⟨fun _ => rfl, rfl, rfl, ⟨rfl, rfl⟩, fun _ _ holds => holds⟩
      | saveFailed now =>
        exact ⟨fun _ => rfl, rfl, rfl, ⟨rfl, rfl⟩, access _ rfl fun _ => rfl⟩
      | finished =>
        exact ⟨fun _ => rfl, rfl, rfl, ⟨rfl, rfl⟩,
          access _ rfl fun inside => Bool.noConfusion inside⟩
    · exact ⟨fun _ => rfl, rfl, rfl, ⟨rfl, rfl⟩, fun _ _ holds => holds⟩

theorem Steady.refl (s : SchedState) : Steady cfg s s :=
  ⟨fun _ => rfl, rfl, rfl, ⟨rfl, rfl⟩, fun _ _ holds => holds⟩

theorem Steady.trans {s s' s'' : SchedState} (first : Steady cfg s s')
    (second : Steady cfg s' s'') : Steady cfg s s'' where
  vf idxVf := by rw [second.vf, first.vf]
  mask := second.mask.trans first.mask
  used := second.used.trans first.used
  locks := ⟨second.locks.1.trans first.locks.1, second.locks.2.trans first.locks.2⟩
  access v vf holds := first.access v vf (second.access v vf holds)

theorem Disturbs.refl (a : Adapter) : Disturbs cfg a a := ⟨.refl _, .refl⟩

theorem Disturbs.trans {a a' a'' : Adapter} (first : Disturbs cfg a a')
    (second : Disturbs cfg a' a'') : Disturbs cfg a a'' :=
  ⟨first.1.trans second.1, first.2.trans second.2⟩

theorem steady_of_disturbances {s s' : SchedState}
    (resets : ReflTransGen (Disturbance cfg) s s') : Steady cfg s s' := by
  induction resets with
  | refl => exact Steady.refl s
  | tail _ reset ih => exact ih.trans reset.steady

theorem Disturbs.steady {a a' : Adapter} (resets : Disturbs cfg a a') :
    Steady cfg a.sched a'.sched := steady_of_disturbances resets.2

theorem mapSched_disturbs (a : Adapter) {f : SchedState → SchedState}
    (reset : Disturbance cfg a.sched (f a.sched)) : Disturbs cfg a (a.mapSched f) :=
  ⟨.refl _, .single reset⟩

theorem queueEvent_disturbs (a : Adapter) (accepted : Bool) (idxVf : Nat) {id : EventId}
    (own : queuedByHandler id) : Disturbs cfg a (a.queueEvent accepted idxVf id) := by
  unfold Adapter.queueEvent
  split
  · rename_i pushed
    exact ⟨queuePushEx_retains own pushed, .refl⟩
  · exact .refl a

theorem gpuResetWrap_disturbs (a : Adapter) (reset : GpuReset) :
    Disturbs cfg a (a.gpuResetWrap cfg reset).1 := by
  cases reset with
  | dropped ok => exact .refl a
  | failed pf => exact mapSched_disturbs a (.pfReinit pf)
  | done pf =>
    exact ⟨removeStaleEventsAfterWgr_retains _,
      .head (.pfReinit pf) (.single (availAfterGpuReset_disturbance _))⟩

theorem resetVf_disturbs (a : Adapter) (reset : VfReset) :
    Disturbs cfg a (a.resetVf cfg reset).1 := by
  cases reset with
  | flr ok => exact .refl a
  | gpu reset => exact gpuResetWrap_disturbs a reset

theorem resetVfAuto_disturbs (a : Adapter) (reset : AutoReset) :
    Disturbs cfg a (a.resetVfAuto cfg reset).1 := by
  cases reset with
  | nothing ok => exact .refl a
  | flr idxVf pendingRemove =>
    exact ⟨.refl _, .head (setToAvailVf_disturbance _ idxVf)
      (.single (removePendingVfs_disturbance _ pendingRemove idxVf))⟩
  | flrFailed idxVf => exact mapSched_disturbs a (setToAvailVf_disturbance _ idxVf)
  | flrThenGpu idxVf reset =>
    exact (mapSched_disturbs a (setToAvailVf_disturbance _ idxVf)).trans
      (gpuResetWrap_disturbs _ reset)
  | gpu reset => exact gpuResetWrap_disturbs a reset

theorem resetVfAutoIf_disturbs (a : Adapter) (reset : Option AutoReset) :
    Disturbs cfg a (a.resetVfAutoIf cfg reset) := by
  cases reset with
  | none => exact .refl a
  | some reset => exact resetVfAuto_disturbs a reset

theorem contextOneTimeLoop_disturbs (a : Adapter) (pendingRemove : Nat → Bool) (idxVf : Nat)
    (failed : Option AutoReset) :
    Disturbs cfg a (a.contextOneTimeLoop cfg pendingRemove idxVf failed) := by
  unfold Adapter.contextOneTimeLoop
  split
  · exact .refl a
  · exact (mapSched_disturbs a (removePendingVfs_disturbance _ pendingRemove idxVf)).trans
      (resetVfAutoIf_disturbs _ failed)

theorem handleOrphanVf_disturbs (a : Adapter) (reset : VfReset) (idxVf : Nat) :
    Disturbs cfg a (a.handleOrphanVf cfg reset idxVf).1 := by
  unfold Adapter.handleOrphanVf
  split
  · exact (mapSched_disturbs a (setToAvailVf_disturbance _ idxVf)).trans (resetVf_disturbs _ _)
  · exact .refl a

theorem prepareFullAccess_disturbs (a : Adapter) (env : EnterEnv) (event : Event) :
    Disturbs cfg a (a.prepareFullAccess cfg env event).1 := by
  unfold Adapter.prepareFullAccess
  dsimp only
  set pf := if event.id = .reqGpuReset ∧ event.idxVf = pfIdx ∧ env.switchedToPf then
    (a.resetVf cfg env.pfReset).1 else a with pfDef
  set stopped := if env.stateOk then pf else (pf.resetVfAuto cfg env.stopReset).1 with stoppedDef
  have toPf : Disturbs cfg a pf := by
    rw [pfDef]
    split
    · exact resetVf_disturbs a _
    · exact .refl a
  have toStopped : Disturbs cfg a stopped := by
    rw [stoppedDef]
    split
    · exact toPf
    · exact toPf.trans (resetVfAuto_disturbs _ _)
  have toOrphan := toStopped.trans (handleOrphanVf_disturbs stopped env.orphanReset event.idxVf)
  split
  · exact toStopped
  · split
    · split
      · exact toOrphan.trans (resetVfAuto_disturbs _ _)
      · exact toOrphan
    · exact toStopped

theorem releaseRequest_disturbs (a : Adapter) (env : ExitEnv) (event : Event) :
    Disturbs cfg a (a.releaseRequest env event).1 := by
  unfold Adapter.releaseRequest
  split
  · split
    · exact .refl a
    · exact mapSched_disturbs a (setToAvailVf_disturbance _ _)
  · exact .refl a

variable {handler : Env} {event : Event} {s₀ : SchedState}

theorem Disturbs.changes {a a' : Adapter} (resets : Disturbs cfg a a') :
    Changes cfg handler event s₀ a a' :=
  ⟨resets.1.weaken fun _ => .inl, ReflTransGen.mono (fun _ _ reset => .disturb reset) _ _ resets.2⟩

theorem Changes.refl (a : Adapter) : Changes cfg handler event s₀ a a := ⟨.refl _, .refl⟩

theorem Changes.trans {a a' a'' : Adapter} (first : Changes cfg handler event s₀ a a')
    (second : Changes cfg handler event s₀ a' a'') : Changes cfg handler event s₀ a a'' :=
  ⟨first.1.trans second.1, first.2.trans second.2⟩

theorem mapSched_changes (a : Adapter) {f : SchedState → SchedState}
    (change : Change cfg handler event s₀ a.sched (f a.sched)) :
    Changes cfg handler event s₀ a (a.mapSched f) := ⟨.refl _, .single change⟩

theorem queueSetVfCondAvail_changes (a : Adapter) (inHive fbSharingAllowed accepted : Bool)
    (idxVf : Nat) :
    Changes cfg handler event s₀ a
      (a.queueSetVfCondAvail inHive fbSharingAllowed accepted idxVf) := by
  have queued : ∀ (b : Adapter) (idx : Nat),
      Changes cfg handler event s₀ b (b.queueEvent accepted idx .schedSetVfCondAvail) :=
    fun b idx => (queueEvent_disturbs b accepted idx rfl).changes
  unfold Adapter.queueSetVfCondAvail
  dsimp only
  split
  · split <;> split
    · exact queued _ _
    · exact (queued _ _).trans (queued _ _)
    · exact .refl a
    · exact queued _ _
  · split
    · exact .refl a
    · exact queued _ _

theorem serveRequest_changes (a : Adapter) (env : EnterEnv)
    (free : ¬s₀.isAnyShareEngineVfInFullAccess cfg event.idxVf)
    (access : event.idxVf ≠ pfIdx → a.sched.Holds cfg event.idxVf → s₀.Holds cfg event.idxVf) :
    Changes cfg handler event s₀ a (a.serveRequest cfg env event).1 ∧
      ((a.serveRequest cfg env event).2 → (a.serveRequest cfg env event).1 = a) := by
  unfold Adapter.serveRequest
  split
  · split
    · exact ⟨.refl a, fun _ => rfl⟩
    · split
      · exact ⟨(mapSched_changes a (.condAvail free access)).trans
          (queueSetVfCondAvail_changes _ _ _ _ _), fun served => nomatch served⟩
      · exact ⟨.refl a, fun _ => rfl⟩
  · exact ⟨.refl a, fun _ => rfl⟩
  · split <;> exact ⟨.refl a, fun _ => rfl⟩
  · exact ⟨.refl a, fun _ => rfl⟩

theorem enterFullAccess_changes (a : Adapter) (env : EnterEnv) (event : Event)
    (free : ¬a.sched.isAnyShareEngineVfInFullAccess cfg event.idxVf)
    (init : event.id = .reqGpuInit → ¬a.sched.isCondAvailVf event.idxVf)
    (fini : event.id = .reqGpuFini → a.sched.isActiveVf event.idxVf)
    (asked : event.id = .reqGpuInit ∨ event.id = .reqGpuFini ∨ event.id = .reqGpuReset) :
    Changes cfg handler event a.sched a (a.enterFullAccess cfg env event).1 := by
  have prepared : Disturbs cfg a (a.prepareFullAccess cfg env event).1 :=
    prepareFullAccess_disturbs a env event
  have toPrepared : Changes cfg handler event a.sched a (a.prepareFullAccess cfg env event).1 :=
    prepared.changes
  obtain ⟨served, kept⟩ :
      Changes cfg handler event a.sched _ ((a.prepareFullAccess cfg env event).1.serveRequest cfg
        env event).1 ∧ _ :=
    serveRequest_changes _ env free (prepared.steady.access _)
  unfold Adapter.enterFullAccess
  dsimp only
  split
  · exact toPrepared
  · split
    · have upTo := toPrepared.trans served
      split
      · exact upTo.trans (queueEvent_disturbs _ _ _ rfl).changes
      · exact upTo.trans (resetVfAuto_disturbs _ _).changes
    · rename_i passed
      have success : ((a.prepareFullAccess cfg env event).1.serveRequest cfg env event).2 :=
        by simpa using fun refused => passed (.inl refused)
      rw [kept success]
      exact toPrepared.trans
        (mapSched_changes _ (.grant env.now prepared.steady free init fini asked))

theorem Steady.held {s s' : SchedState} (steady : Steady cfg s s') (idxVf : Nat) :
    (s'.arrayVf idxVf).inFullAccess = (s.arrayVf idxVf).inFullAccess := by
  rw [steady.vf]

theorem Steady.cond {s s' : SchedState} (steady : Steady cfg s s') (idxVf : Nat) :
    s'.isCondAvailVf idxVf = s.isCondAvailVf idxVf := by
  unfold SchedState.isCondAvailVf
  rw [steady.vf]

theorem isFullAccessVf_held {s : SchedState} {idxVf : Nat}
    (holds : s.isFullAccessVf cfg idxVf) (partitioned : cfg.enablePerPartitionFullAccess) :
    (s.arrayVf idxVf).inFullAccess := by
  simpa [SchedState.isFullAccessVf, partitioned] using holds

/-- What an exit does before it clears full access: resets, the function added back
to its world switches, resets. -/
theorem exitFullAccess_ends (cfg : Config) (a : Adapter) (env : ExitEnv) (event : Event) :
    ∃ checked added readded, Disturbs cfg a checked ∧
      (added = checked ∨ added = checked.mapSched fun s => s.setToActiveVf event.idxVf) ∧
      Disturbs cfg added readded ∧ a.exitFullAccess cfg env event =
        readded.mapSched fun s => s.clearFullAccess cfg event.idxVf := by
  unfold Adapter.exitFullAccess
  dsimp only
  set released := a.releaseRequest env event with releasedDef
  set checked := if released.2 then (released.1, true)
    else released.1.resetVfAuto cfg env.hungReset with checkedDef
  have toReleased : Disturbs cfg a released.1 := releaseRequest_disturbs a env event
  have toChecked : Disturbs cfg a checked.1 := by
    rw [checkedDef]
    split
    · exact toReleased
    · exact toReleased.trans (resetVfAuto_disturbs _ _)
  set vfInit : Bool := decide (event.id = .relGpuInit ∧ env.vfInitialized ∧ released.2)
  set added := if vfInit then
    checked.1.mapSched fun s => s.addVf env.addVfActivates event.idxVf else checked.1 with addedDef
  have toAdded : added = checked.1 ∨
      added = checked.1.mapSched fun s => s.setToActiveVf event.idxVf := by
    rw [addedDef]
    unfold SchedState.addVf
    split
    · split
      · exact .inr rfl
      · exact .inl rfl
    · exact .inl rfl
  split
  · exact ⟨_, _, _, toChecked, .inl rfl, .refl _, rfl⟩
  · split
    · exact ⟨_, _, _, toChecked, toAdded, .refl _, rfl⟩
    · exact ⟨_, _, _, toChecked, toAdded, contextOneTimeLoop_disturbs _ _ _ _, rfl⟩

theorem exitFullAccess_changes (a : Adapter) (env : ExitEnv) (event : Event)
    (holds : a.sched.isFullAccessVf cfg event.idxVf)
    (shared : a.sched.isAnyShareEngineVfInFullAccess cfg event.idxVf) :
    Changes cfg handler event a.sched a (a.exitFullAccess cfg env event) := by
  obtain ⟨checked, added, readded, toChecked, toAdded, toReadded, ends⟩ :=
    exitFullAccess_ends cfg a env event
  have active : Changes cfg handler event a.sched checked added ∧
      (added.sched.arrayVf event.idxVf).inFullAccess =
        (checked.sched.arrayVf event.idxVf).inFullAccess := by
    rcases toAdded with rfl | rfl
    · exact ⟨.refl _, rfl⟩
    · refine ⟨mapSched_changes _ (.activate (toChecked.steady.cond _) (.inl ⟨holds, shared⟩)), ?_⟩
      simp [Adapter.mapSched, SchedState.setToActiveVf]
  rw [ends]
  refine ((toChecked.changes.trans active.1).trans toReadded.changes).trans
    (mapSched_changes _ (.clear event.idxVf (fun partitioned => ?_) (.inl shared)))
  rw [toReadded.steady.held, active.2, toChecked.steady.held]
  exact isFullAccessVf_held holds partitioned

/-- The function a timeout takes full access from. -/
def timedOutVf (cfg : Config) (s : SchedState) (vfIdx : Nat) : Nat :=
  if cfg.enablePerPartitionFullAccess then vfIdx else s.idxVfFullAccess

theorem exitFullAccessTimeout_ends (cfg : Config) (a : Adapter) (env : TimeoutEnv) (vfIdx : Nat) :
    ∃ looped, Disturbs cfg a looped ∧ a.exitFullAccessTimeout cfg env vfIdx =
      looped.mapSched fun s => s.clearFullAccess cfg (timedOutVf cfg a.sched vfIdx) := by
  unfold Adapter.exitFullAccessTimeout timedOutVf
  dsimp only
  set idxVf := if cfg.enablePerPartitionFullAccess then vfIdx else a.sched.idxVfFullAccess
  set reset := (a.mapSched fun s => s.setToAvailVf idxVf).resetVf cfg env.vfReset
  have toReset : Disturbs cfg a reset.1 :=
    (mapSched_disturbs a (setToAvailVf_disturbance _ idxVf)).trans (resetVf_disturbs _ _)
  refine ⟨_, ?_, rfl⟩
  split
  · exact toReset.trans (contextOneTimeLoop_disturbs _ _ _ _)
  · exact toReset

theorem exitFullAccessTimeout_changes (a : Adapter) (env : TimeoutEnv) (vfIdx : Nat)
    (held : cfg.enablePerPartitionFullAccess → (a.sched.arrayVf vfIdx).inFullAccess)
    (ends : s₀.isAnyShareEngineVfInFullAccess cfg event.idxVf ∨ event.status = .finished) :
    Changes cfg handler event s₀ a (a.exitFullAccessTimeout cfg env vfIdx) := by
  obtain ⟨looped, toLooped, exited⟩ := exitFullAccessTimeout_ends cfg a env vfIdx
  rw [exited]
  refine toLooped.changes.trans (mapSched_changes _ (.clear _ (fun partitioned => ?_) ends))
  rw [toLooped.steady.held, timedOutVf, if_pos partitioned]
  exact held partitioned

/-- What the switch of `handle_event_in_full_access` checked before it selected
an action. -/
def Justified (cfg : Config) (env : Env) (s : SchedState) (event : Event) :
    FullAccessAction → Prop
  | .ignore | .pushBack | .release => True
  | .suspendLive => event.id = .schedSuspendLive
  | .resumeLive => event.id = .schedResumeLive
  | .exitFullAccess => s.isFullAccessVf cfg event.idxVf ∧ s.isEventPair cfg event
  | .exitTimeout => event.id = .relGpuFini ∧ s.isFullAccessVf cfg event.idxVf
  | .pauseFullAccess => event.id = .schedSuspendVf ∧ s.isFullAccessVf cfg event.idxVf ∧
      !env.engineShared
  | .suspendVf => event.id = .schedSuspendVf ∧ s.isActiveVf event.idxVf
  | .resumeFullAccess => event.id = .schedResumeVf ∧ s.isFullAccessVf cfg event.idxVf
  | .resumeVf => event.id = .schedResumeVf ∧ s.isSuspendVf event.idxVf
  | .removeVf => event.id = .schedRemoveVf
  | .stopFullAccess => event.id = .schedStopVf ∧ s.isFullAccessVf cfg event.idxVf
  | .crash => event.id = .schedStopVf ∧ s.isActiveVf event.idxVf

theorem fullAccessAction_justified (cfg : Config) (env : Env) (s : SchedState) (event : Event) :
    Justified cfg env s event (fullAccessAction cfg env s event) := by
  unfold fullAccessAction
  split
  · trivial
  split
  · trivial
  split
  · trivial
  split <;> rename_i id <;> (repeat' split) <;>
    first
    | trivial
    | exact id
    | exact ⟨by assumption, by assumption⟩
    | exact ⟨id, by assumption, by simp_all⟩

/-- A handled event is pushed back whole, or changes the adapter step by step. -/
def Outcome (cfg : Config) (env : Env) (a : Adapter) (event : Event)
    (handled : Adapter × Verdict) : Prop :=
  handled = a.deferEvent event ∨
    handled.2 ≠ .keep ∧ Changes cfg env event a.sched a handled.1

theorem handleEventInFullAccess_outcome (env : Env) (a : Adapter) (event : Event)
    (shared : a.sched.isAnyShareEngineVfInFullAccess cfg event.idxVf) :
    Outcome cfg env a event (a.handleEventInFullAccess cfg env event) := by
  have justified := fullAccessAction_justified cfg env a.sched event
  unfold Adapter.handleEventInFullAccess
  cases action : fullAccessAction cfg env a.sched event <;> rw [action] at justified <;>
    dsimp only [Justified] at justified ⊢
  case ignore => exact .inr ⟨nofun, .refl a⟩
  case pushBack => exact .inl rfl
  case release => exact .inr ⟨nofun, .refl a⟩
  case suspendLive =>
    refine .inr ⟨nofun, ?_⟩
    have saved : Changes cfg env event a.sched a (a.mapSched fun s => s.suspendLive cfg env.now) :=
      mapSched_changes a (.suspendLive justified shared)
    split
    · exact saved.trans (resetVfAutoIf_disturbs _ _).changes
    · exact saved
  case resumeLive =>
    exact .inr ⟨nofun, mapSched_changes a (.resumeLive justified shared)⟩
  case exitFullAccess =>
    exact .inr ⟨nofun, exitFullAccess_changes a env.exit event justified.1 shared⟩
  case exitTimeout =>
    exact .inr ⟨nofun, exitFullAccessTimeout_changes a env.timeout event.idxVf
      (isFullAccessVf_held justified.2) (.inl shared)⟩
  case pauseFullAccess =>
    exact .inr ⟨nofun, mapSched_changes a (.pause justified.1 (by simpa using justified.2.2) shared
      justified.2.1)⟩
  case suspendVf =>
    exact .inr ⟨nofun, mapSched_changes a (.suspend event.idxVf justified.2)⟩
  case resumeFullAccess =>
    exact .inr ⟨nofun, mapSched_changes a (.resume justified.1 shared justified.2)⟩
  case resumeVf =>
    exact .inr ⟨nofun, mapSched_changes a (.activate rfl (.inr justified.2))⟩
  case removeVf =>
    refine .inr ⟨nofun, ?_⟩
    split
    · rename_i holds
      exact (exitFullAccessTimeout_changes a env.timeout event.idxVf
        (isFullAccessVf_held holds) (.inl shared)).trans
        (mapSched_disturbs _ (setToUnavailVf_disturbance _ _)).changes
    · exact (mapSched_disturbs _ (setToUnavailVf_disturbance _ _)).changes
  case stopFullAccess =>
    exact .inr ⟨nofun, mapSched_changes a (.stop justified.1 shared justified.2)⟩
  case crash => exact .inr ⟨nofun, (queueEvent_disturbs a _ _ rfl).changes⟩

theorem requestFullAccess_outcome (env : Env) (a : Adapter) (event : Event)
    (free : ¬a.sched.isAnyShareEngineVfInFullAccess cfg event.idxVf)
    (init : event.id = .reqGpuInit → ¬a.sched.isCondAvailVf event.idxVf)
    (fini : event.id = .reqGpuFini → a.sched.isActiveVf event.idxVf)
    (asked : event.id = .reqGpuInit ∨ event.id = .reqGpuFini ∨ event.id = .reqGpuReset) :
    Outcome cfg env a event (a.requestFullAccess cfg env event) := by
  refine .inr ⟨?_, enterFullAccess_changes a env.enter event free init fini asked⟩
  unfold Adapter.requestFullAccess
  dsimp only
  split <;> exact nofun

theorem initData_outcome (env : Env) (a : Adapter) (event : Event)
    (asked : event.id = .reqGpuInitData)
    (free : ¬a.sched.isAnyShareEngineVfInFullAccess cfg event.idxVf) :
    Outcome cfg env a event (a.initData env event) := by
  have dirty : Changes cfg env event a.sched a (a.mapSched fun s =>
      s.setVf event.idxVf fun vf => { vf with fbDirty := true }) :=
    mapSched_changes a (.dirty event.idxVf true)
  unfold Adapter.initData
  dsimp only
  split
  · rename_i initialised
    refine .inr ⟨nofun, ?_⟩
    dsimp only
    split
    · exact dirty.trans (mapSched_changes _ (.force asked initialised))
    · exact dirty
  · have access : event.idxVf ≠ pfIdx →
        (a.sched.setVf event.idxVf fun vf => { vf with fbDirty := true }).Holds cfg event.idxVf →
        a.sched.Holds cfg event.idxVf :=
      fun _ holds => (SchedState.setVf_holds (by intro; rfl)).mp holds
    exact .inr ⟨nofun, (dirty.trans (mapSched_changes _ (.condAvail free access))).trans
      (queueSetVfCondAvail_changes _ _ _ _ _)⟩

theorem stopAndReset_disturbs (env : Env) (a : Adapter) (event : Event) :
    Disturbs cfg a (a.stopAndReset cfg env event) := by
  unfold Adapter.stopAndReset
  dsimp only
  split
  · exact (resetVfAutoIf_disturbs _ _).trans (resetVf_disturbs _ _)
  · exact resetVfAutoIf_disturbs _ _

theorem forceResetVf_disturbs (env : Env) (a : Adapter) (event : Event) :
    Disturbs cfg a (a.forceResetVf cfg env event) := by
  unfold Adapter.forceResetVf
  dsimp only
  set stopped := a.resetVfAutoIf cfg env.first
  set switched := if stopped.sched.isActiveVf event.idxVf then
    stopped.resetVfAutoIf cfg env.second else stopped with switchedDef
  set reset := if switched.sched.isActiveVf event.idxVf then
    (switched.resetVf cfg env.vfReset).1 else switched with resetDef
  have toStopped : Disturbs cfg a stopped := resetVfAutoIf_disturbs a env.first
  have toSwitched : Disturbs cfg a switched := by
    rw [switchedDef]
    split
    · exact toStopped.trans (resetVfAutoIf_disturbs _ _)
    · exact toStopped
  have toReset : Disturbs cfg a reset := by
    rw [resetDef]
    split
    · exact toSwitched.trans (resetVf_disturbs _ _)
    · exact toSwitched
  exact toReset.trans (mapSched_disturbs _ (setToAvailVf_disturbance _ _))

theorem handleCrash_disturbs (env : Env) (a : Adapter) (event : Event) :
    Disturbs cfg a (a.handleCrash cfg env event) := by
  have orphan : Disturbs cfg a _ := (stopAndReset_disturbs env a event).trans
    (handleOrphanVf_disturbs _ env.enter.orphanReset event.idxVf)
  unfold Adapter.handleCrash
  dsimp only
  split
  · exact orphan
  · exact orphan.trans (resetVfAuto_disturbs _ _)

theorem gpumonVfStates_disturbances (s : SchedState) (states : List (Nat × Bool)) :
    ReflTransGen (Disturbance cfg) s (s.gpumonVfStates states) := by
  unfold SchedState.gpumonVfStates
  induction states generalizing s with
  | nil => exact .refl
  | cons vf rest ih =>
    rw [List.foldl_cons]
    refine .head ?_ (ih _)
    split
    · exact setToAvailVf_disturbance s vf.1
    · exact setToUnavailVf_disturbance s vf.1

theorem queueUnprocessed_changes (asked : event.id = .schedResumeLive) (a : Adapter)
    (unprocessed : List (Nat × EventId)) :
    Changes cfg handler event s₀ a
      (unprocessed.foldl (fun a e => a.queueEvent true e.1 e.2) a) := by
  induction unprocessed generalizing a with
  | nil => exact .refl a
  | cons e rest ih =>
    refine Changes.trans ?_ (ih _)
    dsimp only
    unfold Adapter.queueEvent
    split
    · rename_i pushed
      exact ⟨queuePushEx_retains (.inr asked) pushed, .refl⟩
    · exact .refl a

theorem resumeLiveRestore_changes (env : Env) (a : Adapter) (event : Event)
    (asked : event.id = .schedResumeLive)
    (free : ¬a.sched.isAnyShareEngineVfInFullAccess cfg event.idxVf) :
    Changes cfg env event a.sched a (a.resumeLiveRestore cfg env) := by
  unfold Adapter.resumeLiveRestore
  split
  · rename_i restoring
    exact (mapSched_changes a (.restore asked restoring.1 free)).trans
      (queueUnprocessed_changes asked _ _)
  · exact .refl a

theorem handleNonFullAccessSwitch_outcome (env : Env) (a : Adapter) (event : Event)
    (free : ¬a.sched.isAnyShareEngineVfInFullAccess cfg event.idxVf) :
    Outcome cfg env a event (a.handleNonFullAccessSwitch cfg env event) := by
  have quiet : ∀ {verdict : Verdict}, verdict ≠ .keep → Outcome cfg env a event (a, verdict) :=
    fun goesOn => .inr ⟨goesOn, .refl a⟩
  have reset : ∀ reset, Changes cfg env event a.sched a (a.resetVfAutoIf cfg reset) :=
    fun reset => (resetVfAutoIf_disturbs a reset).changes
  unfold Adapter.handleNonFullAccessSwitch
  split <;> rename_i id
  · refine .inr ⟨nofun, ?_⟩
    dsimp only
    split
    · exact .refl a
    · exact queueSetVfCondAvail_changes _ _ _ _ _
  · exact initData_outcome env a event id free
  · split
    · rename_i active
      exact requestFullAccess_outcome env a event free (by simp [id]) (fun _ => active)
        (.inr (.inl id))
    · exact quiet nofun
  · split
    · exact quiet nofun
    · split
      · exact quiet nofun
      · rename_i cond
        exact requestFullAccess_outcome env a event free (fun _ => cond) (by simp [id])
          (.inl id)
  · split
    · exact requestFullAccess_outcome env a event free (by simp [id]) (by simp [id])
        (.inr (.inr id))
    · exact quiet nofun
  · split
    · exact quiet nofun
    · exact .inr ⟨nofun, (reset _).trans (mapSched_changes _ (.locks _ _ _ (.inl (by rw [id]; rfl))))⟩
  · exact .inr ⟨nofun, (reset _).trans (mapSched_changes _ (.locks _ _ _ (.inl (by rw [id]; rfl))))⟩
  · exact .inr ⟨nofun, (resumeLiveRestore_changes env a event id free).trans
      (mapSched_changes _ (.locks _ _ _ (.inr ⟨rfl, rfl⟩)))⟩
  · exact .inr ⟨nofun, mapSched_changes a (.locks _ _ _ (.inr ⟨rfl, rfl⟩))⟩
  · split
    · exact quiet nofun
    · refine .inr ⟨nofun, ?_⟩
      have switched := (reset env.first).trans
        (resetVfAutoIf_disturbs (a.resetVfAutoIf cfg env.first) env.second).changes
      dsimp only
      split
      · exact (switched.trans (mapSched_changes _ (.dirty _ _))).trans
          (resetVfAutoIf_disturbs _ _).changes
      · exact switched.trans (resetVfAutoIf_disturbs _ _).changes
  · split
    · exact .inr ⟨nofun, (forceResetVf_disturbs env a event).changes⟩
    · exact quiet nofun
  · split
    · exact quiet nofun
    · exact .inr ⟨nofun, reset _⟩
  · split
    · exact quiet nofun
    · exact .inr ⟨nofun, (resetVfAuto_disturbs a _).changes⟩
  · split
    · rename_i active
      exact .inr ⟨nofun, mapSched_changes a (.suspend event.idxVf active)⟩
    · exact quiet nofun
  · split
    · exact quiet nofun
    · split
      · rename_i suspended
        exact .inr ⟨nofun, mapSched_changes a (.activate rfl (.inr suspended))⟩
      · exact quiet nofun
  · exact .inr ⟨nofun, (mapSched_disturbs a (setToUnavailVf_disturbance _ _)).changes⟩
  · exact .inr ⟨nofun, (gpuResetWrap_disturbs a _).changes⟩
  · exact .inr ⟨nofun, (gpuResetWrap_disturbs a _).changes⟩
  · refine .inr ⟨nofun, ?_⟩
    dsimp only
    split
    · exact ((stopAndReset_disturbs env a event).trans
        (mapSched_disturbs _ (setToAvailVf_disturbance _ _))).changes
    · exact (mapSched_disturbs a (setToAvailVf_disturbance _ _)).changes
  · exact .inr ⟨nofun, (handleCrash_disturbs env a event).changes⟩
  · split
    · exact .inl rfl
    · have states : Disturbs cfg (a.resetVfAutoIf cfg env.first)
          ((a.resetVfAutoIf cfg env.first).mapSched fun s =>
            s.gpumonVfStates env.gpumonVfStates) :=
        ⟨.refl _, gpumonVfStates_disturbances _ _⟩
      exact .inr ⟨nofun, (reset _).trans states.changes⟩
  · exact .inr ⟨nofun, mapSched_changes a (.locks _ _ _ (.inl (by rw [id]; rfl)))⟩
  · unfold Adapter.enterPowerSaving
    split
    · exact quiet nofun
    · split
      · exact quiet nofun
      · refine .inr ⟨?_, mapSched_changes a (.locks _ _ _ (.inl (by rw [id]; rfl)))⟩
        dsimp only
        split <;> exact nofun
  · refine .inr ⟨nofun, ?_⟩
    dsimp only
    split
    · exact .refl a
    · exact (mapSched_disturbs a (handleRma_disturbance _)).changes
  · split
    · exact quiet nofun
    · exact .inr ⟨nofun, mapSched_changes a (.locks _ _ _ (.inl (by rw [id]; rfl)))⟩
  · split
    · exact .inr ⟨nofun, mapSched_changes a (.locks _ _ _ (.inr ⟨rfl, rfl⟩))⟩
    · exact quiet nofun
  · refine .inr ⟨nofun, ?_⟩
    dsimp only
    split
    · rename_i done
      exact mapSched_changes a (.importSuspend id done rfl)
    · exact .refl a
  · exact .inr ⟨nofun, mapSched_changes a (.condAvail free fun _ holds => holds)⟩
  · split
    · exact quiet nofun
    · refine .inr ⟨nofun, (reset env.first).trans ?_⟩
      dsimp only
      split
      · exact (resetVfAutoIf_disturbs _ _).changes
      · exact mapSched_changes _ (.locks _ _ _ (.inr ⟨rfl, rfl⟩))
  · exact quiet nofun

theorem handleEvent_outcome (env : Env) (a : Adapter) (event : Event) :
    Outcome cfg env a event (a.handleEvent cfg env event) := by
  unfold Adapter.handleEvent
  split
  · rename_i shared
    exact handleEventInFullAccess_outcome env a event shared
  · rename_i free
    unfold Adapter.handleEventInNonFullAccess
    split
    · exact .inr ⟨nofun, .refl a⟩
    · split
      · exact .inl rfl
      · split
        · exact .inl rfl
        · exact handleNonFullAccessSwitch_outcome env a event free

end

end MxGpu.Sched
