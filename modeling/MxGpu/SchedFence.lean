import MxGpu.SchedExclusive

/- A conditionally available function is fenced: not active, not suspended and not
in full access, until `REQ_GPU_INIT_DATA` of that function succeeds. -/
namespace MxGpu.Sched

open Relation MaskUnion SchedState

/-- Every conditionally available function but the PF is out of use. -/
def Fenced (cfg : Config) (s : SchedState) : Prop :=
  ∀ v, v ≠ pfIdx → s.isCondAvailVf v →
    ¬s.isActiveVf v ∧ ¬s.isSuspendVf v ∧ ¬s.Holds cfg v

def SameStates (s s' : SchedState) : Prop :=
  ∀ v, (s'.arrayVf v).state = (s.arrayVf v).state ∧
    (s'.arrayVf v).isCondAvail = (s.arrayVf v).isCondAvail

/-- What the checks of the code leave open before an event is handled. -/
structure Fences (cfg : Config) (env : Env) (event : Event) (s : SchedState) : Prop where
  /-- `REQ_GPU_RESET` looks at the state only, unless full access defers it. -/
  reset : event.id = .reqGpuReset → event.idxVf ≠ pfIdx →
    ¬s.isAnyShareEngineVfInFullAccess cfg event.idxVf → ¬s.isCondAvailVf event.idxVf
  /-- A finished static import suspends its function whatever it was. -/
  importStatic : event.id = .liveMigrationManifestData → env.importStaticDone →
    event.idxVf ≠ pfIdx → ¬s.isCondAvailVf event.idxVf
  /-- A live update restores full access to the function the block names. -/
  importLive : event.id = .schedResumeLive → ∀ info, env.liveInfo = some info →
    info.inFullAccess → info.idxVfFullAccess ≠ pfIdx → ¬s.isCondAvailVf info.idxVfFullAccess
  /-- With partitions, the function is mapped to some world switch. -/
  mapped : cfg.enablePerPartitionFullAccess → event.idxVf ≠ pfIdx →
    cfg.worldSwitchMask event.idxVf ≠ 0

variable {cfg : Config} {s s' : SchedState}

theorem SameStates.cond (same : SameStates s s') (v : Nat) :
    s'.isCondAvailVf v = s.isCondAvailVf v := (same v).2

theorem Fenced.same (fenced : Fenced cfg s) (same : SameStates s s')
    (access : ∀ v, v ≠ pfIdx → s'.isCondAvailVf v → s'.Holds cfg v → s.Holds cfg v) :
    Fenced cfg s' := by
  intro v vf cond
  obtain ⟨active, suspended, outside⟩ := fenced v vf ((same.cond v).symm.trans cond)
  refine ⟨?_, ?_, fun holds => outside (access v vf cond holds)⟩
  · simpa only [isActiveVf, (same v).1] using active
  · simpa only [isSuspendVf, (same v).1] using suspended

theorem Fenced.setVf (fenced : Fenced cfg s) {idxVf : Nat} {f : VfInfo → VfInfo}
    (flag : ∀ vf, (f vf).inFullAccess = vf.inFullAccess)
    (own : idxVf ≠ pfIdx → (f (s.arrayVf idxVf)).isCondAvail →
      (f (s.arrayVf idxVf)).state ≠ .active ∧ (f (s.arrayVf idxVf)).state ≠ .suspend ∧
        ¬s.Holds cfg idxVf) : Fenced cfg (s.setVf idxVf f) := by
  intro v vf cond
  rw [setVf_holds flag]
  by_cases same : v = idxVf
  · subst same
    have written := own vf (by simpa [isCondAvailVf] using cond)
    simpa [isActiveVf, isSuspendVf] using written
  · have before := fenced v vf (by simpa [isCondAvailVf, same] using cond)
    simpa [isActiveVf, isSuspendVf, same] using before

theorem sameStates_one (idxVf : Nat)
    (own : (s'.arrayVf idxVf).state = (s.arrayVf idxVf).state ∧
      (s'.arrayVf idxVf).isCondAvail = (s.arrayVf idxVf).isCondAvail)
    (others : ∀ v, v ≠ idxVf → s'.arrayVf v = s.arrayVf v) : SameStates s s' := by
  intro v
  by_cases same : v = idxVf
  · rw [same]
    exact own
  · rw [others v same]
    exact ⟨rfl, rfl⟩

theorem setVf_sameStates (s : SchedState) (idxVf : Nat) {f : VfInfo → VfInfo}
    (kept : ∀ vf, (f vf).state = vf.state ∧ (f vf).isCondAvail = vf.isCondAvail) :
    SameStates s (s.setVf idxVf f) :=
  sameStates_one idxVf (by rw [setVf_self]; exact kept _) fun _ ne => setVf_other _ _ _ ne

theorem SameStates.trans {s'' : SchedState} (first : SameStates s s')
    (second : SameStates s' s'') : SameStates s s'' := fun v =>
  ⟨(second v).1.trans (first v).1, (second v).2.trans (first v).2⟩

theorem SameStates.refl (s : SchedState) : SameStates s s := fun _ => ⟨rfl, rfl⟩

theorem setUsedTime_sameStates (s : SchedState) (idxVf : Nat) (time : Time) :
    SameStates s (s.setUsedTime cfg idxVf time) := by
  unfold SchedState.setUsedTime
  split
  · exact setVf_sameStates s idxVf fun _ => ⟨rfl, rfl⟩
  · exact .refl s

theorem setStartTime_sameStates (s : SchedState) (idxVf : Nat) (time : Time) :
    SameStates s (s.setStartTime cfg idxVf time) := by
  unfold SchedState.setStartTime
  split
  · exact setVf_sameStates s idxVf fun _ => ⟨rfl, rfl⟩
  · exact .refl s

theorem resumeFullAccess_sameStates (s : SchedState) (now : Time) (idxVf : Nat) :
    SameStates s (s.resumeFullAccess cfg now idxVf) := by
  have restored : SameStates s (if s.usedTime cfg idxVf ≠ 0 then
      (s.setStartTime cfg idxVf (now - s.usedTime cfg idxVf)).setUsedTime cfg idxVf 0
      else s) := by
    split
    · exact (setStartTime_sameStates s idxVf _).trans (setUsedTime_sameStates _ idxVf _)
    · exact .refl s
  exact restored

theorem suspendLive_sameStates (s : SchedState) (now : Time) :
    SameStates s (s.suspendLive cfg now) := by
  intro v
  unfold SchedState.suspendLive
  split
  · dsimp only
    split <;> exact ⟨rfl, rfl⟩
  · exact ⟨rfl, rfl⟩

theorem resumeLive_sameStates (s : SchedState) (now : Time) :
    SameStates s (s.resumeLive cfg now) := by
  intro v
  unfold SchedState.resumeLive
  split
  · dsimp only
    split <;> exact ⟨rfl, rfl⟩
  · exact ⟨rfl, rfl⟩

theorem SameAccess.holds (same : SameAccess s s') {v : Nat} (holds : s'.Holds cfg v) :
    s.Holds cfg v := by
  by_cases partitioned : cfg.enablePerPartitionFullAccess
  · rw [holds_partition partitioned] at holds ⊢
    exact (same.flags v).symm.trans holds
  · rw [holds_whole partitioned] at holds ⊢
    exact ⟨same.inFullAccess.symm.trans holds.1, same.idxVf.symm.trans holds.2⟩

theorem Fenced.unchanged (fenced : Fenced cfg s) (states : SameStates s s')
    (access : SameAccess s s') : Fenced cfg s' :=
  fenced.same states fun _ _ _ holds => access.holds holds

theorem Disturbance.fenced (fenced : Fenced cfg s) (reset : Disturbance cfg s s') :
    Fenced cfg s' := by
  have steady := reset.steady
  intro v vf cond
  obtain ⟨active, suspended, outside⟩ := fenced v vf ((steady.cond v).symm.trans cond)
  have access : ¬s'.Holds cfg v := fun holds => outside (steady.access v vf holds)
  cases reset with
  | retire arrayVf each =>
    refine ⟨?_, ?_, access⟩ <;> rcases each v with same | avail | unavail
    · simpa [isActiveVf, same] using active
    · simp [isActiveVf, avail]
    · simp [isActiveVf, unavail]
    · simpa [isSuspendVf, same] using suspended
    · simp [isSuspendVf, avail]
    · simp [isSuspendVf, unavail]
  | pfReinit pf =>
    have states : (s.initPfStateLate cfg pf).arrayVf = s.arrayVf := by
      unfold SchedState.initPfStateLate
      split
      · cases pf <;> rfl
      · rfl
    refine ⟨?_, ?_, access⟩
    · simpa only [isActiveVf, states] using active
    · simpa only [isSuspendVf, states] using suspended

theorem grantFullAccess_sameStates (s : SchedState) (now : Time) (idxVf : Nat) (id : EventId) :
    SameStates s (s.grantFullAccess cfg now idxVf id) := by
  unfold SchedState.grantFullAccess
  split
  · exact sameStates_one idxVf (by simp) fun v ne => by simp [ne]
  · exact fun _ => ⟨rfl, rfl⟩

theorem grantFullAccess_holds {now : Time} {idxVf v : Nat} {id : EventId}
    (holds : (s.grantFullAccess cfg now idxVf id).Holds cfg v) : v = idxVf ∨ s.Holds cfg v := by
  by_cases partitioned : cfg.enablePerPartitionFullAccess
  · rw [holds_partition partitioned] at holds ⊢
    by_cases same : v = idxVf
    · exact .inl same
    · simp [SchedState.grantFullAccess, partitioned, same] at holds
      exact .inr holds
  · rw [holds_whole partitioned] at holds
    simp [SchedState.grantFullAccess, partitioned] at holds
    exact .inl holds.symm

theorem clearFullAccess_sameStates (s : SchedState) (idxVf : Nat) :
    SameStates s (s.clearFullAccess cfg idxVf) := by
  unfold SchedState.clearFullAccess
  split
  · exact sameStates_one idxVf (by simp) fun v ne => by simp [ne]
  · exact fun _ => ⟨rfl, rfl⟩

theorem clearFullAccess_holds {idxVf v : Nat}
    (holds : (s.clearFullAccess cfg idxVf).Holds cfg v) : s.Holds cfg v := by
  by_cases partitioned : cfg.enablePerPartitionFullAccess
  · rw [holds_partition partitioned] at holds ⊢
    by_cases same : v = idxVf
    · simp [SchedState.clearFullAccess, partitioned, same] at holds
    · simpa [SchedState.clearFullAccess, partitioned, same] using holds
  · rw [holds_whole partitioned] at holds
    simp [SchedState.clearFullAccess, partitioned] at holds

theorem importLiveData_fence (s : SchedState) (info : LiveInfoSched) :
    SameStates s (s.importLiveData cfg info) ∧
      ∀ v, (s.importLiveData cfg info).Holds cfg v →
        s.Holds cfg v ∨ info.inFullAccess ∧ info.idxVfFullAccess = v := by
  unfold SchedState.importLiveData
  split
  · exact ⟨fun _ => ⟨rfl, rfl⟩, fun v holds => .inl holds⟩
  dsimp only
  split
  · rename_i both
    refine ⟨sameStates_one info.idxVfFullAccess (by simp) fun v ne => by simp [ne],
      fun v holds => ?_⟩
    rw [holds_partition both.1] at holds ⊢
    by_cases same : v = info.idxVfFullAccess
    · exact .inr ⟨both.2, same.symm⟩
    · simp [same] at holds
      exact .inl holds
  · rename_i notBoth
    refine ⟨fun _ => ⟨rfl, rfl⟩, fun v holds => ?_⟩
    by_cases partitioned : cfg.enablePerPartitionFullAccess
    · rw [holds_partition partitioned] at holds ⊢
      exact .inl holds
    · exact .inr ((holds_whole partitioned).mp holds)

theorem restoreLive_fence (s : SchedState) (now : Time) (liveInfo : Option LiveInfoSched) :
    SameStates s (s.restoreLive cfg now liveInfo) ∧
      ∀ v, (s.restoreLive cfg now liveInfo).Holds cfg v →
        s.Holds cfg v ∨ ∃ info, liveInfo = some info ∧ info.inFullAccess ∧
          info.idxVfFullAccess = v := by
  have started : ∀ imported : SchedState,
      SameStates imported (if imported.inFullAccess then
        { imported with startTimeFullAccess := now } else imported) ∧
      ∀ v, (if imported.inFullAccess then { imported with startTimeFullAccess := now }
        else imported).Holds cfg v → imported.Holds cfg v := by
    intro imported
    split
    · exact ⟨fun _ => ⟨rfl, rfl⟩, fun _ holds => holds⟩
    · exact ⟨.refl imported, fun _ holds => holds⟩
  unfold SchedState.restoreLive
  cases liveInfo with
  | none => exact ⟨(started s).1, fun v holds => .inl ((started s).2 v holds)⟩
  | some info =>
    have ⟨states, access⟩ : SameStates s (s.importLiveData cfg info) ∧ _ :=
      importLiveData_fence s info
    refine ⟨states.trans (started _).1, fun v holds => ?_⟩
    rcases access v ((started _).2 v holds) with before | block
    · exact .inl before
    · exact .inr ⟨info, rfl, block⟩

theorem Change.fenced {env : Env} {event : Event} {s₀ : SchedState}
    (open_ : Fences cfg env event s₀) (exclusive : Exclusive cfg s₀) (fenced₀ : Fenced cfg s₀)
    (fenced : Fenced cfg s) (change : Change cfg env event s₀ s s') : Fenced cfg s' := by
  cases change with
  | disturb reset => exact reset.fenced fenced
  | suspend idxVf active =>
    refine fenced.setVf (fun _ => rfl) fun vf cond => ?_
    exact absurd active (fenced idxVf vf cond).1
  | importSuspend asked done cond =>
    refine fenced.setVf (fun _ => rfl) fun vf fence => ?_
    exact absurd (cond.symm.trans fence) (open_.importStatic asked done vf)
  | activate cond allowed =>
    refine fenced.setVf (fun _ => rfl) fun vf fence => ?_
    obtain ⟨_, suspended, outside⟩ := fenced₀ event.idxVf vf (cond.symm.trans fence)
    rcases allowed with ⟨holds, shared⟩ | suspend
    · refine absurd ?_ outside
      by_cases partitioned : cfg.enablePerPartitionFullAccess
      · rw [holds_partition partitioned]
        exact isFullAccessVf_held holds partitioned
      · exact ⟨by simpa [isVfInFullAccess, isAnyShareEngineVfInFullAccess, partitioned] using
          shared, holds⟩
    · exact absurd suspend suspended
  | condAvail free access =>
    refine fenced.setVf (fun _ => rfl) fun vf _ =>
      ⟨VfState.noConfusion, VfState.noConfusion, fun holds => ?_⟩
    exact not_holds_of_free exclusive (fun partitioned => open_.mapped partitioned vf) free
      (access vf holds)
  | force _ _ => exact fenced.setVf (fun _ => rfl) fun _ fence => Bool.noConfusion fence
  | dirty idxVf fbDirty =>
    exact fenced.unchanged (setVf_sameStates s idxVf fun _ => ⟨rfl, rfl⟩)
      (setVf_sameAccess s idxVf fun _ => rfl)
  | grant now steady free init fini asked =>
    refine fenced.same (grantFullAccess_sameStates s now event.idxVf event.id)
      fun v vf cond holds => ?_
    rcases grantFullAccess_holds holds with own | before
    · -- only an unfenced function is granted full access
      subst own
      have states : SameStates s (s.grantFullAccess cfg now event.idxVf event.id) :=
        grantFullAccess_sameStates s now event.idxVf event.id
      have fence : s₀.isCondAvailVf event.idxVf :=
        (steady.cond event.idxVf).symm.trans ((states.cond event.idxVf).symm.trans cond)
      rcases asked with id | id | id
      · exact absurd fence (init id)
      · exact absurd (fini id) (fenced₀ event.idxVf vf fence).1
      · exact absurd fence (open_.reset id vf free)
    · exact before
  | clear idxVf _ _ =>
    exact fenced.same (clearFullAccess_sameStates s idxVf) fun _ _ _ => clearFullAccess_holds
  | suspendLive _ _ =>
    exact fenced.unchanged (suspendLive_sameStates s env.now) (suspendLive_sameAccess s env.now)
  | resumeLive _ _ =>
    exact fenced.unchanged (resumeLive_sameStates s env.now) (resumeLive_sameAccess s env.now)
  | pause _ _ _ _ =>
    exact fenced.unchanged (setUsedTime_sameStates s event.idxVf _)
      ((setUsedTime_sameAccess s event.idxVf _).logged _)
  | resume _ _ _ =>
    exact fenced.unchanged (resumeFullAccess_sameStates s env.now event.idxVf)
      (resumeFullAccess_sameAccess s env.now event.idxVf)
  | stop _ _ _ =>
    exact fenced.unchanged (setUsedTime_sameStates s event.idxVf _)
      ((setUsedTime_sameAccess s event.idxVf _).logged _)
  | restore asked _ _ =>
    obtain ⟨states, access⟩ := restoreLive_fence s env.now env.liveInfo
    refine fenced.same states fun v vf cond holds => ?_
    rcases access v holds with before | ⟨info, block, inside, idx⟩
    · exact before
    · subst idx
      exact absurd ((states.cond _).symm.trans cond) (open_.importLive asked info block inside vf)
  | locks _ _ _ _ => exact fenced.unchanged (fun _ => ⟨rfl, rfl⟩) ⟨rfl, rfl, rfl, fun _ => rfl⟩

theorem setVf_cond {idxVf : Nat} {f : VfInfo → VfInfo}
    (kept : ∀ vf, (f vf).isCondAvail = vf.isCondAvail) (v : Nat) :
    (s.setVf idxVf f).isCondAvailVf v = s.isCondAvailVf v := by
  unfold isCondAvailVf
  by_cases own : v = idxVf
  · rw [own, setVf_self, kept]
  · rw [setVf_other _ _ _ own]

theorem Change.lifts {env : Env} {event : Event} {s₀ : SchedState}
    (change : Change cfg env event s₀ s s') {v : Nat} (fence : s.isCondAvailVf v) :
    s'.isCondAvailVf v ∨
      event.id = .reqGpuInitData ∧ event.idxVf = v ∧ env.critRegionOk := by
  have states : SameStates s s' → s'.isCondAvailVf v := fun same => (same.cond v).trans fence
  cases change with
  | disturb reset => exact .inl ((reset.steady.cond v).trans fence)
  | suspend idxVf _ => exact .inl ((setVf_cond (by intro; rfl) v).trans fence)
  | importSuspend _ _ _ => exact .inl ((setVf_cond (by intro; rfl) v).trans fence)
  | activate _ _ => exact .inl ((setVf_cond (by intro; rfl) v).trans fence)
  | condAvail _ _ =>
    by_cases own : v = event.idxVf
    · exact .inl (by simp [isCondAvailVf, setToCondAvailVf, own])
    · exact .inl (by simpa [isCondAvailVf, setToCondAvailVf, own] using fence)
  | force asked initialised =>
    by_cases own : v = event.idxVf
    · exact .inr ⟨asked, own.symm, initialised⟩
    · exact .inl (by simpa [isCondAvailVf, setToAvailVfForce, own] using fence)
  | dirty idxVf fbDirty => exact .inl ((setVf_cond (by intro; rfl) v).trans fence)
  | grant now _ _ _ _ _ =>
    exact .inl (states (grantFullAccess_sameStates s now event.idxVf event.id))
  | clear idxVf _ _ => exact .inl (states (clearFullAccess_sameStates s idxVf))
  | suspendLive _ _ => exact .inl (states (suspendLive_sameStates s env.now))
  | resumeLive _ _ => exact .inl (states (resumeLive_sameStates s env.now))
  | pause _ _ _ _ => exact .inl (states (setUsedTime_sameStates s event.idxVf _))
  | resume _ _ _ => exact .inl (states (resumeFullAccess_sameStates s env.now event.idxVf))
  | stop _ _ _ => exact .inl (states (setUsedTime_sameStates s event.idxVf _))
  | restore _ _ _ => exact .inl (states (restoreLive_fence s env.now env.liveInfo).1)
  | locks _ _ _ _ => exact .inl fence

namespace EventThread

variable {t : EventThread}

/-- A step whose event, if it is handled, meets what the code leaves open. -/
def KeepsFence (cfg : Config) (t : EventThread) : Label → Prop
  | .process turn => ∀ event, t.inHand = some event → !Adapter.skipsEvent turn event →
      Fences cfg turn.handler event t.adapter.sched
  | .push _ | .pick | .checkTimeouts _ => True

theorem changes_fenced {env : Env} {event : Event} {s₀ : SchedState}
    (open_ : Fences cfg env event s₀) (exclusive : Exclusive cfg s₀) (fenced : Fenced cfg s₀)
    (changes : ReflTransGen (Change cfg env event s₀) s₀ s) : Fenced cfg s := by
  induction changes with
  | refl => exact fenced
  | tail _ change ih => exact change.fenced open_ exclusive fenced ih

theorem changes_lifts {env : Env} {event : Event} {s₀ : SchedState} {v : Nat}
    (changes : ReflTransGen (Change cfg env event s₀) s₀ s) (fence : s₀.isCondAvailVf v) :
    s.isCondAvailVf v ∨ event.id = .reqGpuInitData ∧ event.idxVf = v ∧ env.critRegionOk := by
  induction changes with
  | refl => exact .inl fence
  | tail _ change ih =>
    rcases ih with still | lifted
    · exact change.lifts still
    · exact .inr lifted

theorem step_fenced {label : Label} {t' : EventThread} (exclusive : Exclusive cfg t.adapter.sched)
    (fenced : Fenced cfg t.adapter.sched) (keeps : t.KeepsFence cfg label)
    (step : Step cfg t label t') : Fenced cfg t'.adapter.sched := by
  cases step with
  | push request _ =>
    rw [push_sched]
    exact fenced
  | pick _ => exact fenced
  | @process turn event held =>
    by_cases skips : Adapter.skipsEvent turn event
    · rw [process_skipped skips]
      exact fenced
    · exact changes_fenced (keeps event held (by simpa using skips)) exclusive fenced
        (settled_changes t.adapter turn event)
  | checkTimeouts check _ =>
    refine changes_fenced ?_ exclusive fenced (checked_changes t.adapter check)
    exact ⟨nofun, nofun, nofun, fun _ vf => absurd rfl vf⟩

theorem step_lifts {label : Label} {t' : EventThread} {v : Nat}
    (fence : t.adapter.sched.isCondAvailVf v) (step : Step cfg t label t') :
    t'.adapter.sched.isCondAvailVf v ∨
      ∃ turn event, label = .process turn ∧ t.inHand = some event ∧
        event.id = .reqGpuInitData ∧ event.idxVf = v ∧ turn.handler.critRegionOk := by
  cases step with
  | push request _ =>
    rw [push_sched]
    exact .inl fence
  | pick _ => exact .inl fence
  | @process turn event held =>
    rcases changes_lifts (settled_changes t.adapter turn event) fence with still | lifted
    · exact .inl still
    · exact .inr ⟨turn, event, rfl, held, lifted⟩
  | checkTimeouts check _ =>
    rcases changes_lifts (checked_changes t.adapter check) fence with still | ⟨asked, _⟩
    · exact .inl still
    · cases asked

/-- A conditionally available function stays fenced in every run whose steps meet
what the code leaves open, and only a successful `REQ_GPU_INIT_DATA` of that
function lifts the fence. -/
theorem condAvail_fenced
    (run : Transition.Run (Boots cfg) (Step cfg)
      (fun t label => t.Admits cfg label ∧ t.KeepsFence cfg label) t)
    {v : Nat} (vf : v ≠ pfIdx) (fence : t.adapter.sched.isCondAvailVf v) :
    ¬t.adapter.sched.isActiveVf v ∧ ¬t.adapter.sched.Holds cfg v ∧
      ∀ label t', Step cfg t label t' → ¬t'.adapter.sched.isCondAvailVf v →
        ∃ turn event, label = .process turn ∧ t.inHand = some event ∧
          event.id = .reqGpuInitData ∧ event.idxVf = v ∧ turn.handler.critRegionOk := by
  have both : Exclusive cfg t.adapter.sched ∧ Fenced cfg t.adapter.sched := by
    refine run.invariant (fun t => Exclusive cfg t.adapter.sched ∧ Fenced cfg t.adapter.sched) ?_
      fun _ _ _ ⟨exclusive, fenced⟩ ⟨admits, keeps⟩ step =>
        ⟨step_exclusive exclusive admits step, step_fenced exclusive fenced keeps step⟩
    rintro _ ⟨states, now, rfl⟩
    exact ⟨boot_exclusive states now, fun _ _ fence => by cases fence⟩
  obtain ⟨active, _, outside⟩ := both.2 v vf fence
  refine ⟨active, outside, fun label t' step lifted => ?_⟩
  rcases step_lifts fence step with still | how
  · exact absurd still lifted
  · exact how

/-- A fenced function 0 asks for full access with `REQ_GPU_INIT`, in vain. -/
theorem condAvail_fenced_init :
    ¬(((boot Config.pair (fun _ => .avail) 0).serve Config.pair
        ⟨0, .schedSetVfCondAvail, none, .init, true⟩ ⟨false, false, Env.quiet 5⟩).serve Config.pair
        ⟨0, .reqGpuInit, none, .init, true⟩
        ⟨false, false, Env.quiet 9⟩).adapter.sched.Holds Config.pair 0 := by
  have fenced : Transition.Run (Boots Config.pair) (Step Config.pair)
      (fun t label => t.Admits Config.pair label ∧ t.KeepsFence Config.pair label)
      ((boot Config.pair (fun _ => .avail) 0).serve Config.pair
        ⟨0, .schedSetVfCondAvail, none, .init, true⟩ ⟨false, false, Env.quiet 5⟩) := by
    refine serve_run (.start ⟨_, _, rfl⟩) rfl rfl _ ⟨trivial, trivial⟩ ⟨trivial, trivial⟩
      ⟨fun event held => ?_, fun event held _ => ?_⟩ <;>
      obtain rfl : (⟨0, 0, .schedSetVfCondAvail, .normal, none, .init⟩ : Event) = event :=
        Option.some.inj held
    · exact ⟨by decide, nofun⟩
    · exact ⟨nofun, nofun, nofun, fun _ _ => by decide⟩
  refine (condAvail_fenced (serve_run fenced rfl rfl _ ⟨trivial, trivial⟩ ⟨trivial, trivial⟩
    ⟨fun event held => ?_, fun event held _ => ?_⟩) (v := 0) (by decide) (by decide)).2.1 <;>
    obtain rfl : (⟨1, 0, .reqGpuInit, .normal, none, .init⟩ : Event) = event :=
      Option.some.inj held
  · exact ⟨by decide, nofun⟩
  · exact ⟨nofun, nofun, nofun, fun _ _ => by decide⟩

/-- `REQ_GPU_RESET` takes a fenced function into full access, and the release makes
it active. -/
theorem condAvail_reset :
    ¬∀ (cfg : Config) (t : EventThread),
      Transition.Run (Boots cfg) (Step cfg) Transition.always t →
        ∀ v, v ≠ pfIdx → t.adapter.sched.isCondAvailVf v →
          ¬t.adapter.sched.isActiveVf v ∧ ¬t.adapter.sched.Holds cfg v := by
  intro fenced
  have run : Transition.Run (Boots Config.pair) (Step Config.pair) Transition.always
      ([((⟨0, .schedSetVfCondAvail, none, .init, true⟩ : Request),
          (⟨false, false, Env.quiet 5⟩ : TurnEnv)),
        (⟨0, .reqGpuReset, none, .init, true⟩, ⟨false, false, Env.quiet 15⟩),
        (⟨0, .relGpuInit, none, .init, true⟩, ⟨false, false, Env.quiet 20⟩)].foldl
          (fun t entry => t.serve Config.pair entry.1 entry.2)
          (boot Config.pair (fun _ => .avail) 0)) :=
    serves_run _ (by decide) (.start ⟨_, _, rfl⟩) rfl
  exact absurd (fenced _ _ run 0 (by decide) (by decide)).1 (by decide)

end EventThread

end MxGpu.Sched
