import MxGpu.SchedExclusive

/- One call of `amdgv_sched_process_event`: its two nested loops as a state machine
over the event thread, with callers pushing in between, and when a pending release
ends full access before the call returns. -/
namespace MxGpu.Sched

open PriorityLists Relation Transition Function SchedState Adapter

/-- Where the call stands: before a pick, with an event in hand, before the test
of the outer loop, or returned. -/
inductive LoopPoint
  | picking | handling | testing | returned
  deriving DecidableEq, Repr

structure ProcessEvent where
  thread : EventThread
  point : LoopPoint

inductive LoopLabel
  | push (request : Request)
  | advance (turn : TurnEnv)

def LoopLabel.isAdvance : LoopLabel → Bool
  | .push _ => false
  | .advance _ => true

namespace ProcessEvent

/-- `amdgv_sched_process_event`, up to the next point where a caller can push. -/
def advance (cfg : Config) (turn : TurnEnv) (c : ProcessEvent) : ProcessEvent :=
  match c.point with
  | .picking =>
    ⟨c.thread.pick, if c.thread.pick.inHand.isSome then .handling else .testing⟩
  | .handling =>
    match c.thread.inHand with
    | some event =>
      ⟨c.thread.process cfg turn event,
        -- both stops break the inner loop
        if (c.thread.adapter.settleEvent cfg turn event).2 = .next then .picking else .testing⟩
    | none => ⟨c.thread, .picking⟩
  | .testing =>
    ⟨c.thread, if !c.thread.adapter.sched.lockWorldSwitch ∧
        c.thread.adapter.pipe.eventQueue ≠ [] then .picking else .returned⟩
  | .returned => c

/-- The call takes its steps while callers push on signals nobody else waits for. -/
inductive Advances (cfg : Config) : ProcessEvent → LoopLabel → ProcessEvent → Prop
  | push {c : ProcessEvent} (request : Request)
      (fresh : ∀ s, request.signal = some s → s ∉ c.thread.waiting) :
      Advances cfg c (.push request) ⟨c.thread.push request, c.point⟩
  | advance {c : ProcessEvent} (turn : TurnEnv) (running : c.point ≠ .returned) :
      Advances cfg c (.advance turn) (c.advance cfg turn)

end ProcessEvent

/-- The events of the first three lists that end the inner loop under full access:
deferred, or a stop of their own. -/
def stopsLoop (cfg : Config) (env : Env) (s : SchedState) (event : Event) : Bool :=
  match event.id with
  | .schedSuspendLive | .schedResumeLive | .enterPowerSaving | .exitPowerSaving => true
  | .schedSuspend | .schedResume =>
    !s.isAnyShareEngineVfInFullAccess cfg event.idxVf || !s.isFullAccessVf cfg pfIdx ||
      (cfg.gpuvLiveUpdate && env.liveUpdateState = .save)
  | .schedForceResetGpu | .schedForceResetGpuInternal | .schedRasFed | .schedUpdateTopology =>
    s.isAnyShareEngineVfInFullAccess cfg event.idxVf
  | .curVfCtxEmpty =>
    s.isAnyShareEngineVfInFullAccess cfg event.idxVf && !s.isUnavailVf event.idxVf
  | _ => false

/-- The event ends the full access of function `v`: the paired release, or a
`REL_GPU_FINI`, which ends an unpaired full access as a timeout does. -/
def Releases (cfg : Config) (v : Nat) (s : SchedState) (event : Event) : Prop :=
  event.idxVf = v ∧ (event.id = .relGpuFini ∨ event.id = .relGpuInit ∧ s.isEventPair cfg event)

/-- A release of `v` is pending and no event that arrived after it removes it. -/
def ReleaseDue (cfg : Config) (v : Nat) (s : SchedState) (p : EventPipe) : Prop :=
  (∃ e ∈ p.eventList 2, Releases cfg v s e ∧ survives 2 p.eventQueue e) ∨
    ∃ early e late, p.eventQueue = early ++ e :: late ∧ Releases cfg v s e ∧ survives 2 late e

def isUrgent (e : Event) : Bool := (arrangedList e.id).any fun level => level ≤ 2

def EventPipe.urgent (p : EventPipe) : Nat :=
  (p.eventList 0).length + (p.eventList 1).length + (p.eventList 2).length +
    p.eventQueue.countP isUrgent

namespace ProcessEvent

/-- While `v` has full access: callers displace its release by nothing but a release,
and no handled event stops the loop or makes the release void. -/
def Clears (cfg : Config) (v : Nat) (c : ProcessEvent) : LoopLabel → Prop
  | .push request => c.thread.adapter.sched.Holds cfg v → request.idxVf = v →
      placement request.id = .dedup 2 → Releases cfg v c.thread.adapter.sched
        ⟨0, request.idxVf, request.id, .normal, request.signal, request.fbClearType⟩
  | .advance turn => c.thread.adapter.sched.Holds cfg v → c.thread.Admits cfg (.process turn) ∧
      ∀ event, c.thread.inHand = some event →
        (Releases cfg v c.thread.adapter.sched event → !skipsEvent turn event ∧
          !c.thread.adapter.sched.isUnavailVf v) ∧
        (skipsEvent turn event ∨
          !stopsLoop cfg turn.handler c.thread.adapter.sched event)

end ProcessEvent

variable {cfg : Config} {v : Nat}

/-- Between two states a function keeps full access for the same request or loses
it, and nothing new is locked. -/
structure Undisturbed (cfg : Config) (v : Nat) (s s' : SchedState) : Prop where
  access : s'.Holds cfg v → s.Holds cfg v ∧
    ∀ e : Event, e.idxVf = v → s'.isEventPair cfg e = s.isEventPair cfg e
  lock : s'.lockWorldSwitch → s.lockWorldSwitch
  power : s'.isInPowersaving → s.isInPowersaving

theorem isUrgent_iff {e : Event} :
    isUrgent e ↔ ∃ level : Fin 6, level ≤ 2 ∧ arrangedList e.id = some level := by
  unfold isUrgent
  cases arrangedList e.id with
  | none => simp
  | some level => simp

theorem fullAccessAction_urgent {env : Env} {s : SchedState} {event : Event}
    (urgent : isUrgent event) (unlocked : ¬s.lockWorldSwitch) (awake : ¬s.isInPowersaving)
    (shared : s.isAnyShareEngineVfInFullAccess cfg event.idxVf)
    (goesOn : ¬stopsLoop cfg env s event) :
    fullAccessAction cfg env s event ∉
      [.pushBack, .release, .suspendLive, .resumeLive] := by
  obtain ⟨entry, idxVf, id, status, signal, fbClearType⟩ := event
  unfold fullAccessAction
  split
  · simp
  · rename_i serves
    cases id <;> simp_all [isUrgent, arrangedList, placement, stopsLoop,
      handledUnavailInFullAccess] <;> (repeat' split) <;> simp_all

theorem handleEvent_next {env : Env} {a : Adapter} {event : Event}
    (urgent : isUrgent event) (unlocked : ¬a.sched.lockWorldSwitch)
    (awake : ¬a.sched.isInPowersaving) (goesOn : ¬stopsLoop cfg env a.sched event) :
    (a.handleEvent cfg env event).2 = .next := by
  unfold handleEvent
  split
  · rename_i shared
    have action := fullAccessAction_urgent urgent unlocked awake shared goesOn
    unfold handleEventInFullAccess
    cases same : fullAccessAction cfg env a.sched event <;> rw [same] at action <;>
      first
      | rfl
      | exact absurd (by simp) action
  · rename_i free
    unfold handleEventInNonFullAccess
    split
    · rfl
    · rw [if_neg (by simp [unlocked]), if_neg (by simp [awake])]
      obtain ⟨entry, idxVf, id, status, signal, fbClearType⟩ := event
      cases id <;> simp_all [isUrgent, arrangedList, placement, stopsLoop,
        handleNonFullAccessSwitch] <;> (repeat' split) <;> rfl

/-- Neither a request for full access, nor an event that locks the scheduler, nor
the end of a live update. -/
def isCalm (id : EventId) : Bool :=
  match id with
  | .reqGpuInit | .reqGpuFini | .reqGpuReset | .schedResumeLive => false
  | _ => !locksScheduler id

theorem calm_or_ignored {env : Env} {a : Adapter} {event : Event} (urgent : isUrgent event)
    (unlocked : ¬a.sched.lockWorldSwitch) (awake : ¬a.sched.isInPowersaving)
    (goesOn : ¬stopsLoop cfg env a.sched event) :
    isCalm event.id ∨ a.handleEvent cfg env event = (a, .next) := by
  by_cases suspends : event.id = .schedSuspend
  · refine .inr ?_
    have ⟨⟨shared, pf⟩, saving⟩ : (a.sched.isAnyShareEngineVfInFullAccess cfg event.idxVf = true ∧
        a.sched.isFullAccessVf cfg pfIdx = true) ∧
        (cfg.gpuvLiveUpdate = true → env.liveUpdateState ≠ .save) := by
      simpa [stopsLoop, suspends] using goesOn
    have ignored : fullAccessAction cfg env a.sched event = .ignore := by
      unfold fullAccessAction
      simp [suspends, unlocked, awake, pf, handledUnavailInFullAccess]
      exact saving
    unfold handleEvent handleEventInFullAccess
    rw [if_pos shared, ignored]
  · refine .inl ?_
    obtain ⟨entry, idxVf, id, status, signal, fbClearType⟩ := event
    cases id <;> simp_all [isUrgent, arrangedList, placement, stopsLoop, isCalm, locksScheduler]

theorem Change.calm_locks {env : Env} {event : Event} {s₀ s s' : SchedState}
    (calm : isCalm event.id) (change : Change cfg env event s₀ s s') :
    (s'.lockWorldSwitch → s.lockWorldSwitch) ∧ (s'.isInPowersaving → s.isInPowersaving) := by
  cases change with
  | disturb reset =>
    obtain ⟨lock, power⟩ := reset.steady.locks
    rw [lock, power]
    exact ⟨id, id⟩
  | suspend | importSuspend | activate | condAvail | force | dirty => exact ⟨id, id⟩
  | grant =>
    unfold grantFullAccess
    split <;> exact ⟨id, id⟩
  | clear =>
    unfold clearFullAccess
    split <;> exact ⟨id, id⟩
  | suspendLive asked _ => simp [asked, isCalm, locksScheduler] at calm
  | resumeLive asked _ => simp [asked, isCalm] at calm
  | restore asked _ _ => simp [asked, isCalm] at calm
  | pause =>
    unfold pauseFullAccess setUsedTime
    split <;> exact ⟨id, id⟩
  | resume =>
    unfold resumeFullAccess setUsedTime setStartTime
    dsimp only
    (repeat' split) <;> exact ⟨id, id⟩
  | stop =>
    unfold stopFullAccess setUsedTime
    split <;> exact ⟨id, id⟩
  | locks lock power debug unlocks =>
    rcases unlocks with locking | ⟨rfl, rfl⟩
    · unfold isCalm at calm
      split at calm <;> simp_all
    · exact ⟨nofun, id⟩

theorem setVf_eventId (s : SchedState) (idxVf : Nat) {f : VfInfo → VfInfo}
    (same : ∀ vf, (f vf).eventIdFullAccess = vf.eventIdFullAccess) :
    ((s.setVf idxVf f).arrayVf v).eventIdFullAccess = (s.arrayVf v).eventIdFullAccess := by
  by_cases own : v = idxVf
  · rw [own, setVf_self, same]
  · rw [setVf_other _ _ _ own]

theorem setUsedTime_eventId (s : SchedState) (idxVf : Nat) (time : Time) :
    ((s.setUsedTime cfg idxVf time).arrayVf v).eventIdFullAccess =
      (s.arrayVf v).eventIdFullAccess := by
  unfold setUsedTime
  split
  · exact setVf_eventId s idxVf fun _ => rfl
  · rfl

theorem setStartTime_eventId (s : SchedState) (idxVf : Nat) (time : Time) :
    ((s.setStartTime cfg idxVf time).arrayVf v).eventIdFullAccess =
      (s.arrayVf v).eventIdFullAccess := by
  unfold setStartTime
  split
  · exact setVf_eventId s idxVf fun _ => rfl
  · rfl

theorem Change.calm_flags {env : Env} {event : Event} {s₀ s s' : SchedState}
    (partitioned : cfg.enablePerPartitionFullAccess) (calm : isCalm event.id)
    (change : Change cfg env event s₀ s s') (held : (s'.arrayVf v).inFullAccess) :
    (s.arrayVf v).inFullAccess ∧
      (s'.arrayVf v).eventIdFullAccess = (s.arrayVf v).eventIdFullAccess := by
  have written : ∀ (idxVf : Nat) (f : VfInfo → VfInfo),
      (∀ vf, (f vf).inFullAccess = vf.inFullAccess) →
      (∀ vf, (f vf).eventIdFullAccess = vf.eventIdFullAccess) →
      ((s.setVf idxVf f).arrayVf v).inFullAccess →
      (s.arrayVf v).inFullAccess ∧
        ((s.setVf idxVf f).arrayVf v).eventIdFullAccess = (s.arrayVf v).eventIdFullAccess := by
    intro idxVf f flag sameId held
    rw [(setVf_sameAccess s idxVf flag).flags] at held
    exact ⟨held, setVf_eventId s idxVf sameId⟩
  have timed : ∀ time, ((s₀.setUsedTime cfg event.idxVf time).arrayVf v).inFullAccess →
      (s₀.arrayVf v).inFullAccess ∧
        ((s₀.setUsedTime cfg event.idxVf time).arrayVf v).eventIdFullAccess =
          (s₀.arrayVf v).eventIdFullAccess := by
    intro time held
    rw [(setUsedTime_sameAccess s₀ event.idxVf time).flags] at held
    exact ⟨held, setUsedTime_eventId s₀ event.idxVf time⟩
  cases change with
  | disturb reset =>
    rw [reset.steady.held] at held
    exact ⟨held, by rw [reset.steady.vf]⟩
  | suspend | importSuspend | activate | condAvail | force | dirty =>
    exact written _ _ (fun _ => rfl) (fun _ => rfl) held
  | grant _ _ _ _ _ asked =>
    rcases asked with init | fini | reset
    · simp [init, isCalm] at calm
    · simp [fini, isCalm] at calm
    · simp [reset, isCalm] at calm
  | clear idxVf _ _ =>
    unfold clearFullAccess at held ⊢
    rw [if_pos partitioned] at held ⊢
    by_cases own : v = idxVf
    · simp [own] at held
    · simpa [own] using held
  | suspendLive asked _ => simp [asked, isCalm, locksScheduler] at calm
  | resumeLive asked _ => simp [asked, isCalm] at calm
  | restore asked _ _ => simp [asked, isCalm] at calm
  | pause => exact timed (env.now - s₀.startTime cfg event.idxVf) held
  | stop => exact timed 0 held
  | resume =>
    rw [(resumeFullAccess_sameAccess s₀ env.now event.idxVf).flags] at held
    refine ⟨held, ?_⟩
    unfold resumeFullAccess
    dsimp only
    split
    · exact (setUsedTime_eventId _ event.idxVf _).trans (setStartTime_eventId s₀ event.idxVf _)
    · rfl
  | locks _ _ _ _ => exact ⟨held, rfl⟩

theorem clearFullAccess_not_holds (s : SchedState) (idxVf : Nat) :
    ¬(s.clearFullAccess cfg idxVf).Holds cfg idxVf := by
  intro holds
  by_cases partitioned : cfg.enablePerPartitionFullAccess
  · rw [holds_partition partitioned, clearFullAccess, if_pos partitioned,
      setVf_self] at holds
    cases holds
  · have inside := ((holds_whole partitioned).mp holds).1
    rw [clearFullAccess, if_neg partitioned] at inside
    cases inside

theorem handleEventInFullAccess_registers {env : Env} {a : Adapter} {event : Event}
    (whole : ¬cfg.enablePerPartitionFullAccess) (calm : isCalm event.id)
    (inside : (a.handleEventInFullAccess cfg env event).1.sched.inFullAccess) :
    a.sched.inFullAccess ∧
      (a.handleEventInFullAccess cfg env event).1.sched.idxVfFullAccess =
        a.sched.idxVfFullAccess ∧
      (a.handleEventInFullAccess cfg env event).1.sched.eventIdFullAccess =
        a.sched.eventIdFullAccess := by
  have justified := fullAccessAction_justified cfg env a.sched event
  have cleared : ∀ (s : SchedState) (idxVf : Nat),
      (s.clearFullAccess cfg idxVf).inFullAccess = false := by
    intro s idxVf
    rw [clearFullAccess, if_neg whole]
  unfold handleEventInFullAccess at inside ⊢
  cases action : fullAccessAction cfg env a.sched event <;> rw [action] at justified inside <;>
    dsimp only [Justified] at justified inside ⊢
  case ignore | pushBack | release | suspendVf | resumeVf => exact ⟨inside, rfl, rfl⟩
  case suspendLive => simp [justified, isCalm, locksScheduler] at calm
  case resumeLive => simp [justified, isCalm] at calm
  case exitFullAccess =>
    rw [exitFullAccess, mapSched, cleared] at inside
    cases inside
  case exitTimeout =>
    rw [exitFullAccessTimeout, mapSched, cleared] at inside
    cases inside
  case pauseFullAccess | stopFullAccess =>
    simp only [mapSched, pauseFullAccess, stopFullAccess,
      setUsedTime, if_neg whole] at inside ⊢
    exact ⟨inside, trivial, trivial⟩
  case resumeFullAccess =>
    simp only [mapSched, resumeFullAccess, setUsedTime,
      setStartTime, if_neg whole] at inside ⊢
    split at inside <;> rename_i used
    · rw [if_pos used]
      exact ⟨inside, rfl, rfl⟩
    · rw [if_neg used]
      exact ⟨inside, rfl, rfl⟩
  case removeVf =>
    split at inside <;> rename_i own
    · rw [mapSched, exitFullAccessTimeout] at inside
      exact absurd inside (by simp [mapSched, setToUnavailVf,
        setVf, cleared])
    · rw [if_neg own]
      exact ⟨inside, rfl, rfl⟩
  case crash =>
    have same : (a.queueEvent env.eventQueued event.idxVf .handleCrash).sched = a.sched := by
      unfold queueEvent
      split <;> rfl
    rw [same] at inside ⊢
    exact ⟨inside, rfl, rfl⟩

theorem changes_calm {env : Env} {event : Event} {s₀ s : SchedState} (calm : isCalm event.id)
    (changes : ReflTransGen (Change cfg env event s₀) s₀ s) :
    (s.lockWorldSwitch → s₀.lockWorldSwitch) ∧ (s.isInPowersaving → s₀.isInPowersaving) ∧
      (cfg.enablePerPartitionFullAccess → (s.arrayVf v).inFullAccess →
        (s₀.arrayVf v).inFullAccess ∧
          (s.arrayVf v).eventIdFullAccess = (s₀.arrayVf v).eventIdFullAccess) := by
  induction changes with
  | refl => exact ⟨id, id, fun _ held => ⟨held, rfl⟩⟩
  | tail _ change ih =>
    obtain ⟨lock, power, flags⟩ := ih
    obtain ⟨lock', power'⟩ := change.calm_locks calm
    refine ⟨lock ∘ lock', power ∘ power', fun partitioned held => ?_⟩
    obtain ⟨before, sameId⟩ := change.calm_flags partitioned calm held
    obtain ⟨origin, sameId'⟩ := flags partitioned before
    exact ⟨origin, sameId.trans sameId'⟩

theorem Undisturbed.refl (s : SchedState) : Undisturbed cfg v s s :=
  ⟨fun h => ⟨h, fun _ _ => rfl⟩, id, id⟩

/-- An urgent event that does not stop the loop is settled: the loop goes on, and a
function that still has full access has it for the request it had. -/
theorem settleEvent_urgent {turn : TurnEnv} {a : Adapter} {event : Event}
    (urgent : isUrgent event) (unlocked : ¬a.sched.lockWorldSwitch)
    (awake : ¬a.sched.isInPowersaving) (holds : a.sched.Holds cfg v)
    (goesOn : skipsEvent turn event ∨ ¬stopsLoop cfg turn.handler a.sched event) :
    (a.settleEvent cfg turn event).2 = .next ∧
      Undisturbed cfg v a.sched (a.settleEvent cfg turn event).1.sched ∧
      Retains (fun id => queuedByHandler id) a.pipe (a.settleEvent cfg turn event).1.pipe := by
  by_cases skips : skipsEvent turn event
  · unfold settleEvent
    rw [if_pos skips]
    exact ⟨rfl, .refl _, .refl _⟩
  replace goesOn := goesOn.resolve_left skips
  unfold settleEvent
  rw [if_neg skips]
  have next := handleEvent_next urgent unlocked awake goesOn
  refine ⟨next, ?_⟩
  rcases calm_or_ignored urgent unlocked awake goesOn with calm | ignored
  · rcases handleEvent_outcome turn.handler a event with deferred | ⟨_, retains, changes⟩
    · rw [deferred] at next
      cases next
    have notLive : event.id ≠ .schedResumeLive := by
      intro live
      simp [live, isCalm] at calm
    obtain ⟨lock, power, flags⟩ := changes_calm (v := v) calm changes
    refine ⟨⟨fun still => ⟨holds, fun e own => ?_⟩, lock, power⟩,
      retains.weaken fun id asked => asked.resolve_right notLive⟩
    unfold isEventPair
    by_cases partitioned : cfg.enablePerPartitionFullAccess
    · have held := (holds_partition partitioned).mp still
      rw [if_pos partitioned, if_pos partitioned, own, (flags partitioned held).2]
    · have inside := ((holds_whole partitioned).mp holds).1
      have shared : a.sched.isAnyShareEngineVfInFullAccess cfg event.idxVf := by
        simpa [isAnyShareEngineVfInFullAccess, partitioned] using inside
      have stillInside := ((holds_whole partitioned).mp still).1
      rw [handleEvent, if_pos shared] at stillInside
      obtain ⟨_, _, sameId⟩ := handleEventInFullAccess_registers partitioned calm stillInside
      rw [if_neg partitioned, if_neg partitioned, handleEvent, if_pos shared, sameId]
  · rw [ignored]
    exact ⟨.refl _, .refl _⟩

theorem settleEvent_releases {turn : TurnEnv} {a : Adapter} {event : Event}
    (releases : Releases cfg v a.sched event) (holds : a.sched.Holds cfg v)
    (exclusive : Exclusive cfg a.sched)
    (mapped : cfg.enablePerPartitionFullAccess → cfg.worldSwitchMask v ≠ 0)
    (unlocked : ¬a.sched.lockWorldSwitch) (awake : ¬a.sched.isInPowersaving)
    (handled : ¬skipsEvent turn event) (inUse : ¬a.sched.isUnavailVf v) :
    ¬(a.settleEvent cfg turn event).1.sched.Holds cfg v := by
  obtain ⟨own, asks⟩ := releases
  have shared : a.sched.isAnyShareEngineVfInFullAccess cfg event.idxVf := by
    by_contra free
    exact not_holds_of_free exclusive mapped (own ▸ free) holds
  have holder : a.sched.isFullAccessVf cfg event.idxVf := own ▸ holds.2
  have action : fullAccessAction cfg turn.handler a.sched event = .exitFullAccess ∨
      fullAccessAction cfg turn.handler a.sched event = .exitTimeout := by
    unfold fullAccessAction
    rw [if_neg (by rw [own]; simp [inUse]), if_neg (by simp [unlocked]), if_neg (by simp [awake])]
    rcases asks with fini | ⟨init, pair⟩
    · rw [fini]
      dsimp only
      rw [if_pos holder]
      split
      · exact .inl rfl
      · exact .inr rfl
    · rw [init]
      dsimp only
      rw [if_pos ⟨holder, pair⟩]
      exact .inl rfl
  unfold settleEvent
  rw [if_neg handled]
  unfold handleEvent handleEventInFullAccess
  rw [if_pos shared]
  rcases action with exits | times
  · rw [exits]
    unfold exitFullAccess
    exact own ▸ clearFullAccess_not_holds _ event.idxVf
  · rw [times]
    unfold exitFullAccessTimeout
    by_cases partitioned : cfg.enablePerPartitionFullAccess
    · simp only [if_pos partitioned]
      exact own ▸ clearFullAccess_not_holds _ event.idxVf
    · intro still
      have inside := ((holds_whole partitioned).mp still).1
      simp [mapSched, clearFullAccess, partitioned] at inside

theorem Releases.congr {s s' : SchedState} {e e' : Event} (releases : Releases cfg v s e)
    (pairs : ∀ e : Event, e.idxVf = v → s'.isEventPair cfg e = s.isEventPair cfg e)
    (same : SameRequest e e') : Releases cfg v s' e' := by
  obtain ⟨own, asks⟩ := releases
  rw [same]
  refine ⟨own, asks.imp_right fun ⟨init, pair⟩ => ⟨init, ?_⟩⟩
  exact (pairs e own).trans pair

theorem Releases.listed {s : SchedState} {e : Event} (releases : Releases cfg v s e) :
    arrangedList e.id = some 2 := by
  rcases releases.2 with fini | ⟨init, _⟩
  · rw [fini]
    rfl
  · rw [init]
    rfl

theorem survives_append (level : Fin 6) (batch batch' : List Event) (x : Event) :
    survives level (batch ++ batch') x = (survives level batch x && survives level batch' x) := by
  unfold survives
  exact List.all_append

theorem survives_sameRequest {level : Fin 6} {batch batch' : List Event} {x x' : Event}
    (same : List.Forall₂ SameRequest batch batch') (request : SameRequest x x') :
    survives level batch' x' = survives level batch x := by
  induction same with
  | nil => rfl
  | cons own _ ih =>
    rw [survives_cons, survives_cons, ih, own, request]

theorem survives_queuedByHandler {added : List Event} {x : Event}
    (own : ∀ e ∈ added, queuedByHandler e.id) : survives 2 added x := by
  unfold survives
  refine List.all_eq_true.mpr fun e member => ?_
  have asked := own e member
  cases id : e.id <;> simp_all [queuedByHandler, placement]

theorem forall₂_sameRequest_split {early late l' : List Event} {e : Event}
    (same : List.Forall₂ SameRequest (early ++ e :: late) l') :
    ∃ early' e' late', l' = early' ++ e' :: late' ∧ SameRequest e e' ∧
      List.Forall₂ SameRequest late late' := by
  induction early generalizing l' with
  | nil =>
    cases same with
    | cons request rest => exact ⟨[], _, _, rfl, request, rest⟩
  | cons first early ih =>
    cases same with
    | cons _ rest =>
      obtain ⟨early', e', late', split, request, tail⟩ := ih rest
      exact ⟨_ :: early', e', late', by rw [split]; rfl, request, tail⟩

theorem ReleaseDue.push {s : SchedState} {p : EventPipe} (due : ReleaseDue cfg v s p)
    {new : Event} (fresh : Nat)
    (displaces : new.idxVf = v → placement new.id = .dedup 2 → Releases cfg v s new) :
    ReleaseDue cfg v s { p with eventQueue := p.eventQueue ++ [new], freshEntry := fresh } := by
  by_cases newRelease : new.idxVf = v ∧ placement new.id = .dedup 2
  · exact .inr ⟨p.eventQueue, new, [], rfl, displaces newRelease.1 newRelease.2, rfl⟩
  · have stays : ∀ e, Releases cfg v s e → survives 2 [new] e := by
      intro e releases
      rw [survives_cons]
      have apart : ¬(placement new.id = .dedup 2 ∧ new.idxVf = e.idxVf) :=
        fun both => newRelease ⟨both.2.trans releases.1, both.1⟩
      simp [apart, survives]
    rcases due with ⟨e, member, releases, kept⟩ | ⟨early, e, late, split, releases, kept⟩
    · refine .inl ⟨e, member, releases, ?_⟩
      rw [survives_append, kept, stays e releases]
      rfl
    · refine .inr ⟨early, e, late ++ [new], ?_, releases, ?_⟩
      · dsimp only
        rw [split, List.append_assoc, List.cons_append]
      · rw [survives_append, kept, stays e releases]
        rfl

theorem ReleaseDue.retains {s s' : SchedState} {p p' : EventPipe} (due : ReleaseDue cfg v s p)
    (retains : Retains (fun id => queuedByHandler id) p p')
    (pairs : ∀ e : Event, e.idxVf = v → s'.isEventPair cfg e = s.isEventPair cfg e) :
    ReleaseDue cfg v s' p' := by
  obtain ⟨kept, added, split, same, _, quiet⟩ := retains.queue
  have spared : ∀ x, survives 2 added x :=
    fun x => survives_queuedByHandler fun e member => (quiet e member).2.2.2
  rcases due with ⟨e, member, releases, stays⟩ | ⟨early, e, late, parts, releases, stays⟩
  · obtain ⟨e', there, request⟩ := forall₂_sameRequest_mem' (retains.lists 2) member
    refine .inl ⟨e', there, releases.congr pairs request, ?_⟩
    rw [split, survives_append, survives_sameRequest same request, stays, spared]
    rfl
  · rw [parts] at same
    obtain ⟨early', e', late', parts', request, tail⟩ := forall₂_sameRequest_split same
    refine .inr ⟨early', e', late' ++ added, ?_, releases.congr pairs request, ?_⟩
    · rw [split, parts', List.append_assoc, List.cons_append]
    · rw [survives_append, survives_sameRequest tail request, stays, spared]
      rfl

theorem ReleaseDue.arranged {s : SchedState} {p : EventPipe} (due : ReleaseDue cfg v s p) :
    ∃ e ∈ p.arrangeQueued.eventList 2, Releases cfg v s e := by
  rw [EventPipe.arrangeQueued_eventList, arrangeEventList_eq]
  rcases due with ⟨e, member, releases, kept⟩ | ⟨early, e, late, split, releases, kept⟩
  · exact ⟨e, List.mem_append_left _ (List.mem_filter.mpr ⟨member, kept⟩), releases⟩
  · exact ⟨e, List.mem_append_right _ (mem_placed.mpr ⟨early, late, split, releases.listed, kept⟩),
      releases⟩

theorem arranged_length_le (p : EventPipe) (level : Fin 6) :
    (p.arrangeQueued.eventList level).length ≤
      (p.eventList level).length + p.eventQueue.countP fun e => arrangedList e.id = some level := by
  rw [EventPipe.arrangeQueued_eventList, arrangeEventList_eq, List.length_append]
  refine Nat.add_le_add (List.length_filter_le _ _) ?_
  have listed : ∀ e ∈ placed level p.eventQueue, arrangedList e.id = some level := by
    intro e member
    obtain ⟨_, _, _, id, _⟩ := mem_placed.mp member
    exact id
  rw [← List.countP_eq_length.mpr fun e member => decide_eq_true (listed e member)]
  exact (placed_sublist level p.eventQueue).countP_le

theorem countP_urgent_lists (queue : List Event) :
    (queue.countP fun e => arrangedList e.id = some 0) +
      (queue.countP fun e => arrangedList e.id = some 1) +
      (queue.countP fun e => arrangedList e.id = some 2) ≤ queue.countP isUrgent := by
  induction queue with
  | nil => simp
  | cons e rest ih =>
    have once : ∀ listed : Option (Fin 6),
        (if decide (listed = some 0) then 1 else 0) + (if decide (listed = some 1) then 1 else 0) +
          (if decide (listed = some 2) then 1 else 0) ≤
          if listed.any (fun level => level ≤ 2) then 1 else 0 := by
      rintro (_ | level)
      · decide
      · revert level
        decide
    have here := once (arrangedList e.id)
    rw [show (if (arrangedList e.id).any (fun level => level ≤ 2) then 1 else 0) =
      if isUrgent e then 1 else 0 from rfl] at here
    simp only [List.countP_cons]
    omega

theorem ReleaseDue.pick {s : SchedState} {p : EventPipe} (tidy : p.Tidy)
    (due : ReleaseDue cfg v s p) :
    ∃ event, p.pickUpNextEvent.1 = some event ∧ isUrgent event ∧
      (Releases cfg v s event ∨ ReleaseDue cfg v s p.pickUpNextEvent.2) ∧
      p.pickUpNextEvent.2.urgent + 1 ≤ p.urgent := by
  obtain ⟨e, member, releases⟩ := due.arranged
  rcases EventPipe.pickUpNextEvent_cases tidy.cursor with ⟨_, empty⟩ |
    ⟨level, event, rest, after, picked, head, first, lists, queue, _⟩
  · have : e ∈ ordered p.arrangeQueued.eventList := mem_ordered.mpr ⟨2, member⟩
    rw [empty] at this
    cases this
  have early : level ≤ 2 := by
    by_contra late
    rw [first 2 (not_le.mp late)] at member
    cases member
  have listed : arrangedList event.id = some level :=
    tidy.arrange.filed level event (by simp [head])
  rw [picked]
  refine ⟨event, rfl, isUrgent_iff.mpr ⟨level, early, listed⟩, ?_, ?_⟩
  · have inAfter : e = event ∨ e ∈ after.eventList 2 := by
      rw [lists]
      by_cases same : (2 : Fin 6) = level
      · subst same
        rw [update_self]
        exact List.mem_cons.mp (head ▸ member)
      · rw [update_of_ne same]
        exact .inr member
    rcases inAfter with rfl | stays
    · exact .inl releases
    · exact .inr (.inl ⟨e, stays, releases, by rw [queue]; rfl⟩)
  · have all : (p.arrangeQueued.eventList 0).length + (p.arrangeQueued.eventList 1).length +
        (p.arrangeQueued.eventList 2).length ≤ p.urgent := by
      have zero := arranged_length_le p 0
      have one := arranged_length_le p 1
      have two := arranged_length_le p 2
      have queued := countP_urgent_lists p.eventQueue
      unfold EventPipe.urgent
      omega
    have taken : (after.eventList level).length + 1 =
        (p.arrangeQueued.eventList level).length := by
      rw [lists, update_self, head, List.length_cons]
    have others : ∀ other, other ≠ level →
        (after.eventList other).length = (p.arrangeQueued.eventList other).length := by
      intro other ne
      rw [lists, update_of_ne ne]
    have left : after.urgent = (after.eventList 0).length + (after.eventList 1).length +
        (after.eventList 2).length := by
      unfold EventPipe.urgent
      rw [queue, List.countP_nil, Nat.add_zero]
    have which : ∀ level : Fin 6, level ≤ 2 → level = 0 ∨ level = 1 ∨ level = 2 := by decide
    dsimp only
    rw [left]
    rcases which level early with rfl | rfl | rfl
    · have := others 1 (by decide)
      have := others 2 (by decide)
      omega
    · have := others 0 (by decide)
      have := others 2 (by decide)
      omega
    · have := others 0 (by decide)
      have := others 1 (by decide)
      omega

theorem urgent_retains {p p' : EventPipe} (retains : Retains (fun id => queuedByHandler id) p p') :
    p'.urgent = p.urgent := by
  obtain ⟨kept, added, split, same, _, quiet⟩ := retains.queue
  have keptCount : kept.countP isUrgent = p.eventQueue.countP isUrgent := by
    have ids := forall₂_sameRequest_map isUrgent (fun _ _ => rfl) same
    have counts := congrArg (List.countP id) ids
    rwa [List.countP_map, List.countP_map] at counts
  have addedCount : added.countP isUrgent = 0 := by
    refine List.countP_eq_zero.mpr fun e member => ?_
    have asked := (quiet e member).2.2.2
    unfold isUrgent
    cases id : e.id <;> simp_all [queuedByHandler, arrangedList, placement]
  unfold EventPipe.urgent
  rw [split, List.countP_append, keptCount, addedCount, (retains.lists 0).length_eq,
    (retains.lists 1).length_eq, (retains.lists 2).length_eq, Nat.add_zero]

namespace ProcessEvent

open EventThread

variable {c c' : ProcessEvent}

/-- Function `v` has full access and its release is due or in hand. -/
structure Releasing (cfg : Config) (v : Nat) (c : ProcessEvent) : Prop where
  tidy : c.thread.Tidy
  exclusive : Exclusive cfg c.thread.adapter.sched
  holds : c.thread.adapter.sched.Holds cfg v
  unlocked : ¬c.thread.adapter.sched.lockWorldSwitch
  awake : ¬c.thread.adapter.sched.isInPowersaving
  due : (c.point = .picking ∧ c.thread.inHand = none ∧
      ReleaseDue cfg v c.thread.adapter.sched c.thread.adapter.pipe) ∨
    (c.point = .handling ∧ ∃ event, c.thread.inHand = some event ∧ isUrgent event ∧
      (Releases cfg v c.thread.adapter.sched event ∨
        ReleaseDue cfg v c.thread.adapter.sched c.thread.adapter.pipe))

/-- Two steps for every urgent event, one for the one in hand. -/
def remaining (c : ProcessEvent) : Nat :=
  2 * c.thread.adapter.pipe.urgent + if c.point = .handling then 1 else 0

theorem push_releasing (releasing : Releasing cfg v c) {request : Request}
    (clears : c.Clears cfg v (.push request))
    (fresh : ∀ s, request.signal = some s → s ∉ c.thread.waiting) :
    Releasing cfg v ⟨c.thread.push request, c.point⟩ ∧
      remaining ⟨c.thread.push request, c.point⟩ ≤ c.remaining + 2 := by
  have fired : Step cfg c.thread (.push request) (c.thread.push request) := .push request fresh
  have tidy := step_tidy releasing.tidy fired
  have sameSched : (c.thread.push request).adapter.sched = c.thread.adapter.sched :=
    push_sched request
  have pipe : (c.thread.push request).adapter.pipe = c.thread.adapter.pipe ∨
      (c.thread.push request).adapter.pipe = { c.thread.adapter.pipe with
        eventQueue := c.thread.adapter.pipe.eventQueue ++ [⟨c.thread.adapter.pipe.freshEntry,
          request.idxVf, request.id, .normal, request.signal, request.fbClearType⟩]
        freshEntry := c.thread.adapter.pipe.freshEntry + 1 } := by
    unfold EventThread.push
    split
    · rename_i queued
      exact .inr (EventPipe.queuePushEx_some (queueRequest_some queued).2)
    · exact .inl rfl
  have stillDue : ReleaseDue cfg v c.thread.adapter.sched c.thread.adapter.pipe →
      ReleaseDue cfg v c.thread.adapter.sched (c.thread.push request).adapter.pipe := by
    intro due
    rcases pipe with same | grown
    · rw [same]
      exact due
    · rw [grown]
      exact due.push _ (clears releasing.holds)
  refine ⟨⟨tidy, by rw [sameSched]; exact releasing.exclusive, by rw [sameSched]; exact
    releasing.holds, by rw [sameSched]; exact releasing.unlocked, by rw [sameSched]; exact
    releasing.awake, ?_⟩, ?_⟩
  · dsimp only
    rw [sameSched, push_inHand]
    rcases releasing.due with ⟨picking, free, due⟩ | ⟨handling, event, held, urgent, due⟩
    · exact .inl ⟨picking, free, stillDue due⟩
    · exact .inr ⟨handling, event, held, urgent, due.imp_right stillDue⟩
  · have more : (c.thread.push request).adapter.pipe.urgent ≤ c.thread.adapter.pipe.urgent + 1 := by
      rcases pipe with same | grown
      · rw [same]
        exact Nat.le_succ _
      · rw [grown]
        unfold EventPipe.urgent
        dsimp only
        rw [List.countP_append]
        have one : List.countP isUrgent [(⟨c.thread.adapter.pipe.freshEntry, request.idxVf,
            request.id, .normal, request.signal, request.fbClearType⟩ : Event)] ≤ 1 :=
          List.countP_le_length
        omega
    unfold remaining
    dsimp only
    omega

theorem advance_releasing (mapped : cfg.enablePerPartitionFullAccess → cfg.worldSwitchMask v ≠ 0)
    (releasing : Releasing cfg v c) {turn : TurnEnv} (clears : c.Clears cfg v (.advance turn)) :
    ¬(c.advance cfg turn).thread.adapter.sched.Holds cfg v ∨
      Releasing cfg v (c.advance cfg turn) ∧ (c.advance cfg turn).remaining + 1 ≤ c.remaining := by
  obtain ⟨t, point⟩ := c
  obtain ⟨tidy, exclusive, holds, unlocked, awake, due⟩ := releasing
  dsimp only at *
  obtain ⟨admits, clearsEvent⟩ := clears holds
  rcases due with ⟨rfl, free, due⟩ | ⟨rfl, event, held, urgent, due⟩
  · obtain ⟨event, picked, urgent, goes, fewer⟩ := due.pick tidy.pipe
    have inHand : t.pick.inHand = some event := picked
    have advanced : advance cfg turn ⟨t, .picking⟩ = ⟨t.pick, .handling⟩ := by
      simp [advance, inHand]
    have fired : Step cfg t .pick t.pick := .pick free
    rw [advanced]
    refine .inr ⟨⟨step_tidy tidy fired, exclusive, holds, unlocked, awake,
      .inr ⟨rfl, event, inHand, urgent, goes⟩⟩, ?_⟩
    simp only [remaining, EventThread.pick]
    simp
    omega
  · have fired : Step cfg t (.process turn) (t.process cfg turn event) := .process turn held
    obtain ⟨ends, goesOn⟩ := clearsEvent event held
    obtain ⟨next, undisturbed, retains⟩ :=
      settleEvent_urgent urgent unlocked awake holds (by simpa using goesOn)
    have advanced : advance cfg turn ⟨t, .handling⟩ = ⟨t.process cfg turn event, .picking⟩ := by
      simp [advance, held, next]
    rw [advanced]
    by_cases still : (t.process cfg turn event).adapter.sched.Holds cfg v
    · refine .inr ⟨⟨step_tidy tidy fired, step_exclusive exclusive admits fired, still,
        fun locked => unlocked (undisturbed.lock locked),
        fun saving => awake (undisturbed.power saving), .inl ⟨rfl, rfl, ?_⟩⟩, ?_⟩
      · rcases due with releases | due
        · obtain ⟨handled, inUse⟩ := ends releases
          exact absurd still (settleEvent_releases releases holds exclusive mapped unlocked awake
            (by simpa using handled) (by simpa using inUse))
        · exact due.retains retains (undisturbed.access still).2
      · have same : (t.process cfg turn event).adapter.pipe.urgent = t.adapter.pipe.urgent :=
          urgent_retains retains
        simp [remaining, same]
    · exact .inl still

/-- A due release is handled before the call returns, and within two steps for each
urgent event that is pending or pushed: on the way there is a state in which the
function has left full access. -/
theorem release_before_return {t : EventThread} {labels : List LoopLabel}
    (run : Run (Boots cfg) (Step cfg) (Admits cfg) t) (idle : t.inHand = none)
    (mapped : cfg.enablePerPartitionFullAccess → cfg.worldSwitchMask v ≠ 0)
    (holds : t.adapter.sched.Holds cfg v) (unlocked : ¬t.adapter.sched.lockWorldSwitch)
    (awake : ¬t.adapter.sched.isInPowersaving)
    (due : ReleaseDue cfg v t.adapter.sched t.adapter.pipe)
    (path : Path (Advances cfg) (Clears cfg v) ⟨t, .picking⟩ labels c)
    (enough : c.point = .returned ∨
      2 * (t.adapter.pipe.urgent + labels.countP fun label => !label.isAdvance) <
        labels.countP LoopLabel.isAdvance) :
    Path.Meets (Advances cfg) (Clears cfg v) (fun c => ¬c.thread.adapter.sched.Holds cfg v)
      ⟨t, .picking⟩ labels c := by
  have first : Releasing cfg v ⟨t, .picking⟩ :=
    ⟨run_tidy run, run_exclusive run, holds, unlocked, awake, .inl ⟨rfl, idle, due⟩⟩
  have progress := path.meets_or_bounded (fun c => ¬c.thread.adapter.sched.Holds cfg v)
    (Releasing cfg v) remaining LoopLabel.isAdvance 2 ?_ first
  · rcases progress with met | ⟨last, bound⟩
    · exact met
    · exfalso
      rcases enough with returned | many
      · rcases last.due with ⟨picking, _⟩ | ⟨handling, _⟩
        · rw [returned] at picking
          cases picking
        · rw [returned] at handling
          cases handling
      · have start : remaining ⟨t, .picking⟩ = 2 * t.adapter.pipe.urgent := by simp [remaining]
        omega
  · intro before label after releasing clears fired
    cases fired with
    | push request fresh => exact .inr (push_releasing releasing clears fresh)
    | advance turn _ => exact advance_releasing mapped releasing clears

def grantedThread : EventThread :=
  (boot Config.pair (fun _ => .avail) 0).serve Config.pair ⟨0, .reqGpuInit, none, .init, true⟩
    ⟨false, false, Env.quiet 5⟩

theorem grantedThread_run :
    Run (Boots Config.pair) (Step Config.pair) (Admits Config.pair) grantedThread := by
  refine serve_run (.start ⟨_, _, rfl⟩) rfl rfl _ trivial trivial fun event held => ?_
  obtain rfl : (⟨0, 0, .reqGpuInit, .normal, none, .init⟩ : Event) = event := Option.some.inj held
  exact ⟨by decide, by intro asked; cases asked⟩

theorem push_run {t : EventThread} (run : Run (Boots cfg) (Step cfg) (Admits cfg) t)
    {request : Request} (silent : request.signal = none) :
    Run (Boots cfg) (Step cfg) (Admits cfg) (t.push request) := by
  refine run.next (.push request) ?_ (.push request fun s signal => ?_)
  · trivial
  · rw [silent] at signal
    cases signal

theorem path_advance {labels : List LoopLabel} {ok : ProcessEvent → LoopLabel → Prop}
    (turn : TurnEnv) (met : ok c (.advance turn)) (running : c.point ≠ .returned)
    (rest : Path (Advances cfg) ok (c.advance cfg turn) labels c') :
    Path (Advances cfg) ok c (.advance turn :: labels) c' :=
  .cons met (.advance turn running) rest

def deferredThread : EventThread :=
  grantedThread.serve Config.pair ⟨1, .reqGpuInit, none, .init, true⟩ ⟨false, false, Env.quiet 6⟩

theorem deferredThread_run :
    Run (Boots Config.pair) (Step Config.pair) (Admits Config.pair) deferredThread := by
  refine serve_run grantedThread_run rfl rfl _ trivial trivial fun event held => ?_
  obtain rfl : (⟨1, 1, .reqGpuInit, .normal, none, .init⟩ : Event) = event := Option.some.inj held
  exact ⟨by decide, by intro asked; cases asked⟩

/-- Function 1 asked for full access and was deferred; the release of function 0, which comes
later, is still handled by the next call, and then function 1 has full access. -/
theorem release_before_return_deferred :
    ∃ labels c, c.point = .returned ∧
      c.thread.adapter.sched.isFullAccessVf Config.pair 1 = true ∧
      (deferredThread.adapter.pipe.eventList 4).map (·.idxVf) = [1] ∧
      Path.Meets (Advances Config.pair) (Clears Config.pair 0)
        (fun c => ¬c.thread.adapter.sched.Holds Config.pair 0)
        ⟨deferredThread.push ⟨0, .relGpuInit, none, .init, true⟩, .picking⟩ labels c := by
  have path : Path (Advances Config.pair) (Clears Config.pair 0)
      ⟨deferredThread.push ⟨0, .relGpuInit, none, .init, true⟩, .picking⟩ _ _ :=
    path_advance ⟨false, false, Env.quiet 9⟩ ?_ (by decide) <|
    path_advance ⟨false, false, Env.quiet 9⟩ ?_ (by decide) <|
    path_advance ⟨false, false, Env.quiet 9⟩ ?_ (by decide) <|
    path_advance ⟨false, false, Env.quiet 9⟩ ?_ (by decide) <|
    path_advance ⟨false, false, Env.quiet 9⟩ ?_ (by decide) (.nil _)
  · exact ⟨_, _, by decide, by decide, by decide,
      release_before_return (push_run deferredThread_run rfl) rfl
      (by decide) ⟨by decide, by decide⟩ (by decide) (by decide)
      (.inr ⟨[], ⟨2, 0, .relGpuInit, .normal, none, .init⟩, [], rfl, ⟨rfl, .inr ⟨rfl, by decide⟩⟩,
        rfl⟩) path (.inl (by decide))⟩
  · exact fun _ => ⟨fun event held => (by cases (show none = some event from held)),
      fun event held => (by cases (show none = some event from held))⟩
  · refine fun _ => ⟨fun event held => ?_, fun event held => ?_⟩ <;>
      obtain rfl : (⟨2, 0, .relGpuInit, .normal, none, .init⟩ : Event) = event :=
        Option.some.inj held
    · exact ⟨by decide, by intro asked; cases asked⟩
    · exact ⟨fun _ => by decide, by decide⟩
  · exact fun holds => absurd holds.2 (by decide)
  · exact fun holds => absurd holds.2 (by decide)
  · exact fun holds => absurd holds.2 (by decide)

theorem path_determined {labels : List LoopLabel} {ok : ProcessEvent → LoopLabel → Prop}
    {turn : TurnEnv} (path : Path (Advances cfg) ok c labels c')
    (only : ∀ label ∈ labels, label = .advance turn) :
    c' = (advance cfg turn)^[labels.length] c := by
  induction path with
  | nil => rfl
  | cons _ fired _ ih =>
    obtain rfl := only _ (List.mem_cons_self ..)
    cases fired with
    | advance _ _ =>
      rw [ih fun label member => only label (List.mem_cons_of_mem _ member)]
      rfl

/-- A pending whole GPU reset is deferred ahead of the release and ends the call:
it returns with function 0 still in full access throughout. -/
theorem forceReset_blocks_release :
    ¬∀ (cfg : Config) (v : Nat) (t : EventThread) (labels : List LoopLabel) (c : ProcessEvent),
      Run (Boots cfg) (Step cfg) (Admits cfg) t → t.inHand = none →
      t.adapter.sched.Holds cfg v → ¬t.adapter.sched.lockWorldSwitch →
      ¬t.adapter.sched.isInPowersaving →
      (∃ e ∈ t.adapter.pipe.pending, e.idxVf = v ∧ t.adapter.sched.isEventPair cfg e) →
      Path (Advances cfg) always ⟨t, .picking⟩ labels c → c.point = .returned →
      Path.Meets (Advances cfg) always (fun c => ¬c.thread.adapter.sched.Holds cfg v)
        ⟨t, .picking⟩ labels c := by
  intro handled
  have run : Run (Boots Config.pair) (Step Config.pair) (Admits Config.pair)
      ((grantedThread.push ⟨pfIdx, .schedForceResetGpu, none, .init, true⟩).push
        ⟨0, .relGpuInit, none, .init, true⟩) := push_run (push_run grantedThread_run rfl) rfl
  have path : Path (Advances Config.pair) always
      ⟨(grantedThread.push ⟨pfIdx, .schedForceResetGpu, none, .init, true⟩).push
        ⟨0, .relGpuInit, none, .init, true⟩, .picking⟩ _ _ :=
    path_advance ⟨false, false, Env.quiet 9⟩ trivial (by decide) <|
    path_advance ⟨false, false, Env.quiet 9⟩ trivial (by decide) <|
    path_advance ⟨false, false, Env.quiet 9⟩ trivial (by decide) (.nil _)
  obtain ⟨early, late, middle, split, toMiddle, _, ended⟩ :=
    handled Config.pair 0 _ _ _ run rfl ⟨by decide, by decide⟩ (by decide) (by decide)
      ⟨⟨2, 0, .relGpuInit, .normal, none, .init⟩, by decide, rfl, by decide⟩ path (by decide)
  have only : ∀ label ∈ early, label = LoopLabel.advance ⟨false, false, Env.quiet 9⟩ := by
    intro label member
    have listed := List.mem_append_left late member
    rw [← split] at listed
    simpa using listed
  have short : early.length < 4 := by
    have lengths := congrArg List.length split
    rw [List.length_append] at lengths
    simp only [List.length_cons, List.length_nil] at lengths
    omega
  rw [path_determined toMiddle only] at ended
  have through : ∀ steps < 4, ((advance Config.pair ⟨false, false, Env.quiet 9⟩)^[steps]
      ⟨(grantedThread.push ⟨pfIdx, .schedForceResetGpu, none, .init, true⟩).push
        ⟨0, .relGpuInit, none, .init, true⟩, .picking⟩).thread.adapter.sched.isVfInFullAccess
          Config.pair 0 = true ∧ ((advance Config.pair ⟨false, false, Env.quiet 9⟩)^[steps]
      ⟨(grantedThread.push ⟨pfIdx, .schedForceResetGpu, none, .init, true⟩).push
        ⟨0, .relGpuInit, none, .init, true⟩, .picking⟩).thread.adapter.sched.isFullAccessVf
          Config.pair 0 = true := by decide
  exact ended (through early.length short)

end ProcessEvent

end MxGpu.Sched
