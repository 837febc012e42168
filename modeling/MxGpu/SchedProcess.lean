import MxGpu.SchedEffects
import MxGpu.Transition

/- The event thread as a transition system: callers push requests at any time,
the thread picks an event up, settles it, and checks the full access timeouts
between two calls of the loop. -/
namespace MxGpu.Sched

open PriorityLists Relation Function

/-- What `amdgv_sched_process_event` reads about one event, with the environment
of its handler. -/
structure TurnEnv where
  shouldSkip : Bool
  unrecovErr : Bool
  handler : Env

/-- One call of `amdgv_sched_queue_event_ex`, or with a signal of
`amdgv_sched_queue_event_and_wait_ex`. `accepted` is false when the request is
refused or no entry is left for it. -/
structure Request where
  idxVf : Nat
  id : EventId
  signal : Option Nat
  fbClearType : FbClearType
  accepted : Bool

/-- One pass of `amdgv_sched_full_access_check_and_process`. -/
structure TimeoutCheck where
  inEccRecovery : Bool
  now : Nat → Time
  env : Nat → TimeoutEnv

def Config.pair : Config where
  numVf := 2
  maxNumVf := 2
  enablePerPartitionFullAccess := false
  worldSwitchMask := fun _ => 1
  allowTimeFullAccess := 1000
  usePf := false
  gpuvLiveUpdate := false

/-- Every call into the hardware succeeds, nothing hangs and nothing is queued. -/
def Env.quiet (now : Time) : Env where
  now := now
  enter :=
    { now, switchedToPf := false, pfReset := .flr true, stateOk := true, abnormalVf := none,
      stopReset := .nothing true, orphanReset := .flr true, orphanAutoReset := .nothing true,
      guardFull := false, loadDfcOk := true, critRegionReallocNeeded := false,
      critRegionOk := true, inHive := false, fbSharingAllowed := false, requestServed := true,
      stateOkAfter := true, eventQueued := true, failReset := .nothing true }
  exit :=
    { oneVf := false, vfInitialized := true, shutdownOk := true, releaseOk := true,
      hungReset := .nothing true, addVfActivates := true, pendingRemove := fun _ => false,
      loopFailed := none }
  timeout := { vfReset := .flr true, pendingRemove := fun _ => false, loopFailed := none }
  liveUpdateState := .none
  engineShared := false
  resetNotifyVfPending := false
  inXgmiChainReset := false
  first := none
  second := none
  third := none
  vfReset := .flr true
  autoReset := .nothing true
  gpuReset := .done .notReached
  eventQueued := true
  inHive := false
  fbSharingAllowed := false
  critRegionOk := true
  vfFbCleared := true
  importStaticDone := true
  liveInfo := none
  unprocessed := []
  gpumonVfStates := []
  stopAllOk := true
  powerSavingOk := true
  powerSavingAfter := false
  unrecovErr := false
  ignoreRma := false
  debugSwitchOk := true
  dfcFwDetected := true

namespace Adapter

variable (cfg : Config) (a : Adapter)

/-- The three checks that drop an event, signalled, before it is handled. -/
def skipsEvent (turn : TurnEnv) (event : Event) : Bool :=
  turn.shouldSkip ∨ event.status = .finished ∨ (turn.unrecovErr ∧ event.idxVf ≠ pfIdx)

/-- The body of the loop of `amdgv_sched_process_event` for a picked event. -/
def settleEvent (turn : TurnEnv) (event : Event) : Adapter × Verdict :=
  if skipsEvent turn event then (a, .next) else a.handleEvent cfg turn.handler event

def queueRequest (request : Request) : Option Adapter :=
  (a.pipe.queuePushEx a.sched.isInPowersaving request.accepted request.idxVf request.id
    request.signal request.fbClearType).map fun pipe => { a with pipe := pipe }

end Adapter

/-- The event thread between two of its steps. `waiting` are the signals some
caller of `amdgv_sched_queue_event_and_wait_ex` is blocked on. -/
structure EventThread where
  adapter : Adapter
  inHand : Option Event
  waiting : List Nat

namespace EventThread

variable (cfg : Config) (t : EventThread)

def emptyPipe : EventPipe where
  eventQueue := []
  eventList := fun _ => []
  currEventListIdx := 0
  nextEvent := none
  freshEntry := 0

/-- `amdgv_sched_event_queue_process_init`, and with `AMDGV_FLAG_USE_PF` the full
access `amdgv_sched_init_pf_state_late` gives the PF at start. -/
def bootSched (states : Nat → VfState) (now : Time) : SchedState where
  arrayVf idxVf :=
    { state := states idxVf, isCondAvail := false, fbDirty := false, inFullAccess := false,
      startTimeFullAccess := 0, usedTimeFullAccess := 0, eventIdFullAccess := .reqGpuInit }
  inFullAccess := cfg.usePf
  idxVfFullAccess := if cfg.usePf then pfIdx else cfg.invalidIdxVf
  startTimeFullAccess := if cfg.usePf then now else 0
  usedTimeFullAccess := 0
  eventIdFullAccess := .reqGpuInit
  logicalSchedFaMask := 0
  skipFullAccessTimeoutCheck := false
  lockWorldSwitch := false
  isInPowersaving := false
  inLiveDebugging := false
  accessLog :=
    if cfg.usePf ∧ !cfg.enablePerPartitionFullAccess then [.granted pfIdx now] else []

def boot (states : Nat → VfState) (now : Time) : EventThread :=
  ⟨⟨emptyPipe, bootSched cfg states now⟩, none, []⟩

def pending : List Event := t.inHand.toList ++ t.adapter.pipe.pending

def wake (signal : Option Nat) : List Nat := t.waiting.filter fun s => signal ≠ some s

def push (request : Request) : EventThread :=
  match t.adapter.queueRequest request with
  | some adapter => { t with adapter, waiting := request.signal.toList ++ t.waiting }
  | none => t

/-- `amdgv_sched_pick_up_next_event` in the loop. -/
def pick : EventThread :=
  { t with
    adapter := { t.adapter with pipe := t.adapter.pipe.pickUpNextEvent.2 }
    inHand := t.adapter.pipe.pickUpNextEvent.1 }

def process (turn : TurnEnv) (event : Event) : EventThread :=
  let settled := t.adapter.settleEvent cfg turn event
  { adapter := settled.1
    inHand := none
    waiting := if settled.2 = .keep then t.waiting else t.wake event.signal }

def checkTimeouts (check : TimeoutCheck) : EventThread :=
  { t with
    adapter := t.adapter.fullAccessCheckAndProcess cfg check.inEccRecovery check.now check.env }

def serve (request : Request) (turn : TurnEnv) : EventThread :=
  match (t.push request).pick.inHand with
  | some event => (t.push request).pick.process cfg turn event
  | none => (t.push request).pick

inductive Label
  | push (request : Request)
  | pick
  | process (turn : TurnEnv)
  | checkTimeouts (check : TimeoutCheck)

/-- The steps, in any order the two locks allow: a push at any time, on a signal
nobody else waits for, the others one after another in the event thread. -/
inductive Step : EventThread → Label → EventThread → Prop
  | push {t : EventThread} (request : Request)
      (fresh : ∀ s, request.signal = some s → s ∉ t.waiting) :
      Step t (.push request) (t.push request)
  | pick {t : EventThread} (free : t.inHand = none) : Step t .pick t.pick
  | process {t : EventThread} (turn : TurnEnv) {event : Event} (held : t.inHand = some event) :
      Step t (.process turn) (t.process cfg turn event)
  | checkTimeouts {t : EventThread} (check : TimeoutCheck) (free : t.inHand = none) :
      Step t (.checkTimeouts check) (t.checkTimeouts cfg check)

def Boots (t : EventThread) : Prop := ∃ states now, t = boot cfg states now

end EventThread

namespace EventPipe

/-- What the pipeline looks like between two steps: every event is in the list of
its id, in order of arrival, and the cursor is at the front. -/
structure Tidy (p : EventPipe) : Prop where
  cursor : p.CursorFirst
  filed : ∀ level, ∀ e ∈ p.eventList level, arrangedList e.id = some level
  sorted : ∀ level, (p.eventList level ++ p.eventQueue).Pairwise fun e e' => e.entry < e'.entry
  fresh : ∀ e ∈ p.pending, e.entry < p.freshEntry

/-- An event taken from the front: nothing of higher priority waits, and nothing
older in its list. -/
def InFront (p : EventPipe) (event : Event) : Prop :=
  event.entry < p.freshEntry ∧ ∃ level, arrangedList event.id = some level ∧
    (∀ earlier < level, p.eventList earlier = []) ∧
    ∀ e ∈ p.eventList level ++ p.eventQueue, event.entry < e.entry

theorem mem_pending {p : EventPipe} {e : Event} :
    e ∈ p.pending ↔ (∃ level, e ∈ p.eventList level) ∨ e ∈ p.eventQueue := by
  unfold pending
  rw [List.mem_append, mem_ordered]

theorem queuePushEx_some {p p' : EventPipe} {powersaving allocated : Bool} {idxVf : Nat}
    {id : EventId} {signal : Option Nat} {fbClearType : FbClearType}
    (pushed : p.queuePushEx powersaving allocated idxVf id signal fbClearType = some p') :
    p' = { p with
      eventQueue := p.eventQueue ++ [⟨p.freshEntry, idxVf, id, .normal, signal, fbClearType⟩]
      freshEntry := p.freshEntry + 1 } := by
  unfold queuePushEx at pushed
  split at pushed
  · cases pushed
  split at pushed
  · cases pushed
  split at pushed
  · cases pushed
  exact (Option.some.inj pushed).symm

theorem Tidy.push {p p' : EventPipe} (tidy : p.Tidy) {powersaving allocated : Bool}
    {idxVf : Nat} {id : EventId} {signal : Option Nat} {fbClearType : FbClearType}
    (pushed : p.queuePushEx powersaving allocated idxVf id signal fbClearType = some p') :
    p'.Tidy ∧ ∀ event, p.InFront event → p'.InFront event := by
  rw [queuePushEx_some pushed]
  refine ⟨⟨tidy.cursor, tidy.filed, fun level => ?_, fun e member => ?_⟩, ?_⟩
  · dsimp only
    rw [← List.append_assoc]
    refine List.pairwise_append.mpr ⟨tidy.sorted level, List.pairwise_singleton _ _, ?_⟩
    intro e old e' new
    rw [List.mem_singleton.mp new]
    refine tidy.fresh e (mem_pending.mpr ?_)
    rcases List.mem_append.mp old with listed | queued
    · exact .inl ⟨level, listed⟩
    · exact .inr queued
  · rcases mem_pending.mp member with listed | queued
    · exact Nat.lt_succ_of_lt (tidy.fresh e (mem_pending.mpr (.inl listed)))
    · rcases List.mem_append.mp queued with old | new
      · exact Nat.lt_succ_of_lt (tidy.fresh e (mem_pending.mpr (.inr old)))
      · rw [List.mem_singleton.mp new]
        exact Nat.lt_succ_self _
  · rintro event ⟨old, level, listed, first, older⟩
    refine ⟨Nat.lt_succ_of_lt old, level, listed, first, fun e member => ?_⟩
    dsimp only at member
    rw [← List.append_assoc] at member
    rcases List.mem_append.mp member with known | new
    · exact older e known
    · rw [List.mem_singleton.mp new]
      exact old

theorem Tidy.retains {asked : EventId → Prop} {p p' : EventPipe} (tidy : p.Tidy)
    (retains : Retains asked p p') : p'.Tidy where
  cursor := by
    rcases tidy.cursor with unset | ⟨event, rest, head, atHead, first⟩
    · exact .inl (retains.cursor.2.trans unset)
    · have same := retains.lists p.currEventListIdx
      rw [head] at same
      obtain ⟨event', rest', request, _, head'⟩ := List.forall₂_cons_left_iff.mp same
      refine .inr ⟨event', rest', ?_, ?_, fun earlier below => ?_⟩
      · rw [retains.cursor.1, head']
      · rw [retains.cursor.2, atHead, request]
      · rw [retains.cursor.1] at below
        have empty := retains.lists earlier
        rw [first earlier below] at empty
        exact List.forall₂_nil_left_iff.mp empty
  filed level e member := by
    obtain ⟨origin, there, request⟩ := forall₂_sameRequest_mem (retains.lists level) member
    rw [request]
    exact tidy.filed level origin there
  sorted level := by
    obtain ⟨kept, added, split, same, sorted, quiet⟩ := retains.queue
    have before : ((p'.eventList level ++ kept).map Event.entry).Pairwise (· < ·) := by
      rw [List.map_append, forall₂_sameRequest_map Event.entry (fun _ _ => rfl)
        (retains.lists level), forall₂_sameRequest_map Event.entry (fun _ _ => rfl) same,
        ← List.map_append]
      exact List.pairwise_map.mpr (tidy.sorted level)
    rw [split, ← List.append_assoc]
    refine List.pairwise_append.mpr ⟨List.pairwise_map.mp before, sorted, ?_⟩
    intro e old e' new
    refine lt_of_lt_of_le ?_ (quiet e' new).2.1
    obtain ⟨origin, there, request⟩ : ∃ x ∈ p.pending, SameRequest x e := by
      rcases List.mem_append.mp old with listed | queued
      · obtain ⟨x, member, request⟩ := forall₂_sameRequest_mem (retains.lists level) listed
        exact ⟨x, mem_pending.mpr (.inl ⟨level, member⟩), request⟩
      · obtain ⟨x, member, request⟩ := forall₂_sameRequest_mem same queued
        exact ⟨x, mem_pending.mpr (.inr member), request⟩
    rw [request]
    exact tidy.fresh origin there
  fresh e member := by
    rcases mem_pending.mp member with ⟨level, listed⟩ | queued
    · obtain ⟨x, there, request⟩ := forall₂_sameRequest_mem (retains.lists level) listed
      rw [request]
      exact lt_of_lt_of_le (tidy.fresh x (mem_pending.mpr (.inl ⟨level, there⟩))) retains.fresh
    · obtain ⟨kept, added, split, same, _, quiet⟩ := retains.queue
      rw [split] at queued
      rcases List.mem_append.mp queued with old | new
      · obtain ⟨x, there, request⟩ := forall₂_sameRequest_mem same old
        rw [request]
        exact lt_of_lt_of_le (tidy.fresh x (mem_pending.mpr (.inr there))) retains.fresh
      · exact (quiet e new).2.2.1

theorem arranged_sublist (p : EventPipe) (level : Fin 6) :
    (p.arrangeQueued.eventList level).Sublist (p.eventList level ++ p.eventQueue) := by
  rw [arrangeQueued_eventList, arrangeEventList_eq]
  exact List.filter_sublist.append (placed_sublist level p.eventQueue)

theorem Tidy.arrange {p : EventPipe} (tidy : p.Tidy) : p.arrangeQueued.Tidy where
  cursor := arrangeQueued_cursorFirst tidy.cursor
  filed level e member := by
    rw [arrangeQueued_eventList, arrangeEventList_eq] at member
    rcases List.mem_append.mp member with old | new
    · exact tidy.filed level e (List.mem_of_mem_filter old)
    · obtain ⟨_, _, _, listed, _⟩ := mem_placed.mp new
      exact listed
  sorted level := by
    rw [arrangeQueued_eventQueue, List.append_nil]
    exact (tidy.sorted level).sublist (arranged_sublist p level)
  fresh e member := by
    rw [arrangeQueued_freshEntry]
    refine tidy.fresh e (mem_pending.mpr ?_)
    rcases mem_pending.mp member with ⟨level, listed⟩ | queued
    · rcases List.mem_append.mp ((arranged_sublist p level).subset listed) with old | new
      · exact .inl ⟨level, old⟩
      · exact .inr new
    · simp at queued

theorem Tidy.pick {p : EventPipe} (tidy : p.Tidy) :
    p.pickUpNextEvent.2.Tidy ∧
      ∀ event, p.pickUpNextEvent.1 = some event → p.pickUpNextEvent.2.InFront event := by
  have arranged := tidy.arrange
  rcases pickUpNextEvent_cases tidy.cursor with ⟨none, _⟩ |
    ⟨level, event, rest, after, picked, head, first, lists, queue, fresh, cursor⟩
  · rw [none]
    exact ⟨arranged, nofun⟩
  · rw [picked]
    have part : ∀ other, (after.eventList other).Sublist (p.arrangeQueued.eventList other) := by
      intro other
      rw [lists]
      by_cases same : other = level
      · subst same
        rw [update_self, head]
        exact List.sublist_cons_self _ _
      · rw [update_of_ne same]
    have sorted := arranged.sorted level
    rw [arrangeQueued_eventQueue, List.append_nil, head] at sorted
    refine ⟨⟨cursor, fun other e member => arranged.filed other e ((part other).subset member),
      fun other => ?_, fun e member => ?_⟩, ?_⟩
    · rw [queue, List.append_nil]
      have whole := arranged.sorted other
      rw [arrangeQueued_eventQueue, List.append_nil] at whole
      exact whole.sublist (part other)
    · rw [fresh, ← arrangeQueued_freshEntry]
      refine arranged.fresh e (mem_pending.mpr ?_)
      rcases mem_pending.mp member with ⟨other, listed⟩ | queued
      · exact .inl ⟨other, (part other).subset listed⟩
      · rw [queue] at queued
        cases queued
    · rintro e same
      obtain rfl := Option.some.inj same
      have there : event ∈ p.arrangeQueued.eventList level := by simp [head]
      refine ⟨?_, level, arranged.filed level event there, fun earlier below => ?_,
        fun e member => ?_⟩
      · rw [fresh, ← arrangeQueued_freshEntry]
        exact arranged.fresh event (mem_pending.mpr (.inl ⟨level, there⟩))
      · rw [lists, update_of_ne (ne_of_lt below)]
        exact first earlier below
      · rw [queue, List.append_nil, lists, update_self] at member
        exact (List.pairwise_cons.mp sorted).1 e member

theorem Tidy.pushBack {p : EventPipe} (tidy : p.Tidy) {event : Event}
    (front : p.InFront event) : (p.pushBackEvent event).Tidy := by
  obtain ⟨old, level, listed, first, older⟩ := front
  cases back : pushBackList event.id with
  | none => rw [pushBackEvent_none back]; exact tidy
  | some level' =>
    have same := pushBackList_arranged back
    rw [listed] at same
    obtain rfl := Option.some.inj same
    obtain ⟨lists, queue, fresh, cursor⟩ := pushBackEvent_some (p := p) back first
    refine ⟨cursor, fun other e member => ?_, fun other => ?_, fun e member => ?_⟩
    · rw [lists] at member
      by_cases same : other = level
      · subst same
        rw [update_self] at member
        rcases List.mem_cons.mp member with rfl | there
        · exact listed
        · exact tidy.filed other e there
      · rw [update_of_ne same] at member
        exact tidy.filed other e member
    · rw [lists, queue]
      by_cases same : other = level
      · subst same
        rw [update_self, List.cons_append]
        exact List.pairwise_cons.mpr ⟨older, tidy.sorted other⟩
      · rw [update_of_ne same]
        exact tidy.sorted other
    · rw [fresh]
      rcases mem_pending.mp member with ⟨other, there⟩ | queued
      · rw [lists] at there
        by_cases same : other = level
        · subst same
          rw [update_self] at there
          rcases List.mem_cons.mp there with rfl | there
          · exact old
          · exact tidy.fresh e (mem_pending.mpr (.inl ⟨other, there⟩))
        · rw [update_of_ne same] at there
          exact tidy.fresh e (mem_pending.mpr (.inl ⟨other, there⟩))
      · rw [queue] at queued
        exact tidy.fresh e (mem_pending.mpr (.inr queued))

end EventPipe

section

variable {cfg : Config}

theorem settleEvent_outcome (a : Adapter) (turn : TurnEnv) (event : Event) :
    Outcome cfg turn.handler a event (a.settleEvent cfg turn event) := by
  unfold Adapter.settleEvent
  split
  · exact .inr ⟨nofun, .refl a⟩
  · exact handleEvent_outcome turn.handler a event

theorem isVfInFullAccess_of_timedOut {s : SchedState} {inEccRecovery : Bool} {now : Time}
    {idxVf : Nat} (timedOut : s.fullAccessLeftTime cfg inEccRecovery now idxVf = .timedOut) :
    s.isVfInFullAccess cfg idxVf := by
  unfold SchedState.fullAccessLeftTime at timedOut
  split at timedOut
  · cases timedOut
  · rename_i inside
    simpa using inside

theorem fullAccessCheckAndProcess_changes {env : Env} {event : Event}
    {s₀ : SchedState} (a : Adapter) (check : TimeoutCheck) (done : event.status = .finished) :
    Changes cfg env event s₀ a
      (a.fullAccessCheckAndProcess cfg check.inEccRecovery check.now check.env) := by
  have scan : ∀ (functions : List Nat) (b : Adapter), cfg.enablePerPartitionFullAccess →
      Changes cfg env event s₀ b
        (Adapter.partitionCheckAndProcess cfg check.inEccRecovery check.now check.env
          functions b) := by
    intro functions b partitioned
    induction functions generalizing b with
    | nil => exact .refl b
    | cons idxVf rest ih =>
      unfold Adapter.partitionCheckAndProcess
      split
      · rename_i timedOut
        refine (exitFullAccessTimeout_changes b (check.env idxVf) idxVf (fun _ => ?_)
          (.inr done)).trans (ih _)
        simpa [SchedState.isVfInFullAccess, partitioned] using
          isVfInFullAccess_of_timedOut timedOut
      · exact ih b
  unfold Adapter.fullAccessCheckAndProcess
  split
  · exact .refl a
  · split
    · rename_i partitioned
      exact scan _ a partitioned
    · rename_i whole
      split
      · exact exitFullAccessTimeout_changes a _ _
          (fun partitioned => absurd partitioned whole) (.inr done)
      · exact .refl a

theorem settled_changes (a : Adapter) (turn : TurnEnv) (event : Event) :
    ReflTransGen (Change cfg turn.handler event a.sched) a.sched
      (a.settleEvent cfg turn event).1.sched := by
  rcases settleEvent_outcome a turn event with deferred | ⟨_, _, changes⟩
  · rw [deferred]
    exact .refl
  · exact changes

theorem checked_changes (a : Adapter) (check : TimeoutCheck) :
    ReflTransGen (Change cfg (Env.quiet 0) ⟨0, pfIdx, .schedRma, .finished, none, .init⟩ a.sched)
      a.sched (a.fullAccessCheckAndProcess cfg check.inEccRecovery check.now check.env).sched :=
  (fullAccessCheckAndProcess_changes a check rfl).2

end

namespace EventThread

variable {cfg : Config} {t : EventThread}

structure Tidy (t : EventThread) : Prop where
  pipe : t.adapter.pipe.Tidy
  held : ∀ event, t.inHand = some event → t.adapter.pipe.InFront event

theorem queueRequest_some {a a' : Adapter} {request : Request}
    (queued : a.queueRequest request = some a') :
    a'.sched = a.sched ∧
      a.pipe.queuePushEx a.sched.isInPowersaving request.accepted request.idxVf request.id
        request.signal request.fbClearType = some a'.pipe := by
  unfold Adapter.queueRequest at queued
  obtain ⟨pipe, pushed, rfl⟩ := Option.map_eq_some_iff.mp queued
  exact ⟨rfl, pushed⟩

theorem boot_tidy (states : Nat → VfState) (now : Time) : (boot cfg states now).Tidy where
  pipe := by
    refine ⟨.inl rfl, nofun, fun _ => List.Pairwise.nil, fun e member => ?_⟩
    rcases EventPipe.mem_pending.mp member with ⟨_, listed⟩ | queued
    · cases listed
    · cases queued
  held := nofun

theorem step_tidy {label : Label} {t' : EventThread} (tidy : t.Tidy)
    (step : Step cfg t label t') : t'.Tidy := by
  cases step with
  | push request _ =>
    unfold push
    split
    · rename_i queued
      obtain ⟨pipe, front⟩ := tidy.pipe.push (queueRequest_some queued).2
      exact ⟨pipe, fun event held => front event (tidy.held event held)⟩
    · exact tidy
  | pick _ =>
    obtain ⟨pipe, front⟩ := tidy.pipe.pick
    exact ⟨pipe, front⟩
  | process turn held =>
    refine ⟨?_, nofun⟩
    rcases settleEvent_outcome t.adapter turn _ with deferred | ⟨_, retains, _⟩
    · unfold process
      rw [deferred]
      exact tidy.pipe.pushBack (tidy.held _ held)
    · exact tidy.pipe.retains retains
  | checkTimeouts check free =>
    -- any event will do: the check changes the lists for none
    obtain ⟨retains, _⟩ : Changes cfg (Env.quiet 0) ⟨0, 0, .schedRma, .finished, none, .init⟩
        t.adapter.sched t.adapter _ := fullAccessCheckAndProcess_changes t.adapter check rfl
    exact ⟨tidy.pipe.retains retains, fun event held => by
      rw [show (t.checkTimeouts cfg check).inHand = t.inHand from rfl, free] at held
      cases held⟩

theorem run_tidy {ok : EventThread → Label → Prop}
    (run : Transition.Run (Boots cfg) (Step cfg) ok t) : t.Tidy := by
  refine run.invariant Tidy ?_ fun _ _ _ tidy _ step => step_tidy tidy step
  rintro _ ⟨states, now, rfl⟩
  exact boot_tidy states now

theorem process_skipped {turn : TurnEnv} {event : Event}
    (skips : Adapter.skipsEvent turn event) :
    (t.process cfg turn event).adapter = t.adapter := by
  unfold process Adapter.settleEvent
  rw [if_pos skips]

theorem push_sched (request : Request) : (t.push request).adapter.sched = t.adapter.sched := by
  unfold push
  split
  · rename_i queued
    exact (queueRequest_some queued).1
  · rfl

theorem push_inHand (request : Request) : (t.push request).inHand = t.inHand := by
  unfold push
  split <;> rfl

theorem serve_inHand (request : Request) (turn : TurnEnv) :
    (t.serve cfg request turn).inHand = none := by
  unfold serve
  split
  · rfl
  · assumption

theorem serve_run {ok : EventThread → Label → Prop}
    (run : Transition.Run (Boots cfg) (Step cfg) ok t) (free : t.inHand = none)
    {request : Request} (silent : request.signal = none) (turn : TurnEnv)
    (pushed : ok t (.push request)) (picked : ok (t.push request) .pick)
    (processed : ok (t.push request).pick (.process turn)) :
    Transition.Run (Boots cfg) (Step cfg) ok (t.serve cfg request turn) := by
  have toPick : Transition.Run (Boots cfg) (Step cfg) ok (t.push request).pick := by
    refine .next .pick (.next (.push request) run pushed (.push request ?_)) picked
      (.pick ((push_inHand request).trans free))
    intro s signal
    rw [silent] at signal
    cases signal
  unfold serve
  split
  · rename_i held
    exact .next (.process turn) toPick processed (.process turn held)
  · exact toPick

theorem serves_run (script : List (Request × TurnEnv))
    (silent : ∀ entry ∈ script, entry.1.signal = none)
    (run : Transition.Run (Boots cfg) (Step cfg) Transition.always t) (free : t.inHand = none) :
    Transition.Run (Boots cfg) (Step cfg) Transition.always
      (script.foldl (fun t entry => t.serve cfg entry.1 entry.2) t) := by
  induction script generalizing t with
  | nil => exact run
  | cons entry rest ih =>
    exact ih (fun other member => silent other (List.mem_cons_of_mem _ member))
      (serve_run run free (silent entry (List.mem_cons_self ..)) entry.2 trivial trivial trivial)
      (serve_inHand entry.1 entry.2)

end EventThread

end MxGpu.Sched
