import MxGpu.SchedProcess

/- Callers blocked in `amdgv_sched_queue_event_and_wait_ex`: which steps can free
an entry without its signal, and that no other step strands a caller. -/
namespace MxGpu.Sched

open Function

/-- Arranging frees no entry somebody waits for: no event of the batch removes it
from its list, and its own id has a list. -/
def EventPipe.SparesWaiters (p : EventPipe) : Prop :=
  (∀ level, ∀ e ∈ p.eventList level, e.signal ≠ none → survives level p.eventQueue e) ∧
    ∀ before e after, p.eventQueue = before ++ e :: after → e.signal ≠ none →
      ∃ level, arrangedList e.id = some level ∧ survives level after e

/-- The checks in front of both handlers hold an event back while the scheduler is
locked or in power saving. -/
def locksOut (cfg : Config) (s : SchedState) (turn : TurnEnv) (event : Event) : Prop :=
  !Adapter.skipsEvent turn event ∧
    (s.isAnyShareEngineVfInFullAccess cfg event.idxVf ∨ !s.isUnavailVf event.idxVf) ∧
    (s.isInPowersaving ∨ s.lockWorldSwitch ∧
      (!cfg.gpuvLiveUpdate ∨ turn.handler.liveUpdateState = .none))

namespace EventThread

variable {cfg : Config} {t : EventThread}

/-- A step that frees no entry somebody waits for: the removals of arranging spare
such entries, and an event without a case in `amdgv_sched_push_back_event` either
has no signal or is not held back. -/
def Spares (cfg : Config) (t : EventThread) : Label → Prop
  | .pick => t.adapter.pipe.SparesWaiters
  | .process turn => ∀ event, t.inHand = some event → pushBackList event.id = none →
      event.signal = none ∨ ¬locksOut cfg t.adapter.sched turn event
  | .push _ | .checkTimeouts _ => True

/-- Every blocked caller has its event in the pipeline or in the thread's hand. -/
def Covers (t : EventThread) : Prop := ∀ s ∈ t.waiting, ∃ e ∈ t.pending, e.signal = some s

theorem mem_pending_thread {e : Event} :
    e ∈ t.pending ↔ t.inHand = some e ∨ e ∈ t.adapter.pipe.pending := by
  unfold pending
  rw [List.mem_append]
  simp

theorem retains_pending {asked : EventId → Prop} {p p' : EventPipe}
    (retains : Retains asked p p') {e : Event} (member : e ∈ p.pending) :
    ∃ e' ∈ p'.pending, e'.signal = e.signal := by
  rcases EventPipe.mem_pending.mp member with ⟨level, listed⟩ | queued
  · obtain ⟨e', there, request⟩ := forall₂_sameRequest_mem' (retains.lists level) listed
    exact ⟨e', EventPipe.mem_pending.mpr (.inl ⟨level, there⟩), by rw [request]⟩
  · obtain ⟨kept, added, split, same, _⟩ := retains.queue
    obtain ⟨e', there, request⟩ := forall₂_sameRequest_mem' same queued
    refine ⟨e', EventPipe.mem_pending.mpr (.inr ?_), by rw [request]⟩
    rw [split]
    exact List.mem_append_left _ there

theorem mem_pending_pick (tidy : t.Tidy) {e : Event} :
    e ∈ t.pick.pending ↔ ∃ level, e ∈ t.adapter.pipe.arrangeQueued.eventList level := by
  have sides : e ∈ t.pick.pending ↔ t.adapter.pipe.pickUpNextEvent.1 = some e ∨
      e ∈ t.adapter.pipe.pickUpNextEvent.2.pending := mem_pending_thread
  rw [sides, EventPipe.mem_pending]
  rcases EventPipe.pickUpNextEvent_cases tidy.pipe.cursor with ⟨none, _⟩ |
    ⟨level, event, rest, after, picked, head, _, lists, queue, _⟩
  · rw [none]
    simp
  · rw [picked, lists, queue]
    constructor
    · rintro (same | ⟨other, listed⟩ | queued)
      · obtain rfl := Option.some.inj same
        exact ⟨level, by simp [head]⟩
      · by_cases same : other = level
        · subst same
          rw [update_self] at listed
          exact ⟨other, by simp [head, listed]⟩
        · rw [update_of_ne same] at listed
          exact ⟨other, listed⟩
      · cases queued
    · rintro ⟨other, listed⟩
      by_cases same : other = level
      · subst same
        rw [head] at listed
        rcases List.mem_cons.mp listed with rfl | later
        · exact .inl rfl
        · exact .inr (.inl ⟨other, by rw [update_self]; exact later⟩)
      · exact .inr (.inl ⟨other, by rw [update_of_ne same]; exact listed⟩)

theorem pick_spares (tidy : t.Tidy) (spares : t.adapter.pipe.SparesWaiters) {e : Event}
    (member : e ∈ t.adapter.pipe.pending) (signalled : e.signal ≠ none) :
    e ∈ t.pick.pending := by
  refine (mem_pending_pick tidy).mpr ?_
  rcases EventPipe.mem_pending.mp member with ⟨level, listed⟩ | queued
  · refine ⟨level, ?_⟩
    rw [EventPipe.arrangeQueued_eventList, arrangeEventList_eq]
    exact List.mem_append_left _ (List.mem_filter.mpr ⟨listed, spares.1 level e listed signalled⟩)
  · obtain ⟨before, after, split⟩ := List.append_of_mem queued
    obtain ⟨level, known, stays⟩ := spares.2 before e after split signalled
    refine ⟨level, ?_⟩
    rw [EventPipe.arrangeQueued_eventList, arrangeEventList_eq]
    exact List.mem_append_right _ (mem_placed.mpr ⟨before, after, split, known, stays⟩)

theorem pushBackList_none {id : EventId} {level : Fin 6}
    (listed : arrangedList id = some level) (unlisted : pushBackList id = none) :
    id = .schedVfReqRasErrorCount ∨ id = .schedVfReqRasCperDump ∨
      id = .schedVfReqRasBadPages ∨ id = .schedVfReqRasChkCritiRegion := by
  cases id <;> simp_all [pushBackList, arrangedList, placement]

theorem handleEventInFullAccess_keep_iff (env : Env) (a : Adapter) (event : Event) :
    (a.handleEventInFullAccess cfg env event).2 = .keep ↔
      fullAccessAction cfg env a.sched event = .pushBack := by
  unfold Adapter.handleEventInFullAccess
  cases fullAccessAction cfg env a.sched event <;> simp [Adapter.deferEvent]

theorem settleEvent_keep_iff (a : Adapter) (turn : TurnEnv) {event : Event} {level : Fin 6}
    (listed : arrangedList event.id = some level) (unlisted : pushBackList event.id = none) :
    (a.settleEvent cfg turn event).2 = .keep ↔ locksOut cfg a.sched turn event := by
  have ids := pushBackList_none listed unlisted
  unfold Adapter.settleEvent locksOut
  by_cases skips : Adapter.skipsEvent turn event
  · simp [skips]
  rw [if_neg skips]
  unfold Adapter.handleEvent
  by_cases shared : a.sched.isAnyShareEngineVfInFullAccess cfg event.idxVf
  · rw [if_pos shared, handleEventInFullAccess_keep_iff]
    unfold fullAccessAction
    rcases ids with id | id | id | id <;>
      simp [id, handledUnavailInFullAccess, shared, skips] <;> grind
  · rw [if_neg shared]
    unfold Adapter.handleEventInNonFullAccess Adapter.handleNonFullAccessSwitch
    rcases ids with id | id | id | id <;>
      simp [id, handledUnavailInNonFullAccess, handledLocked, shared, skips, Adapter.deferEvent] <;>
      grind

theorem Covers.keep {t' : EventThread} (covers : t.Covers)
    (waiting : ∀ s ∈ t'.waiting, s ∈ t.waiting)
    (kept : ∀ e ∈ t.pending, ∀ s ∈ t'.waiting, e.signal = some s →
      ∃ e' ∈ t'.pending, e'.signal = some s) : t'.Covers := by
  intro s member
  obtain ⟨e, there, signal⟩ := covers s (waiting s member)
  exact kept e there s member signal

theorem push_covers (covers : t.Covers) (request : Request) : (t.push request).Covers := by
  unfold push
  split
  · rename_i adapter queued
    have pushed := EventPipe.queuePushEx_some (queueRequest_some queued).2
    intro s member
    rcases List.mem_append.mp member with new | old
    · refine ⟨⟨t.adapter.pipe.freshEntry, request.idxVf, request.id, .normal, request.signal,
        request.fbClearType⟩, mem_pending_thread.mpr (.inr (EventPipe.mem_pending.mpr (.inr ?_))),
        by simpa using new⟩
      rw [pushed]
      exact List.mem_append_right _ (List.mem_singleton_self _)
    · obtain ⟨e, there, signal⟩ := covers s old
      refine ⟨e, mem_pending_thread.mpr ?_, signal⟩
      rcases mem_pending_thread.mp there with held | inPipe
      · exact .inl held
      · refine .inr (EventPipe.mem_pending.mpr ?_)
        rw [pushed]
        rcases EventPipe.mem_pending.mp inPipe with listed | queuedBefore
        · exact .inl listed
        · exact .inr (List.mem_append_left _ queuedBefore)
  · exact covers

theorem pick_covers (tidy : t.Tidy) (covers : t.Covers) (free : t.inHand = none)
    (spares : t.adapter.pipe.SparesWaiters) : t.pick.Covers := by
  refine covers.keep (fun _ member => member) fun e there s _ signal => ⟨e, ?_, signal⟩
  rcases mem_pending_thread.mp there with held | inPipe
  · rw [free] at held
    cases held
  · exact pick_spares tidy spares inPipe (by simp [signal])

theorem process_covers (tidy : t.Tidy) (covers : t.Covers) (turn : TurnEnv) {event : Event}
    (held : t.inHand = some event) (spares : t.Spares cfg (.process turn)) :
    (t.process cfg turn event).Covers := by
  rcases settleEvent_outcome t.adapter turn event with deferred | ⟨goesOn, retains, _⟩
  · have settled : t.process cfg turn event =
        ⟨{ t.adapter with pipe := t.adapter.pipe.pushBackEvent event }, none, t.waiting⟩ := by
      unfold process
      rw [deferred]
      rfl
    rw [settled]
    refine covers.keep (fun _ member => member) fun e there s _ signal => ⟨e, ?_, signal⟩
    refine mem_pending_thread.mpr (.inr ?_)
    obtain ⟨_, level, listed, first, _⟩ := tidy.held event held
    cases back : pushBackList event.id with
    | some level' =>
      have same := pushBackList_arranged back
      rw [listed] at same
      obtain rfl := Option.some.inj same
      obtain ⟨lists, queue, _⟩ := EventPipe.pushBackEvent_some back first
      refine EventPipe.mem_pending.mpr ?_
      dsimp only
      rw [lists, queue]
      rcases mem_pending_thread.mp there with inHand | inPipe
      · rw [held] at inHand
        obtain rfl := Option.some.inj inHand
        exact .inl ⟨level, by simp⟩
      · rcases EventPipe.mem_pending.mp inPipe with ⟨other, member⟩ | queued
        · by_cases same : other = level
          · subst same
            exact .inl ⟨other, by simp [member]⟩
          · exact .inl ⟨other, by rw [update_of_ne same]; exact member⟩
        · exact .inr queued
    | none =>
      dsimp only
      rw [EventPipe.pushBackEvent_none back]
      rcases mem_pending_thread.mp there with inHand | inPipe
      · rw [held] at inHand
        obtain rfl := Option.some.inj inHand
        have kept : (t.adapter.settleEvent cfg turn event).2 = .keep := by
          rw [deferred]
          rfl
        have locked := (settleEvent_keep_iff t.adapter turn listed back).mp kept
        rcases spares event held back with silent | free
        · rw [silent] at signal
          cases signal
        · exact absurd locked free
      · exact inPipe
  · have settled : (t.process cfg turn event).waiting = t.wake event.signal := by
      unfold process
      dsimp only
      rw [if_neg goesOn]
    refine covers.keep (fun s member => ?_) fun e there s member signal => ?_
    · rw [settled] at member
      exact List.mem_of_mem_filter member
    · rw [settled] at member
      have other : event.signal ≠ some s := by
        simpa using (List.mem_filter.mp member).2
      rcases mem_pending_thread.mp there with inHand | inPipe
      · rw [held] at inHand
        obtain rfl := Option.some.inj inHand
        exact absurd signal other
      · obtain ⟨e', there', same⟩ := retains_pending retains inPipe
        exact ⟨e', mem_pending_thread.mpr (.inr there'), by rw [same, signal]⟩

theorem checkTimeouts_covers (covers : t.Covers) (check : TimeoutCheck) :
    (t.checkTimeouts cfg check).Covers := by
  obtain ⟨retains, _⟩ : Changes cfg (Env.quiet 0) ⟨0, 0, .schedRma, .finished, none, .init⟩
      t.adapter.sched t.adapter _ := fullAccessCheckAndProcess_changes t.adapter check rfl
  refine covers.keep (fun _ member => member) fun e there s _ signal => ?_
  rcases mem_pending_thread.mp there with inHand | inPipe
  · exact ⟨e, mem_pending_thread.mpr (.inl inHand), signal⟩
  · obtain ⟨e', there', same⟩ := retains_pending retains inPipe
    exact ⟨e', mem_pending_thread.mpr (.inr there'), by rw [same, signal]⟩

theorem step_covers {label : Label} {t' : EventThread} (tidy : t.Tidy) (covers : t.Covers)
    (spares : t.Spares cfg label) (step : Step cfg t label t') : t'.Covers := by
  cases step with
  | push request _ => exact push_covers covers request
  | pick free => exact pick_covers tidy covers free spares
  | process turn held => exact process_covers tidy covers turn held spares
  | checkTimeouts check _ => exact checkTimeouts_covers covers check

/-- No waiter is lost in a run whose steps spare the waiters: whoever is still
blocked has its event in the pipeline, so only its signal ends the wait. -/
theorem waiters_covered (run : Transition.Run (Boots cfg) (Step cfg) (Spares cfg) t) :
    ∀ s ∈ t.waiting, ∃ e ∈ t.pending, e.signal = some s := by
  have both : t.Tidy ∧ t.Covers := by
    refine run.invariant (fun t => t.Tidy ∧ t.Covers) ?_ fun _ _ _ ⟨tidy, covers⟩ spares step =>
      ⟨step_tidy tidy step, step_covers tidy covers spares step⟩
    rintro _ ⟨states, now, rfl⟩
    exact ⟨boot_tidy states now, nofun⟩
  exact both.2

theorem sparesWaiters_of_places {p : EventPipe}
    (kept : ∀ level, ∀ e ∈ p.eventList level, e.signal ≠ none → survives level p.eventQueue e)
    (moved : ∀ i < p.eventQueue.length, ∀ e ∈ p.eventQueue[i]?, e.signal ≠ none →
      ∃ level, arrangedList e.id = some level ∧ survives level (p.eventQueue.drop (i + 1)) e) :
    p.SparesWaiters := by
  refine ⟨kept, fun before e after split => ?_⟩
  have here := moved before.length
  rw [split, List.drop_append, List.drop_of_length_le (Nat.le_succ _)] at here
  simpa using here

theorem push_run (run : Transition.Run (Boots cfg) (Step cfg) (Spares cfg) t) (request : Request)
    (fresh : ∀ s, request.signal = some s → s ∉ t.waiting) :
    Transition.Run (Boots cfg) (Step cfg) (Spares cfg) (t.push request) :=
  .next (.push request) run trivial (.push request fresh)

theorem turn_run (run : Transition.Run (Boots cfg) (Step cfg) (Spares cfg) t)
    (free : t.inHand = none) (spares : t.adapter.pipe.SparesWaiters) (turn : TurnEnv) {e : Event}
    (held : t.pick.inHand = some e) (known : pushBackList e.id ≠ none) :
    Transition.Run (Boots cfg) (Step cfg) (Spares cfg) (t.pick.process cfg turn e) := by
  refine .next (.process turn) (.next .pick run spares (.pick free)) ?_ (.process turn held)
  intro event same unknown
  obtain rfl := Option.some.inj (held.symm.trans same)
  exact absurd unknown known

/-- Two callers wait, and an event without a waiter comes after theirs: the `SCHED_SUSPEND` of one
locks the scheduler, so that the event of the other is put back and it waits on. -/
theorem waiters_covered_suspend : ∃ t : EventThread,
    t.waiting = [8] ∧ t.inHand = none ∧ t.adapter.sched.lockWorldSwitch = true ∧
      ∀ s ∈ t.waiting, ∃ e ∈ t.pending, e.signal = some s := by
  have booted : Transition.Run (Boots Config.pair) (Step Config.pair) (Spares Config.pair)
      (boot Config.pair (fun _ => .avail) 0) := .start ⟨_, _, rfl⟩
  have asked := push_run (push_run (push_run booted ⟨pfIdx, .schedSuspend, some 7, .init, true⟩
    fun _ _ => List.not_mem_nil) ⟨0, .schedForceResetVf, some 8, .init, true⟩
    fun _ same => Option.some.inj same ▸ (by decide)) ⟨1, .reqGpuInit, none, .init, true⟩ nofun
  have suspended := turn_run asked rfl (sparesWaiters_of_places (by decide) (by decide))
    ⟨false, false, Env.quiet 0⟩ rfl (by decide)
  have putBack := turn_run suspended rfl (sparesWaiters_of_places (by decide) (by decide))
    ⟨false, false, Env.quiet 0⟩ rfl (by decide)
  exact ⟨_, rfl, rfl, rfl, waiters_covered putBack⟩

/-- `ENTER_POWER_SAVING` shares its list with the RAS events of the PF: one of
them arranged after it frees it without its signal. -/
theorem enterPowerSaving_waiter_lost :
    ¬∀ (cfg : Config) (t : EventThread),
      Transition.Run (Boots cfg) (Step cfg) Transition.always t →
        ∀ s ∈ t.waiting, ∃ e ∈ t.pending, e.signal = some s := by
  intro covered
  have run : Transition.Run (Boots Config.pair) (Step Config.pair) Transition.always
      ((((boot Config.pair (fun _ => .avail) 0).push
        ⟨pfIdx, .enterPowerSaving, some 7, .init, true⟩).push
        ⟨pfIdx, .schedRasUmc, none, .init, true⟩).pick) :=
    .next .pick (.next (.push _) (.next (.push _) (.start ⟨_, _, rfl⟩) trivial
      (.push _ fun _ _ => List.not_mem_nil)) trivial (.push _ (by intro _ silent; cases silent)))
      trivial (.pick rfl)
  have lost := covered _ _ run 7 (by decide)
  revert lost
  decide

end EventThread

end MxGpu.Sched
