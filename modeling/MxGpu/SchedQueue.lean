import MxGpu.PriorityLists
import MxGpu.SchedTypes

namespace MxGpu.Sched

open PriorityLists Function

/-- `AMDGV_SCHED_EVENT_LIST_0` to `AMDGV_SCHED_EVENT_LIST_5`. -/
abbrev EventLists := Fin 6 → List Event

instance neZero_eventListMax : NeZero 6 := ⟨by decide⟩

/-- The ring `event_queue[queue_rptr .. queue_wptr)`, the priority lists with
the cursor `next_event`/`curr_event_list_idx`, and the next entry address. -/
structure EventPipe where
  eventQueue : List Event
  eventList : EventLists
  currEventListIdx : Fin 6
  nextEvent : Option Nat
  freshEntry : Nat

/-- What `arrange_event_list` does with an id: append to a list after removing
duplicates from it, append only, or free the entry. -/
inductive Placement
  | dedup (level : Fin 6) | append (level : Fin 6) | unknown
  deriving DecidableEq, Repr

/-- The switch of `amdgv_sched_event_arrange_event_list`. -/
def placement : EventId → Placement
  | .schedForceResetGpu | .schedForceResetGpuInternal | .schedRasEvent | .schedVfRasRemoteCmd
  | .schedRasUmc | .exitPowerSaving | .enterPowerSaving | .schedRasPoisonConsumption
  | .schedRasPoisonCreation | .schedRasFed => .dedup 0
  | .schedSuspendVf | .schedResumeVf | .schedRemoveVf | .schedStopVf | .schedSuspend
  | .schedResume | .schedSuspendLive | .schedResumeLive | .curVfCtxEmpty
  | .collectDiagData => .append 1
  | .relGpuInit | .relGpuFini | .schedUpdateTopology | .relGpuDebug => .dedup 2
  -- these two remove duplicates and fall through to the next case
  | .schedRma | .schedSetVfCondAvail => .dedup 3
  | .schedResetVf | .schedForceResetVf | .hwSchedResetVf | .schedInitVfFb
  | .schedFwLiveUpdateDfc | .schedSetVfAccess | .schedMmschGeneralNotification
  | .schedPspVfGate | .schedPspVfCmdRelay | .handleCrash | .liveMigrationManifestData
  | .vfFbCopy | .vfFbCopyAsync | .queryDirtybitData => .append 3
  | .reqGpuInit | .reqGpuFini | .reqGpuReset | .reqGpuInitData | .schedVfReqRasErrorCount
  | .schedVfReqRasCperDump | .reqGpuDebug | .schedVfReqRasBadPages
  | .schedVfReqRasChkCritiRegion | .vfReqPtlUpdate | .schedVfReqGpuInitXchgRegion => .dedup 4
  | .schedGpumon | .schedUpdateMcaBanks | .schedGetTopology | .vfMigrationSetAbort
  | .setVfMigrationState | .schedUalPauseReq | .schedUalResumeReq => .append 5
  | .readyToAccessGpu | .ipDataReady | .textMessage | .logVfError | .readyToReset
  | .other _ => .unknown

/-- The switch of `amdgv_sched_push_back_event`; `none` frees the entry. The
four RAS requests of list 4 have no case there. -/
def pushBackList : EventId → Option (Fin 6)
  | .schedForceResetGpu | .schedForceResetGpuInternal | .schedRasEvent | .schedVfRasRemoteCmd
  | .schedRasUmc | .exitPowerSaving | .enterPowerSaving | .schedRasPoisonConsumption
  | .schedRasPoisonCreation | .schedRasFed => some 0
  | .schedSuspendVf | .schedResumeVf | .schedRemoveVf | .schedStopVf | .schedSuspend
  | .schedResume | .schedSuspendLive | .schedResumeLive | .curVfCtxEmpty
  | .collectDiagData => some 1
  | .relGpuInit | .relGpuFini | .schedUpdateTopology | .relGpuDebug => some 2
  | .schedResetVf | .schedForceResetVf | .hwSchedResetVf | .schedInitVfFb
  | .schedFwLiveUpdateDfc | .schedSetVfAccess | .schedPspVfGate
  | .schedMmschGeneralNotification | .schedPspVfCmdRelay | .handleCrash
  | .liveMigrationManifestData | .vfFbCopy | .vfFbCopyAsync | .queryDirtybitData
  | .schedRma | .schedSetVfCondAvail => some 3
  | .reqGpuInit | .reqGpuFini | .reqGpuReset | .reqGpuInitData | .reqGpuDebug
  | .vfReqPtlUpdate | .schedVfReqGpuInitXchgRegion => some 4
  | .schedGpumon | .schedUpdateMcaBanks | .schedGetTopology | .vfMigrationSetAbort
  | .setVfMigrationState | .schedUalPauseReq | .schedUalResumeReq => some 5
  | .schedVfReqRasErrorCount | .schedVfReqRasCperDump | .schedVfReqRasBadPages
  | .schedVfReqRasChkCritiRegion | .readyToAccessGpu | .ipDataReady | .textMessage
  | .logVfError | .readyToReset | .other _ => none

def arrangedList (id : EventId) : Option (Fin 6) :=
  match placement id with
  | .dedup level => some level
  | .append level => some level
  | .unknown => none

theorem pushBackList_arranged {id : EventId} {level : Fin 6}
    (listed : pushBackList id = some level) : arrangedList id = some level := by
  cases id <;> simp_all [pushBackList, arrangedList, placement]

/-- `amdgv_sched_remove_duplicated_event` compares only the function index. -/
def removeDuplicatedEvent (list : List Event) (newEntry : Event) : List Event :=
  list.filter fun e => e.idxVf ≠ newEntry.idxVf

def arrangeEntry (lists : EventLists) (entry : Event) : EventLists :=
  match placement entry.id with
  | .dedup level =>
    update lists level (removeDuplicatedEvent (lists level) entry ++ [entry])
  | .append level => update lists level (lists level ++ [entry])
  | .unknown => lists

/-- The loop of `amdgv_sched_event_arrange_event_list` over the popped events. -/
def arrangeEventList (lists : EventLists) (head : List Event) : EventLists :=
  head.foldl arrangeEntry lists

/-- The entries removed as duplicates while `entry` is arranged. -/
def duplicatesOf (lists : EventLists) (entry : Event) : List Event :=
  match placement entry.id with
  | .dedup level => (lists level).filter fun e => e.idxVf = entry.idxVf
  | _ => []

def removals (lists : EventLists) : List Event → List (Event × Event)
  | [] => []
  | entry :: rest =>
    (duplicatesOf lists entry).map (·, entry) ++ removals (arrangeEntry lists entry) rest

namespace EventPipe

variable (p : EventPipe)

/-- `AMDGV_EVENT_QUEUE_ENTRY_NUM` slots, one of which stays free. -/
def queueRoom : Nat := 255

/-- `amdgv_sched_event_queue_push_ex`; `none` is `AMDGV_FAILURE`. -/
def queuePushEx (isInPowersaving allocated : Bool) (idxVf : Nat) (id : EventId)
    (signal : Option Nat) (fbClearType : FbClearType) : Option EventPipe :=
  if id ≠ .exitPowerSaving ∧ isInPowersaving then none
  else if p.eventQueue.length = queueRoom then none
  else if !allocated then none
  else some { p with
    eventQueue := p.eventQueue ++ [⟨p.freshEntry, idxVf, id, .normal, signal, fbClearType⟩]
    freshEntry := p.freshEntry + 1 }

/-- The first half of `amdgv_sched_pick_up_next_event`: pop and arrange what is queued. -/
def arrangeQueued : EventPipe :=
  if p.eventQueue.isEmpty then p
  else { p with
    eventQueue := []
    eventList := arrangeEventList p.eventList p.eventQueue
    currEventListIdx := 0
    nextEvent := none }

/-- The cursor after `event` of list `level` is taken: its successor, or the
first entry of the next non-empty list. -/
def cursorAfter (level : Fin 6) (event : Event) : Fin 6 × Option Nat :=
  match ((p.eventList level).dropWhile fun e => e.entry ≠ event.entry).tail with
  | successor :: _ => (level, some successor.entry)
  | [] =>
    match (List.finRange 6).find? fun i => level < i ∧ (p.eventList i).isEmpty = false with
    | some i => (i, ((p.eventList i).head?).map Event.entry)
    | none => (0, none)

/-- Move the cursor past `event` and unlink it. -/
def takeEvent (level : Fin 6) (event : Event) : EventPipe :=
  { p with
    eventList := update p.eventList level
      ((p.eventList level).eraseP fun e => e.entry = event.entry)
    currEventListIdx := (p.cursorAfter level event).1
    nextEvent := (p.cursorAfter level event).2 }

/-- The entry and list the cursor selects: from the first non-empty list when
`next_event` is `NULL`, else the entry it points to. -/
def nextEntry : Option (Fin 6 × Event) :=
  match p.nextEvent with
  | none =>
    match firstNonEmpty p.eventList with
    | none => none
    | some i => (p.eventList i).head?.map (i, ·)
  | some address =>
    ((p.eventList p.currEventListIdx).find? fun e => e.entry = address).map
      (p.currEventListIdx, ·)

def pickUpNextEvent : Option Event × EventPipe :=
  let p := p.arrangeQueued
  match p.nextEntry with
  | none => (none, p)
  | some (level, event) => (some event, p.takeEvent level event)

def pushBackEvent (event : Event) : EventPipe :=
  match pushBackList event.id with
  | some level =>
    { p with
      eventList := update p.eventList level (event :: p.eventList level)
      currEventListIdx := level
      nextEvent := some event.entry }
  | none => p

def markFinished (id : EventId) (e : Event) : Event :=
  if e.id = id then { e with status := .finished } else e

/-- `amdgv_sched_finish_event` on one list and `mark_event_in_ring`. -/
def finishEvent (level : Fin 6) (id : EventId) : EventPipe :=
  { p with
    eventList := update p.eventList level ((p.eventList level).map (markFinished id))
    eventQueue := p.eventQueue.map (markFinished id) }

def removeStaleEventsAfterWgr : EventPipe :=
  p.finishEvent 0 .schedForceResetGpu
    |>.finishEvent 0 .schedForceResetGpuInternal
    |>.finishEvent 0 .schedRasPoisonConsumption
    |>.finishEvent 0 .schedRasPoisonCreation
    |>.finishEvent 4 .schedVfReqRasErrorCount
    |>.finishEvent 4 .schedVfReqRasCperDump
    |>.finishEvent 4 .schedVfReqRasBadPages
    |>.finishEvent 4 .schedVfReqRasChkCritiRegion

def isFindEvent (idxVf : Nat) (id : EventId) : Bool :=
  (p.eventQueue.any fun e => e.id = id ∧ e.idxVf = idxVf) ||
    (ordered p.eventList).any fun e => e.id = id ∧ e.idxVf = idxVf

def pending : List Event := ordered p.eventList ++ p.eventQueue

/-- The cursor is unset or at the very first entry of the lists. -/
def CursorFirst : Prop :=
  p.nextEvent = none ∨
    ∃ event rest, p.eventList p.currEventListIdx = event :: rest ∧
      p.nextEvent = some event.entry ∧
      ∀ earlier < p.currEventListIdx, p.eventList earlier = []

end EventPipe

/-- No later event of `batch` removes `x` from list `level`. -/
def survives (level : Fin 6) (batch : List Event) (x : Event) : Bool :=
  batch.all fun e => ¬(placement e.id = .dedup level ∧ e.idxVf = x.idxVf)

/-- What a batch leaves at the tail of list `level`. -/
def placed (level : Fin 6) : List Event → List Event
  | [] => []
  | e :: rest =>
    if arrangedList e.id = some level ∧ survives level rest e then e :: placed level rest
    else placed level rest

theorem survives_cons (level : Fin 6) (e : Event) (rest : List Event) (x : Event) :
    survives level (e :: rest) x =
      (!decide (placement e.id = .dedup level ∧ e.idxVf = x.idxVf) && survives level rest x) := by
  simp [survives]

theorem arrangeEntry_self (lists : EventLists) (entry : Event) {level : Fin 6}
    (listed : arrangedList entry.id = some level) :
    arrangeEntry lists entry level =
      (lists level).filter (fun x => ¬(placement entry.id = .dedup level ∧
        entry.idxVf = x.idxVf)) ++ [entry] := by
  unfold arrangedList at listed
  unfold arrangeEntry removeDuplicatedEvent
  cases place : placement entry.id with
  | dedup other =>
    rw [place] at listed
    obtain rfl : other = level := Option.some.inj listed
    simp [eq_comm]
  | append other =>
    rw [place] at listed
    obtain rfl : other = level := Option.some.inj listed
    simp
  | unknown =>
    rw [place] at listed
    cases listed

theorem arrangeEntry_other (lists : EventLists) (entry : Event) {level : Fin 6}
    (unlisted : arrangedList entry.id ≠ some level) :
    arrangeEntry lists entry level = lists level ∧ placement entry.id ≠ .dedup level := by
  unfold arrangedList at unlisted
  unfold arrangeEntry
  cases place : placement entry.id with
  | dedup other =>
    rw [place] at unlisted
    have ne : level ≠ other := fun eq => unlisted (congrArg some eq.symm)
    exact ⟨update_of_ne ne _ _, fun eq => ne (Placement.dedup.inj eq).symm⟩
  | append other =>
    rw [place] at unlisted
    have ne : level ≠ other := fun eq => unlisted (congrArg some eq.symm)
    exact ⟨update_of_ne ne _ _, fun eq => nomatch eq⟩
  | unknown => exact ⟨rfl, fun eq => nomatch eq⟩

theorem arrangeEventList_eq (lists : EventLists) (batch : List Event) (level : Fin 6) :
    arrangeEventList lists batch level =
      (lists level).filter (survives level batch) ++ placed level batch := by
  induction batch generalizing lists with
  | nil =>
    have all : survives level [] = fun _ => true := rfl
    simp [arrangeEventList, placed, all]
  | cons e rest ih =>
    have step : arrangeEventList lists (e :: rest) level =
        arrangeEventList (arrangeEntry lists e) rest level := rfl
    rw [step, ih]
    by_cases listed : arrangedList e.id = some level
    · rw [arrangeEntry_self lists e listed, List.filter_append, List.filter_filter]
      have older : ∀ x, (survives level rest x &&
          decide ¬(placement e.id = .dedup level ∧ e.idxVf = x.idxVf)) =
            survives level (e :: rest) x := by
        intro x
        rw [survives_cons, Bool.and_comm, decide_not]
      simp only [older]
      by_cases stays : survives level rest e <;>
        simp [placed, listed, stays]
    · obtain ⟨same, notDedup⟩ := arrangeEntry_other lists e listed
      rw [same]
      have older : survives level (e :: rest) = survives level rest := by
        funext x
        simp [survives_cons, notDedup]
      rw [older]
      simp [placed, listed]

theorem mem_placed {level : Fin 6} {batch : List Event} {x : Event} :
    x ∈ placed level batch ↔ ∃ before after, batch = before ++ x :: after ∧
      arrangedList x.id = some level ∧ survives level after x := by
  induction batch with
  | nil => simp [placed]
  | cons e rest ih =>
    constructor
    · intro member
      unfold placed at member
      split at member
      · rename_i stays
        rcases List.mem_cons.mp member with rfl | later
        · exact ⟨[], rest, rfl, stays⟩
        · obtain ⟨before, after, split, stays⟩ := ih.mp later
          exact ⟨e :: before, after, by rw [split]; rfl, stays⟩
      · obtain ⟨before, after, split, stays⟩ := ih.mp member
        exact ⟨e :: before, after, by rw [split]; rfl, stays⟩
    · rintro ⟨before, after, split, stays⟩
      cases before with
      | nil =>
        obtain ⟨rfl, rfl⟩ := List.cons.inj split
        simp [placed, stays]
      | cons first before =>
        obtain ⟨rfl, tail⟩ := List.cons.inj split
        have later := ih.mpr ⟨before, after, tail, stays⟩
        unfold placed
        split
        · exact List.mem_cons_of_mem _ later
        · exact later

theorem placed_sublist (level : Fin 6) (batch : List Event) :
    (placed level batch).Sublist batch := by
  induction batch with
  | nil => exact .slnil
  | cons e rest ih =>
    unfold placed
    split
    · exact ih.cons_cons e
    · exact ih.cons e

namespace EventPipe

variable {p : EventPipe}

@[simp] theorem arrangeQueued_eventQueue : p.arrangeQueued.eventQueue = [] := by
  unfold arrangeQueued
  split
  · rename_i empty
    simpa using empty
  · rfl

@[simp] theorem arrangeQueued_freshEntry : p.arrangeQueued.freshEntry = p.freshEntry := by
  unfold arrangeQueued
  split <;> rfl

theorem arrangeQueued_eventList :
    p.arrangeQueued.eventList = arrangeEventList p.eventList p.eventQueue := by
  unfold arrangeQueued
  split
  · rename_i empty
    rw [List.isEmpty_iff.mp empty]
    rfl
  · rfl

theorem arrangeQueued_cursorFirst (valid : p.CursorFirst) : p.arrangeQueued.CursorFirst := by
  unfold arrangeQueued
  split
  · exact valid
  · exact .inl rfl

theorem nextEntry_cases (valid : p.CursorFirst) :
    (p.nextEntry = none ∧ ordered p.eventList = []) ∨
      ∃ level event rest, p.nextEntry = some (level, event) ∧
        p.eventList level = event :: rest ∧ ∀ earlier < level, p.eventList earlier = [] := by
  unfold nextEntry
  rcases valid with unset | ⟨event, rest, head, atHead, first⟩
  · rw [unset]
    cases found : firstNonEmpty p.eventList with
    | none => exact .inl ⟨rfl, firstNonEmpty_none.mp found⟩
    | some level =>
      obtain ⟨nonempty, first⟩ := firstNonEmpty_some found
      obtain ⟨event, rest, head⟩ := List.exists_cons_of_ne_nil nonempty
      exact .inr ⟨level, event, rest, by simp [head], head, first⟩
  · rw [atHead]
    exact .inr ⟨p.currEventListIdx, event, rest, by simp [head], head, first⟩

theorem takeEvent_cursorFirst {level : Fin 6} {event : Event} {rest : List Event}
    (head : p.eventList level = event :: rest)
    (first : ∀ earlier < level, p.eventList earlier = []) :
    (p.takeEvent level event).eventList = update p.eventList level rest ∧
      (p.takeEvent level event).CursorFirst := by
  have lists : (p.takeEvent level event).eventList =
      update p.eventList level rest := by simp [takeEvent, head]
  refine ⟨lists, ?_⟩
  unfold CursorFirst
  rw [lists]
  have cursor : (p.takeEvent level event).currEventListIdx = (p.cursorAfter level event).1 ∧
      (p.takeEvent level event).nextEvent = (p.cursorAfter level event).2 := ⟨rfl, rfl⟩
  rw [cursor.1, cursor.2]
  unfold cursorAfter
  cases rest with
  | cons successor rest =>
    refine .inr ⟨successor, rest, ?_, ?_, ?_⟩
    · simp [head]
    · simp [head]
    · simp only [head, List.dropWhile_cons]
      intro earlier below
      have before : earlier < level := by simpa using below
      rw [update_of_ne (ne_of_lt before)]
      exact first earlier before
  | nil =>
    simp only [head, List.dropWhile_cons]
    cases found : (List.finRange 6).find?
        fun i => level < i ∧ (p.eventList i).isEmpty = false with
    | none => exact .inl (by simp)
    | some next =>
      obtain ⟨chosen, before, after, split, skipped⟩ :=
        List.find?_eq_some_iff_append.mp found
      simp only [decide_eq_true_eq] at chosen
      obtain ⟨above, nonempty⟩ := chosen
      obtain ⟨successor, tail, list⟩ :=
        List.exists_cons_of_ne_nil (by simpa using nonempty : p.eventList next ≠ [])
      refine .inr ⟨successor, tail, ?_, ?_, ?_⟩
      · simp [update_of_ne (ne_of_gt above), list]
      · simp [list]
      · intro earlier below
        have below : earlier < next := by simpa [found] using below
        rcases lt_trichotomy earlier level with under | rfl | beyond
        · rw [update_of_ne (ne_of_lt under)]
          exact first earlier under
        · simp
        · rw [update_of_ne (ne_of_gt beyond)]
          have sorted : (before ++ next :: after).Pairwise (· < ·) :=
            split ▸ List.pairwise_lt_finRange 6
          have listed : earlier ∈ before ++ next :: after := split ▸ List.mem_finRange earlier
          have early : earlier ∈ before := by
            rcases List.mem_append.mp listed with early | late
            · exact early
            · exfalso
              rcases List.mem_cons.mp late with same | later
              · exact absurd same (ne_of_lt below)
              · have := (List.pairwise_cons.mp (List.pairwise_append.mp sorted).2.1).1 _ later
                exact absurd below (not_lt.mpr (le_of_lt this))
          have := skipped earlier early
          simpa [beyond] using this

/-- `amdgv_sched_pick_up_next_event` is the head of the arranged priority
order: either nothing waits, or it returns that head, unlinks it and leaves the
rest in order. -/
theorem pickUpNextEvent_cases (valid : p.CursorFirst) :
    (p.pickUpNextEvent = (none, p.arrangeQueued) ∧
        ordered p.arrangeQueued.eventList = []) ∨
      ∃ level event rest after, p.pickUpNextEvent = (some event, after) ∧
        p.arrangeQueued.eventList level = event :: rest ∧
        (∀ earlier < level, p.arrangeQueued.eventList earlier = []) ∧
        after.eventList = update p.arrangeQueued.eventList level rest ∧
        after.eventQueue = [] ∧ after.freshEntry = p.freshEntry ∧ after.CursorFirst := by
  have arranged := arrangeQueued_cursorFirst valid
  rcases nextEntry_cases arranged with ⟨none, empty⟩ | ⟨level, event, rest, some, head, first⟩
  · exact .inl ⟨by simp [pickUpNextEvent, none], empty⟩
  · obtain ⟨lists, cursor⟩ := takeEvent_cursorFirst head first
    exact .inr ⟨level, event, rest, p.arrangeQueued.takeEvent level event,
      by simp [pickUpNextEvent, some], head, first, lists, by simp [takeEvent],
      by simp [takeEvent], cursor⟩

theorem pushBackEvent_some {event : Event} {level : Fin 6}
    (listed : pushBackList event.id = some level)
    (first : ∀ earlier < level, p.eventList earlier = []) :
    (p.pushBackEvent event).eventList =
        update p.eventList level (event :: p.eventList level) ∧
      (p.pushBackEvent event).eventQueue = p.eventQueue ∧
      (p.pushBackEvent event).freshEntry = p.freshEntry ∧
      (p.pushBackEvent event).CursorFirst := by
  have pushed : p.pushBackEvent event = { p with
      eventList := update p.eventList level (event :: p.eventList level)
      currEventListIdx := level
      nextEvent := some event.entry } := by
    unfold pushBackEvent
    rw [listed]
  rw [pushed]
  refine ⟨rfl, rfl, rfl, .inr ⟨event, p.eventList level, by simp, rfl, fun earlier below => ?_⟩⟩
  dsimp only
  rw [update_of_ne (ne_of_lt below)]
  exact first earlier below

theorem pushBackEvent_none {event : Event} (unlisted : pushBackList event.id = none) :
    p.pushBackEvent event = p := by
  unfold pushBackEvent
  rw [unlisted]

theorem pickUpNextEvent_ordered (valid : p.CursorFirst) {event : Event} {after : EventPipe}
    (picked : p.pickUpNextEvent = (some event, after)) :
    ordered p.arrangeQueued.eventList = event :: ordered after.eventList ∧
      after.eventQueue = [] := by
  rcases pickUpNextEvent_cases valid with ⟨none, _⟩ |
    ⟨level, head, rest, _, some, list, first, lists, queue, _⟩
  · rw [none] at picked
    cases picked
  · rw [some] at picked
    obtain ⟨rfl, rfl⟩ := Prod.mk.inj picked |>.imp Option.some.inj id
    have found := firstNonEmpty_eq (by simp [list]) first
    exact ⟨by rw [ordered_cons found list, lists], queue⟩

end EventPipe

end MxGpu.Sched
