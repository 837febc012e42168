import MxGpu.SchedProcess

/- The unprocessed events across a live update: exported through the cursor of
processing, imported through the ring of a fresh adapter. -/
namespace MxGpu.Sched

open PriorityLists Function EventPipe List

section model

variable {Data : Type} [Zero Data]

/-- What an entry holds besides its `Event`: `sched_block`, and the members of
`union amdgv_sched_event_data` other than `vf_fb_data.flag`, `0` after `oss_memset`. -/
structure EventRest (Data : Type) where
  schedBlock : Nat
  data : Data

structure LiveInfoSchedEvent where
  idxVf : Nat
  id : EventId
  schedId : Nat
  deriving DecidableEq, Repr

def eventQueueEntryNum : Nat := 256

/-- What an export leaves: the adapter's events, the exported ones in order, and the
signals that were raised. -/
structure ExportedEvents where
  pipe : EventPipe
  unprocessedEvents : List LiveInfoSchedEvent
  signalled : List Nat

/-- The `while` loop of `amdgv_sched_export_unprocessed_event`; it runs once for every
pending event. -/
def exportLoop (rest : Nat → EventRest Data) :
    Nat → EventPipe → List LiveInfoSchedEvent → List Nat → ExportedEvents
  | 0, p, events, signalled => ⟨p, events, signalled⟩
  | fuel + 1, p, events, signalled =>
    match p.pickUpNextEvent with
    | (none, p) => ⟨p, events, signalled⟩
    | (some event, p) =>
      let signalled := signalled ++ event.signal.toList
      if eventQueueEntryNum ≤ events.length then ⟨p, events, signalled⟩
      else
        exportLoop rest fuel p
          (if event.id ≠ .schedGpumon then
            events ++ [⟨event.idxVf, event.id, (rest event.entry).schedBlock⟩]
          else events) signalled

/-- `amdgv_sched_export_unprocessed_event`; its size call arranges what is queued. -/
def EventPipe.exportUnprocessedEvent (p : EventPipe) (rest : Nat → EventRest Data) : ExportedEvents :=
  exportLoop rest (p.arrangeQueued.pending.length + 1) p.arrangeQueued [] []

/-- The loop of `amdgv_sched_import_unprocessed_event`: every event is pushed with no
signal and a union of zeros, on an adapter that is not in power saving and has memory. -/
def importUnprocessedEvent :
    List LiveInfoSchedEvent → EventPipe → (Nat → EventRest Data) →
      EventPipe × (Nat → EventRest Data)
  | [], p, rest => (p, rest)
  | event :: more, p, rest =>
    match p.queuePushEx false true event.idxVf event.id none .init with
    | none => importUnprocessedEvent more p rest
    | some pushed =>
      importUnprocessedEvent more pushed
        (update rest p.freshEntry ⟨event.schedId, 0⟩)

/-- What `amdgv_sched_queue_event_and_wait_ex` returns to its caller: `0` once the
signal has been raised, `AMDGV_FAILURE` when the wait ends otherwise. -/
def waitResult (woken : Bool) : Int := if woken then 0 else -1

def content (rest : Nat → EventRest Data) (e : Event) :
    EventId × Nat × Nat × FbClearType × Data :=
  (e.id, e.idxVf, (rest e.entry).schedBlock, e.fbClearType, (rest e.entry).data)

/-- The fresh adapter after the import of what `p` exports, arranged. -/
def EventPipe.updated (p : EventPipe) (rest : Nat → EventRest Data) :
    EventPipe × (Nat → EventRest Data) :=
  let imported := importUnprocessedEvent (p.exportUnprocessedEvent rest).unprocessedEvents
    EventThread.emptyPipe fun _ => ⟨0, 0⟩
  (imported.1.arrangeQueued, imported.2)

/-- Each list has the same events after the update, but for `SCHED_GPUMON`. -/
def EventPipe.Resumes (p : EventPipe) (rest : Nat → EventRest Data) : Prop :=
  ∀ level, ((p.updated rest).1.eventList level).map (content (p.updated rest).2) =
    ((p.arrangeQueued.eventList level).filter fun e => e.id ≠ .schedGpumon).map (content rest)

/-- An event that is exported: arranging leaves it in a list, and it is no `SCHED_GPUMON`. -/
def EventPipe.Exports (p : EventPipe) (e : Event) : Prop :=
  e.id ≠ .schedGpumon ∧ ∃ level,
    e ∈ p.eventList level ∧ survives level p.eventQueue e ∨ e ∈ placed level p.eventQueue

/-- Nobody who waits for an exported event is told that it completed. -/
def EventPipe.TellsNoWaiter (p : EventPipe) (rest : Nat → EventRest Data) : Prop :=
  ∀ e, p.Exports e → ∀ s, e.signal = some s →
    waitResult (s ∈ (p.exportUnprocessedEvent rest).signalled) ≠ 0

end model

/-! Arranged lists stay as they are when they are arranged again. -/

def Settles (level : Fin 6) (list : List Event) : Prop :=
  list.Pairwise fun x later => ¬(placement later.id = .dedup level ∧ later.idxVf = x.idxVf)

section settles

variable {level : Fin 6} {list batch : List Event} {x : Event}

theorem survives_iff : survives level batch x = true ↔
    ∀ e ∈ batch, ¬(placement e.id = .dedup level ∧ e.idxVf = x.idxVf) := by
  simp only [survives, all_eq_true, decide_eq_true_eq]

theorem settles_cons : Settles level (x :: list) ↔
    survives level list x = true ∧ Settles level list := by
  rw [Settles, pairwise_cons, survives_iff]
  exact Iff.rfl

theorem placed_settles (level : Fin 6) (batch : List Event) :
    Settles level (placed level batch) := by
  induction batch with
  | nil => exact .nil
  | cons e rest ih =>
    unfold placed
    split
    · rename_i hstays
      rw [settles_cons]
      refine ⟨?_, ih⟩
      rw [survives_iff]
      intro later hlater
      exact survives_iff.mp hstays.2 later ((placed_sublist level rest).subset hlater)
    · exact ih

theorem placed_of_settles (hsettles : Settles level list)
    (hfiled : ∀ e ∈ list, arrangedList e.id = some level) : placed level list = list := by
  induction list with
  | nil => rfl
  | cons e rest ih =>
    obtain ⟨hstays, hrest⟩ := settles_cons.mp hsettles
    unfold placed
    rw [if_pos ⟨hfiled e (mem_cons_self ..), hstays⟩,
      ih hrest fun later h => hfiled later (mem_cons_of_mem _ h)]

theorem dedup_arrangedList {id : EventId} (h : placement id = .dedup level) :
    arrangedList id = some level := by
  rw [arrangedList, h]

theorem survives_filter (level : Fin 6) (batch : List Event) (x : Event) :
    survives level (batch.filter fun e => arrangedList e.id = some level) x =
      survives level batch x := by
  rw [Bool.eq_iff_iff, survives_iff, survives_iff]
  constructor
  · intro h e he hremoves
    apply h e _ hremoves
    rw [mem_filter]
    exact ⟨he, by simpa using dedup_arrangedList hremoves.1⟩
  · intro h e he
    exact h e (mem_of_mem_filter he)

theorem placed_filter (level : Fin 6) (batch : List Event) :
    placed level (batch.filter fun e => arrangedList e.id = some level) =
      placed level batch := by
  induction batch with
  | nil => rfl
  | cons e rest ih =>
    by_cases hlisted : arrangedList e.id = some level
    · rw [filter_cons_of_pos (by simpa using hlisted)]
      unfold placed
      rw [survives_filter, ih]
    · rw [filter_cons_of_neg (by simpa using hlisted), ih]
      conv => rhs; unfold placed
      rw [if_neg fun h => hlisted h.1]

theorem placed_forall₂ {R : Event → Event → Prop}
    (hR : ∀ e e', R e e' → e.id = e'.id ∧ e.idxVf = e'.idxVf) {batch batch' : List Event}
    (h : List.Forall₂ R batch batch') :
    List.Forall₂ R (placed level batch) (placed level batch') := by
  induction h with
  | nil => exact .nil
  | @cons e e' rest rest' hhead htail ih =>
    have hsurvives : survives level rest e = survives level rest' e' := by
      rw [Bool.eq_iff_iff, survives_iff, survives_iff, (hR e e' hhead).2]
      constructor
      · intro hall y hy
        obtain ⟨i, hi, rfl⟩ := getElem_of_mem hy
        have hlt : i < rest.length := by
          rw [htail.length_eq]
          exact hi
        have hsame := hR _ _ (htail.get hlt hi)
        have hstays := hall rest[i] (getElem_mem hlt)
        rw [get_eq_getElem, get_eq_getElem] at hsame
        rwa [hsame.1, hsame.2] at hstays
      · intro hall y hy
        obtain ⟨i, hi, rfl⟩ := getElem_of_mem hy
        have hlt : i < rest'.length := by
          rw [← htail.length_eq]
          exact hi
        have hsame := hR _ _ (htail.get hi hlt)
        have hstays := hall rest'[i] (getElem_mem hlt)
        rw [get_eq_getElem, get_eq_getElem] at hsame
        rwa [← hsame.1, ← hsame.2] at hstays
    unfold placed
    rw [hsurvives, (hR e e' hhead).1]
    split
    · exact .cons hhead ih
    · exact ih

end settles

namespace EventPipe

def Settled (p : EventPipe) : Prop := ∀ level, Settles level (p.eventList level)

variable {p p' : EventPipe}

theorem Settled.arrange (h : p.Settled) : p.arrangeQueued.Settled := by
  intro level
  rw [arrangeQueued_eventList, arrangeEventList_eq, Settles, pairwise_append]
  refine ⟨(h level).sublist filter_sublist, placed_settles level p.eventQueue, ?_⟩
  intro x hx e he
  have hstays := (mem_filter.mp hx).2
  exact survives_iff.mp hstays e ((placed_sublist level p.eventQueue).subset he)

theorem Settled.retains {asked : EventId → Prop} (h : p.Settled) (hretains : Retains asked p p') :
    p'.Settled := by
  intro level
  have hkeys : ((p'.eventList level).map fun e => (e.id, e.idxVf)) =
      (p.eventList level).map fun e => (e.id, e.idxVf) :=
    forall₂_sameRequest_map (fun e => (e.id, e.idxVf)) (fun _ _ => rfl) (hretains.lists level)
  have hpair : ∀ list, Settles level list ↔ (list.map fun e : Event => (e.id, e.idxVf)).Pairwise
      fun x later => ¬(placement later.1 = .dedup level ∧ later.2 = x.2) := by
    intro list
    rw [pairwise_map]
    exact Iff.rfl
  rw [hpair, hkeys, ← hpair]
  exact h level

/-- The event in hand would not be removed by the rest of its list. -/
def Leads (p : EventPipe) (event : Event) : Prop :=
  ∀ level, arrangedList event.id = some level → Settles level (event :: p.eventList level)

theorem Settled.pick (htidy : p.Tidy) (h : p.Settled) :
    p.pickUpNextEvent.2.Settled ∧
      ∀ event, p.pickUpNextEvent.1 = some event → p.pickUpNextEvent.2.Leads event := by
  rcases pickUpNextEvent_cases htidy.cursor with ⟨hnone, _⟩ |
    ⟨level, event, rest, after, hpicked, hhead, _, hlists, _⟩
  · rw [hnone]
    exact ⟨h.arrange, nofun⟩
  · rw [hpicked]
    have harranged := h.arrange level
    rw [hhead] at harranged
    refine ⟨?_, ?_⟩
    · intro other
      show Settles other (after.eventList other)
      rw [hlists]
      by_cases hsame : other = level
      · subst hsame
        rw [update_self]
        exact (settles_cons.mp harranged).2
      · rw [update_of_ne hsame]
        exact h.arrange other
    · rintro e heq other hlisted
      obtain rfl := Option.some.inj heq
      have hfiled : arrangedList event.id = some level :=
        htidy.arrange.filed level event (by simp [hhead])
      rw [hfiled] at hlisted
      obtain rfl := Option.some.inj hlisted
      show Settles level (event :: after.eventList level)
      rw [hlists, update_self]
      exact harranged

theorem Settled.pushBack {event : Event} (h : p.Settled) (hfront : p.InFront event)
    (hleads : p.Leads event) : (p.pushBackEvent event).Settled := by
  cases hback : pushBackList event.id with
  | none =>
    rw [pushBackEvent_none hback]
    exact h
  | some level =>
    obtain ⟨_, level', hlisted, hfirst, _⟩ := hfront
    have hsame := pushBackList_arranged hback
    rw [hlisted] at hsame
    obtain rfl := Option.some.inj hsame
    intro other
    rw [(pushBackEvent_some (p := p) hback hfirst).1]
    by_cases hother : other = level'
    · subst hother
      rw [update_self]
      exact hleads other hlisted
    · rw [update_of_ne hother]
      exact h other

end EventPipe

namespace EventThread

variable {cfg : Config} {t : EventThread}

def Settled (t : EventThread) : Prop :=
  t.adapter.pipe.Settled ∧ ∀ event, t.inHand = some event → t.adapter.pipe.Leads event

theorem step_settled {label : Label} {t' : EventThread} (htidy : t.Tidy) (h : t.Settled)
    (hstep : Step cfg t label t') : t'.Settled := by
  cases hstep with
  | push request _ =>
    unfold push
    split
    · rename_i hqueued
      have hpipe := queuePushEx_some (queueRequest_some hqueued).2
      refine ⟨?_, fun event hheld => ?_⟩
      · show EventPipe.Settled _
        rw [hpipe]
        exact h.1
      · show EventPipe.Leads _ event
        rw [hpipe]
        exact h.2 event hheld
    · exact h
  | pick _ => exact h.1.pick htidy.pipe
  | process turn hheld =>
    refine ⟨?_, nofun⟩
    rcases settleEvent_outcome t.adapter turn _ with hdeferred | ⟨_, hretains, _⟩
    · unfold process
      rw [hdeferred]
      exact h.1.pushBack (htidy.held _ hheld) (h.2 _ hheld)
    · exact h.1.retains hretains
  | checkTimeouts check hfree =>
    -- any event will do: the check changes the lists for none
    obtain ⟨hretains, _⟩ : Changes cfg (Env.quiet 0) ⟨0, 0, .schedRma, .finished, none, .init⟩
        t.adapter.sched t.adapter _ := fullAccessCheckAndProcess_changes t.adapter check rfl
    refine ⟨h.1.retains hretains, fun event hheld => ?_⟩
    rw [show (t.checkTimeouts cfg check).inHand = t.inHand from rfl, hfree] at hheld
    cases hheld

theorem run_settled {ok : EventThread → Label → Prop}
    (run : Transition.Run (Boots cfg) (Step cfg) ok t) : t.Tidy ∧ t.Settled := by
  refine run.invariant (fun t => t.Tidy ∧ t.Settled) ?_ fun _ _ _ ⟨htidy, h⟩ _ hstep =>
    ⟨step_tidy htidy hstep, step_settled htidy h hstep⟩
  rintro _ ⟨states, now, rfl⟩
  exact ⟨boot_tidy states now, fun _ => .nil, nofun⟩

end EventThread

section update

variable {Data : Type} {rest : Nat → EventRest Data} {p : EventPipe}

def exportOf (rest : Nat → EventRest Data) (e : Event) : LiveInfoSchedEvent :=
  ⟨e.idxVf, e.id, (rest e.entry).schedBlock⟩

theorem arrangeQueued_of_empty (h : p.eventQueue = []) : p.arrangeQueued = p := by
  unfold arrangeQueued
  rw [h]
  rfl

theorem exportLoop_spec (fuel : Nat) (events : List LiveInfoSchedEvent) (signalled : List Nat)
    (hcursor : p.CursorFirst) (hqueue : p.eventQueue = [])
    (hfuel : (ordered p.eventList).length < fuel)
    (hroom : events.length + (ordered p.eventList).length ≤ eventQueueEntryNum) :
    (exportLoop rest fuel p events signalled).unprocessedEvents = events ++
        ((ordered p.eventList).filter fun e => e.id ≠ .schedGpumon).map (exportOf rest) ∧
      (exportLoop rest fuel p events signalled).signalled =
        signalled ++ (ordered p.eventList).flatMap fun e => e.signal.toList := by
  induction fuel generalizing p events signalled with
  | zero => omega
  | succ fuel ih =>
    have harranged := arrangeQueued_of_empty hqueue
    unfold exportLoop
    rcases pickUpNextEvent_cases hcursor with ⟨hnone, hempty⟩ |
      ⟨level, event, later, after, hpicked, _, _, _, hafter, _, hnext⟩
    · rw [harranged] at hempty
      rw [hnone, hempty]
      simp
    · obtain ⟨hordered, _⟩ := pickUpNextEvent_ordered hcursor hpicked
      rw [harranged] at hordered
      rw [hordered, length_cons] at hfuel hroom
      rw [hpicked, hordered]
      dsimp only
      rw [if_neg (by omega)]
      by_cases hgpumon : event.id = .schedGpumon
      · rw [if_neg (by simp [hgpumon])]
        obtain ⟨hevents, hsignals⟩ := ih events (signalled ++ event.signal.toList) hnext hafter
          (by omega) (by omega)
        rw [hevents, hsignals]
        simp [hgpumon]
      · rw [if_pos hgpumon]
        obtain ⟨hevents, hsignals⟩ := ih
          (events ++ [⟨event.idxVf, event.id, (rest event.entry).schedBlock⟩])
          (signalled ++ event.signal.toList) hnext hafter (by omega)
          (by rw [length_append, length_singleton]; omega)
        rw [hevents, hsignals]
        simp [hgpumon, exportOf]

theorem ordered_filter {lists : EventLists} (level : Fin 6)
    (hfiled : ∀ level, ∀ e ∈ lists level, arrangedList e.id = some level) :
    ((ordered lists).filter fun e => arrangedList e.id = some level) = lists level := by
  obtain ⟨before, after, hsplit⟩ := append_of_mem (mem_finRange level)
  have hnodup : (before ++ level :: after).Nodup := hsplit ▸ nodup_finRange 6
  have hbefore : level ∉ before := fun h =>
    (nodup_append.mp hnodup).2.2 level h level (mem_cons_self ..) rfl
  have hafter : level ∉ after := (nodup_cons.mp (nodup_append.mp hnodup).2.1).1
  have hothers : ∀ part : List (Fin 6), level ∉ part →
      (part.flatMap fun other => (lists other).filter fun e => arrangedList e.id = some level) =
        [] := by
    intro part hpart
    rw [flatMap_eq_nil_iff]
    intro other hother
    rw [filter_eq_nil_iff]
    intro e he
    rw [hfiled other e he]
    have hne : other ≠ level := fun heq => hpart (heq ▸ hother)
    simpa using hne
  unfold ordered
  rw [filter_flatMap, hsplit, flatMap_append, flatMap_cons,
    hothers before hbefore, hothers after hafter, nil_append, append_nil,
    filter_eq_self]
  intro e he
  simpa using hfiled level e he

theorem ordered_arranged_length (htidy : p.Tidy) :
    (ordered p.arrangeQueued.eventList).length ≤ p.pending.length := by
  have harranged := htidy.arrange
  have hnodup : (ordered p.arrangeQueued.eventList).Nodup := by
    unfold ordered
    rw [nodup_flatMap]
    constructor
    · intro level _
      have hsorted := harranged.sorted level
      rw [arrangeQueued_eventQueue, append_nil] at hsorted
      exact hsorted.imp fun hlt heq => Nat.ne_of_lt hlt (congrArg Event.entry heq)
    · refine (nodup_finRange 6).imp fun {level other} hne e he he' => ?_
      have hlevel := harranged.filed level e he
      rw [harranged.filed other e he'] at hlevel
      exact hne (Option.some.inj hlevel).symm
  have hsub : ordered p.arrangeQueued.eventList ⊆ p.pending := by
    intro e he
    obtain ⟨level, hlisted⟩ := mem_ordered.mp he
    rw [mem_pending]
    rcases mem_append.mp ((arranged_sublist p level).subset hlisted) with
      hold | hnew
    · exact .inl ⟨level, hold⟩
    · exact .inr hnew
  exact (subperm_of_subset hnodup hsub).length_le

theorem exports_iff {e : Event} :
    p.Exports e ↔ e.id ≠ .schedGpumon ∧ ∃ level, e ∈ p.arrangeQueued.eventList level := by
  unfold EventPipe.Exports
  simp only [arrangeQueued_eventList, arrangeEventList_eq, mem_append,
    mem_filter]

theorem forall₂_map {α β γ : Type} {R : α → β → Prop} {f : α → γ} {g : β → γ}
    (hR : ∀ a b, R a b → g b = f a) {l : List α} {l' : List β} (h : List.Forall₂ R l l') :
    l'.map g = l.map f := by
  induction h with
  | nil => rfl
  | cons hhead _ ih => rw [map_cons, map_cons, ih, hR _ _ hhead]

theorem exportUnprocessedEvent_spec (htidy : p.Tidy)
    (hpending : p.pending.length ≤ queueRoom) :
    (p.exportUnprocessedEvent rest).unprocessedEvents =
        ((ordered p.arrangeQueued.eventList).filter fun e => e.id ≠ .schedGpumon).map
          (exportOf rest) ∧
      (p.exportUnprocessedEvent rest).signalled =
        (ordered p.arrangeQueued.eventList).flatMap fun e => e.signal.toList := by
  have hlength := ordered_arranged_length htidy
  have hfuel : (ordered p.arrangeQueued.eventList).length <
      p.arrangeQueued.pending.length + 1 := by
    unfold pending
    rw [length_append]
    omega
  have hroom : ([] : List LiveInfoSchedEvent).length +
      (ordered p.arrangeQueued.eventList).length ≤ eventQueueEntryNum := by
    unfold queueRoom at hpending
    unfold eventQueueEntryNum
    rw [length_nil]
    omega
  exact exportLoop_spec _ [] [] htidy.arrange.cursor arrangeQueued_eventQueue hfuel hroom

theorem tellsNoWaiter_iff (htidy : p.Tidy)
    (hpending : p.pending.length ≤ queueRoom) :
    p.TellsNoWaiter rest ↔ ∀ e, p.Exports e → e.signal = none := by
  have hsignals : (p.exportUnprocessedEvent rest).signalled =
      (ordered p.arrangeQueued.eventList).flatMap fun e => e.signal.toList :=
    (exportUnprocessedEvent_spec htidy hpending).2
  constructor
  · intro h e hexports
    rcases hsignal : e.signal with _ | s
    · rfl
    · obtain ⟨_, level, hlisted⟩ := exports_iff.mp hexports
      have htold : s ∈ (p.exportUnprocessedEvent rest).signalled := by
        rw [hsignals, mem_flatMap]
        exact ⟨e, mem_ordered.mpr ⟨level, hlisted⟩, by simp [hsignal]⟩
      exact absurd (by simp [waitResult, htold]) (h e hexports s hsignal)
  · intro h e hexports s hsignal
    rw [h e hexports] at hsignal
    cases hsignal

variable [Zero Data]

def ImportOf (rest : Nat → EventRest Data) (e : LiveInfoSchedEvent) (event : Event) : Prop :=
  content rest event = (e.id, e.idxVf, e.schedId, .init, 0)

theorem importUnprocessedEvent_rest (events : List LiveInfoSchedEvent) (p : EventPipe)
    (rest : Nat → EventRest Data) {n : Nat} (hn : n < p.freshEntry) :
    (importUnprocessedEvent events p rest).2 n = rest n := by
  induction events generalizing p rest with
  | nil => rfl
  | cons e more ih =>
    unfold importUnprocessedEvent
    split
    · exact ih p rest hn
    · rename_i pushed hpushed
      have hpipe := queuePushEx_some hpushed
      rw [ih pushed _ (by rw [hpipe]; exact Nat.lt_succ_of_lt hn)]
      exact update_of_ne (Nat.ne_of_lt hn) ..

theorem importUnprocessedEvent_spec (events : List LiveInfoSchedEvent) (p : EventPipe)
    (rest : Nat → EventRest Data)
    (hroom : p.eventQueue.length + events.length ≤ queueRoom) :
    ∃ batch, (importUnprocessedEvent events p rest).1.eventQueue = p.eventQueue ++ batch ∧
      (importUnprocessedEvent events p rest).1.eventList = p.eventList ∧
      List.Forall₂ (ImportOf (importUnprocessedEvent events p rest).2) events batch := by
  induction events generalizing p rest with
  | nil => exact ⟨[], (append_nil _).symm, rfl, .nil⟩
  | cons e more ih =>
    rw [length_cons] at hroom
    have hpush : p.queuePushEx false true e.idxVf e.id none .init = some { p with
        eventQueue := p.eventQueue ++ [⟨p.freshEntry, e.idxVf, e.id, .normal, none, .init⟩]
        freshEntry := p.freshEntry + 1 } := by
      unfold queuePushEx
      rw [if_neg (by simp), if_neg (by omega), if_neg (by simp)]
    unfold importUnprocessedEvent
    rw [hpush]
    dsimp only
    obtain ⟨batch, hqueue, hlists, hbatch⟩ := ih { p with
        eventQueue := p.eventQueue ++ [⟨p.freshEntry, e.idxVf, e.id, .normal, none, .init⟩]
        freshEntry := p.freshEntry + 1 }
      (update rest p.freshEntry ⟨e.schedId, 0⟩)
      (by dsimp only; rw [length_append, length_singleton]; omega)
    refine ⟨⟨p.freshEntry, e.idxVf, e.id, .normal, none, .init⟩ :: batch, ?_, hlists, ?_⟩
    · rw [hqueue]
      simp
    · refine .cons ?_ hbatch
      unfold ImportOf content
      dsimp only
      rw [importUnprocessedEvent_rest _ _ _ (Nat.lt_succ_self p.freshEntry)]
      simp

def zeroed (rest : Nat → EventRest Data) (e : Event) :
    EventId × Nat × Nat × FbClearType × Data :=
  (e.id, e.idxVf, (rest e.entry).schedBlock, .init, 0)

theorem zeroed_eq_content {e : Event} :
    zeroed rest e = content rest e ↔ e.fbClearType = .init ∧ (rest e.entry).data = 0 := by
  simp [zeroed, content, eq_comm]

theorem updated_eventList (htidy : p.Tidy) (hsettled : p.Settled)
    (hpending : p.pending.length ≤ queueRoom) (level : Fin 6) :
    ((p.updated rest).1.eventList level).map (content (p.updated rest).2) =
      ((p.arrangeQueued.eventList level).filter fun e => e.id ≠ .schedGpumon).map
        (zeroed rest) := by
  have hfiled := htidy.arrange.filed
  have hevents : (p.exportUnprocessedEvent rest).unprocessedEvents =
      ((ordered p.arrangeQueued.eventList).filter fun e => e.id ≠ .schedGpumon).map
        (exportOf rest) := (exportUnprocessedEvent_spec htidy hpending).1
  generalize hexported : (ordered p.arrangeQueued.eventList).filter (fun e =>
    e.id ≠ .schedGpumon) = exported at hevents
  have hroom : EventThread.emptyPipe.eventQueue.length +
      (p.exportUnprocessedEvent rest).unprocessedEvents.length ≤ queueRoom := by
    rw [hevents, length_map, ← hexported]
    have hfew := length_filter_le (fun e : Event => e.id ≠ .schedGpumon)
      (ordered p.arrangeQueued.eventList)
    have hlength := ordered_arranged_length htidy
    show 0 + _ ≤ _
    omega
  obtain ⟨batch, hqueue, hlists, hbatch⟩ := importUnprocessedEvent_spec
    (p.exportUnprocessedEvent rest).unprocessedEvents EventThread.emptyPipe
    (fun _ => (⟨0, 0⟩ : EventRest Data)) hroom
  -- what is imported is what was exported, event by event
  have hsame : List.Forall₂ (fun e event => ImportOf (p.updated rest).2 (exportOf rest e) event)
      exported batch := by
    rw [hevents, forall₂_map_left_iff] at hbatch
    show List.Forall₂ (fun e event => ImportOf (importUnprocessedEvent
      (p.exportUnprocessedEvent rest).unprocessedEvents _ _).2 (exportOf rest e) event) _ _
    rw [hevents]
    exact hbatch
  have hkeys : ∀ e event, ImportOf (p.updated rest).2 (exportOf rest e) event →
      e.id = event.id ∧ e.idxVf = event.idxVf := by
    intro e event himport
    unfold ImportOf content exportOf at himport
    exact ⟨(congrArg Prod.fst himport).symm, (congrArg (fun c => c.2.1) himport).symm⟩
  have hlist : (p.updated rest).1.eventList level = placed level batch := by
    unfold updated
    dsimp only
    rw [arrangeQueued_eventList, arrangeEventList_eq, hlists, hqueue]
    rfl
  have hplaced : placed level exported =
      (p.arrangeQueued.eventList level).filter fun e => e.id ≠ .schedGpumon := by
    rw [← placed_filter, ← hexported, filter_comm, ordered_filter level hfiled]
    apply placed_of_settles
    · exact (hsettled.arrange level).sublist filter_sublist
    · intro e he
      exact hfiled level e (mem_of_mem_filter he)
  rw [hlist, ← hplaced]
  exact forall₂_map (fun e event himport => himport) (placed_forall₂ hkeys hsame)

theorem resumes_iff (htidy : p.Tidy) (hsettled : p.Settled)
    (hpending : p.pending.length ≤ queueRoom) :
    p.Resumes rest ↔
      ∀ e, p.Exports e → e.fbClearType = .init ∧ (rest e.entry).data = 0 := by
  unfold EventPipe.Resumes
  simp only [updated_eventList htidy hsettled hpending, map_inj_left]
  constructor
  · intro h e hexports
    obtain ⟨hid, level, hlisted⟩ := exports_iff.mp hexports
    rw [← zeroed_eq_content]
    apply h level
    rw [mem_filter]
    exact ⟨hlisted, by simpa using hid⟩
  · intro h level e he
    rw [mem_filter] at he
    rw [zeroed_eq_content]
    apply h
    rw [exports_iff]
    exact ⟨by simpa using he.2, level, he.1⟩

end update

namespace EventThread

variable {Data : Type} [Zero Data] {cfg : Config} {t : EventThread}

/-- The events of any reachable scheduler survive a live update, and no waiter is told that its
event completed, exactly when no exported event carries data or has a waiter. -/
theorem liveUpdate_iff (run : Transition.Run (Boots cfg) (Step cfg) Transition.always t)
    (hpending : t.adapter.pipe.pending.length ≤ queueRoom)
    (rest : Nat → EventRest Data) :
    (t.adapter.pipe.Resumes rest ∧ t.adapter.pipe.TellsNoWaiter rest) ↔
      ∀ e, t.adapter.pipe.Exports e →
        e.fbClearType = .init ∧ (rest e.entry).data = 0 ∧ e.signal = none := by
  obtain ⟨htidy, hsettled⟩ := run_settled run
  rw [resumes_iff htidy.pipe hsettled.1 hpending, tellsNoWaiter_iff htidy.pipe hpending]
  constructor
  · intro h e hexports
    exact ⟨(h.1 e hexports).1, (h.1 e hexports).2, h.2 e hexports⟩
  · intro h
    exact ⟨fun e hexports => ⟨(h e hexports).1, (h e hexports).2.1⟩,
      fun e hexports => (h e hexports).2.2⟩

def queued (request : Request) : EventThread :=
  (boot Config.pair (fun _ => .avail) 0).push request

theorem queued_run (request : Request) :
    Transition.Run (Boots Config.pair) (Step Config.pair) Transition.always (queued request) :=
  .next (.push _) (.start ⟨_, _, rfl⟩) trivial (.push _ fun _ _ => not_mem_nil)

/-- A suspension nobody waits for comes through. -/
theorem liveUpdate_suspend :
    (queued ⟨0, .schedSuspendVf, none, .init, true⟩).adapter.pipe.Resumes
        (fun _ => (⟨3, 0⟩ : EventRest Nat)) ∧
      (queued ⟨0, .schedSuspendVf, none, .init, true⟩).adapter.pipe.TellsNoWaiter
        (fun _ => (⟨3, 0⟩ : EventRest Nat)) := by
  refine (liveUpdate_iff (queued_run _) (by decide) _).mpr fun e hexports => ?_
  obtain ⟨_, level, hlisted⟩ := exports_iff.mp hexports
  have hone : ∀ level, ∀ e ∈ (queued
      ⟨0, .schedSuspendVf, none, .init, true⟩).adapter.pipe.arrangeQueued.eventList level,
        e.fbClearType = .init ∧ e.signal = none := by decide +kernel
  exact ⟨(hone level e hlisted).1, rfl, (hone level e hlisted).2⟩

/-- The access a caller waits to set for a function comes back as no access at all, and the caller
is told that it is set. -/
theorem setVfAccess_lost :
    ¬∀ (cfg : Config) (t : EventThread) (rest : Nat → EventRest Nat),
      Transition.Run (Boots cfg) (Step cfg) Transition.always t →
        t.adapter.pipe.pending.length ≤ queueRoom →
          t.adapter.pipe.Resumes rest ∧ t.adapter.pipe.TellsNoWaiter rest := by
  intro h
  have hlost := (h Config.pair (queued ⟨0, .schedSetVfAccess, some 7, .init, true⟩)
    (fun _ => ⟨0, 5⟩) (queued_run _) (by decide)).1 3
  revert hlost
  decide +kernel

end EventThread

end MxGpu.Sched
