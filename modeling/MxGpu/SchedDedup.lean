import MxGpu.SchedProcess

/- Which pending events the removal of duplicates takes away, and when it takes
only events that a later one repeats. -/
namespace MxGpu.Sched

open PriorityLists

/-- No arrival that removes duplicates finds, in its list and for its function, an
event with another id: neither one listed before nor one of the same batch. -/
def ConflictFree (lists : EventLists) (batch : List Event) : Prop :=
  ∀ before y after, batch = before ++ y :: after → ∀ level, placement y.id = .dedup level →
    ∀ x, (x ∈ lists level ∨ x ∈ before ∧ arrangedList x.id = some level) →
      x.idxVf = y.idxVf → x.id = y.id

theorem arrangedList_dedup {id : EventId} {level : Fin 6} (place : placement id = .dedup level) :
    arrangedList id = some level := by
  unfold arrangedList
  rw [place]

theorem mem_arrangeEntry {lists : EventLists} {entry x : Event} {level : Fin 6} :
    x ∈ arrangeEntry lists entry level ↔
      x ∈ lists level ∧ ¬(placement entry.id = .dedup level ∧ entry.idxVf = x.idxVf) ∨
        x = entry ∧ arrangedList entry.id = some level := by
  by_cases listed : arrangedList entry.id = some level
  · rw [arrangeEntry_self lists entry listed]
    simp [listed, imp_iff_not_or]
  · obtain ⟨same, notDedup⟩ := arrangeEntry_other lists entry listed
    rw [same]
    simp [listed, notDedup]

theorem mem_duplicatesOf {lists : EventLists} {entry x : Event} :
    x ∈ duplicatesOf lists entry ↔
      ∃ level, placement entry.id = .dedup level ∧ x ∈ lists level ∧ x.idxVf = entry.idxVf := by
  unfold duplicatesOf
  cases placement entry.id <;> simp

theorem removals_order {lists : EventLists} {batch : List Event} {old new : Event}
    (removed : (old, new) ∈ removals lists batch) :
    old.idxVf = new.idxVf ∧ ∃ level before after, batch = before ++ new :: after ∧
      (old ∈ lists level ∨ old ∈ before) := by
  induction batch generalizing lists with
  | nil => cases removed
  | cons entry rest ih =>
    rcases List.mem_append.mp removed with now | later
    · obtain ⟨x, duplicate, same⟩ := List.mem_map.mp now
      obtain ⟨rfl, rfl⟩ := Prod.mk.inj same
      obtain ⟨level, _, listed, function⟩ := mem_duplicatesOf.mp duplicate
      exact ⟨function, level, [], rest, rfl, .inl listed⟩
    · obtain ⟨function, level, before, after, split, origin⟩ := ih later
      refine ⟨function, level, entry :: before, after, by rw [split]; rfl, ?_⟩
      rcases origin with listed | earlier
      · rcases mem_arrangeEntry.mp listed with ⟨there, _⟩ | ⟨rfl, _⟩
        · exact .inl there
        · exact .inr (List.mem_cons_self ..)
      · exact .inr (List.mem_cons_of_mem _ earlier)

theorem removals_complete {lists : EventLists} {batch : List Event} {x : Event} {level : Fin 6}
    (waits : x ∈ lists level ∨ x ∈ batch ∧ arrangedList x.id = some level)
    (lost : x ∉ arrangeEventList lists batch level) : ∃ new, (x, new) ∈ removals lists batch := by
  induction batch generalizing lists with
  | nil =>
    rcases waits with listed | ⟨arrives, _⟩
    · exact absurd listed lost
    · cases arrives
  | cons entry rest ih =>
    have after : x ∈ arrangeEntry lists entry level ∨
        x ∈ rest ∧ arrangedList x.id = some level →
        ∃ new, (x, new) ∈ removals lists (entry :: rest) := fun waits => by
      obtain ⟨new, removed⟩ := ih waits lost
      exact ⟨new, List.mem_append_right _ removed⟩
    rcases waits with listed | ⟨arrives, known⟩
    · by_cases removes : placement entry.id = .dedup level ∧ entry.idxVf = x.idxVf
      · refine ⟨entry, List.mem_append_left _ (List.mem_map.mpr ⟨x, ?_, rfl⟩)⟩
        exact mem_duplicatesOf.mpr ⟨level, removes.1, listed, removes.2.symm⟩
      · exact after (.inl (mem_arrangeEntry.mpr (.inl ⟨listed, removes⟩)))
    · rcases List.mem_cons.mp arrives with rfl | later
      · exact after (.inl (mem_arrangeEntry.mpr (.inr ⟨rfl, known⟩)))
      · exact after (.inr ⟨later, known⟩)

theorem conflictFree_cons {lists : EventLists} {entry : Event} {rest : List Event} :
    ConflictFree lists (entry :: rest) ↔
      (∀ x ∈ duplicatesOf lists entry, x.id = entry.id) ∧
        ConflictFree (arrangeEntry lists entry) rest := by
  constructor
  · intro free
    refine ⟨fun x duplicate => ?_, fun before y after split level place x waits function => ?_⟩
    · obtain ⟨level, place, listed, function⟩ := mem_duplicatesOf.mp duplicate
      exact free [] entry rest rfl level place x (.inl listed) function
    · refine free (entry :: before) y after (by rw [split]; rfl) level place x ?_ function
      rcases waits with listed | ⟨earlier, known⟩
      · rcases mem_arrangeEntry.mp listed with ⟨there, _⟩ | ⟨rfl, known⟩
        · exact .inl there
        · exact .inr ⟨List.mem_cons_self .., known⟩
      · exact .inr ⟨List.mem_cons_of_mem _ earlier, known⟩
  · rintro ⟨first, free⟩ before y after split level place x waits function
    cases before with
    | nil =>
      obtain ⟨rfl, rfl⟩ := List.cons.inj split
      rcases waits with listed | ⟨earlier, _⟩
      · exact first x (mem_duplicatesOf.mpr ⟨level, place, listed, function⟩)
      · cases earlier
    | cons head before =>
      obtain ⟨rfl, tail⟩ := List.cons.inj split
      have entryListed : ∀ known : arrangedList entry.id = some level,
          entry.idxVf = y.idxVf → entry.id = y.id := fun known sameVf =>
        free before y after tail level place entry
          (.inl (mem_arrangeEntry.mpr (.inr ⟨rfl, known⟩))) sameVf
      rcases waits with listed | ⟨earlier, known⟩
      · by_cases removes : placement entry.id = .dedup level ∧ entry.idxVf = x.idxVf
        · -- the arrival took `x` away, and stands for it from then on
          have taken := first x (mem_duplicatesOf.mpr
            ⟨level, removes.1, listed, removes.2.symm⟩)
          rw [taken]
          exact entryListed (arrangedList_dedup removes.1) (removes.2.trans function)
        · exact free before y after tail level place x
            (.inl (mem_arrangeEntry.mpr (.inl ⟨listed, removes⟩))) function
      · rcases List.mem_cons.mp earlier with rfl | earlier
        · exact entryListed known function
        · exact free before y after tail level place x (.inr ⟨earlier, known⟩) function

theorem removals_repeat_iff {lists : EventLists} {batch : List Event} :
    (∀ removal ∈ removals lists batch, removal.1.id = removal.2.id) ↔
      ConflictFree lists batch := by
  induction batch generalizing lists with
  | nil => exact ⟨fun _ before y after split => by simp at split, fun _ _ removed => nomatch removed⟩
  | cons entry rest ih =>
    have parts : removals lists (entry :: rest) =
        (duplicatesOf lists entry).map (·, entry) ++ removals (arrangeEntry lists entry) rest := rfl
    rw [conflictFree_cons, ← ih, parts, List.forall_mem_append, List.forall_mem_map]

namespace EventThread

variable {cfg : Config} {t : EventThread}

/-- In every run, what the next arranging takes away is superseded by a later event
with the same id for the same function exactly when no arrival meets an event with
another id in its list; and nothing else that has a list is lost. -/
theorem removals_superseded_iff
    (run : Transition.Run (Boots cfg) (Step cfg) Transition.always t) :
    ((∀ removal ∈ removals t.adapter.pipe.eventList t.adapter.pipe.eventQueue,
        removal.1.id = removal.2.id ∧ removal.1.idxVf = removal.2.idxVf ∧
          removal.1.entry < removal.2.entry) ↔
      ConflictFree t.adapter.pipe.eventList t.adapter.pipe.eventQueue) ∧
    ∀ level x, (x ∈ t.adapter.pipe.eventList level ∨
        x ∈ t.adapter.pipe.eventQueue ∧ arrangedList x.id = some level) →
      x ∉ t.adapter.pipe.arrangeQueued.eventList level →
      ∃ new, (x, new) ∈ removals t.adapter.pipe.eventList t.adapter.pipe.eventQueue := by
  have tidy := (run_tidy run).pipe
  refine ⟨?_, fun level x waits lost => ?_⟩
  · rw [← removals_repeat_iff]
    refine ⟨fun superseded removal removed => (superseded removal removed).1,
      fun repeats removal removed => ⟨repeats removal removed, ?_⟩⟩
    obtain ⟨function, level, before, after, split, origin⟩ := removals_order removed
    refine ⟨function, ?_⟩
    have sorted := tidy.sorted level
    rw [split] at sorted
    rcases origin with listed | earlier
    · exact (List.pairwise_append.mp sorted).2.2 _ listed _
        (List.mem_append_right _ (List.mem_cons_self ..))
    · have queue := (List.pairwise_append.mp sorted).2.1
      exact (List.pairwise_append.mp queue).2.2 _ earlier _ (List.mem_cons_self ..)
  · rw [EventPipe.arrangeQueued_eventList] at lost
    exact removals_complete waits lost

/-- Two `SCHED_FORCE_RESET_GPU` of the PF: the first is removed for its repetition. -/
theorem removals_superseded_forceReset :
    ConflictFree
      (((boot Config.pair (fun _ => .avail) 0).push
        ⟨pfIdx, .schedForceResetGpu, none, .init, true⟩).push
        ⟨pfIdx, .schedForceResetGpu, none, .init, true⟩).adapter.pipe.eventList
      (((boot Config.pair (fun _ => .avail) 0).push
        ⟨pfIdx, .schedForceResetGpu, none, .init, true⟩).push
        ⟨pfIdx, .schedForceResetGpu, none, .init, true⟩).adapter.pipe.eventQueue := by
  have run : Transition.Run (Boots Config.pair) (Step Config.pair) Transition.always
      (((boot Config.pair (fun _ => .avail) 0).push
        ⟨pfIdx, .schedForceResetGpu, none, .init, true⟩).push
        ⟨pfIdx, .schedForceResetGpu, none, .init, true⟩) :=
    .next (.push _) (.next (.push _) (.start ⟨_, _, rfl⟩) trivial
      (.push _ (by intro _ silent; cases silent))) trivial
      (.push _ (by intro _ silent; cases silent))
  exact (removals_superseded_iff run).1.mp (by decide)

/-- A pending `SCHED_FORCE_RESET_GPU` of the PF is removed for a `SCHED_RAS_UMC`. -/
theorem forceReset_lost :
    ¬∀ (cfg : Config) (t : EventThread),
      Transition.Run (Boots cfg) (Step cfg) Transition.always t →
        ∀ removal ∈ removals t.adapter.pipe.eventList t.adapter.pipe.eventQueue,
          removal.1.id = removal.2.id ∧ removal.1.idxVf = removal.2.idxVf ∧
            removal.1.entry < removal.2.entry := by
  intro superseded
  have run : Transition.Run (Boots Config.pair) (Step Config.pair) Transition.always
      (((boot Config.pair (fun _ => .avail) 0).push
        ⟨pfIdx, .schedForceResetGpu, none, .init, true⟩).push
        ⟨pfIdx, .schedRasUmc, none, .init, true⟩) :=
    .next (.push _) (.next (.push _) (.start ⟨_, _, rfl⟩) trivial
      (.push _ (by intro _ silent; cases silent))) trivial
      (.push _ (by intro _ silent; cases silent))
  have all := superseded _ _ run
  revert all
  decide

end EventThread

end MxGpu.Sched
