import MxGpu.Tally
import MxGpu.Transition

/- Threads that enter the barrier with a timeout (`task_barrier_enter_timeout`), one atomic access
at a time. -/
namespace MxGpu.BarrierTimeout

open Tally Function

/-- Where a thread is in `task_barrier_enter_timeout`. -/
inductive Place where
  | outside
  /-- at the head of the loop, `thread_count` comes next -/
  | polling
  /-- not all were counted in, `terminate` comes next -/
  | asking
  /-- in the body of the loop -/
  | sleeping
  /-- out of the loop, `thread_count` comes once more -/
  | leaving
  /-- back, with whether the last reading was not the count -/
  | returned (value : Bool)
  deriving DecidableEq

/-- The shared words of the barrier that the function uses, and the threads with what is left of
their timeouts. -/
structure Sys (n : Nat) where
  threadCount : Nat
  terminate : Bool
  place : Fin n → Place
  usecTimeout : Fin n → Int

section Steps

variable {n : Nat}

/-- The barrier as `task_barrier_init` leaves it; `int usec_timeout = timeout` wraps. -/
def start (timeout : Fin n → BitVec 32) : Sys n :=
  ⟨0, false, fun _ => .outside, fun i => (timeout i).toInt⟩

def Sys.move (s : Sys n) (i : Fin n) (place : Place) : Sys n :=
  { s with place := update s.place i place }

/-- The next atomic step of a thread that calls the function with the count `n`. -/
def enterTimeout (s : Sys n) (i : Fin n) : Option (Sys n) :=
  match s.place i with
  | .outside => some { s.move i .polling with threadCount := s.threadCount + 1 }
  | .polling => some (s.move i (if s.threadCount < n then .asking else .leaving))
  | .asking => some (s.move i (if s.terminate = false then .sleeping else .leaving))
  | .sleeping =>
    if 50 < s.usecTimeout i then
      some { s.move i .polling with
        usecTimeout := update s.usecTimeout i (s.usecTimeout i - 50) }
    else some { s.move i .polling with terminate := true }
  | .leaving => some (s.move i (.returned (s.threadCount != n)))
  | .returned _ => none

def Step (s : Sys n) (i : Fin n) (s' : Sys n) : Prop := enterTimeout s i = some s'

def Started (timeout : Fin n → BitVec 32) (s : Sys n) : Prop := s = start timeout

def Complete (s : Sys n) : Prop := ∀ i, ∃ value, s.place i = .returned value

/-- The calls that are back have all returned zero, or all something else. -/
def Agreed (s : Sys n) : Prop :=
  (∀ i value, s.place i = .returned value → value = false) ∨
    ∀ i value, s.place i = .returned value → value = true

/-- A thread reads the counter for its result only when all are counted in. -/
def Patient (s : Sys n) (i : Fin n) : Prop := s.place i = .leaving → s.threadCount = n

instance (s : Sys n) (i : Fin n) : Decidable (Patient s i) :=
  inferInstanceAs (Decidable (_ → _))

end Steps

section Readings

variable {n : Nat} {s s' : Sys n} {i : Fin n}

/-- The threads that `thread_count` counts. -/
def Place.counted : Place → Bool
  | .outside => false
  | _ => true

structure Advanced (s s' : Sys n) (i : Fin n) (next : Place) : Prop where
  place : s'.place = update s.place i next
  count : s'.threadCount + (s.place i).counted.toNat = s.threadCount + next.counted.toNat
  gone : ∀ value, s.place i ≠ .returned value
  reads : ∀ value, next = .returned value →
    s.place i = .leaving ∧ value = (s.threadCount != n)
  last : s.place i = .leaving → next = .returned (s.threadCount != n)

theorem enterTimeout_spec (taken : enterTimeout s i = some s') : ∃ next, Advanced s s' i next := by
  unfold enterTimeout at taken
  cases at_ : s.place i with
  | outside =>
    simp only [at_, Option.some.injEq] at taken
    subst taken
    refine ⟨.polling, ?_⟩
    constructor <;> simp [Sys.move, at_, Place.counted]
  | polling =>
    simp only [at_, Option.some.injEq] at taken
    subst taken
    refine ⟨_, rfl, ?_, ?_, ?_, ?_⟩
    · split <;> simp [Sys.move, at_, Place.counted]
    · simp [at_]
    · intro value
      split <;> simp
    · simp [at_]
  | asking =>
    simp only [at_, Option.some.injEq] at taken
    subst taken
    refine ⟨_, rfl, ?_, ?_, ?_, ?_⟩
    · split <;> simp [Sys.move, at_, Place.counted]
    · simp [at_]
    · intro value
      split <;> simp
    · simp [at_]
  | sleeping =>
    simp only [at_] at taken
    refine ⟨.polling, ?_⟩
    split at taken
    all_goals
      simp only [Option.some.injEq] at taken
      subst taken
      constructor <;> simp [Sys.move, at_, Place.counted]
  | leaving =>
    simp only [at_, Option.some.injEq] at taken
    subst taken
    refine ⟨_, rfl, ?_, ?_, ?_, ?_⟩
    · simp [Sys.move, at_, Place.counted]
    · simp [at_]
    · intro value same
      simp only [Place.returned.injEq] at same
      exact ⟨at_, same.symm⟩
    · intro _
      rfl
  | returned value =>
    simp [at_] at taken

/-- The counter counts, and not every thread has come back with a timeout: the last one that is
counted in sees them all. -/
structure Inv (s : Sys n) : Prop where
  count : s.threadCount = tally (fun _ => Place.counted) s.place
  someone : 0 < n → ∃ i, s.place i ≠ .returned true

theorem start_inv (timeout : Fin n → BitVec 32) : Inv (start timeout) := by
  constructor
  · have none : tally (fun _ => Place.counted) (start timeout).place = 0 :=
      tally_eq_zero.mpr fun _ => rfl
    rw [none]
    rfl
  · intro positive
    exact ⟨⟨0, positive⟩, by simp [start]⟩

theorem Inv.awaited (inv : Inv s) (short : s.threadCount ≠ n) : ∃ j, s.place j = .outside := by
  apply Classical.byContradiction
  intro nobody
  apply short
  rw [inv.count, tally_all, Fintype.card_fin]
  intro j
  cases at_ : s.place j with
  | outside => exact absurd ⟨j, at_⟩ nobody
  | _ => rfl

theorem Inv.step (inv : Inv s) (taken : enterTimeout s i = some s') : Inv s' := by
  obtain ⟨next, done⟩ := enterTimeout_spec taken
  constructor
  · have moved := (@tally_update _ _ _ (fun _ => Place.counted) s.place _) i next
    have counted := done.count
    rw [inv.count] at counted
    rw [done.place]
    omega
  · intro positive
    rw [done.place]
    by_cases late : next = .returned true
    · -- the thread has read a counter that was short, so another one is outside
      have short : s.threadCount ≠ n := by
        intro all
        have := (done.reads true late).2
        simp [all] at this
      obtain ⟨j, out⟩ := inv.awaited short
      refine ⟨j, ?_⟩
      by_cases same : j = i
      · rw [same, (done.reads true late).1] at out
        cases out
      · rw [update_of_ne same, out]
        simp
    · obtain ⟨j, there⟩ := inv.someone positive
      refine ⟨j, ?_⟩
      by_cases same : j = i
      · rw [same, update_self]
        exact late
      · rw [update_of_ne same]
        exact there

theorem Advanced.stays {next : Place} (done : Advanced s s' i next) {j : Fin n} {value : Bool}
    (back : s.place j = .returned value) : s'.place j = .returned value := by
  have other : j ≠ i := by
    intro same
    exact done.gone value (same ▸ back)
  rw [done.place, update_of_ne other]
  exact back

end Readings

section Progress

variable {n : Nat} {s s' : Sys n} {i : Fin n}

end Progress

section Runs

variable {n : Nat} {s : Sys n} {timeout : Fin n → BitVec 32}

def Reached (s : Sys n) : Prop := ∀ i, s.place i ≠ .returned true

theorem run_inv (run : Transition.Run (Started timeout) Step Transition.always s) : Inv s := by
  apply run.invariant Inv
  · intro first begun
    rw [begun]
    exact start_inv timeout
  · intro before i after inv _ taken
    exact inv.step taken

theorem run_reached (run : Transition.Run (Started timeout) Step Patient s) : Reached s := by
  apply run.invariant Reached
  · intro first begun i
    rw [begun]
    simp [start]
  · intro before i after reached patient taken j
    obtain ⟨next, done⟩ := enterTimeout_spec taken
    rw [done.place]
    by_cases same : j = i
    · subst same
      rw [update_self]
      intro late
      obtain ⟨here, short⟩ := done.reads true late
      simp [patient here] at short
    · rw [update_of_ne same]
      exact reached j

theorem run_patient (run : Transition.Run (Started timeout) Step Transition.always s) :
    Reached s → Transition.Run (Started timeout) Step Patient s := by
  induction run with
  | start first =>
    intro _
    exact .start first
  | @next before after i _ _ taken ih =>
    intro reached
    obtain ⟨next, done⟩ := enterTimeout_spec taken
    apply Transition.Run.next i (ih _) _ taken
    · intro j late
      exact reached j (done.stays late)
    · intro here
      apply Classical.byContradiction
      intro short
      apply reached i
      rw [done.place, update_self, done.last here]
      simpa using short

theorem Reached.agreed (reached : Reached s) : Agreed s := by
  apply Or.inl
  intro i value back
  cases value with
  | false => rfl
  | true => exact absurd back (reached i)

theorem Agreed.reached (agreed : Agreed s) (inv : Inv s) (complete : Complete s) : Reached s := by
  intro i late
  rcases agreed with zero | other
  · cases zero i true late
  · obtain ⟨j, there⟩ := inv.someone (Nat.lt_of_le_of_lt (Nat.zero_le _) i.isLt)
    obtain ⟨value, back⟩ := complete j
    rw [back, other j value back] at there
    exact there rfl

/-- The results agree in every run in which the threads read the counter for them only when all
are counted in. In no other run do they, once all calls are back. -/
theorem timeouts_agree_iff (n : Nat) (timeout : Fin n → BitVec 32) :
    (∀ s, Transition.Run (Started timeout) Step Patient s → Agreed s) ∧
      ∀ s, Transition.Run (Started timeout) Step Transition.always s → Complete s →
        (Agreed s ↔ Transition.Run (Started timeout) Step Patient s) := by
  constructor
  · intro s run
    exact (run_reached run).agreed
  · intro s run complete
    constructor
    · intro agreed
      exact run_patient run (agreed.reached (run_inv run) complete)
    · intro patient
      exact (run_reached patient).agreed

/-- Two threads that are both there before the first of them reads. -/
theorem timeouts_agree_two : ∃ s : Sys 2, Complete s ∧ Agreed s ∧ s.place 0 = .returned false := by
  have order : ∃ s : Sys 2, [0, 1, 0, 1, 0, 1].foldlM (fun before i =>
      if Patient before i then enterTimeout before i else none) (start fun _ => 100) = some s ∧
      s.place 0 = .returned false ∧ s.place 1 = .returned false :=
    ⟨_, rfl, rfl, rfl⟩
  obtain ⟨s, follows, first, second⟩ := order
  have patient : Transition.Run (Started fun _ => 100) Step Patient s :=
    .followMet _ (.start rfl) follows
  refine ⟨s, ?_, (timeouts_agree_iff 2 fun _ => 100).1 s patient, first⟩
  intro i
  refine Fin.cases ⟨false, first⟩ ?_ i
  intro j
  rw [Subsingleton.elim j 0]
  exact ⟨false, second⟩

/-- A thread that gives up, and one that arrives after it: the first returns a timeout, the second
that all have arrived. -/
theorem late_arrival : ¬ ∀ (n : Nat) (timeout : Fin n → BitVec 32) (s : Sys n),
    Transition.Run (Started timeout) Step Transition.always s → Complete s → Agreed s := by
  intro all
  have order : ∃ s : Sys 2, [0, 0, 0, 0, 0, 0, 0, 1, 1, 1].foldlM enterTimeout
      (start fun _ => 50) = some s ∧
      s.place 0 = .returned true ∧ s.place 1 = .returned false :=
    ⟨_, rfl, rfl, rfl⟩
  obtain ⟨s, follows, first, second⟩ := order
  have run : Transition.Run (Started fun _ => 50) Step Transition.always s :=
    .follow _ (.start rfl) follows
  have complete : Complete s := by
    intro i
    refine Fin.cases ⟨true, first⟩ ?_ i
    intro j
    rw [Subsingleton.elim j 0]
    exact ⟨false, second⟩
  rcases all 2 (fun _ => 50) s run complete with zero | other
  · cases zero 0 true first
  · cases other 1 false second

end Runs

end MxGpu.BarrierTimeout
