import Mathlib.Data.Finset.Basic
import Mathlib.Tactic.Abel

/- A stopwatch with several independent reasons to be paused, and its
representation by a start register that runs and a used register that is zero
while it runs. -/
namespace Stopwatch

variable {T R : Type} [AddCommGroup T] [DecidableEq R]

/-- The time measured up to `since`, and why it does not grow now. -/
structure Watch (T R : Type) where
  reasons : Finset R
  elapsed : T
  since : T

def Watch.start (now : T) : Watch T R := ⟨∅, 0, now⟩

/-- What the watch has measured at `now`: time passes only without a reason to pause. -/
def Watch.reading (w : Watch T R) (now : T) : T :=
  if w.reasons = ∅ then w.elapsed + (now - w.since) else w.elapsed

def Watch.pause (w : Watch T R) (reason : R) (now : T) : Watch T R :=
  ⟨insert reason w.reasons, w.reading now, now⟩

def Watch.resume (w : Watch T R) (reason : R) (now : T) : Watch T R :=
  ⟨w.reasons.erase reason, w.reading now, now⟩

/-- The registers of a running watch: nothing used, and the start that explains
every later reading. -/
structure Running (w : Watch T R) (start used : T) : Prop where
  free : w.reasons = ∅
  unused : used = 0
  measures : ∀ now, w.reading now = now - start

/-- The registers of a watch paused for one reason: the time used, which is not zero. -/
structure PausedBy (w : Watch T R) (reason : R) (used : T) : Prop where
  only : w.reasons = {reason}
  saved : used = w.elapsed
  nonzero : used ≠ 0

theorem Running.registers {w : Watch T R} {start used start' used' : T}
    (running : Running w start used) (sameStart : start' = start) (sameUsed : used' = used) :
    Running w start' used' := by
  rw [sameStart, sameUsed]
  exact running

omit [DecidableEq R] in
theorem PausedBy.register {w : Watch T R} {reason : R} {used used' : T}
    (paused : PausedBy w reason used) (same : used' = used) : PausedBy w reason used' := by
  rw [same]
  exact paused

theorem running_start (now : T) : Running (Watch.start now : Watch T R) now 0 where
  free := rfl
  unused := rfl
  measures later := by simp [Watch.reading, Watch.start]

theorem Running.pause {w : Watch T R} {start used : T} (running : Running w start used)
    (reason : R) {now : T} (passed : now ≠ start) :
    PausedBy (w.pause reason now) reason (now - start) where
  only := by simp [Watch.pause, running.free]
  saved := (running.measures now).symm
  nonzero := sub_ne_zero.mpr passed

theorem PausedBy.resume {w : Watch T R} {reason : R} {used : T} (paused : PausedBy w reason used)
    (now : T) : Running (w.resume reason now) (now - used) 0 where
  free := by simp [Watch.resume, paused.only]
  unused := rfl
  measures later := by
    have stopped : w.reading now = w.elapsed := by
      simp [Watch.reading, paused.only]
    have running : (w.resume reason now).reasons = ∅ := by simp [Watch.resume, paused.only]
    unfold Watch.reading
    rw [if_pos running]
    dsimp only [Watch.resume]
    rw [stopped, paused.saved]
    abel

theorem Running.resume {w : Watch T R} {start used : T} (running : Running w start used)
    (reason : R) (now : T) : Running (w.resume reason now) start used where
  free := by simp [Watch.resume, running.free]
  unused := running.unused
  measures later := by
    have still : (w.resume reason now).reasons = ∅ := by simp [Watch.resume, running.free]
    unfold Watch.reading
    rw [if_pos still]
    dsimp only [Watch.resume]
    rw [running.measures now]
    abel

end Stopwatch
