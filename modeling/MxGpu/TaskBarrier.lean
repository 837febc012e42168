import MxGpu.Tally
import MxGpu.Transition
import Mathlib.Data.Finset.Max

/- The barrier that the adapters of a hive meet at (`amdgv_task_barrier.h`). -/
namespace MxGpu.TaskBarrier

open Tally Function

/-- Where a thread is in `task_barrier_enter` and `task_barrier_exit`. -/
inductive Place where
  | outside
  /-- counted in, polling `thread_count` -/
  | entering
  /-- between the two calls -/
  | inside
  /-- counted as yielding, polling `thread_yield_count` -/
  | yielding
  /-- through with that, not yet counted out -/
  | yielded
  /-- counted out, polling `thread_count` down to zero -/
  | leaving
  /-- through with that, still counted as yielding -/
  | left
  deriving DecidableEq

/-- The counters of the barrier, and the threads with the rounds that each has done. -/
structure Sys (n : Nat) where
  threadCount : Int
  threadYieldCount : Int
  place : Fin n → Place
  rounds : Fin n → Nat

def start (n : Nat) : Sys n := ⟨0, 0, fun _ => .outside, fun _ => 0⟩

section Steps

variable {n : Nat}

def Sys.move (s : Sys n) (i : Fin n) (place : Place) : Sys n :=
  { s with place := update s.place i place }

/-- The next atomic step of a thread of `goal` rounds. A poll that has to go on is no step. -/
def advance (goal : Nat) (s : Sys n) (i : Fin n) : Option (Sys n) :=
  match s.place i with
  | .outside =>
    if s.rounds i < goal then some { s.move i .entering with threadCount := s.threadCount + 1 }
    else none
  | .entering => if s.threadCount < n then none else some (s.move i .inside)
  | .inside =>
    some { s.move i .yielding with threadYieldCount := s.threadYieldCount + 1 }
  | .yielding => if s.threadYieldCount < n then none else some (s.move i .yielded)
  | .yielded => some { s.move i .leaving with threadCount := s.threadCount - 1 }
  | .leaving => if 0 < s.threadCount then none else some (s.move i .left)
  | .left =>
    some { s.move i .outside with
      threadYieldCount := s.threadYieldCount - 1
      rounds := update s.rounds i (s.rounds i + 1) }

def Step (goal : Nat) (s : Sys n) (i : Fin n) (s' : Sys n) : Prop := advance goal s i = some s'

/-- How often a thread has called `task_barrier_enter`. -/
def Sys.enters (s : Sys n) (i : Fin n) : Nat :=
  s.rounds i + if s.place i = .outside then 0 else 1

def Sys.returns (s : Sys n) (i : Fin n) : Nat :=
  s.rounds i + if s.place i = .outside ∨ s.place i = .entering then 0 else 1

/-- Nobody is back from an enter that not all have called. -/
def Together (s : Sys n) : Prop := ∀ i j, s.returns i ≤ s.enters j

def Done (goal : Nat) (s : Sys n) : Prop := ∀ i, s.place i = .outside ∧ s.rounds i = goal

/-- A thread enters only while nobody polls the count of the round before down to zero. -/
def Orderly (s : Sys n) (i : Fin n) : Prop :=
  s.place i = .outside → ∀ j, s.place j ≠ .leaving

instance {n : Nat} (s : Sys n) (i : Fin n) : Decidable (Orderly s i) :=
  inferInstanceAs (Decidable (_ → ∀ _, _))

def Moves (goal : Nat) (s : Sys n) : Prop := ∃ i, Orderly s i ∧ (advance goal s i).isSome

def Started (n : Nat) (s : Sys n) : Prop := s = start n

end Steps

section Order

variable {n goal : Nat} {s s' : Sys n} {i : Fin n}

def Place.rank : Place → Nat
  | .outside => 0
  | .entering => 1
  | .inside => 2
  | .yielding => 3
  | .yielded => 4
  | .leaving => 5
  | .left => 6

def Sys.rank (s : Sys n) (i : Fin n) : Nat := 7 * s.rounds i + (s.place i).rank

/-- The threads that `thread_count` counts. -/
def Place.counted : Place → Bool
  | .entering | .inside | .yielding | .yielded => true
  | _ => false

/-- The threads that `thread_yield_count` counts. -/
def Place.yields : Place → Bool
  | .yielding | .yielded | .leaving | .left => true
  | _ => false

theorem Place.rank_lt (p : Place) : p.rank < 7 := by
  cases p <;> decide

/-- The counters count, and nobody goes through a gate in front of which somebody is missing: the
gates of round `r` are behind ranks `7 * r + 1`, `7 * r + 3` and `7 * r + 5`. -/
structure Inv (goal : Nat) (s : Sys n) : Prop where
  threads : s.threadCount = tally (fun _ => Place.counted) s.place
  yields : s.threadYieldCount = tally (fun _ => Place.yields) s.place
  rounds : ∀ i, s.rounds i < goal ∨ s.rounds i = goal ∧ s.place i = .outside
  entered : ∀ i j r, 7 * r + 2 ≤ s.rank i → 7 * r + 1 ≤ s.rank j
  yielded : ∀ i j r, 7 * r + 4 ≤ s.rank i → 7 * r + 3 ≤ s.rank j
  left : ∀ i j r, 7 * r + 6 ≤ s.rank i → 7 * r + 5 ≤ s.rank j

def Gate (goal : Nat) (s : Sys n) (i : Fin n) : Prop :=
  match s.place i with
  | .outside => s.rounds i < goal
  | .entering => (n : Int) ≤ s.threadCount
  | .yielding => (n : Int) ≤ s.threadYieldCount
  | .leaving => s.threadCount ≤ 0
  | .inside | .yielded | .left => True

def Place.next : Place → Place
  | .outside => .entering
  | .entering => .inside
  | .inside => .yielding
  | .yielding => .yielded
  | .yielded => .leaving
  | .leaving => .left
  | .left => .outside

structure Advanced (s s' : Sys n) (i : Fin n) : Prop where
  place : s'.place = update s.place i (s.place i).next
  rounds : s'.rounds =
    update s.rounds i (s.rounds i + if s.place i = .left then 1 else 0)
  threads : s'.threadCount + (s.place i).counted.toNat =
    s.threadCount + (s.place i).next.counted.toNat
  yields : s'.threadYieldCount + (s.place i).yields.toNat =
    s.threadYieldCount + (s.place i).next.yields.toNat

theorem advance_isSome : (advance goal s i).isSome ↔ Gate goal s i := by
  unfold advance Gate
  cases s.place i <;> simp

theorem advance_spec (h : advance goal s i = some s') : Gate goal s i ∧ Advanced s s' i := by
  refine ⟨advance_isSome.mp (by rw [h]; rfl), ?_⟩
  unfold advance at h
  cases hplace : s.place i
  all_goals
    rw [hplace] at h
    simp only [Option.ite_none_right_eq_some, Option.ite_none_left_eq_some,
      Option.some.injEq] at h
  case outside =>
    obtain ⟨_, rfl⟩ := h
    constructor <;> simp [Sys.move, hplace, Place.next, Place.counted, Place.yields]
  case entering =>
    obtain ⟨_, rfl⟩ := h
    constructor <;> simp [Sys.move, hplace, Place.next, Place.counted, Place.yields]
  case inside =>
    subst h
    constructor <;> simp [Sys.move, hplace, Place.next, Place.counted, Place.yields]
  case yielding =>
    obtain ⟨_, rfl⟩ := h
    constructor <;> simp [Sys.move, hplace, Place.next, Place.counted, Place.yields]
  case yielded =>
    subst h
    constructor <;> simp [Sys.move, hplace, Place.next, Place.counted, Place.yields]
  case leaving =>
    obtain ⟨_, rfl⟩ := h
    constructor <;> simp [Sys.move, hplace, Place.next, Place.counted, Place.yields]
  case left =>
    subst h
    constructor <;> simp [Sys.move, hplace, Place.next, Place.counted, Place.yields]

theorem Advanced.rank (h : Advanced s s' i) (j : Fin n) :
    s'.rank j = s.rank j + if j = i then 1 else 0 := by
  unfold Sys.rank
  rw [h.place, h.rounds]
  by_cases hj : j = i
  · subst hj
    rw [update_self, update_self, if_pos rfl]
    cases s.place j
    all_goals
      simp [Place.next, Place.rank]
      try omega
  · rw [update_of_ne hj, update_of_ne hj, if_neg hj, Nat.add_zero]

theorem Place.counted_rank (p : Place) : p.counted = true ↔ 1 ≤ p.rank ∧ p.rank ≤ 4 := by
  cases p <;> decide

theorem Place.yields_rank (p : Place) : p.yields = true ↔ 3 ≤ p.rank := by
  cases p <;> decide

theorem Place.eq_of_rank {p q : Place} (h : p.rank = q.rank) : p = q := by
  cases p
  all_goals
    cases q <;> simp [Place.rank] at h ⊢

theorem Sys.place_of_rank {r : Nat} {p : Place} (h : s.rank i = 7 * r + p.rank) :
    s.place i = p ∧ s.rounds i = r := by
  have hi := (s.place i).rank_lt
  have hp := p.rank_lt
  unfold Sys.rank at h
  exact ⟨Place.eq_of_rank (by omega), by omega⟩

theorem Inv.opens_entered (h : Inv goal s) (hgate : Gate goal s i) {r : Nat}
    (hrank : s.rank i = 7 * r + 1) (j : Fin n) : 7 * r + 1 ≤ s.rank j := by
  obtain ⟨hplace, _⟩ := (@Sys.place_of_rank _ _ _ _ .entering) hrank
  have hfull : (n : Int) ≤ s.threadCount := by
    simpa only [Gate, hplace] using hgate
  rw [h.threads] at hfull
  have hcounted : (s.place j).counted = true :=
    (@tally_full _ _ _ (fun _ => Place.counted) s.place) (by rw [Fintype.card_fin]; omega) j
  have hj := (Place.counted_rank _).mp hcounted
  have hbefore := h.left i j (r - 1)
  unfold Sys.rank at *
  omega

theorem Inv.opens_yielded (h : Inv goal s) (hgate : Gate goal s i) {r : Nat}
    (hrank : s.rank i = 7 * r + 3) (j : Fin n) : 7 * r + 3 ≤ s.rank j := by
  obtain ⟨hplace, _⟩ := (@Sys.place_of_rank _ _ _ _ .yielding) hrank
  have hfull : (n : Int) ≤ s.threadYieldCount := by
    simpa only [Gate, hplace] using hgate
  rw [h.yields] at hfull
  have hyields : (s.place j).yields = true :=
    (@tally_full _ _ _ (fun _ => Place.yields) s.place) (by rw [Fintype.card_fin]; omega) j
  have hj := (Place.yields_rank _).mp hyields
  have hlt := (s.place j).rank_lt
  have hbefore := h.entered i j r
  unfold Sys.rank at *
  omega

theorem Inv.opens_left (h : Inv goal s) (hgate : Gate goal s i) {r : Nat}
    (hrank : s.rank i = 7 * r + 5) (j : Fin n) : 7 * r + 5 ≤ s.rank j := by
  obtain ⟨hplace, _⟩ := (@Sys.place_of_rank _ _ _ _ .leaving) hrank
  have hnone : s.threadCount ≤ 0 := by
    simpa only [Gate, hplace] using hgate
  rw [h.threads] at hnone
  have hcounted := tally_eq_zero.mp
    (show tally (fun _ => Place.counted) s.place = 0 by omega) j
  have hj := Place.counted_rank (s.place j)
  rw [hcounted] at hj
  have hbefore := h.yielded i j r
  have hlt := (s.place j).rank_lt
  unfold Sys.rank at *
  simp only [Bool.false_eq_true, false_iff, not_and, Nat.not_le] at hj
  omega

theorem Advanced.keeps (h : Advanced s s' i) {bound : Nat → Nat}
    (hold : ∀ a b r, bound r + 1 ≤ s.rank a → bound r ≤ s.rank b)
    (hgate : ∀ r, s.rank i = bound r → ∀ b, bound r ≤ s.rank b) (a b : Fin n) (r : Nat)
    (hrank : bound r + 1 ≤ s'.rank a) : bound r ≤ s'.rank b := by
  have hb := h.rank b
  have ha := h.rank a
  by_cases hbefore : bound r + 1 ≤ s.rank a
  · have := hold a b r hbefore
    omega
  · by_cases hai : a = i
    · subst hai
      rw [if_pos rfl] at ha
      have := hgate r (by omega) b
      omega
    · rw [if_neg hai] at ha
      omega

theorem start_inv : Inv goal (start n) := by
  refine ⟨?_, ?_, ?_, ?_, ?_, ?_⟩
  · have hzero : tally (fun _ => Place.counted) (start n).place = 0 :=
      tally_eq_zero.mpr fun _ => rfl
    rw [hzero]
    rfl
  · have hzero : tally (fun _ => Place.yields) (start n).place = 0 :=
      tally_eq_zero.mpr fun _ => rfl
    rw [hzero]
    rfl
  · intro i
    rcases Nat.eq_zero_or_pos goal with hzero | hpos
    · exact .inr ⟨hzero.symm, rfl⟩
    · exact .inl hpos
  all_goals
    intro i j r h
    simp [start, Sys.rank, Place.rank] at h

theorem Inv.advance (h : Inv goal s) (hstep : advance goal s i = some s') : Inv goal s' := by
  obtain ⟨hgate, hdone⟩ := advance_spec hstep
  refine ⟨?_, ?_, ?_, ?_, ?_, ?_⟩
  · have hmove := (@tally_update _ _ _ (fun _ => Place.counted) s.place _) i
      (s.place i).next
    have hcount := hdone.threads
    rw [h.threads] at hcount
    rw [hdone.place]
    omega
  · have hmove := (@tally_update _ _ _ (fun _ => Place.yields) s.place _) i
      (s.place i).next
    have hcount := hdone.yields
    rw [h.yields] at hcount
    rw [hdone.place]
    omega
  · intro j
    rw [hdone.place, hdone.rounds]
    by_cases hj : j = i
    · subst hj
      have hbound := h.rounds j
      unfold Gate at hgate
      rw [update_self, update_self]
      cases hplace : s.place j
      all_goals
        rw [hplace] at hbound hgate
        simp [Place.next] at *
        omega
    · rw [update_of_ne hj, update_of_ne hj]
      exact h.rounds j
  · exact hdone.keeps h.entered fun r hr => h.opens_entered hgate hr
  · exact hdone.keeps h.yielded fun r hr => h.opens_yielded hgate hr
  · exact hdone.keeps h.left fun r hr => h.opens_left hgate hr

theorem Inv.together (h : Inv goal s) : Together s := by
  intro i j
  have hbefore := h.entered i j (s.returns i - 1)
  unfold Sys.enters Sys.returns Sys.rank at *
  cases hpi : s.place i <;> cases hpj : s.place j
  all_goals
    rw [hpi, hpj] at hbefore
    simp [Place.rank] at *
    omega

end Order

section Progress

variable {n goal : Nat} {s s' : Sys n} {i : Fin n}

/-- In order, nobody is counted into a round while somebody has not left the one before. -/
def Apart (s : Sys n) : Prop := ∀ i j r, 7 * r + 8 ≤ s.rank i → 7 * r + 6 ≤ s.rank j

theorem Apart.advance (h : Apart s) (hinv : Inv goal s) (horderly : Orderly s i)
    (hstep : advance goal s i = some s') : Apart s' := by
  obtain ⟨_, hdone⟩ := advance_spec hstep
  intro a b r hrank
  have hb := hdone.rank b
  have ha := hdone.rank a
  by_cases hbefore : 7 * r + 8 ≤ s.rank a
  · have := h a b r hbefore
    omega
  · by_cases hai : a = i
    · subst hai
      rw [if_pos rfl] at ha
      have hat : s.rank a = 7 * (r + 1) + Place.outside.rank := by
        simp only [Place.rank]
        omega
      have hleft := hinv.left a b r (by omega)
      have hnot := horderly (Sys.place_of_rank hat).1 b
      have hne : s.rank b ≠ 7 * r + 5 := by
        intro heq
        exact hnot ((@Sys.place_of_rank _ _ _ _ .leaving) heq).1
      omega
    · rw [if_neg hai] at ha
      omega

theorem Inv.moves (h : Inv goal s) (hapart : Apart s) : Moves goal s ∨ Done goal s := by
  rcases Nat.eq_zero_or_pos n with hzero | hpos
  · subst hzero
    exact .inr fun i => i.elim0
  have hnonempty : (Finset.univ : Finset (Fin n)).Nonempty := ⟨⟨0, hpos⟩, Finset.mem_univ _⟩
  obtain ⟨i, _, hmin⟩ := Finset.exists_min_image Finset.univ s.rank hnonempty
  have hfirst : ∀ j, s.rank i ≤ s.rank j := fun j => hmin j (Finset.mem_univ j)
  have hmoves : s.place i ≠ .outside → Gate goal s i → Moves goal s ∨ Done goal s := by
    intro hplace hgate
    exact .inl ⟨i, fun hout => absurd hout hplace, advance_isSome.mpr hgate⟩
  cases hplace : s.place i with
  | outside =>
    have hrank : s.rank i = 7 * s.rounds i := by
      simp [Sys.rank, hplace, Place.rank]
    rcases h.rounds i with hless | ⟨hall, _⟩
    · refine .inl ⟨i, ?_, advance_isSome.mpr (by simpa only [Gate, hplace] using hless)⟩
      intro _ j hleaving
      have hj : s.rank j = 7 * s.rounds j + 5 := by
        simp [Sys.rank, hleaving, Place.rank]
      have hbehind := h.entered j i (s.rounds j) (by omega)
      have := hfirst j
      omega
    · refine .inr fun j => ?_
      have hj := hfirst j
      have hlt := (s.place j).rank_lt
      rcases h.rounds j with hless | ⟨hdone, hout⟩
      · unfold Sys.rank at *
        omega
      · exact ⟨hout, hdone⟩
  | entering =>
    have hrank : s.rank i = 7 * s.rounds i + 1 := by
      simp [Sys.rank, hplace, Place.rank]
    apply hmoves (by rw [hplace]; nofun)
    have hall : tally (fun _ => Place.counted) s.place = n := by
      rw [tally_all, Fintype.card_fin]
      intro j
      have hj := hfirst j
      have hlast := h.yielded j i (s.rounds i)
      have hlt := (s.place j).rank_lt
      apply (Place.counted_rank _).mpr
      unfold Sys.rank at *
      omega
    simp only [Gate, hplace, h.threads, hall, Int.le_refl]
  | inside => exact hmoves (by rw [hplace]; nofun) (by simp only [Gate, hplace])
  | yielding =>
    have hrank : s.rank i = 7 * s.rounds i + 3 := by
      simp [Sys.rank, hplace, Place.rank]
    apply hmoves (by rw [hplace]; nofun)
    have hall : tally (fun _ => Place.yields) s.place = n := by
      rw [tally_all, Fintype.card_fin]
      intro j
      have hj := hfirst j
      have hlast := h.left j i (s.rounds i)
      have hlt := (s.place j).rank_lt
      apply (Place.yields_rank _).mpr
      unfold Sys.rank at *
      omega
    simp only [Gate, hplace, h.yields, hall, Int.le_refl]
  | yielded => exact hmoves (by rw [hplace]; nofun) (by simp only [Gate, hplace])
  | leaving =>
    -- here a thread that has entered again would keep the count up
    have hrank : s.rank i = 7 * s.rounds i + 5 := by
      simp [Sys.rank, hplace, Place.rank]
    apply hmoves (by rw [hplace]; nofun)
    have hnone : tally (fun _ => Place.counted) s.place = 0 := by
      apply tally_eq_zero.mpr
      intro j
      have hj := hfirst j
      have hagain := hapart j i (s.rounds i)
      have hlt := (s.place j).rank_lt
      have hcounted := Place.counted_rank (s.place j)
      cases hc : (s.place j).counted with
      | false => rfl
      | true =>
        have := hcounted.mp hc
        unfold Sys.rank at *
        omega
    simp [Gate, hplace, h.threads, hnone]
  | left => exact hmoves (by rw [hplace]; nofun) (by simp only [Gate, hplace])

end Progress

section Runs

variable {n : Nat}

/-- In every run nobody is back from an enter that not all have called; and in every run in which
each thread enters only when nobody polls the round before to its end, some thread can go on until
all are done. -/
theorem barrier_rounds (n goal : Nat) :
    (∀ s : Sys n, Transition.Run (Started n) (Step goal) Transition.always s → Together s) ∧
      ∀ s : Sys n, Transition.Run (Started n) (Step goal) Orderly s →
        Together s ∧ (Moves goal s ∨ Done goal s) := by
  have hinv : ∀ s : Sys n, Transition.Run (Started n) (Step goal) Transition.always s →
      Inv goal s := by
    intro s hrun
    apply hrun.invariant (Inv goal)
    · rintro _ rfl
      exact start_inv
    · intro before i after h _ hstep
      exact h.advance hstep
  refine ⟨fun s hrun => (hinv s hrun).together, fun s hrun => ?_⟩
  have hboth : Inv goal s ∧ Apart s := by
    apply hrun.invariant fun s => Inv goal s ∧ Apart s
    · rintro _ rfl
      refine ⟨start_inv, fun i j r h => ?_⟩
      simp [start, Sys.rank, Place.rank] at h
    · intro before i after h horderly hstep
      exact ⟨h.1.advance hstep, h.2.advance h.1 horderly hstep⟩
  exact ⟨hboth.1.together, hboth.1.moves hboth.2⟩

/-- Three threads through a round, of which the first enters the second round while the others are
still in the exit of the first, up to its return from that enter. -/
theorem barrier_rounds_three : ∃ s : Sys 3, Together s ∧ (Moves 2 s ∨ Done 2 s) ∧
    s.returns 0 = 2 ∧ s.returns 1 = 1 ∧ s.enters 1 = 2 := by
  let order : List (Fin 3) := [0, 1, 2, 2, 1, 0, 0, 1, 2, 1, 0, 2, 0, 1, 2, 0, 1, 2,
    0, 0, 1, 2, 2, 1, 0]
  have run : ∃ s, order.foldlM (fun s i => if Orderly s i then advance 2 s i else none)
      (start 3) = some s ∧ s.returns 0 = 2 ∧ s.returns 1 = 1 ∧ s.enters 1 = 2 :=
    ⟨_, rfl, by decide, by decide, by decide⟩
  obtain ⟨s, follows, returned, slower, entered⟩ := run
  have both := (barrier_rounds 3 2).2 s (.followMet order (.start rfl) follows)
  exact ⟨s, both.1, both.2, returned, slower, entered⟩
/-- A thread that is fast enough to enter the second round before the other has seen the count go
down to zero waits for it, and it for the thread. -/
theorem barrier_locks : ¬ ∀ (n goal : Nat) (s : Sys n), 1 ≤ n →
    Transition.Run (Started n) (Step goal) Transition.always s →
    Together s ∧ ((∃ i, (advance goal s i).isSome) ∨ Done goal s) := by
  intro hall
  have run : ∃ s : Sys 2, [0, 1, 0, 1, 0, 1, 0, 1, 0, 1, 0, 0, 0].foldlM (advance 2) (start 2) =
      some s ∧ advance 2 s 0 = none ∧ advance 2 s 1 = none ∧ s.rounds 1 = 0 :=
    ⟨_, rfl, rfl, rfl, rfl⟩
  obtain ⟨s, horder, hfast, hslow, hrounds⟩ := run
  rcases (hall 2 2 s (by decide) (.follow _ (.start rfl) horder)).2 with ⟨i, hi⟩ | hdone
  · match i with
    | 0 => simp [hfast] at hi
    | 1 => simp [hslow] at hi
  · have := (hdone 1).2
    omega

end Runs

end MxGpu.TaskBarrier
