import Mathlib.Algebra.Group.Nat.Defs
import Mathlib.Data.List.Basic
import Mathlib.Data.List.Pairwise

/- Points of time of which no more than a given number may fall into any window of a
given length. Nothing here knows what happens at them. -/
namespace SlidingWindow

variable {n T : Nat} {times old recent : List Nat} {now t : Nat}

/-- A point and the `n`-th one after it are at least `T` apart. -/
def Spaced (n T : Nat) (times : List Nat) : Prop :=
  ∀ i, (h : i + n < times.length) → times[i] + T ≤ times[i + n]

/-- The point is in the window of length `T` from `w` on. -/
def inWindow (w T t : Nat) : Bool := w ≤ t && t < w + T

/-- A point is less than `T` before `now`. -/
def within (now T t : Nat) : Bool := t ≤ now && now < t + T

theorem spaced_nil : Spaced n T [] := fun _ h => nomatch h

theorem Spaced.tail (h : Spaced n T (t :: times)) : Spaced n T times := by
  intro i hi
  have hnext := h (i + 1) (by simp only [List.length_cons]; omega)
  simpa [Nat.add_right_comm i 1 n] using hnext

theorem Spaced.dropLast (h : Spaced n T times) : Spaced n T times.dropLast := by
  intro i hi
  rw [List.length_dropLast] at hi
  rw [List.getElem_dropLast, List.getElem_dropLast]
  exact h i (by omega)

theorem Spaced.append_one (h : Spaced n T times) (hn : 0 < n)
    (hfar : ∀ i, (hi : i + n = times.length) → times[i] + T ≤ now) :
    Spaced n T (times ++ [now]) := by
  intro i hi
  rw [List.length_append, List.length_singleton] at hi
  rw [List.getElem_append_left (show i < times.length by omega)]
  rcases Nat.lt_or_ge (i + n) times.length with hlt | hge
  · rw [List.getElem_append_left hlt]
    exact h i hlt
  · have hlast : i + n = times.length := by omega
    rw [List.getElem_append_right hge]
    simpa [hlast] using hfar i hlast

theorem Spaced.accept (h : Spaced n T (old ++ recent)) (hold : ∀ t ∈ old, t + T ≤ now)
    (hroom : recent.length < n) : Spaced n T (old ++ (recent ++ [now])) := by
  rw [← List.append_assoc]
  apply h.append_one (by omega)
  intro i hi
  rw [List.length_append] at hi
  have hlow : i < old.length := by omega
  rw [List.getElem_append_left hlow]
  exact hold _ (List.getElem_mem hlow)

theorem Spaced.count_le (h : Spaced n T times) (hn : 0 < n)
    (hsorted : times.Pairwise (· ≤ ·)) (w : Nat) : times.countP (inWindow w T) ≤ n := by
  induction times with
  | nil => exact Nat.zero_le n
  | cons t rest ih =>
    obtain ⟨hfirst, hrest⟩ := List.pairwise_cons.mp hsorted
    by_cases hin : inWindow w T t = true
    · rw [List.countP_cons_of_pos hin]
      rw [← List.take_append_drop (n - 1) rest, List.countP_append]
      -- the points from the `n`-th after `t` on are out of the window
      have hout : (rest.drop (n - 1)).countP (inWindow w T) = 0 := by
        apply List.countP_eq_zero.mpr
        intro late hlate
        obtain ⟨i, hi, rfl⟩ := List.getElem_of_mem hlate
        rw [List.length_drop] at hi
        have hfar := h 0 (by simp only [List.length_cons]; omega)
        have hn' : 0 + n = (n - 1) + 1 := by omega
        simp only [hn', List.getElem_cons_zero, List.getElem_cons_succ] at hfar
        have hle : rest[n - 1] ≤ rest[n - 1 + i] := by
          rcases Nat.eq_zero_or_pos i with rfl | hpos
          · exact Nat.le_refl _
          · exact List.pairwise_iff_getElem.mp hrest _ _ (by omega) (by omega) (by omega)
        rw [List.getElem_drop]
        simp only [inWindow, Bool.and_eq_true, decide_eq_true_eq] at hin ⊢
        omega
      have hfew : (rest.take (n - 1)).countP (inWindow w T) ≤ n - 1 :=
        Nat.le_trans List.countP_le_length (List.length_take_le _ _)
      omega
    · rw [List.countP_cons_of_neg hin]
      exact ih h.tail hrest

end SlidingWindow
