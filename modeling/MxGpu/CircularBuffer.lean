import Mathlib.Data.List.Basic
import Mathlib.Data.Nat.ModEq

/- A queue in `n` slots, addressed by the slot of its oldest element and its length.
Nothing here knows what is queued. -/
namespace CircularBuffer

variable {α : Type} {n origin : Nat} {buf : Nat → α} {x : α} {xs : List α}

/-- The slots from `origin` on, taken around the end, hold the list. -/
structure Holds (n origin : Nat) (buf : Nat → α) (xs : List α) : Prop where
  fits : xs.length ≤ n
  slot : ∀ i, (h : i < xs.length) → buf ((origin + i) % n) = xs[i]

theorem holds_nil : Holds n origin buf [] := ⟨Nat.zero_le n, fun _ h => nomatch h⟩

theorem Holds.front (h : Holds n origin buf (x :: xs)) (horigin : origin < n) :
    buf origin = x := by
  have hslot := h.slot 0 (by simp)
  rwa [Nat.add_zero, Nat.mod_eq_of_lt horigin] at hslot

theorem slot_ne {i j : Nat} (hij : i < j) (hj : j < i + n) :
    (origin + i) % n ≠ (origin + j) % n := by
  intro heq
  have hdvd :=
    (Nat.modEq_iff_dvd' (by omega)).mp (show Nat.ModEq n (origin + i) (origin + j) from heq)
  have hdiff : origin + j - (origin + i) = j - i := by omega
  rw [hdiff] at hdvd
  have := Nat.le_of_dvd (by omega) hdvd
  omega

theorem Holds.push (h : Holds n origin buf xs) (hroom : xs.length < n) :
    Holds n origin (Function.update buf ((origin + xs.length) % n) x) (xs ++ [x]) := by
  constructor
  · rw [List.length_append, List.length_singleton]
    omega
  · intro i hi
    rw [List.length_append, List.length_singleton] at hi
    rcases Nat.lt_or_ge i xs.length with hlt | hge
    · rw [Function.update_of_ne (slot_ne hlt (by omega)), List.getElem_append_left hlt]
      exact h.slot i hlt
    · have hlast : i = xs.length := by omega
      subst hlast
      simp

theorem Holds.scratch (h : Holds n origin buf xs) (hroom : xs.length < n) :
    Holds n origin (Function.update buf ((origin + xs.length) % n) x) xs := by
  refine ⟨h.fits, fun i hi => ?_⟩
  rw [Function.update_of_ne (slot_ne hi (by omega))]
  exact h.slot i hi

theorem Holds.popFront (h : Holds n origin buf (x :: xs)) :
    Holds n ((origin + 1) % n) buf xs := by
  constructor
  · have := h.fits
    rw [List.length_cons] at this
    omega
  · intro i hi
    have hslot := h.slot (i + 1) (by rw [List.length_cons]; omega)
    rw [List.getElem_cons_succ] at hslot
    rwa [Nat.mod_add_mod, Nat.add_assoc, Nat.add_comm 1 i]

theorem Holds.popBack (h : Holds n origin buf xs) : Holds n origin buf xs.dropLast := by
  constructor
  · have := h.fits
    rw [List.length_dropLast]
    omega
  · intro i hi
    rw [List.length_dropLast] at hi
    rw [List.getElem_dropLast]
    exact h.slot i (by omega)

theorem Holds.resize {m : Nat} (h : Holds n origin buf xs) (hold : origin + xs.length ≤ n)
    (hnew : origin + xs.length ≤ m) : Holds m origin buf xs := by
  constructor
  · omega
  · intro i hi
    have hslot := h.slot i hi
    rw [Nat.mod_eq_of_lt (by omega)] at hslot ⊢
    exact hslot

end CircularBuffer
