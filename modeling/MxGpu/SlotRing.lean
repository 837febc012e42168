import Mathlib.Algebra.BigOperators.Group.List.Basic
import Mathlib.Data.List.Rotate
import Mathlib.Data.Nat.ModEq

/- The slots of a ring from a first one on, as a list. Nothing here knows what is in a slot. -/
namespace SlotRing

open List

variable {α : Type} {slot slot' : Nat → α} {size first count : Nat} {xs : List α}

/-- The last `n` of a list. -/
def lastN (n : Nat) (xs : List α) : List α := xs.drop (xs.length - n)

/-- What `count` slots hold from slot `first` on, going round at `size`. -/
def window (slot : Nat → α) (size first count : Nat) : List α :=
  (range count).map fun i => slot ((first + i) % size)

@[simp] theorem window_length : (window slot size first count).length = count := by
  simp [window]

theorem window_getElem {i : Nat} (h : i < (window slot size first count).length) :
    (window slot size first count)[i] = slot ((first + i) % size) := by
  simp [window]

theorem lastN_of_le {n : Nat} (h : xs.length ≤ n) : lastN n xs = xs := by
  simp [lastN, h]

theorem lastN_map {β : Type} (f : α → β) (n : Nat) (xs : List α) :
    (lastN n xs).map f = lastN n (xs.map f) := by
  unfold lastN
  rw [map_drop, length_map]

theorem lastN_append (n : Nat) (xs ys : List α) :
    lastN n (lastN n xs ++ ys) = lastN n (xs ++ ys) := by
  unfold lastN
  rw [length_append, length_drop, length_append, drop_append, drop_append,
    drop_drop, length_drop]
  congr 2 <;> omega

theorem slot_inj {i j : Nat} (hi : i ≤ j) (hj : j < i + size) (h : i % size = j % size) :
    i = j := by
  have hdvd : size ∣ j - i := (Nat.modEq_iff_dvd' hi).mp h
  have hzero : j - i = 0 := Nat.eq_zero_of_dvd_of_lt hdvd (by omega)
  omega

theorem window_append
    (hput : ∀ j (h : j < xs.length), slot' ((first + count + j) % size) = xs[j])
    (hkept : ∀ i < count, (∀ j < xs.length, (first + i) % size ≠ (first + count + j) % size) →
      slot' ((first + i) % size) = slot ((first + i) % size)) :
    window slot' size ((first + (count + xs.length - size)) % size)
      (min size (count + xs.length)) = lastN size (window slot size first count ++ xs) := by
  apply ext_getElem
  · rw [window_length, lastN, length_drop, length_append, window_length]
    omega
  · intro i hi _
    rw [window_length] at hi
    simp only [window_getElem, lastN, getElem_drop, length_append, window_length,
      Nat.mod_add_mod]
    have hfirst : first + (count + xs.length - size) + i =
        first + (count + xs.length - size + i) := Nat.add_assoc ..
    rw [hfirst]
    by_cases hold : count + xs.length - size + i < count
    · rw [getElem_append_left (by rwa [window_length]), window_getElem]
      apply hkept _ hold
      intro j hj hsame
      have := slot_inj (by omega) (by omega) hsame
      omega
    · rw [getElem_append_right (by rw [window_length]; omega)]
      simp only [window_length]
      rw [← hput (count + xs.length - size + i - count) (by omega)]
      congr 2
      omega

theorem window_room (hroom : count + xs.length ≤ size)
    (hput : ∀ j (h : j < xs.length), slot' ((first + count + j) % size) = xs[j])
    (hkept : ∀ i < count, (∀ j < xs.length, (first + i) % size ≠ (first + count + j) % size) →
      slot' ((first + i) % size) = slot ((first + i) % size)) :
    window slot' size (first % size) (count + xs.length) =
      window slot size first count ++ xs := by
  have h := window_append hput hkept
  rwa [Nat.sub_eq_zero_of_le hroom, Nat.add_zero, Nat.min_eq_right hroom,
    lastN_of_le (by rw [length_append, window_length]; exact hroom)] at h

theorem window_take {n : Nat} (h : n ≤ count) :
    (window slot size first count).take n = window slot size first n := by
  unfold window
  rw [← map_take, take_range, Nat.min_eq_left h]

theorem window_drop (n : Nat) :
    (window slot size first count).drop n = window slot size (first + n) (count - n) := by
  apply ext_getElem
  · simp
  · intro i hi _
    rw [getElem_drop, window_getElem, window_getElem, Nat.add_assoc]

theorem window_congr {first' : Nat} (h : first % size = first' % size) :
    window slot size first count = window slot size first' count := by
  apply map_congr_left
  intro i _
  rw [Nat.add_mod, h, ← Nat.add_mod]

theorem window_mod : window slot size (first % size) count = window slot size first count :=
  window_congr (Nat.mod_mod _ _)

theorem window_split (hfirst : first < size) (hcount : count ≤ size) :
    window slot size first count =
      (range (min count (size - first))).map (fun i => slot (first + i)) ++
        (range (count - (size - first))).map slot := by
  apply ext_getElem
  · simp only [window_length, length_append, length_map, length_range]
    omega
  · intro i hi _
    rw [window_length] at hi
    rw [window_getElem]
    by_cases hin : i < size - first
    · rw [getElem_append_left (by simp only [length_map, length_range]; omega)]
      simp only [getElem_map, getElem_range]
      rw [Nat.mod_eq_of_lt (by omega)]
    · rw [getElem_append_right (by simp only [length_map, length_range]; omega)]
      simp only [getElem_map, getElem_range, length_map, length_range]
      rw [Nat.mod_eq_sub_mod (by omega), Nat.mod_eq_of_lt (by omega)]
      congr 1
      omega

theorem window_full :
    (window slot size first size).Perm (window slot size 0 size) := by
  have hrotate : window slot size first size = (window slot size 0 size).rotate first := by
    apply ext_getElem
    · simp
    · intro i hi _
      rw [window_length] at hi
      rw [getElem_rotate]
      simp only [window_getElem, window_length]
      rw [Nat.zero_add, Nat.mod_mod, Nat.add_comm i first]
  rw [hrotate]
  apply rotate_perm

end SlotRing
