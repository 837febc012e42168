import Mathlib.Algebra.Order.BigOperators.Group.Finset

/- How many of finitely many threads are at a place of some kind, and how that changes when one
thread moves. Nothing here knows what the threads do. -/
namespace Tally

variable {Thread Place : Type} [Fintype Thread]

def tally (mark : Thread → Place → Bool) (place : Thread → Place) : Nat :=
  ∑ t, (mark t (place t)).toNat

variable {mark mark' : Thread → Place → Bool} {place : Thread → Place}

theorem tally_eq_zero : tally mark place = 0 ↔ ∀ t, mark t (place t) = false := by
  unfold tally
  rw [Finset.sum_eq_zero_iff]
  simp

theorem tally_pos : 0 < tally mark place ↔ ∃ t, mark t (place t) = true := by
  rw [Nat.pos_iff_ne_zero, ne_eq, tally_eq_zero]
  simp

theorem tally_full (h : Fintype.card Thread ≤ tally mark place) (t : Thread) :
    mark t (place t) = true := by
  by_contra hnot
  have hlt : ∑ u, (mark u (place u)).toNat < ∑ _u : Thread, 1 := by
    apply Finset.sum_lt_sum (fun u _ => Bool.toNat_le _)
    refine ⟨t, Finset.mem_univ t, ?_⟩
    simp only [Bool.not_eq_true] at hnot
    rw [hnot]
    decide
  unfold tally at h
  simp at hlt
  omega

theorem tally_all (h : ∀ t, mark t (place t) = true) : tally mark place = Fintype.card Thread := by
  unfold tally
  simp [h]

theorem tally_mono (h : ∀ t, mark t (place t) = true → mark' t (place t) = true) :
    tally mark place ≤ tally mark' place := by
  apply Finset.sum_le_sum
  intro t _
  have := h t
  cases hmark : mark t (place t) with
  | false => exact Nat.zero_le _
  | true => rw [this hmark]

theorem tally_congr (h : ∀ t, mark t (place t) = mark' t (place t)) :
    tally mark place = tally mark' place :=
  Finset.sum_congr rfl fun t _ => congrArg Bool.toNat (h t)

variable [DecidableEq Thread]

theorem tally_update (t : Thread) (dest : Place) :
    tally mark (Function.update place t dest) + (mark t (place t)).toNat =
      tally mark place + (mark t dest).toNat := by
  have hrest : ∑ u ∈ Finset.univ.erase t, (mark u (Function.update place t dest u)).toNat =
      ∑ u ∈ Finset.univ.erase t, (mark u (place u)).toNat := by
    apply Finset.sum_congr rfl
    intro u hu
    rw [Function.update_of_ne (Finset.ne_of_mem_erase hu)]
  unfold tally
  rw [← Finset.add_sum_erase _ _ (Finset.mem_univ t), hrest, Function.update_self,
    ← Finset.add_sum_erase Finset.univ (fun u => (mark u (place u)).toNat) (Finset.mem_univ t)]
  omega

end Tally
