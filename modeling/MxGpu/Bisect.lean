import Mathlib.Logic.Function.Basic

/-!
Searches by halves. `up` tells of a place whether the search goes on above it; it holds up to some
place and not from there on. Such a search is kept with the last place it saw on either side.
-/
namespace Bisect

universe u

/-- Where a search stands: the places in question are `left` to `right`. -/
structure Search where
  left : Int
  right : Int
  below : Int
  above : Int

def Search.turn (up : Int → Bool) (s : Search) : Search :=
  let mid := (s.left + s.right) / 2
  if up mid then { s with left := mid + 1, below := mid }
  else { s with right := mid - 1, above := mid }

def Search.turns (up : Int → Bool) : Nat → Search → Search
  | 0, s => s
  | n + 1, s => if s.left ≤ s.right then Search.turns up n (s.turn up) else s

/-- The search over the places `left` to `right`; `missing` stands for a side that it has not
seen. -/
def search (up : Int → Bool) (left right missing : Int) : Search :=
  Search.turns up (right + 1 - left).toNat { left, right, below := missing, above := missing }

/-- `up` holds up to some place of `first` to `last`, and not from there on. -/
def Parted (up : Int → Bool) (first last : Int) : Prop :=
  ∀ i j, first ≤ i → i ≤ j → j ≤ last → up j = true → up i = true

/-- What a search over `first` to `last` knows at all times. -/
structure Kept (up : Int → Bool) (first last missing : Int) (s : Search) : Prop where
  left : first ≤ s.left
  right : s.right ≤ last
  gap : s.left ≤ s.right + 1
  ups : ∀ i, first ≤ i → i < s.left → up i = true
  downs : ∀ i, s.right < i → i ≤ last → up i = false
  below : s.below = if first < s.left then s.left - 1 else missing
  above : s.above = if s.right < last then s.right + 1 else missing

variable {up : Int → Bool} {first last missing : Int} {s : Search}

theorem Kept.turn (parted : Parted up first last) (kept : Kept up first last missing s)
    (more : s.left ≤ s.right) : Kept up first last missing (s.turn up) := by
  have low := kept.left
  have high := kept.right
  have mid : s.left ≤ (s.left + s.right) / 2 ∧ (s.left + s.right) / 2 ≤ s.right := by omega
  unfold Search.turn
  dsimp only
  by_cases goes : up ((s.left + s.right) / 2) = true
  · rw [if_pos goes]
    constructor
    · show first ≤ (s.left + s.right) / 2 + 1
      omega
    · exact kept.right
    · show (s.left + s.right) / 2 + 1 ≤ s.right + 1
      omega
    · intro i from_first before
      apply parted i ((s.left + s.right) / 2) from_first _ (by omega) goes
      exact Int.lt_add_one_iff.mp before
    · exact kept.downs
    · show (s.left + s.right) / 2 = if first < (s.left + s.right) / 2 + 1 then _ else missing
      rw [if_pos (by omega)]
      show _ = (s.left + s.right) / 2 + 1 - 1
      omega
    · exact kept.above
  · rw [if_neg goes]
    constructor
    · exact kept.left
    · show (s.left + s.right) / 2 - 1 ≤ last
      omega
    · show s.left ≤ (s.left + s.right) / 2 - 1 + 1
      omega
    · exact kept.ups
    · intro i after to_last
      by_cases up_i : up i = true
      · have down := parted ((s.left + s.right) / 2) i (by omega)
          (by have := Int.sub_one_lt_iff.mp after; omega) to_last up_i
        exact absurd down goes
      · exact Bool.eq_false_iff.mpr up_i
    · exact kept.below
    · show (s.left + s.right) / 2 = if (s.left + s.right) / 2 - 1 < last then _ else missing
      rw [if_pos (by omega)]
      show _ = (s.left + s.right) / 2 - 1 + 1
      omega

theorem Kept.turns (parted : Parted up first last) (n : Nat) :
    ∀ s, Kept up first last missing s → s.right + 1 - s.left ≤ n →
      Kept up first last missing (s.turns up n) ∧
        (s.turns up n).left = (s.turns up n).right + 1 := by
  induction n with
  | zero =>
    intro s kept few
    have gap := kept.gap
    exact ⟨kept, by show s.left = s.right + 1; omega⟩
  | succ n ih =>
    intro s kept few
    unfold Search.turns
    by_cases more : s.left ≤ s.right
    · rw [if_pos more]
      apply ih (s.turn up) (kept.turn parted more)
      unfold Search.turn
      dsimp only
      split
      · dsimp only
        omega
      · dsimp only
        omega
    · rw [if_neg more]
      have gap := kept.gap
      exact ⟨kept, by omega⟩

theorem search_kept (parted : Parted up first last) (bounds : first ≤ last + 1) :
    Kept up first last missing (search up first last missing) ∧
      (search up first last missing).left = (search up first last missing).right + 1 := by
  apply Kept.turns parted
  · constructor
    · exact Int.le_refl first
    · exact Int.le_refl last
    · exact bounds
    · intro i low high
      exact absurd low (Int.not_le.mpr high)
    · intro i low high
      exact absurd high (Int.not_le.mpr low)
    · exact (if_neg (Int.lt_irrefl first)).symm
    · exact (if_neg (Int.lt_irrefl last)).symm
  · show last + 1 - first ≤ ((last + 1 - first).toNat : Int)
    omega

section List
variable {α : Type u}

def onPlaces (p : α → Bool) (l : List α) (default : α) (i : Int) : Bool :=
  p (l.getD i.toNat default)

variable {p : α → Bool} {l : List α} {default : α} {k : Nat}

theorem onPlaces_getElem {i : Nat} (inside : i < l.length) :
    onPlaces p l default i = p l[i] := by
  unfold onPlaces
  rw [Int.toNat_natCast, List.getD_eq_getElem?_getD, List.getElem?_eq_getElem inside,
    Option.getD_some]

theorem parted_onPlaces (parted : l.Pairwise fun a b => p b = true → p a = true) (first : Nat) :
    Parted (onPlaces p l default) first ((l.length : Int) - 1) := by
  intro i j low order high holds
  obtain ⟨i, rfl⟩ := Int.eq_ofNat_of_zero_le (a := i) (by omega)
  obtain ⟨j, rfl⟩ := Int.eq_ofNat_of_zero_le (a := j) (by omega)
  have i_in : i < l.length := by omega
  have j_in : j < l.length := by omega
  rw [onPlaces_getElem j_in] at holds
  rw [onPlaces_getElem i_in]
  by_cases same : i = j
  · subst same
    exact holds
  · exact List.pairwise_iff_getElem.mp parted i j i_in j_in (by omega) holds

/-- The search of a parted list from place `k` on: it stops at a place of the list, the entries
from `k` up to that place pass, and those from there on fail. -/
theorem search_list (parted : l.Pairwise fun a b => p b = true → p a = true)
    (inside : k ≤ l.length) :
    ∃ stop : Nat, k ≤ stop ∧ stop ≤ l.length ∧
      (search (onPlaces p l default) k ((l.length : Int) - 1) missing).left = stop ∧
      (search (onPlaces p l default) k ((l.length : Int) - 1) missing).above =
        (if stop < l.length then (stop : Int) else missing) ∧
      (search (onPlaces p l default) k ((l.length : Int) - 1) missing).below =
        (if k < stop then (stop : Int) - 1 else missing) ∧
      (∀ x ∈ (l.drop k).take (stop - k), p x = true) ∧ ∀ x ∈ l.drop stop, p x = false := by
  obtain ⟨kept, met⟩ := @search_kept _ _ _ missing
    (@parted_onPlaces _ _ _ default parted k)
    (show (k : Int) ≤ (l.length : Int) - 1 + 1 by omega)
  revert kept met
  generalize search (onPlaces p l default) k ((l.length : Int) - 1) missing = s
  intro kept met
  have low := kept.left
  have high := kept.right
  obtain ⟨stop, place⟩ := Int.eq_ofNat_of_zero_le (a := s.left) (by omega)
  refine ⟨stop, by omega, by omega, place, ?_, ?_, ?_, ?_⟩
  · rw [kept.above]
    by_cases more : stop < l.length
    · rw [if_pos more, if_pos (by omega)]
      omega
    · rw [if_neg more, if_neg (by omega)]
  · rw [kept.below]
    by_cases more : k < stop
    · rw [if_pos more, if_pos (by omega)]
      omega
    · rw [if_neg more, if_neg (by omega)]
  · intro x member
    obtain ⟨i, before, rfl⟩ := List.getElem_of_mem member
    rw [List.length_take, List.length_drop] at before
    have inside : k + i < l.length := by omega
    have passes := kept.ups (k + i : Nat) (by omega) (by omega)
    rw [onPlaces_getElem inside] at passes
    rw [List.getElem_take, List.getElem_drop]
    exact passes
  · intro x member
    obtain ⟨i, before, rfl⟩ := List.getElem_of_mem member
    rw [List.length_drop] at before
    have inside : stop + i < l.length := by omega
    have fails := kept.downs (stop + i : Nat) (by omega) (by omega)
    rw [onPlaces_getElem inside] at fails
    rw [List.getElem_drop]
    exact fails

end List

end Bisect
