import Mathlib.Data.List.FinRange

/- A fixed number of lists in order of priority, served from the first one that
has something. -/
namespace PriorityLists

open Function

variable {α : Type} {n : Nat}

def ordered (lists : Fin n → List α) : List α := (List.finRange n).flatMap lists

def firstNonEmpty (lists : Fin n → List α) : Option (Fin n) :=
  (List.finRange n).find? fun level => !(lists level).isEmpty

theorem mem_ordered {lists : Fin n → List α} {x : α} :
    x ∈ ordered lists ↔ ∃ level, x ∈ lists level := by
  simp [ordered]

theorem firstNonEmpty_none {lists : Fin n → List α} :
    firstNonEmpty lists = none ↔ ordered lists = [] := by
  simp [firstNonEmpty, ordered]

theorem firstNonEmpty_some {lists : Fin n → List α} {level : Fin n}
    (found : firstNonEmpty lists = some level) :
    lists level ≠ [] ∧ ∀ earlier < level, lists earlier = [] := by
  obtain ⟨nonempty, before, after, split, empty⟩ :=
    List.find?_eq_some_iff_append.mp found
  refine ⟨by simpa using nonempty, fun earlier below => ?_⟩
  have sorted : (before ++ level :: after).Pairwise (· < ·) :=
    split ▸ List.pairwise_lt_finRange n
  have listed : earlier ∈ before ++ level :: after := split ▸ List.mem_finRange earlier
  rcases List.mem_append.mp listed with early | late
  · simpa using empty earlier early
  · have notBefore : level ≤ earlier := by
      rcases List.mem_cons.mp late with same | later
      · exact le_of_eq same.symm
      · exact le_of_lt ((List.pairwise_cons.mp (List.pairwise_append.mp sorted).2.1).1 _ later)
    exact absurd below (not_lt.mpr notBefore)

theorem firstNonEmpty_eq {lists : Fin n → List α} {level : Fin n}
    (nonempty : lists level ≠ []) (empty : ∀ earlier < level, lists earlier = []) :
    firstNonEmpty lists = some level := by
  cases found : firstNonEmpty lists with
  | none =>
    have none := firstNonEmpty_none.mp found
    obtain ⟨x, member⟩ := List.exists_mem_of_ne_nil _ nonempty
    have : x ∈ ordered lists := mem_ordered.mpr ⟨level, member⟩
    simp [none] at this
  | some first =>
    obtain ⟨some, none⟩ := firstNonEmpty_some found
    rcases lt_trichotomy first level with before | same | after
    · exact absurd (empty first before) some
    · rw [same]
    · exact absurd (none level after) nonempty

theorem ordered_cons {lists : Fin n → List α} {level : Fin n} {x : α} {rest : List α}
    (found : firstNonEmpty lists = some level) (head : lists level = x :: rest) :
    ordered lists = x :: ordered (update lists level rest) := by
  obtain ⟨_, before, after, split, empty⟩ := List.find?_eq_some_iff_append.mp found
  have distinct : (before ++ level :: after).Nodup := split ▸ List.nodup_finRange n
  have notBefore : level ∉ before := fun member => by
    have := empty level member
    simp [head] at this
  have notAfter : level ∉ after :=
    (List.nodup_cons.mp (List.nodup_append.mp distinct).2.1).1
  have same : ∀ other, other ≠ level →
      update lists level rest other = lists other :=
    fun other ne => update_of_ne ne _ _
  have skip : ∀ part : Fin n → List α, (∀ other ∈ before, part other = lists other) →
      before.flatMap part = [] := by
    intro part agree
    simp only [List.flatMap_eq_nil_iff]
    intro other member
    rw [agree other member]
    simpa using empty other member
  have tail : after.flatMap (update lists level rest) = after.flatMap lists := by
    refine List.flatMap_congr fun other member => same other ?_
    rintro rfl
    exact notAfter member
  unfold ordered
  rw [split, List.flatMap_append, List.flatMap_append, List.flatMap_cons, List.flatMap_cons,
    skip lists fun _ _ => rfl, skip (update lists level rest) (fun other member =>
      same other fun eq => notBefore (eq ▸ member)), tail, head]
  simp

end PriorityLists
