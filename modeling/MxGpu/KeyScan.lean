import Mathlib.Data.List.Basic

/- A finite map from numbers as the list of its entries, in the order they were put in: removal by
key, and a scan over the keys from 0 up. -/
namespace KeyScan

variable {α : Type} (key : α → Nat)

theorem find_cons_erase_perm {entries : List α} {k : Nat} {entry : α}
    (hfind : entries.find? (fun x => key x = k) = some entry) :
    (entry :: entries.eraseP (fun x => key x = k)).Perm entries := by
  obtain ⟨hkey, before, after, hentries, hbefore⟩ := List.find?_eq_some_iff_append.mp hfind
  have herase : entries.eraseP (fun x => key x = k) = before ++ after := by
    rw [hentries, List.eraseP_append_right _ (fun b hb => by simpa using hbefore b hb),
      List.eraseP_cons_of_pos (by exact hkey)]
  rw [herase, hentries]
  exact List.perm_middle.symm

theorem find_mem {entries : List α} {k : Nat} {entry : α}
    (hfind : entries.find? (fun x => key x = k) = some entry) :
    entry ∈ entries ∧ key entry = k :=
  ⟨List.mem_of_find?_eq_some hfind, by simpa using List.find?_some hfind⟩

theorem find_congr {entries : List α} {p q : α → Bool} (hsame : ∀ x ∈ entries, p x = q x) :
    entries.find? p = entries.find? q := by
  induction entries with
  | nil => rfl
  | cons entry rest ih =>
    rw [List.find?_cons, List.find?_cons, hsame entry List.mem_cons_self,
      ih fun x hx => hsame x (List.mem_cons_of_mem entry hx)]

theorem erase_absent {entries : List α} (distinct : entries.Pairwise fun x y => key x ≠ key y)
    (k : Nat) : ∀ x ∈ entries.eraseP (fun x => key x = k), key x ≠ k := by
  induction entries with
  | nil => intro x hx; exact absurd hx List.not_mem_nil
  | cons entry rest ih =>
    obtain ⟨hentry, hrest⟩ := List.pairwise_cons.mp distinct
    intro x hx
    by_cases hk : key entry = k
    · rw [List.eraseP_cons_of_pos (by simpa using hk)] at hx
      exact fun hkey => hentry x hx (hk.trans hkey.symm)
    · rw [List.eraseP_cons_of_neg (by simpa using hk)] at hx
      rcases List.mem_cons.mp hx with rfl | hx
      · exact hk
      · exact ih hrest x hx

theorem filter_below_succ {entries : List α}
    (sorted : entries.Pairwise fun x y => key x < key y) (bound : Nat) :
    entries.filter (fun x => key x < bound + 1) =
      entries.filter (fun x => key x < bound) ++
        (entries.find? fun x => key x = bound).toList := by
  induction entries with
  | nil => rfl
  | cons entry rest ih =>
    obtain ⟨hentry, hrest⟩ := List.pairwise_cons.mp sorted
    rcases Nat.lt_trichotomy (key entry) bound with below | same | above
    · have here : key entry < bound + 1 := by omega
      have other : key entry ≠ bound := by omega
      rw [List.filter_cons_of_pos (by simpa using here),
        List.filter_cons_of_pos (by simpa using below),
        List.find?_cons_of_neg (by simpa using other), ih hrest, List.cons_append]
    · have here : key entry < bound + 1 := by omega
      have beyond : ∀ x ∈ rest, bound + 1 ≤ key x := by
        intro x hx
        have := hentry x hx
        omega
      have restNone : rest.filter (fun x => key x < bound + 1) = [] := by
        rw [List.filter_eq_nil_iff]
        intro x hx
        have := beyond x hx
        simp only [decide_eq_true_eq]
        omega
      have restBelow : rest.filter (fun x => key x < bound) = [] := by
        rw [List.filter_eq_nil_iff]
        intro x hx
        have := beyond x hx
        simp only [decide_eq_true_eq]
        omega
      have notBelow : ¬ key entry < bound := by omega
      rw [List.filter_cons_of_pos (by simpa using here),
        List.filter_cons_of_neg (by simpa using notBelow),
        List.find?_cons_of_pos (by simpa using same), restNone, restBelow]
      rfl
    · have notHere : ¬ key entry < bound + 1 := by omega
      have notBelow : ¬ key entry < bound := by omega
      have other : key entry ≠ bound := by omega
      rw [List.filter_cons_of_neg (by simpa using notHere),
        List.filter_cons_of_neg (by simpa using notBelow),
        List.find?_cons_of_neg (by simpa using other), ih hrest]

theorem filterMap_range_find {entries : List α}
    (sorted : entries.Pairwise fun x y => key x < key y) (bound : Nat) :
    (List.range bound).filterMap (fun i => entries.find? fun x => key x = i) =
      entries.filter fun x => key x < bound := by
  induction bound with
  | zero => simp
  | succ bound ih =>
    rw [List.range_succ, List.filterMap_append, ih, filter_below_succ key sorted]
    cases hfind : entries.find? (fun x => key x = bound) with
    | none => simp [hfind]
    | some entry => simp [hfind]

end KeyScan
