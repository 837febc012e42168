import Mathlib.Data.List.Nodup
import Mathlib.Data.List.Perm.Subperm
import MxGpu.PageRange

/- The sorted lists of bad-page offsets that callers fetch: a bubble sort, and the repetitions
taken out in place. -/
namespace MxGpu.Fb

open List

/-- One pass of the sort over the first `n + 1` entries. -/
def bubble : Nat → List Addr → List Addr
  | n + 1, a :: b :: rest => if a > b then b :: bubble n (a :: rest) else a :: bubble n (b :: rest)
  | _, bpOffsets => bpOffsets

def bubbleSort : Nat → List Addr → List Addr
  | 0, bpOffsets => bpOffsets
  | n + 1, bpOffsets => bubbleSort n (bubble (n + 1) bpOffsets)

/-- The loop that takes out repetitions, `n` entries before its end: `bpOffsets[uniqueBpIdx]` is
the last entry that is kept. -/
def removeDuplicates : Nat → Nat → Nat → List Addr → List Addr × Nat
  | 0, _, uniqueBpIdx, bpOffsets => (bpOffsets, uniqueBpIdx)
  | n + 1, i, uniqueBpIdx, bpOffsets =>
    if bpOffsets.getD i 0 ≠ bpOffsets.getD uniqueBpIdx 0 then
      removeDuplicates n (i + 1) (uniqueBpIdx + 1)
        (bpOffsets.set (uniqueBpIdx + 1) (bpOffsets.getD i 0))
    else removeDuplicates n (i + 1) uniqueBpIdx bpOffsets

/-- `amdgv_umc_sort_bp_offsets`: the buffer afterwards, and the number of entries that are kept,
or `AMDGV_FAILURE`. -/
def sortBpOffsets (bpOffsets : List Addr) : List Addr × Int :=
  if bpOffsets.length ≤ 1 then (bpOffsets, -1)
  else
    let sorted := bubbleSort (bpOffsets.length - 1) bpOffsets
    let (buffer, uniqueBpIdx) := removeDuplicates (bpOffsets.length - 1) 1 0 sorted
    (buffer, uniqueBpIdx + 1)

/-- `amdgv_umc_fetch_and_sort_bps` of the pages of `eh_data`, when there is memory for them. Its
callers take `data->count` for the length of the buffer. -/
def fetchAndSortBps (bps : List Addr) : List Addr × Int :=
  ((sortBpOffsets (bps.map pageAddr)).1, bps.length)

/-- `amdgv_umc_fetch_and_sort_bps_across_nps` of the pages of each mode. -/
def fetchAndSortBpsAcrossNps (dataAcrossNps : List (List Addr)) : List Addr × Int :=
  sortBpOffsets (dataAcrossNps.flatten.map pageAddr)

/-- A buffer and its count hold the given offsets, each of them once and in order. -/
structure Holds (fetched : List Addr × Int) (offsets : List Addr) : Prop where
  low : 0 ≤ fetched.2
  high : fetched.2 ≤ fetched.1.length
  rises : (fetched.1.take fetched.2.toNat).Pairwise (· < ·)
  exact : ∀ offset, offset ∈ fetched.1.take fetched.2.toNat ↔ offset ∈ offsets

theorem bubble_last (n : Nat) :
    ∀ l : List Addr, l.length = n + 1 →
      ∃ front last, bubble n l = front ++ [last] ∧ front.length = n ∧
        (∀ x ∈ front, x ≤ last) ∧ (front ++ [last]).Perm l := by
  induction n with
  | zero =>
    intro l length
    obtain ⟨a, rfl⟩ := length_eq_one_iff.mp length
    exact ⟨[], a, rfl, rfl, fun x listed => absurd listed not_mem_nil, List.Perm.refl _⟩
  | succ n ih =>
    intro l length
    obtain ⟨a, l, rfl⟩ := exists_cons_of_length_eq_add_one length
    obtain ⟨b, rest, rfl⟩ := exists_cons_of_length_eq_add_one (Nat.succ.inj length)
    have short : rest.length = n := Nat.succ.inj (Nat.succ.inj length)
    unfold bubble
    by_cases above : a > b
    · rw [if_pos above]
      obtain ⟨front, last, split, size, highest, perm⟩ := ih (a :: rest) (congrArg Nat.succ short)
      refine ⟨b :: front, last, by rw [split]; rfl, congrArg Nat.succ size, ?_, ?_⟩
      · intro x listed
        rcases mem_cons.mp listed with rfl | later
        · have a_in := perm.mem_iff.mpr mem_cons_self
          have a_le : a ≤ last := by
            rcases mem_append.mp a_in with early | same
            · exact highest a early
            · rw [mem_singleton.mp same]
              exact BitVec.le_refl _
          exact BitVec.le_trans (BitVec.le_of_lt above) a_le
        · exact highest x later
      · exact (perm.cons b).trans (List.Perm.swap a b rest)
    · rw [if_neg above]
      obtain ⟨front, last, split, size, highest, perm⟩ := ih (b :: rest) (congrArg Nat.succ short)
      refine ⟨a :: front, last, by rw [split]; rfl, congrArg Nat.succ size, ?_, perm.cons a⟩
      intro x listed
      rcases mem_cons.mp listed with rfl | later
      · have b_in := perm.mem_iff.mpr mem_cons_self
        have b_le : b ≤ last := by
          rcases mem_append.mp b_in with early | same
          · exact highest b early
          · rw [mem_singleton.mp same]
            exact BitVec.le_refl _
        exact BitVec.le_trans (BitVec.not_lt.mp above) b_le
      · exact highest x later

theorem bubble_append (n : Nat) :
    ∀ l back : List Addr, l.length = n + 1 → bubble n (l ++ back) = bubble n l ++ back := by
  induction n with
  | zero =>
    intro l back length
    obtain ⟨a, rfl⟩ := length_eq_one_iff.mp length
    cases back with
    | nil => rfl
    | cons b back => rfl
  | succ n ih =>
    intro l back length
    obtain ⟨a, l, rfl⟩ := exists_cons_of_length_eq_add_one length
    obtain ⟨b, rest, rfl⟩ := exists_cons_of_length_eq_add_one (Nat.succ.inj length)
    have short : rest.length = n := Nat.succ.inj (Nat.succ.inj length)
    show (if a > b then b :: bubble n ((a :: rest) ++ back)
      else a :: bubble n ((b :: rest) ++ back)) =
        (if a > b then b :: bubble n (a :: rest) else a :: bubble n (b :: rest)) ++ back
    by_cases above : a > b
    · rw [if_pos above, if_pos above, ih (a :: rest) back (congrArg Nat.succ short)]
      rfl
    · rw [if_neg above, if_neg above, ih (b :: rest) back (congrArg Nat.succ short)]
      rfl

theorem bubbleSort_spec (n : Nat) :
    ∀ front back : List Addr, front.length = n + 1 → back.Pairwise (· ≤ ·) →
      (∀ x ∈ front, ∀ y ∈ back, x ≤ y) →
      (bubbleSort n (front ++ back)).Pairwise (· ≤ ·) ∧
        (bubbleSort n (front ++ back)).Perm (front ++ back) := by
  induction n with
  | zero =>
    intro front back length sorted below
    obtain ⟨a, rfl⟩ := length_eq_one_iff.mp length
    exact ⟨pairwise_cons.mpr ⟨below a mem_cons_self, sorted⟩, List.Perm.refl _⟩
  | succ n ih =>
    intro front back length sorted below
    obtain ⟨rest, last, split, size, highest, perm⟩ := bubble_last (n + 1) front length
    unfold bubbleSort
    rw [bubble_append (n + 1) front back length, split, append_assoc]
    have in_front : ∀ x ∈ rest ++ [last], x ∈ front := fun x listed => perm.mem_iff.mp listed
    obtain ⟨ascending, reordered⟩ := ih rest ([last] ++ back) size
      (pairwise_cons.mpr ⟨below last (in_front last (by simp)), sorted⟩) (by
        intro x x_in y y_in
        rcases mem_cons.mp y_in with rfl | behind
        · exact highest x x_in
        · exact below x (in_front x (mem_append_left _ x_in)) y behind)
    refine ⟨ascending, reordered.trans ?_⟩
    rw [← append_assoc]
    exact perm.append_right back

/-- What the loop over the repetitions knows before entry `i` of the sorted list `l`. -/
structure Deduplicates (l : List Addr) (i uniqueBpIdx : Nat) (bpOffsets : List Addr) : Prop where
  length : bpOffsets.length = l.length
  behind : uniqueBpIdx < i
  inside : i ≤ l.length
  rest : bpOffsets.drop i = l.drop i
  rises : (bpOffsets.take (uniqueBpIdx + 1)).Pairwise (· < ·)
  exact : ∀ offset, offset ∈ bpOffsets.take (uniqueBpIdx + 1) ↔ offset ∈ l.take i

variable {l bpOffsets : List Addr} {i uniqueBpIdx : Nat}

theorem getD_getElem (inside : i < l.length) : l.getD i 0 = l[i] := by
  rw [getD_eq_getElem?_getD, getElem?_eq_getElem inside, Option.getD_some]

theorem le_last (rises : (l.take (i + 1)).Pairwise (· < ·)) (inside : i < l.length) {offset : Addr}
    (kept : offset ∈ l.take (i + 1)) : offset ≤ l[i] := by
  rw [take_succ_eq_append_getElem inside] at rises kept
  rcases mem_append.mp kept with early | same
  · exact BitVec.le_of_lt ((pairwise_append.mp rises).2.2 offset early l[i]
      mem_cons_self)
  · rw [mem_singleton.mp same]
    exact BitVec.le_refl _

theorem Deduplicates.turn (sorted : l.Pairwise (· ≤ ·))
    (holds : Deduplicates l i uniqueBpIdx bpOffsets) (more : i < l.length) :
    (bpOffsets.getD i 0 ≠ bpOffsets.getD uniqueBpIdx 0 →
      Deduplicates l (i + 1) (uniqueBpIdx + 1)
        (bpOffsets.set (uniqueBpIdx + 1) (bpOffsets.getD i 0))) ∧
      (bpOffsets.getD i 0 = bpOffsets.getD uniqueBpIdx 0 →
        Deduplicates l (i + 1) uniqueBpIdx bpOffsets) := by
  have behind := holds.behind
  have i_in : i < bpOffsets.length := by rw [holds.length]; exact more
  have last_in : uniqueBpIdx < bpOffsets.length := by omega
  have entry : bpOffsets[i] = l[i] := by
    have rest := holds.rest
    rw [drop_eq_getElem_cons i_in, drop_eq_getElem_cons more] at rest
    exact (cons.inj rest).1
  have rest : bpOffsets.drop (i + 1) = l.drop (i + 1) := by
    have rest := holds.rest
    rw [drop_eq_getElem_cons i_in, drop_eq_getElem_cons more] at rest
    exact (cons.inj rest).2
  have before : ∀ offset ∈ l.take i, offset ≤ l[i] := by
    intro offset early
    obtain ⟨j, j_in, rfl⟩ := getElem_of_mem early
    rw [length_take] at j_in
    rw [getElem_take]
    exact pairwise_iff_getElem.mp sorted j i (by omega) more (by omega)
  have last_kept : bpOffsets[uniqueBpIdx] ∈ bpOffsets.take (uniqueBpIdx + 1) := by
    rw [take_succ_eq_append_getElem last_in]
    exact mem_append_right _ mem_cons_self
  rw [getD_getElem i_in, getD_getElem last_in, entry]
  constructor
  · intro new
    have last_le := before _ ((holds.exact _).mp last_kept)
    have above : bpOffsets[uniqueBpIdx] < l[i] := by
      rw [BitVec.lt_def]
      have order := BitVec.le_def.mp last_le
      have apart : bpOffsets[uniqueBpIdx].toNat ≠ l[i].toNat := fun same =>
        new (BitVec.eq_of_toNat_eq same).symm
      omega
    have next_in : uniqueBpIdx + 1 < (bpOffsets.set (uniqueBpIdx + 1) l[i]).length := by
      rw [length_set]
      omega
    have kept : (bpOffsets.set (uniqueBpIdx + 1) l[i]).take (uniqueBpIdx + 1 + 1) =
        bpOffsets.take (uniqueBpIdx + 1) ++ [l[i]] := by
      rw [take_succ_eq_append_getElem next_in, getElem_set_self,
        take_set_of_le (Nat.le_refl _)]
    constructor
    · rw [length_set]
      exact holds.length
    · omega
    · exact more
    · rw [drop_set_of_lt (by omega)]
      exact rest
    · rw [kept, pairwise_append]
      refine ⟨holds.rises, pairwise_singleton _ _, ?_⟩
      intro offset early last last_eq
      rw [mem_singleton.mp last_eq, BitVec.lt_def]
      exact Nat.lt_of_le_of_lt (BitVec.le_def.mp (le_last holds.rises last_in early))
        (BitVec.lt_def.mp above)
    · intro offset
      rw [kept, take_succ_eq_append_getElem more, mem_append, mem_append,
        holds.exact offset]
  · intro again
    constructor
    · exact holds.length
    · omega
    · exact more
    · exact rest
    · exact holds.rises
    · intro offset
      rw [take_succ_eq_append_getElem more, mem_append, mem_singleton,
        ← holds.exact offset]
      constructor
      · intro kept
        exact Or.inl kept
      · intro either
        rcases either with kept | same
        · exact kept
        · rw [same, again]
          exact last_kept

theorem removeDuplicates_spec (sorted : l.Pairwise (· ≤ ·)) (n : Nat) :
    ∀ i uniqueBpIdx bpOffsets, Deduplicates l i uniqueBpIdx bpOffsets → i + n = l.length →
      Deduplicates l l.length (removeDuplicates n i uniqueBpIdx bpOffsets).2
        (removeDuplicates n i uniqueBpIdx bpOffsets).1 := by
  induction n with
  | zero =>
    intro i uniqueBpIdx bpOffsets holds ends
    rw [Nat.add_zero] at ends
    rw [← ends]
    exact holds
  | succ n ih =>
    intro i uniqueBpIdx bpOffsets holds ends
    have turn := holds.turn sorted (by omega)
    unfold removeDuplicates
    by_cases again : bpOffsets.getD i 0 = bpOffsets.getD uniqueBpIdx 0
    · rw [if_neg (not_not_intro again)]
      exact ih _ _ _ (turn.2 again) (by omega)
    · rw [if_pos again]
      exact ih _ _ _ (turn.1 again) (by omega)

theorem sortBpOffsets_holds {offsets : List Addr} (more : 2 ≤ offsets.length) :
    Holds (sortBpOffsets offsets) offsets ∧
      (sortBpOffsets offsets).1.length = offsets.length := by
  obtain ⟨sorted, perm⟩ := bubbleSort_spec (offsets.length - 1) offsets [] (by omega)
    List.Pairwise.nil (fun _ _ y listed => absurd listed not_mem_nil)
  rw [append_nil] at sorted perm
  have length := perm.length_eq
  unfold sortBpOffsets
  rw [if_neg (by omega)]
  dsimp only
  generalize bubbleSort (offsets.length - 1) offsets = l at sorted perm length ⊢
  have starts : Deduplicates l 1 0 l := by
    have first : l.take (0 + 1) = l.take 1 := rfl
    constructor
    · rfl
    · exact Nat.zero_lt_one
    · omega
    · rfl
    · rw [first]
      obtain ⟨a, rest, rfl⟩ := exists_cons_of_length_pos (l := l) (by omega)
      exact pairwise_singleton _ _
    · intro offset
      exact Iff.rfl
  have ends := removeDuplicates_spec sorted (offsets.length - 1) 1 0 l starts (by omega)
  generalize removeDuplicates (offsets.length - 1) 1 0 l = result at ends ⊢
  have behind := ends.behind
  constructor
  · constructor
    · show (0 : Int) ≤ (result.2 : Int) + 1
      omega
    · show (result.2 : Int) + 1 ≤ (result.1.length : Int)
      rw [ends.length]
      omega
    · exact ends.rises
    · intro offset
      rw [← perm.mem_iff, ← take_length (l := l)]
      exact ends.exact offset
  · rw [ends.length]
    exact length

theorem nodup_of_holds {buffer offsets : List Addr} (length : buffer.length = offsets.length)
    (holds : Holds (buffer, (offsets.length : Int)) offsets) : offsets.Nodup := by
  have rises := holds.rises
  have exact := holds.exact
  dsimp only at rises exact
  rw [Int.toNat_natCast, ← length, take_length] at rises exact
  have nodup : buffer.Nodup := rises.imp fun order => BitVec.ne_of_lt order
  have subset : buffer ⊆ offsets := fun offset listed => (exact offset).mp listed
  have perm := (subperm_of_subset nodup subset).perm_of_length_le (Nat.le_of_eq length.symm)
  exact perm.nodup_iff.mp nodup

theorem count_of_nodup {fetched : List Addr × Int} {offsets : List Addr} (nodup : offsets.Nodup)
    (holds : Holds fetched offsets) : fetched.2 = offsets.length := by
  have kept : (fetched.1.take fetched.2.toNat).Nodup :=
    holds.rises.imp fun order => BitVec.ne_of_lt order
  have perm := (perm_ext_iff_of_nodup kept nodup).mpr holds.exact
  have length := perm.length_eq
  have low := holds.low
  have high := holds.high
  rw [length_take] at length
  omega

theorem holds_of_short {offsets : List Addr} (short : offsets.length ≤ 1) :
    Holds (offsets, (offsets.length : Int)) offsets := by
  have whole : offsets.take (offsets.length : Int).toNat = offsets := by
    rw [Int.toNat_natCast, take_length]
  constructor
  · exact Int.natCast_nonneg _
  · exact Int.le_refl _
  · show (offsets.take (offsets.length : Int).toNat).Pairwise (· < ·)
    rw [whole]
    cases offsets with
    | nil => exact List.Pairwise.nil
    | cons a rest =>
      cases rest with
      | nil => exact pairwise_singleton _ _
      | cons b rest =>
        rw [length_cons, length_cons] at short
        omega
  · intro offset
    show offset ∈ offsets.take (offsets.length : Int).toNat ↔ _
    rw [whole]

/-- The offsets of the pages of a host are fetched as they should exactly when no two pages are the
same; those of all modes, when there are at least two pages. -/
theorem fetched_iff (bps : List Addr) (dataAcrossNps : List (List Addr)) :
    (Holds (fetchAndSortBps bps) (bps.map pageAddr) ↔ (bps.map pageAddr).Nodup) ∧
      (Holds (fetchAndSortBpsAcrossNps dataAcrossNps) (dataAcrossNps.flatten.map pageAddr) ↔
        2 ≤ dataAcrossNps.flatten.length) := by
  constructor
  · unfold fetchAndSortBps
    rw [← length_map (f := pageAddr)]
    generalize bps.map pageAddr = offsets
    by_cases more : 2 ≤ offsets.length
    · obtain ⟨sorted, length⟩ := sortBpOffsets_holds more
      constructor
      · intro holds
        exact nodup_of_holds length holds
      · intro nodup
        rw [← count_of_nodup nodup sorted]
        exact sorted
    · have few : offsets.length ≤ 1 := by omega
      have short : sortBpOffsets offsets = (offsets, -1) := by
        unfold sortBpOffsets
        rw [if_pos few]
      rw [short]
      constructor
      · intro holds
        exact nodup_of_holds rfl holds
      · intro nodup
        exact holds_of_short few
  · unfold fetchAndSortBpsAcrossNps
    constructor
    · intro holds
      by_cases few : (dataAcrossNps.flatten.map pageAddr).length ≤ 1
      · have low := holds.low
        unfold sortBpOffsets at low
        rw [if_pos few] at low
        have impossible : ¬(0 : Int) ≤ -1 := by decide
        exact absurd low impossible
      · rw [length_map] at few
        omega
    · intro more
      rw [← length_map (f := pageAddr)] at more
      exact (sortBpOffsets_holds more).1

/-- One page in one mode, and a page that is recorded twice. -/
theorem fetched_wrong :
    ¬ ∀ (bps : List Addr) (dataAcrossNps : List (List Addr)),
      Holds (fetchAndSortBps bps) (bps.map pageAddr) ∧
        Holds (fetchAndSortBpsAcrossNps dataAcrossNps) (dataAcrossNps.flatten.map pageAddr) := by
  intro fetched
  have low := (fetched [1, 1] [[1]]).2.low
  revert low
  decide

end MxGpu.Fb
