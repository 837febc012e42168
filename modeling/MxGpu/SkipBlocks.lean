import Mathlib.Logic.Function.Basic

/-!
A walk along a range around blocks of one length. The walk goes to the next block in its list,
takes what is in front of it as one piece, and steps over as many places as a block has.
-/
namespace SkipBlocks

open List

/-- The pieces that a walk from `c` to `total` takes, each with its first place and its length. -/
def pieces (block total : Nat) : List Nat → Nat → List (Nat × Nat)
  | [], c => if c < total then [(c, total - c)] else []
  | q :: rest, c =>
    if c < total then
      if c < q then (c, q - c) :: pieces block total rest (min (q + block) total)
      else pieces block total rest (min (c + block) total)
    else []

def covers (k : Nat) (piece : Nat × Nat) : Bool := piece.1 ≤ k && k < piece.1 + piece.2

def times (k : Nat) (taken : List (Nat × Nat)) : Nat := taken.countP (covers k)

def Marked (block : Nat) (qs : List Nat) (k : Nat) : Prop := ∃ q ∈ qs, q ≤ k ∧ k < q + block

def Spaced (block : Nat) (qs : List Nat) : Prop := qs.Pairwise fun a b => a = b ∨ a + block ≤ b

/-- Every place from `c` on is taken once, or is in a block and not taken. -/
def Exact (block total : Nat) (qs : List Nat) (c : Nat) : Prop :=
  ∀ k, c ≤ k → k < total →
    (Marked block qs k → times k (pieces block total qs c) = 0) ∧
      (¬Marked block qs k → times k (pieces block total qs c) = 1)

def Covered (block total : Nat) (qs : List Nat) : Prop :=
  ∀ q ∈ qs, 2 ≤ qs.count q → ∀ k, q ≤ k → k < total → Marked block qs k

variable {block total c k q : Nat} {qs rest : List Nat}

theorem times_cons (piece : Nat × Nat) (taken : List (Nat × Nat)) :
    times k (piece :: taken) = times k taken + if covers k piece = true then 1 else 0 :=
  countP_cons

theorem pieces_done (done : total ≤ c) : pieces block total qs c = [] := by
  cases qs with
  | nil => exact if_neg (Nat.not_lt.mpr done)
  | cons q rest => exact if_neg (Nat.not_lt.mpr done)

theorem times_done (done : total ≤ c) : times k (pieces block total qs c) = 0 := by
  rw [pieces_done done]
  rfl

theorem times_behind (behind : k < c) : times k (pieces block total qs c) = 0 := by
  induction qs generalizing c with
  | nil =>
    unfold pieces
    by_cases more : c < total
    · have outside : covers k (c, total - c) = false := by
        simp [covers, Nat.not_le.mpr behind]
      rw [if_pos more, times_cons, outside]
      rfl
    · rw [if_neg more]
      rfl
  | cons q rest ih =>
    unfold pieces
    by_cases more : c < total
    · rw [if_pos more]
      by_cases before : c < q
      · have outside : covers k (c, q - c) = false := by
          simp [covers, Nat.not_le.mpr behind]
        rw [if_pos before, times_cons, outside, ih (by omega)]
        rfl
      · rw [if_neg before]
        exact ih (by omega)
    · rw [if_neg more]
      rfl

theorem times_front (ahead : ∀ q ∈ qs, c < q) (more : c < total) :
    times c (pieces block total qs c) = 1 := by
  cases qs with
  | nil =>
    have covered : covers c (c, total - c) = true := by
      simp [covers]
      omega
    rw [pieces, if_pos more, times_cons, if_pos covered]
    rfl
  | cons q rest =>
    have before := ahead q mem_cons_self
    have covered : covers c (c, q - c) = true := by
      simp [covers]
      omega
    rw [pieces, if_pos more, if_pos before, times_cons, if_pos covered, times_behind (by omega)]

theorem pieces_inside (inside : ∀ q ∈ qs, q ≤ total) :
    ∀ piece ∈ pieces block total qs c, piece.1 + piece.2 ≤ total := by
  induction qs generalizing c with
  | nil =>
    intro piece taken
    unfold pieces at taken
    by_cases more : c < total
    · rw [if_pos more, mem_singleton] at taken
      rw [taken]
      omega
    · rw [if_neg more] at taken
      exact absurd taken not_mem_nil
  | cons q rest ih =>
    intro piece taken
    have later := fun c => ih (c := c) fun r listed => inside r (mem_cons_of_mem q listed)
    have at_q := inside q mem_cons_self
    unfold pieces at taken
    by_cases more : c < total
    · rw [if_pos more] at taken
      by_cases before : c < q
      · rw [if_pos before] at taken
        rcases mem_cons.mp taken with same | taken
        · rw [same]
          omega
        · exact later _ piece taken
      · rw [if_neg before] at taken
        exact later _ piece taken
    · rw [if_neg more] at taken
      exact absurd taken not_mem_nil

theorem Spaced.head_le (spaced : Spaced block (q :: rest)) {r : Nat} (listed : r ∈ q :: rest) :
    q ≤ r := by
  rcases mem_cons.mp listed with rfl | later
  · exact Nat.le_refl r
  · rcases (pairwise_cons.mp spaced).1 r later with same | apart
    · omega
    · omega

theorem Spaced.tail (spaced : Spaced block (q :: rest)) : Spaced block rest :=
  (pairwise_cons.mp spaced).2

/-- A walk that is past the next block stays past the blocks for as long as they follow each
other, and takes no place up to the first one that is in none of them. -/
theorem times_late (positive : 0 < block) (spaced : Spaced block (q :: rest))
    (late : q + block ≤ c) (marked : ∀ j, q ≤ j → j < k → Marked block (q :: rest) j) :
    times k (pieces block total (q :: rest) c) = 0 := by
  induction rest generalizing q c with
  | nil =>
    unfold pieces
    by_cases more : c < total
    · rw [if_pos more, if_neg (by omega)]
      by_cases behind : k < min (c + block) total
      · exact times_behind behind
      · by_cases done : total ≤ c + block
        · exact times_done (by omega)
        · -- the place after the only block is not marked
          obtain ⟨r, listed, low, high⟩ := marked (q + block) (by omega) (by omega)
          have same := mem_singleton.mp listed
          omega
    · rw [if_neg more]
      rfl
  | cons h rest ih =>
    unfold pieces
    by_cases more : c < total
    · rw [if_pos more, if_neg (by omega)]
      by_cases behind : k < min (c + block) total
      · exact times_behind behind
      by_cases done : total ≤ c + block
      · exact times_done (by omega)
      obtain ⟨r, listed, low, high⟩ := marked (q + block) (by omega) (by omega)
      have after := (pairwise_cons.mp spaced).1
      have r_later : r ∈ h :: rest := by
        rcases mem_cons.mp listed with same | later
        · omega
        · exact later
      have h_le := spaced.tail.head_le r_later
      have next := after h mem_cons_self
      rw [Nat.min_eq_left (by omega)]
      apply ih spaced.tail (by omega)
      intro j from_h before
      obtain ⟨m, m_in, m_low, m_high⟩ := marked j (by omega) before
      rcases mem_cons.mp m_in with same | later
      · exact ⟨h, mem_cons_self, from_h, by omega⟩
      · exact ⟨m, later, m_low, m_high⟩
    · rw [if_neg more]
      rfl

/-- What is left to the walk behind the block `q` is exact. -/
def Behind (block total q : Nat) (rest : List Nat) : Prop :=
  ∀ k, q + block ≤ k → k < total →
    (Marked block (q :: rest) k →
      times k (pieces block total rest (min (q + block) total)) = 0) ∧
    (¬Marked block (q :: rest) k →
      times k (pieces block total rest (min (q + block) total)) = 1)

/-- The walk over its next block: the places in front of the block are taken, those in it are
not, and the rest is up to the walk from behind the block. -/
theorem exact_cons (positive : 0 < block) (spaced : Spaced block (q :: rest))
    (ahead : c ≤ q) (inside : q < total) :
    Exact block total (q :: rest) c ↔ Behind block total q rest := by
  have taken : ∀ k, times k (pieces block total (q :: rest) c) =
      times k (pieces block total rest (min (q + block) total)) +
        if c ≤ k ∧ k < q then 1 else 0 := by
    intro k
    rw [pieces, if_pos (by omega)]
    by_cases before : c < q
    · rw [if_pos before, times_cons]
      congr 1
      by_cases covered : c ≤ k ∧ k < q
      · rw [if_pos covered, if_pos (by simp [covers]; omega)]
      · rw [if_neg covered, if_neg (by simp [covers]; omega)]
    · have same : c = q := by omega
      rw [if_neg before, same, if_neg (by omega), Nat.add_zero]
  constructor
  · intro exact k low high
    have at_k := exact k (by omega) high
    rw [taken, if_neg (by omega), Nat.add_zero] at at_k
    exact at_k
  · intro later k low high
    rw [taken]
    by_cases front : k < q
    · -- no block begins in front of the first one
      have unmarked : ¬Marked block (q :: rest) k := by
        intro ⟨r, listed, r_low, r_high⟩
        have first := spaced.head_le listed
        omega
      rw [if_pos ⟨low, front⟩, times_behind (by omega)]
      exact ⟨fun marked => absurd marked unmarked, fun _ => rfl⟩
    · rw [if_neg (by omega), Nat.add_zero]
      by_cases within : k < q + block
      · have marked : Marked block (q :: rest) k :=
          ⟨q, mem_cons_self, by omega, within⟩
        rw [times_behind (by omega)]
        exact ⟨fun _ => rfl, fun unmarked => absurd marked unmarked⟩
      · exact later k (by omega) high

theorem behind_again (positive : 0 < block) (spaced : Spaced block (q :: q :: rest))
    (more : q + block < total) :
    Behind block total q (q :: rest) ↔ Covered block total (q :: q :: rest) := by
  have marked_iff : ∀ k, Marked block (q :: q :: rest) k ↔ Marked block (q :: rest) k := by
    intro k
    unfold Marked
    simp
  -- the places up to `k` are in blocks, and the walk behind the first block takes none of them
  have none_taken : ∀ k, (∀ j, q ≤ j → j < k → Marked block (q :: q :: rest) j) →
      times k (pieces block total (q :: rest) (q + block)) = 0 := by
    intro k marked
    apply times_late positive spaced.tail (Nat.le_refl _)
    intro j low high
    exact (marked_iff j).mp (marked j low high)
  unfold Behind
  rw [Nat.min_eq_left (Nat.le_of_lt more)]
  constructor
  · intro later r listed often k low high
    have first := spaced.head_le listed
    have all : ∀ k, q ≤ k → k < total → Marked block (q :: q :: rest) k := by
      intro k
      induction k using Nat.strongRecOn with
      | ind k before =>
        intro low high
        by_cases within : k < q + block
        · exact ⟨q, mem_cons_self, low, within⟩
        by_cases marked : Marked block (q :: q :: rest) k
        · exact marked
        · have once := (later k (by omega) high).2 marked
          have none := none_taken k fun j from_q to_k => before j to_k from_q (by omega)
          omega
    exact all k (by omega) high
  · intro covered k low high
    have twice : 2 ≤ (q :: q :: rest).count q := by
      rw [count_cons_self, count_cons_self]
      omega
    have marked := covered q mem_cons_self twice
    have none := none_taken k fun j from_q to_k => marked j from_q (by omega)
    exact ⟨fun _ => none, fun unmarked => absurd (marked k (by omega) high) unmarked⟩

theorem behind_apart (positive : 0 < block) (after : ∀ r ∈ rest, q + block ≤ r)
    (more : q + block < total) :
    (Behind block total q rest ↔ Exact block total rest (q + block)) ∧
      (Covered block total (q :: rest) ↔ Covered block total rest) := by
  have marked_iff : ∀ k, q + block ≤ k →
      (Marked block (q :: rest) k ↔ Marked block rest k) := by
    intro k low
    constructor
    · intro ⟨r, listed, r_low, r_high⟩
      rcases mem_cons.mp listed with same | later
      · omega
      · exact ⟨r, later, r_low, r_high⟩
    · intro ⟨r, listed, r_low, r_high⟩
      exact ⟨r, mem_cons_of_mem q listed, r_low, r_high⟩
  constructor
  · unfold Behind Exact
    rw [Nat.min_eq_left (Nat.le_of_lt more)]
    constructor
    · intro later k low high
      rw [← marked_iff k low]
      exact later k low high
    · intro exact k low high
      rw [marked_iff k low]
      exact exact k low high
  · constructor
    · intro covered r r_in often k low high
      have apart := after r r_in
      have other : q ≠ r := by omega
      rw [← marked_iff k (by omega)]
      apply covered r (mem_cons_of_mem q r_in) _ k low high
      rw [count_cons_of_ne other]
      exact often
    · intro covered r listed often k low high
      rcases mem_cons.mp listed with same | r_in
      · have absent : q ∉ rest := by
          intro again
          have apart := after q again
          omega
        rw [same, count_cons_self, count_eq_zero_of_not_mem absent] at often
        omega
      · have apart := after r r_in
        have other : q ≠ r := by omega
        rw [count_cons_of_ne other] at often
        rw [marked_iff k (by omega)]
        exact covered r r_in often k low high

/-- A walk that starts in front of its blocks takes exactly the places outside of them, unless a
block comes again and there is a place in no block behind it. -/
theorem exact_iff (positive : 0 < block) (spaced : Spaced block qs)
    (ahead : ∀ q ∈ qs, c ≤ q) (inside : ∀ q ∈ qs, q < total) :
    Exact block total qs c ↔ Covered block total qs := by
  induction qs generalizing c with
  | nil =>
    have unmarked : ∀ k, ¬Marked block [] k := by
      intro k marked
      obtain ⟨q, listed, -⟩ := marked
      exact absurd listed not_mem_nil
    constructor
    · intro exact q listed
      exact absurd listed not_mem_nil
    · intro covered k low high
      have taken : times k (pieces block total [] c) = 1 := by
        have covered : covers k (c, total - c) = true := by
          simp [covers]
          omega
        rw [pieces, if_pos (by omega), times_cons, if_pos covered]
        rfl
      exact ⟨fun marked => absurd marked (unmarked k), fun _ => taken⟩
  | cons q rest ih =>
    rw [exact_cons positive spaced (ahead q mem_cons_self) (inside q mem_cons_self)]
    by_cases ends : total ≤ q + block
    · -- the block goes to the end of the range
      constructor
      · intro later r listed again k low high
        have first := spaced.head_le listed
        exact ⟨q, mem_cons_self, by omega, by omega⟩
      · intro covered k low high
        omega
    by_cases again : q ∈ rest
    · obtain ⟨h, tail, shape⟩ := exists_cons_of_ne_nil (ne_nil_of_mem again)
      subst shape
      have same : h = q := by
        have low := spaced.tail.head_le again
        have high := spaced.head_le (mem_cons_of_mem q mem_cons_self)
        omega
      rw [same] at spaced ⊢
      exact behind_again positive spaced (by omega)
    · have after : ∀ r ∈ rest, q + block ≤ r := by
        intro r listed
        rcases (pairwise_cons.mp spaced).1 r listed with same | apart
        · exact absurd (same ▸ listed) again
        · exact apart
      have split := behind_apart positive after (show q + block < total by omega)
      rw [split.1, split.2]
      exact ih spaced.tail after fun r listed => inside r (mem_cons_of_mem q listed)

end SkipBlocks
