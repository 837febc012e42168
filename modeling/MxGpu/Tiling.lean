import Mathlib.Data.List.Pairwise
import Mathlib.Tactic.Linarith

/- Intervals laid out one after another. How near the next one has to be is a
parameter: equality gives a tiling without gaps, `≤` only keeps them apart. -/
namespace Tiling

abbrev Span := Nat × Nat

/-- A way to say that one address follows another. -/
structure Nearness (near : Nat → Nat → Prop) : Prop where
  refl : ∀ a, near a a
  trans : ∀ {a b c}, near a b → near b c → near a c
  shift : ∀ {a b} c, near a b → near (a + c) (b + c)
  le : ∀ {a b}, near a b → a ≤ b

theorem eq_nearness : Nearness (· = ·) where
  refl _ := rfl
  trans := Eq.trans
  shift c same := by rw [same]
  le := Nat.le_of_eq

theorem le_nearness : Nearness (· ≤ ·) where
  refl := Nat.le_refl
  trans := Nat.le_trans
  shift c below := Nat.add_le_add_right below c
  le := id

/-- The spans follow one another from `a` to `b`. -/
def Laid (near : Nat → Nat → Prop) : List Span → Nat → Nat → Prop
  | [], a, b => near a b
  | (start, length) :: rest, a, b => near a start ∧ Laid near rest (start + length) b

variable {near : Nat → Nat → Prop} {a b : Nat} {spans pre post : List Span}

theorem Laid.weaken (nearness : Nearness near) {a' : Nat} (closer : near a a')
    (laid : Laid near spans a' b) : Laid near spans a b := by
  cases spans with
  | nil => exact nearness.trans closer laid
  | cons span rest => exact ⟨nearness.trans closer laid.1, laid.2⟩

theorem laid_append (nearness : Nearness near) :
    Laid near (pre ++ post) a b ↔ ∃ middle, Laid near pre a middle ∧ Laid near post middle b := by
  induction pre generalizing a with
  | nil =>
    constructor
    · exact fun laid => ⟨a, nearness.refl a, laid⟩
    · rintro ⟨middle, closer, laid⟩
      exact laid.weaken nearness closer
  | cons span rest ih =>
    constructor
    · rintro ⟨first, laid⟩
      obtain ⟨middle, before, after⟩ := ih.mp laid
      exact ⟨middle, ⟨first, before⟩, after⟩
    · rintro ⟨middle, ⟨first, before⟩, after⟩
      exact ⟨first, ih.mpr ⟨middle, before, after⟩⟩

theorem Laid.le (nearness : Nearness near) (laid : Laid near spans a b) : a ≤ b := by
  induction spans generalizing a with
  | nil => exact nearness.le laid
  | cons span rest ih =>
    have first := nearness.le laid.1
    have later := ih laid.2
    omega

theorem Laid.bounds (nearness : Nearness near) (laid : Laid near spans a b) {span : Span}
    (member : span ∈ spans) : a ≤ span.1 ∧ span.1 + span.2 ≤ b := by
  obtain ⟨pre, post, rfl⟩ := List.append_of_mem member
  obtain ⟨middle, before, first, after⟩ := (laid_append nearness).mp laid
  exact ⟨(before.le nearness).trans (nearness.le first), after.le nearness⟩

theorem Laid.ordered (nearness : Nearness near) (laid : Laid near spans a b) :
    spans.Pairwise fun span later => span.1 + span.2 ≤ later.1 := by
  induction spans generalizing a with
  | nil => exact .nil
  | cons span rest ih =>
    exact List.pairwise_cons.mpr ⟨fun later member => (laid.2.bounds nearness member).1, ih laid.2⟩

theorem Laid.split (nearness : Nearness near) {start length cut : Nat} (within : cut ≤ length)
    (laid : Laid near (pre ++ (start, length) :: post) a b) :
    Laid near (pre ++ (start, cut) :: (start + cut, length - cut) :: post) a b := by
  obtain ⟨middle, before, first, after⟩ := (laid_append nearness).mp laid
  refine (laid_append nearness).mpr ⟨middle, before, first, nearness.refl _, ?_⟩
  have same : start + cut + (length - cut) = start + length := by omega
  rw [same]
  exact after

theorem Laid.merge (nearness : Nearness near) {start length start' length' : Nat}
    (laid : Laid near (pre ++ (start, length) :: (start', length') :: post) a b) :
    Laid near (pre ++ (start, length + length') :: post) a b := by
  obtain ⟨middle, before, first, next, after⟩ := (laid_append nearness).mp laid
  refine (laid_append nearness).mpr ⟨middle, before, first, after.weaken nearness ?_⟩
  rw [← Nat.add_assoc]
  exact nearness.shift length' next

theorem Laid.resize (nearness : Nearness near) {start length length' : Nat}
    (closer : near (start + length') (start + length))
    (laid : Laid near (pre ++ (start, length) :: post) a b) :
    Laid near (pre ++ (start, length') :: post) a b := by
  obtain ⟨middle, before, first, after⟩ := (laid_append nearness).mp laid
  exact (laid_append nearness).mpr ⟨middle, before, first, after.weaken nearness closer⟩

theorem Laid.sublist {spans' : List Span} (laid : Laid (· ≤ ·) spans a b)
    (sub : spans'.Sublist spans) : Laid (· ≤ ·) spans' a b := by
  induction sub generalizing a with
  | slnil => exact laid
  | cons span _ ih =>
    apply (ih laid.2).weaken le_nearness
    have first := laid.1
    omega
  | cons_cons span _ ih => exact ⟨laid.1, ih laid.2⟩

theorem laid_progression {base stride size : Nat} (fits : size ≤ stride) (first count : Nat) :
    Laid (· ≤ ·) ((List.range' first count).map fun i => (base + i * stride, size))
      (base + first * stride) (base + (first + count) * stride) := by
  induction count generalizing first with
  | zero => exact Nat.le_refl _
  | succ count ih =>
    have next := ih (first + 1)
    rw [show first + 1 + count = first + (count + 1) by omega] at next
    refine ⟨Nat.le_refl _, next.weaken le_nearness ?_⟩
    rw [Nat.succ_mul]
    omega

theorem laid_eq_covers (laid : Laid (· = ·) spans a b) (point : Nat) :
    (a ≤ point ∧ point < b) ↔ ∃ span ∈ spans, span.1 ≤ point ∧ point < span.1 + span.2 := by
  induction spans generalizing a with
  | nil =>
    obtain rfl : a = b := laid
    constructor
    · rintro ⟨low, high⟩
      omega
    · rintro ⟨_, member, _⟩
      cases member
  | cons span rest ih =>
    obtain ⟨start, length⟩ := span
    obtain ⟨first, after⟩ := laid
    obtain rfl : a = start := first
    have end_ := after.le eq_nearness
    have later := ih after
    constructor
    · rintro ⟨low, high⟩
      by_cases inside : point < a + length
      · exact ⟨_, List.mem_cons_self .., low, inside⟩
      · obtain ⟨span, member, within⟩ := later.mp ⟨not_lt.mp inside, high⟩
        exact ⟨span, List.mem_cons_of_mem _ member, within⟩
    · rintro ⟨span, member, low, high⟩
      rcases List.mem_cons.mp member with rfl | member
      · exact ⟨low, high.trans_le end_⟩
      · obtain ⟨low', high'⟩ := later.mpr ⟨span, member, low, high⟩
        exact ⟨(Nat.le_add_right a length).trans low', high'⟩

end Tiling
