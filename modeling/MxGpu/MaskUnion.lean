import Mathlib.Algebra.Group.Nat.Defs
import Mathlib.Data.Set.Basic

/- Owners of disjoint bit masks, with one word that is the union of what is owned. -/
namespace MaskUnion

variable {ι : Type} {w : Nat} {mask : ι → BitVec w} {owns : ι → Prop} {union : BitVec w}

/-- The owned masks are pairwise disjoint and `union` has exactly their bits. -/
structure Tracks (mask : ι → BitVec w) (owns : ι → Prop) (union : BitVec w) : Prop where
  disjoint : ∀ i j, i ≠ j → owns i → owns j → mask i &&& mask j = 0
  union : ∀ bit, union.getLsbD bit = true ↔ ∃ i, owns i ∧ (mask i).getLsbD bit = true

theorem not_both_of_and_eq_zero {x y : BitVec w} (disjoint : x &&& y = 0) {bit : Nat}
    (left : x.getLsbD bit = true) : y.getLsbD bit = false := by
  have bits := congrArg (fun v => v.getLsbD bit) disjoint
  simpa [left] using bits

theorem and_eq_zero_of_not_both {x y : BitVec w}
    (apart : ∀ bit, x.getLsbD bit = true → y.getLsbD bit = false) : x &&& y = 0 := by
  refine BitVec.eq_of_getLsbD_eq fun bit _ => ?_
  cases left : x.getLsbD bit with
  | false => simp [left]
  | true => simp [apart bit left]

theorem Tracks.empty : Tracks mask (fun _ => False) 0 where
  disjoint _ _ _ held := held.elim
  union bit := by simp

theorem Tracks.congr {owns' : ι → Prop} (tracks : Tracks mask owns union)
    (same : ∀ i, owns' i ↔ owns i) : Tracks mask owns' union where
  disjoint i j ne first second := tracks.disjoint i j ne ((same i).mp first) ((same j).mp second)
  union bit := by simp only [tracks.union bit, same]

theorem Tracks.within (tracks : Tracks mask owns union) {i : ι} (held : owns i) {bit : Nat}
    (set : (mask i).getLsbD bit = true) : union.getLsbD bit = true :=
  (tracks.union bit).mpr ⟨i, held, set⟩

theorem Tracks.claim (tracks : Tracks mask owns union) {k : ι} (free : union &&& mask k = 0) :
    Tracks mask (fun i => owns i ∨ i = k) (union ||| mask k) where
  disjoint i j ne first second := by
    have apart : ∀ o, owns o → mask o &&& mask k = 0 := fun o held =>
      and_eq_zero_of_not_both fun bit set =>
        not_both_of_and_eq_zero free (tracks.within held set)
    rcases first with held | rfl
    · rcases second with held' | rfl
      · exact tracks.disjoint i j ne held held'
      · exact apart i held
    · rcases second with held' | rfl
      · rw [BitVec.and_comm]
        exact apart j held'
      · exact absurd rfl ne
  union bit := by
    rw [BitVec.getLsbD_or, Bool.or_eq_true, tracks.union bit]
    constructor
    · rintro (⟨i, held, set⟩ | set)
      · exact ⟨i, .inl held, set⟩
      · exact ⟨k, .inr rfl, set⟩
    · rintro ⟨i, held | rfl, set⟩
      · exact .inl ⟨i, held, set⟩
      · exact .inr set

theorem Tracks.release (tracks : Tracks mask owns union) {k : ι} (held : owns k) :
    Tracks mask (fun i => owns i ∧ i ≠ k) (union &&& ~~~mask k) where
  disjoint i j ne first second := tracks.disjoint i j ne first.1 second.1
  union bit := by
    rw [BitVec.getLsbD_and, Bool.and_eq_true, tracks.union bit]
    constructor
    · rintro ⟨⟨i, owner, set⟩, cleared⟩
      refine ⟨i, ⟨owner, ?_⟩, set⟩
      rintro rfl
      simp [BitVec.getLsbD_not, set] at cleared
    · rintro ⟨i, ⟨owner, ne⟩, set⟩
      refine ⟨⟨i, owner, set⟩, ?_⟩
      have apart := not_both_of_and_eq_zero (tracks.disjoint i k ne owner held) set
      have inside : bit < w := BitVec.lt_of_getLsbD set
      rw [BitVec.getLsbD_not, apart]
      simp [inside]

end MaskUnion
