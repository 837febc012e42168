import Mathlib.Data.List.Basic

/- Words that mark which of their bits are free: the lowest set bit, one bit cleared or set, and a
word that sums up others. Nothing here knows what the bits stand for. -/
namespace FreeBits

variable {w : Nat} {b : BitVec w} {p q : Nat → Prop} {i : Nat}

def ffs (b : BitVec w) : Nat := ((List.range w).find? fun i => b.getLsbD i).getD w

theorem exists_bit (h : b ≠ 0) : ∃ i < w, b.getLsbD i = true := by
  by_contra hnone
  apply h
  apply BitVec.eq_of_getLsbD_eq
  intro i hi
  have hclear : b.getLsbD i = false := by
    apply Bool.eq_false_iff.mpr
    intro hset
    exact hnone ⟨i, hi, hset⟩
  simp [hclear]

theorem ne_zero_of_bit (h : b.getLsbD i = true) : b ≠ 0 := by
  intro hzero
  simp [hzero] at h

theorem ffs_spec (h : b ≠ 0) : ffs b < w ∧ b.getLsbD (ffs b) = true := by
  obtain ⟨i, hi, hset⟩ := exists_bit h
  rw [ffs]
  cases hfind : (List.range w).find? fun i => b.getLsbD i with
  | none => exact absurd hset (List.find?_eq_none.mp hfind i (List.mem_range.mpr hi))
  | some k =>
    exact ⟨List.mem_range.mp (List.mem_of_find?_eq_some hfind), List.find?_some hfind⟩

def clearIf (cond : Bool) (i : Nat) (b : BitVec w) : BitVec w :=
  b &&& ~~~((BitVec.ofBool cond).setWidth w <<< i)

def setBit (i : Nat) (b : BitVec w) : BitVec w := b ||| ((1#w) <<< i)

theorem getLsbD_clearIf (cond : Bool) {k : Nat} (hk : k < w) :
    (clearIf cond i b).getLsbD k = (b.getLsbD k && !(cond && decide (k = i))) := by
  simp only [clearIf, BitVec.getLsbD_and, BitVec.getLsbD_not, BitVec.getLsbD_shiftLeft,
    BitVec.getLsbD_setWidth, BitVec.getLsbD_ofBool, hk, decide_true, Bool.true_and]
  by_cases hlt : k < i
  · have hne : k ≠ i := by omega
    simp [hlt, hne]
  · by_cases heq : k = i
    · have hw : 0 < w := by omega
      simp [heq, hw]
    · have hpos : k - i ≠ 0 := by omega
      simp [hlt, heq, hpos]

theorem getLsbD_setBit {k : Nat} (hk : k < w) :
    (setBit i b).getLsbD k = (b.getLsbD k || decide (k = i)) := by
  simp only [setBit, BitVec.getLsbD_or, BitVec.getLsbD_shiftLeft, BitVec.getLsbD_one, hk,
    decide_true, Bool.true_and]
  congr 1
  by_cases heq : k = i
  · have hw : 0 < w := by omega
    simp [heq, hw]
  · by_cases hlt : k < i
    · simp [hlt, heq]
    · have hpos : k - i ≠ 0 := by omega
      simp [hlt, heq, hpos]

def Marks (b : BitVec w) (p : Nat → Prop) : Prop := ∀ i < w, b.getLsbD i = true ↔ p i

theorem Marks.congr (h : Marks b p) (hsame : ∀ i < w, p i ↔ q i) : Marks b q :=
  fun i hi => (h i hi).trans (hsame i hi)

theorem Marks.ne_zero (h : Marks b p) : b ≠ 0 ↔ ∃ i < w, p i := by
  constructor
  · intro hne
    obtain ⟨i, hi, hset⟩ := exists_bit hne
    exact ⟨i, hi, (h i hi).mp hset⟩
  · rintro ⟨i, hi, hp⟩
    exact ne_zero_of_bit ((h i hi).mpr hp)

theorem Marks.ffs (h : Marks b p) (hne : b ≠ 0) : ffs b < w ∧ p (ffs b) := by
  obtain ⟨hlt, hset⟩ := ffs_spec hne
  exact ⟨hlt, (h _ hlt).mp hset⟩

theorem Marks.clearIf (h : Marks b p) (cond : Bool) (i : Nat) :
    Marks (clearIf cond i b) (fun k => p k ∧ ¬ (cond = true ∧ k = i)) := by
  intro k hk
  rw [getLsbD_clearIf cond hk]
  simp only [Bool.and_eq_true, Bool.not_eq_true', Bool.and_eq_false_iff, decide_eq_false_iff_not,
    h k hk, not_and]
  cases cond <;> simp

theorem Marks.setBit (h : Marks b p) (i : Nat) :
    Marks (setBit i b) (fun k => p k ∨ k = i) := by
  intro k hk
  rw [getLsbD_setBit hk]
  simp only [Bool.or_eq_true, decide_eq_true_eq, h k hk]

theorem clearIf_ne_zero {cond : Bool} (h : FreeBits.clearIf cond i b ≠ 0) : b ≠ 0 := by
  intro hzero
  apply h
  simp [FreeBits.clearIf, hzero]

theorem setBit_ne_zero (hi : i < w) : FreeBits.setBit i b ≠ 0 := by
  apply ne_zero_of_bit
  rw [getLsbD_setBit hi]
  simp

end FreeBits
