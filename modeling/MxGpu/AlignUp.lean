import Mathlib.Tactic.Linarith

/- Rounding an address up to an alignment, on numbers and with the mask that does
it on machine words. -/
namespace AlignUp

/-- The smallest multiple of `a` from `x` on. -/
def alignUp (x a : Nat) : Nat := (x + (a - 1)) / a * a

variable {x y a : Nat}

theorem dvd_alignUp (x a : Nat) : a ∣ alignUp x a := Nat.dvd_mul_left a _

theorem le_alignUp (x : Nat) (ha : 0 < a) : x ≤ alignUp x a := by
  have hmod := Nat.mod_lt (x + (a - 1)) ha
  have hdiv := Nat.div_add_mod' (x + (a - 1)) a
  unfold alignUp
  omega

theorem alignUp_lt (x : Nat) (ha : 0 < a) : alignUp x a < x + a := by
  have hle := Nat.div_mul_le_self (x + (a - 1)) a
  unfold alignUp
  omega

theorem alignUp_least (hxy : x ≤ y) (hy : a ∣ y) : alignUp x a ≤ y := by
  obtain ⟨m, rfl⟩ := hy
  rcases Nat.eq_zero_or_pos a with rfl | ha
  · simp [alignUp]
  · unfold alignUp
    rw [Nat.mul_comm a m]
    apply Nat.mul_le_mul_right
    rw [Nat.div_le_iff_le_mul_add_pred ha]
    rw [Nat.mul_comm a m] at hxy ⊢
    omega

theorem alignUp_mono (hxy : x ≤ y) : alignUp x a ≤ alignUp y a := by
  unfold alignUp
  apply Nat.mul_le_mul_right
  apply Nat.div_le_div_right
  omega

theorem alignUp_between (hxy : x ≤ y) (hy : y ≤ alignUp x a) : alignUp y a = alignUp x a :=
  Nat.le_antisymm (alignUp_least hy (dvd_alignUp x a)) (alignUp_mono hxy)

section Words

variable {w k : Nat} {a x : BitVec w}

theorem toNat_and_not (x : BitVec w) (ha : a.toNat = 2 ^ k) :
    (x &&& ~~~(a - 1)).toNat + x.toNat % 2 ^ k = x.toNat := by
  have hk : 2 ^ k < 2 ^ w := by
    rw [← ha]
    exact a.isLt
  have hw : 0 < w := by
    apply Nat.pos_of_ne_zero
    intro h
    subst h
    have := Nat.two_pow_pos k
    omega
  have hmask : (a - 1).toNat = 2 ^ k - 1 := by
    have hone : (1 : BitVec w).toNat = 1 := Nat.mod_eq_of_lt (Nat.one_lt_two_pow hw.ne')
    have hpos := Nat.two_pow_pos k
    rw [BitVec.toNat_sub_of_le, ha, hone]
    rw [BitVec.le_def, ha, hone]
    omega
  have hlow : (x &&& (a - 1)).toNat = x.toNat % 2 ^ k := by
    rw [BitVec.toNat_and, hmask, Nat.and_two_pow_sub_one_eq_mod]
  have hapart : (x &&& ~~~(a - 1)) &&& (x &&& (a - 1)) = 0#w := by
    ext i hi
    simp only [BitVec.getElem_and, BitVec.getElem_not, BitVec.getElem_zero]
    cases x[i] <;> cases (a - 1)[i] <;> rfl
  have hwhole : (x &&& ~~~(a - 1)) ||| (x &&& (a - 1)) = x := by
    ext i hi
    simp only [BitVec.getElem_or, BitVec.getElem_and, BitVec.getElem_not]
    cases x[i] <;> cases (a - 1)[i] <;> rfl
  have hsum := BitVec.toNat_add_of_and_eq_zero hapart
  rw [BitVec.add_eq_or_of_and_eq_zero _ _ hapart, hwhole, hlow] at hsum
  exact hsum.symm

theorem add_lt_of_alignUp_lt (hk : k ≤ w) {x : Nat} (hfit : alignUp x (2 ^ k) < 2 ^ w) :
    x + (2 ^ k - 1) < 2 ^ w := by
  have hpos := Nat.two_pow_pos k
  have hle := le_alignUp x hpos
  obtain ⟨m, hm⟩ := dvd_alignUp x (2 ^ k)
  have hpow : 2 ^ w = 2 ^ k * 2 ^ (w - k) := by
    rw [← Nat.pow_add]
    congr 1
    omega
  rw [hm, hpow] at hfit
  have hroom := Nat.mul_le_mul_left (2 ^ k) (Nat.succ_le_of_lt (Nat.lt_of_mul_lt_mul_left hfit))
  rw [← hpow, Nat.mul_succ, ← hm] at hroom
  omega

theorem toNat_alignUp (ha : a.toNat = 2 ^ k) (hfit : alignUp x.toNat (2 ^ k) < 2 ^ w) :
    ((x + a - 1) &&& ~~~(a - 1)).toNat = alignUp x.toNat (2 ^ k) := by
  have hpos := Nat.two_pow_pos k
  have hk : 2 ^ k < 2 ^ w := by
    rw [← ha]
    exact a.isLt
  have hkw : k < w := (Nat.pow_lt_pow_iff_right (by decide)).mp hk
  have hsmall := add_lt_of_alignUp_lt hkw.le hfit
  have hw : w ≠ 0 := by
    intro h
    subst h
    omega
  have hone : (1 : BitVec w).toNat = 1 := Nat.mod_eq_of_lt (Nat.one_lt_two_pow hw)
  have hsum : (x + a - 1).toNat = x.toNat + (2 ^ k - 1) := by
    rw [BitVec.toNat_sub, BitVec.toNat_add, ha, hone]
    rcases Nat.lt_or_ge (x.toNat + 2 ^ k) (2 ^ w) with hlt | hge
    · rw [Nat.mod_eq_of_lt hlt, show 2 ^ w - 1 + (x.toNat + 2 ^ k) =
        x.toNat + (2 ^ k - 1) + 2 ^ w by omega, Nat.add_mod_right, Nat.mod_eq_of_lt hsmall]
    · have heq : x.toNat + 2 ^ k = 2 ^ w := by omega
      rw [heq, Nat.mod_self, Nat.add_zero, Nat.mod_eq_of_lt (by omega)]
      omega
  have hmask := toNat_and_not (x + a - 1) ha
  rw [hsum] at hmask
  have hdiv := Nat.div_add_mod' (x.toNat + (2 ^ k - 1)) (2 ^ k)
  unfold alignUp
  omega

end Words

end AlignUp
