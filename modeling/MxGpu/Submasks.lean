import Mathlib.Data.Nat.BitIndices
import MxGpu.BitFields

/- The submasks of a mask: the numbers whose bits are all in the mask. Each is a value in the field
of the mask's bits, and going down by one in the field is `(s - 1) &&& mask` on the submask. -/
namespace Submasks

open BitFields

def weight (mask : Nat) : Nat := mask.bitIndices.length

def spread (mask value : Nat) : Nat := scatter mask.bitIndices value

section Spread

variable {mask value : Nat}

theorem testBit_spread_gather (mask word j : Nat) :
    (spread mask (gather mask.bitIndices word)).testBit j = (mask.testBit j && word.testBit j) := by
  unfold spread
  rw [testBit_scatter_gather Nat.bitIndices_nodup, Bool.eq_iff_iff]
  simp

theorem spread_gather (mask word : Nat) :
    spread mask (gather mask.bitIndices word) = word &&& mask := by
  apply Nat.eq_of_testBit_eq
  intro j
  rw [testBit_spread_gather, Nat.testBit_and, Bool.and_comm]

theorem spread_and (mask value : Nat) : spread mask value &&& mask = spread mask value := by
  apply Nat.eq_of_testBit_eq
  intro j
  rw [Nat.testBit_and]
  by_cases inside : mask.testBit j = true
  · rw [inside, Bool.and_true]
  · have outside : j ∉ mask.bitIndices := by simpa using inside
    rw [spread, testBit_scatter_of_not_mem outside, Bool.false_and]

theorem spread_injective {value' : Nat} (small : value < 2 ^ weight mask)
    (small' : value' < 2 ^ weight mask) (same : spread mask value = spread mask value') :
    value = value' := by
  calc value = gather mask.bitIndices (spread mask value) :=
        (gather_scatter Nat.bitIndices_nodup small).symm
    _ = gather mask.bitIndices (spread mask value') := by rw [same]
    _ = value' := gather_scatter Nat.bitIndices_nodup small'

theorem spread_zero (mask : Nat) : spread mask 0 = 0 := by
  apply Nat.eq_of_testBit_eq
  intro j
  rw [Bool.eq_iff_iff, spread, testBit_scatter]
  simp

theorem spread_pos (positive : 0 < value) (small : value < 2 ^ weight mask) :
    0 < spread mask value := by
  rcases Nat.eq_zero_or_pos (spread mask value) with zero | above
  · rw [← spread_zero mask] at zero
    have same := spread_injective small (Nat.two_pow_pos _) zero
    omega
  · exact above

theorem spread_last (mask : Nat) : spread mask (2 ^ weight mask - 1) = mask := by
  apply Nat.eq_of_testBit_eq
  intro j
  rw [Bool.eq_iff_iff, spread, testBit_scatter]
  simp only [Nat.testBit_two_pow_sub_one, decide_eq_true_iff]
  constructor
  · rintro ⟨i, there, -⟩
    exact Nat.mem_bitIndices.mp (List.mem_of_getElem? there)
  · intro bit
    obtain ⟨i, less, there⟩ := List.getElem_of_mem (Nat.mem_bitIndices.mpr bit)
    exact ⟨i, List.getElem?_eq_some_iff.mpr ⟨less, there⟩, less⟩

end Spread

section Down

theorem two_mul_or (a b : Nat) : 2 * a ||| 2 * b = 2 * (a ||| b) := by
  have double : ∀ word : Nat, 2 * word = word <<< 1 := fun word => by
    rw [Nat.shiftLeft_eq, Nat.pow_one, Nat.mul_comm]
  rw [double, double, double, Nat.shiftLeft_or_distrib]

theorem two_mul_or_mod_two (a b : Nat) : 2 * a ||| b % 2 = 2 * a + b % 2 := by
  have small : b % 2 < 2 ^ 1 := Nat.mod_lt b Nat.two_pos
  exact (Nat.two_pow_add_eq_or_of_lt small a).symm

theorem and_two_mul (a b : Nat) : a &&& 2 * b = 2 * (a / 2 &&& b) := by
  have half : (a &&& 2 * b) / 2 = a / 2 &&& 2 * b / 2 := Nat.and_div_two
  have even : ¬ (a &&& 2 * b) % 2 = 1 := by simp
  rw [Nat.mul_div_cancel_left b Nat.two_pos] at half
  omega

theorem and_two_mul_add_one (a b : Nat) : a &&& (2 * b + 1) = 2 * (a / 2 &&& b) + a % 2 := by
  have half : (a &&& (2 * b + 1)) / 2 = a / 2 &&& (2 * b + 1) / 2 := Nat.and_div_two
  have parity : (a &&& (2 * b + 1)) % 2 = 1 ↔ a % 2 = 1 := by simp
  rw [show (2 * b + 1) / 2 = b by omega] at half
  omega

theorem scatter_map_succ (positions : List Nat) (value : Nat) :
    scatter (positions.map (· + 1)) value = 2 * scatter positions value := by
  induction positions generalizing value with
  | nil => rfl
  | cons position rest ih =>
    rw [List.map_cons, scatter, scatter, ih, Nat.shiftLeft_succ, two_mul_or]

theorem spread_even (half value : Nat) : spread (2 * half) value = 2 * spread half value := by
  rw [spread, Nat.bitIndices_two_mul, scatter_map_succ, spread]

theorem spread_odd (half value : Nat) :
    spread (2 * half + 1) value = 2 * spread half (value / 2) + value % 2 := by
  have bit : (value.testBit 0).toNat = value % 2 := by
    rw [Nat.testBit_zero]
    rcases Nat.mod_two_eq_zero_or_one value with even | odd
    · simp [even]
    · simp [odd]
  rw [spread, Nat.bitIndices_two_mul_add_one, scatter, scatter_map_succ, Nat.shiftLeft_zero,
    Nat.shiftRight_eq_div_pow, Nat.pow_one, bit, Nat.or_comm, two_mul_or_mod_two, spread]

theorem weight_even (half : Nat) : weight (2 * half) = weight half := by
  simp [weight]

theorem weight_odd (half : Nat) : weight (2 * half + 1) = weight half + 1 := by
  simp [weight]

theorem spread_pred {mask value : Nat} (small : value + 1 < 2 ^ weight mask) :
    (spread mask (value + 1) - 1) &&& mask = spread mask value := by
  induction mask using Nat.strongRecOn generalizing value with
  | ind mask ih =>
    obtain ⟨half, even | odd⟩ := Nat.even_or_odd' mask
    · -- the lowest bit is not in the mask, and the borrow goes through it
      rw [even, weight_even] at small
      have less : half < mask := by
        rcases Nat.eq_zero_or_pos half with zero | above
        · rw [zero] at small
          simp [weight] at small
        · omega
      rw [even, spread_even, spread_even, and_two_mul,
        show (2 * spread half (value + 1) - 1) / 2 = spread half (value + 1) - 1 by omega,
        ih half less small]
    · have less : half < mask := by omega
      rw [odd, weight_odd, Nat.pow_succ] at small
      rw [odd, spread_odd, spread_odd, and_two_mul_add_one]
      rcases Nat.mod_two_eq_zero_or_one value with low | high
      · -- the lowest bit is cleared
        rw [show (value + 1) / 2 = value / 2 by omega, show (value + 1) % 2 = 1 by omega,
          Nat.add_sub_cancel, Nat.mul_div_cancel_left _ Nat.two_pos, spread_and, low]
        omega
      · -- it is set, and the rest of the field is one less
        have fits : value / 2 + 1 < 2 ^ weight half := by omega
        have positive : 0 < spread half (value / 2 + 1) := spread_pos (Nat.succ_pos _) fits
        rw [show (value + 1) / 2 = value / 2 + 1 by omega, show (value + 1) % 2 = 0 by omega,
          Nat.add_zero, show (2 * spread half (value / 2 + 1) - 1) / 2 =
            spread half (value / 2 + 1) - 1 by omega, ih half less fits]
        omega

end Down

end Submasks
