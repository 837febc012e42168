import MxGpu.EepromUpgrade

/- The partition mode in a page number, and that no address of a socket comes near it. -/
namespace MxGpu.UmcV12.Upgrade

open BitFields

section Tag

variable {pa nps : Nat}

theorem testBit_npsMask (j : Nat) : (0xff <<< 40).testBit j = decide (40 ≤ j ∧ j < 48) := by
  have ones : (0xff : Nat) = 2 ^ 8 - 1 := rfl
  rw [ones, Nat.testBit_shiftLeft, Nat.testBit_two_pow_sub_one]
  by_cases high : 40 ≤ j
  · rw [decide_eq_true high, Bool.true_and]
    exact decide_eq_decide.mpr (by omega)
  · rw [decide_eq_false high, Bool.false_and]
    exact (decide_eq_false (by omega)).symm

theorem testBit_setNpsToPa (pa : Nat) (small : nps < 2 ^ 8) (j : Nat) :
    (setNpsToPa pa nps).testBit j =
      if 40 ≤ j ∧ j < 48 then nps.testBit (j - 40) else pa.testBit j := by
  rw [setNpsToPa, Nat.testBit_or, Nat.testBit_xor, Nat.testBit_and, testBit_npsMask,
    Nat.testBit_shiftLeft]
  by_cases inside : 40 ≤ j ∧ j < 48
  · simp [inside]
  · have none_ : (decide (40 ≤ j) && nps.testBit (j - 40)) = false := by
      rcases Nat.lt_or_ge j 40 with below | above
      · simp [Nat.not_le_of_lt below]
      · have beyond : nps < 2 ^ (j - 40) :=
          Nat.lt_of_lt_of_le small (Nat.pow_le_pow_right (by decide) (by omega))
        rw [Nat.testBit_lt_two_pow beyond, Bool.and_false]
    rw [none_]
    simp [inside]

theorem getNpsFromPa_eq (pa : Nat) : getNpsFromPa pa = pa / 2 ^ 40 % 2 ^ 8 := by
  rw [getNpsFromPa, Nat.shiftRight_eq_div_pow]
  exact Nat.and_two_pow_sub_one_eq_mod _ 8

theorem getNpsFromPa_lt (pa : Nat) : getNpsFromPa pa < 2 ^ 8 := by
  rw [getNpsFromPa_eq]
  exact Nat.mod_lt _ (by decide)

theorem getNpsFromPa_setNpsToPa (pa : Nat) (small : nps < 2 ^ 8) :
    getNpsFromPa (setNpsToPa pa nps) = nps := by
  rw [getNpsFromPa_eq]
  apply Nat.eq_of_testBit_eq
  intro j
  rw [Nat.testBit_mod_two_pow, Nat.testBit_div_two_pow, testBit_setNpsToPa pa small]
  by_cases low : j < 8
  · have inside : 40 ≤ j + 40 ∧ j + 40 < 48 := by omega
    rw [decide_eq_true low, Bool.true_and, if_pos inside, Nat.add_sub_cancel]
  · have beyond : nps < 2 ^ j :=
      Nat.lt_of_lt_of_le small (Nat.pow_le_pow_right (by decide) (by omega))
    rw [decide_eq_false low, Bool.false_and, Nat.testBit_lt_two_pow beyond]

theorem setNpsToPa_zero (pa : Nat) (small : nps < 2 ^ 8) :
    setNpsToPa (setNpsToPa pa nps) 0 = setNpsToPa pa 0 := by
  apply Nat.eq_of_testBit_eq
  intro j
  rw [testBit_setNpsToPa _ (Nat.two_pow_pos 8), testBit_setNpsToPa _ (Nat.two_pow_pos 8)]
  by_cases inside : 40 ≤ j ∧ j < 48
  · rw [if_pos inside, if_pos inside]
  · rw [if_neg inside, if_neg inside, testBit_setNpsToPa pa small, if_neg inside]

theorem setNpsToPa_of_lt (small : pa < 2 ^ 40) : setNpsToPa pa 0 = pa := by
  apply Nat.eq_of_testBit_eq
  intro j
  rw [testBit_setNpsToPa _ (Nat.two_pow_pos 8)]
  by_cases inside : 40 ≤ j ∧ j < 48
  · have beyond : pa < 2 ^ j :=
      Nat.lt_of_lt_of_le small (Nat.pow_le_pow_right (by decide) inside.1)
    rw [if_pos inside, Nat.zero_testBit, Nat.testBit_lt_two_pow beyond]
  · rw [if_neg inside]

theorem setNpsToPa_lt (small : pa < 2 ^ 48) : setNpsToPa pa 0 < 2 ^ 40 := by
  apply Nat.lt_pow_two_of_testBit
  intro j high
  rw [testBit_setNpsToPa _ (Nat.two_pow_pos 8)]
  by_cases inside : 40 ≤ j ∧ j < 48
  · rw [if_pos inside, Nat.zero_testBit]
  · rw [if_neg inside]
    exact Nat.testBit_lt_two_pow
      (Nat.lt_of_lt_of_le small (Nat.pow_le_pow_right (by decide) (by omega)))

theorem setNpsToPa_lt_of_lt (small : pa < 2 ^ 40) (mode : nps < 2 ^ 8) :
    setNpsToPa pa nps < 2 ^ 48 := by
  apply Nat.lt_pow_two_of_testBit
  intro j high
  rw [testBit_setNpsToPa _ mode, if_neg (by omega)]
  exact Nat.testBit_lt_two_pow
    (Nat.lt_of_lt_of_le small (Nat.pow_le_pow_right (by decide) (by omega)))

end Tag

section Bound

variable {lfbSize nps socPa naNps channelIndex nodeInst : Nat}

theorem scatter_lt {positions : List Nat} {value width : Nat}
    (low : ∀ position ∈ positions, position < width) : scatter positions value < 2 ^ width := by
  apply Nat.lt_pow_two_of_testBit
  intro j high
  apply testBit_scatter_of_not_mem
  intro inside
  exact absurd (low j inside) (Nat.not_lt_of_le high)

theorem convertAddrhi_lt (small : naNps < 2 ^ 32) : convertAddrhi naNps < 2 ^ 32 := by
  have mask : naNps &&& 0xf0000000 < 2 ^ 32 := Nat.and_lt_two_pow naNps (by decide)
  have stack : ((naNps &&& 0xf0000000) >>> 28) >>> 2 < 4 := by
    rw [Nat.shiftRight_eq_div_pow]
    omega
  have high : (((naNps &&& 0xf0000000) >>> 28) >>> 2 * 3 +
      ((naNps &&& 0xf0000000) >>> 28) % 4) <<< 28 < 2 ^ 32 := by
    rw [Nat.shiftLeft_eq]
    omega
  exact Nat.or_lt_two_pow (Nat.xor_lt_two_pow small mask) high

theorem sectionPa_wide {shift : Nat} (known : naShift nps = some shift) (size : lfbSize ≤ 2 ^ 39)
    (words : naNps < 2 ^ 32) (blocks : socPa / 2 ^ 15 = naNps >>> shift) (node : nodeInst < 4)
    (channel : channelIndex < 128) :
    sectionPa lfbSize nps socPa naNps channelIndex nodeInst < 2 ^ 52 := by
  have whole : naNps >>> shift ≤ naNps := by
    rw [Nat.shiftRight_eq_div_pow]
    exact Nat.div_le_self ..
  have half : lfbSize >>> 1 ≤ 2 ^ 39 := (Nat.shiftRight_le ..).trans size
  have quarter : lfbSize >>> 2 ≤ 2 ^ 39 := (Nat.shiftRight_le ..).trans size
  have eighth : lfbSize >>> 3 ≤ 2 ^ 39 := (Nat.shiftRight_le ..).trans size
  have nodes : nodeInst * (lfbSize >>> 2) ≤ 4 * 2 ^ 39 := Nat.mul_le_mul (by omega) quarter
  have pairs : nodeInst >>> 1 * (lfbSize >>> 1) ≤ 4 * 2 ^ 39 :=
    Nat.mul_le_mul ((Nat.shiftRight_le ..).trans (by omega)) half
  have channels : channelIndex >>> 4 * (lfbSize >>> 3) ≤ 128 * 2 ^ 39 :=
    Nat.mul_le_mul ((Nat.shiftRight_le ..).trans (by omega)) eighth
  rcases naShift_eq known with ⟨mode, -⟩ | ⟨mode, -⟩ | ⟨mode, -⟩ | ⟨mode, -⟩
  · subst mode
    change socPa < 2 ^ 52
    omega
  · subst mode
    have inside := putBits_div 1 5 (by decide) socPa naNps
    change putBits socPa (0x1 <<< 13) naNps 0x100 5 / 2 ^ 15 = _ at inside
    change putBits socPa (0x1 <<< 13) naNps 0x100 5 + nodeInst >>> 1 * (lfbSize >>> 1) < 2 ^ 52
    omega
  · subst mode
    have inside := putBits_div 2 4 (by decide) socPa naNps
    change putBits socPa (0x3 <<< 12) naNps 0x300 4 / 2 ^ 15 = _ at inside
    change putBits socPa (0x3 <<< 12) naNps 0x300 4 + nodeInst * (lfbSize >>> 2) < 2 ^ 52
    omega
  · subst mode
    have inside := putBits_div 3 4 (by decide) socPa naNps
    change putBits socPa (0x7 <<< 12) naNps 0x700 4 / 2 ^ 15 = _ at inside
    change putBits socPa (0x7 <<< 12) naNps 0x700 4 +
      (nodeInst * (lfbSize >>> 2) + channelIndex >>> 4 * (lfbSize >>> 3)) < 2 ^ 52
    omega

theorem ma2na_lt (mapping : List Nat)
    (listed : mapping = ma2naMapping ∨ mapping = ma2naMapping125) :
    ∀ position ∈ mapping.drop 1, position < 32 := by
  rcases listed with older | newer
  · subst older
    decide
  · subst newer
    decide

theorem convertMaToNpsPa_lt {vramType : DgpuVramType} {addrIn : UmcMcaAddr} {isMa : Bool}
    {p : UmcPhyAddr} (invalid : addrIn.nodeInst = umcInvAidNode)
    (gives : convertMaToNpsPa vramType addrIn nps isMa = some p) : p.pa < 2 ^ 52 := by
  unfold convertMaToNpsPa at gives
  obtain ⟨located, gives⟩ := Option.ite_none_right_eq_some.mp gives
  obtain ⟨shift, known, rfl⟩ := Option.map_eq_some_iff.mp gives
  have channel : addrIn.chInst < 128 := by
    have checked := located.2
    rwa [if_neg (not_not.mpr invalid)] at checked
  have pair (tbl : List (List (List Nat))) :
      channelAndNode tbl addrIn = (addrIn.chInst, addrIn.chInst / 32) :=
    if_neg (not_not.mpr invalid)
  have size : socketLfbSize ≤ 2 ^ 39 ∧ socketLfbSizeHbm3e ≤ 2 ^ 39 := by decide
  have granular : 2 ^ 15 ∣ socketLfbSizeHbm3e := ⟨0x900000, rfl⟩
  by_cases newer : vramType = .hbm3e
  · simp only [newer, decide_true, if_true, pair]
    exact sectionPa_wide known size.2
      (convertAddrhi_lt (scatter_lt (ma2na_lt _ (.inr rfl))))
      (hashedPa_div (by omega) granular) (by omega) channel
  · simp only [newer, decide_false, Bool.false_eq_true, if_false, pair]
    exact sectionPa_wide known size.1 (scatter_lt (ma2na_lt _ (.inl rfl)))
      (hashedPa_div (by omega) socketLfbSize_granular) (by omega) channel

theorem recordPa_lt (adapt : Adapter) (record : EepromTableRecord) (nps : Nat) (isMa : Bool) :
    recordPa adapt record nps isMa < 2 ^ 52 := by
  unfold recordPa
  dsimp only
  cases gives : convertMaToNpsPa adapt.vramType
      ⟨record.address, record.memChannel, record.mcumcId, umcInvAidNode, adapt.socketId⟩ nps
      isMa with
  | none => exact Nat.two_pow_pos 52
  | some p => exact convertMaToNpsPa_lt rfl gives

end Bound

end MxGpu.UmcV12.Upgrade
