import MxGpu.VfLayout

/- What each step of the layout computes, and when it does so without wrapping. -/
namespace VfLayout

open TrackedWord AlignUp

namespace Adapter

variable (adapt : Adapter)

section Alignment

theorem unit_pow : ∃ k ≤ 32, adapt.unit = 2 ^ k ∧ 4 ≤ k := by
  obtain known | known := adapt.fbAlignment_known
  · exact ⟨4, by decide, by simp [unit, functionFbAlignment, known], by decide⟩
  · exact ⟨8, by decide, by simp [unit, functionFbAlignment, known], by decide⟩

theorem unit_cases : adapt.unit = 16 ∨ adapt.unit = 256 := by
  obtain known | known := adapt.fbAlignment_known
  · left
    simp [unit, functionFbAlignment, known]
  · right
    simp [unit, functionFbAlignment, known]

theorem unit_pos : 0 < adapt.unit := by
  have := adapt.unit_cases
  omega

theorem sixteen_dvd {x : Nat} (multiple : adapt.unit ∣ x) : 16 ∣ x := by
  obtain known | known := adapt.unit_cases
  · rwa [known] at multiple
  · rw [known] at multiple
    omega

theorem alignUp_fits {x : Nat} (fits : alignUp x adapt.unit < 2 ^ 32) :
    x + (adapt.unit - 1) < 2 ^ 32 := by
  obtain ⟨k, hk, known, -⟩ := adapt.unit_pow
  rw [known] at fits ⊢
  exact add_lt_of_alignUp_lt hk fits

theorem roundup_unit (x : Megabytes) :
    (roundup x adapt.functionFbAlignment).exact = true ↔
      x.toNat + (adapt.unit - 1) < 2 ^ 32 :=
  roundup_exact adapt.unit_pos

theorem roundup_unit_toNat {x : Megabytes} (fits : x.toNat + (adapt.unit - 1) < 2 ^ 32) :
    (roundup x adapt.functionFbAlignment).val.toNat = alignUp x.toNat adapt.unit :=
  roundup_toNat adapt.unit_pos fits

theorem unit_wide : (adapt.functionFbAlignment.setWidth 64).toNat = adapt.unit := by
  rw [BitVec.toNat_setWidth, Nat.mod_eq_of_lt]
  · rfl
  · have := adapt.functionFbAlignment.isLt
    omega

end Alignment

section Host

theorem pfFbMinSize_toNat : adapt.pfFbMinSize.toNat = adapt.pfMinimum := by
  unfold pfFbMinSize pfMinimum
  cases adapt.memmgrPf with
  | none => rfl
  | some memmgr =>
    simp only []
    split
    · rw [BitVec.toNat_ushiftRight, Nat.shiftRight_eq_div_pow]
    · have wide : (adapt.functionFbAlignment.setWidth 64 <<< 20).toNat = adapt.unit * 2 ^ 20 := by
        have := adapt.unit_cases
        rw [BitVec.toNat_shiftLeft, unit_wide, Nat.shiftLeft_eq, Nat.mod_eq_of_lt]
        omega
      have positive := adapt.unit_pos
      rw [BitVec.toNat_ushiftRight, Nat.shiftRight_eq_div_pow, roundup_value, wide]
      · have used : (if memmgr.size ≥ defaultUsePfBytes then
            memmgr.tom + (memmgr.size - defaultUsePfBytes) else memmgr.tom).toNat =
            (memmgr.tom.toNat + (memmgr.size.toNat - 2 ^ 28)) % 2 ^ 64 := by
          have share : defaultUsePfBytes.toNat = 2 ^ 28 := by decide
          split
          · bv_omega
          · bv_omega
        rw [used, ← Nat.mul_assoc, Nat.mul_div_cancel _ (by decide)]
      · rw [wide]
        omega

theorem initPfConfig_exact : adapt.initPfConfig.exact = true ↔ adapt.OptionFits := by
  unfold initPfConfig OptionFits
  cases adapt.usePf with
  | false => simp
  | true =>
    cases adapt.pfOption with
    | none => simp
    | some size =>
      have wide : (size.setWidth 64).toNat = size.toNat := by
        rw [BitVec.toNat_setWidth]
        omega
      have compare : adapt.pfFbMinSize > size.setWidth 64 ↔ size.toNat < adapt.pfMinimum := by
        rw [gt_iff_lt, BitVec.lt_def, wide, pfFbMinSize_toNat]
      by_cases larger : size.toNat < adapt.pfMinimum
      · simp [compare, larger]
      · simp [compare, larger, roundup_unit, Nat.le_of_not_lt larger]

theorem initPfConfig_toNat (fits : adapt.OptionFits) :
    adapt.initPfConfig.val.toNat = adapt.pfDemand := by
  have minimum := adapt.pfFbMinSize_toNat
  unfold initPfConfig pfDemand
  unfold OptionFits at fits
  cases usePf : adapt.usePf with
  | false => simp [BitVec.toNat_setWidth, minimum]
  | true =>
    cases given : adapt.pfOption with
    | none =>
      have larger : (if adapt.pfFbMinSize > 256 then adapt.pfFbMinSize else 256).toNat =
          max adapt.pfMinimum 256 := by
        split
        · bv_omega
        · bv_omega
      show ((if adapt.pfFbMinSize > 256 then adapt.pfFbMinSize else 256).setWidth 32).toNat = _
      rw [BitVec.toNat_setWidth, larger]
      rfl
    | some size =>
      have wide : (size.setWidth 64).toNat = size.toNat := by
        rw [BitVec.toNat_setWidth]
        omega
      have compare : adapt.pfFbMinSize > size.setWidth 64 ↔ size.toNat < adapt.pfMinimum := by
        rw [gt_iff_lt, BitVec.lt_def, wide, minimum]
      by_cases larger : size.toNat < adapt.pfMinimum
      · simp [compare, larger, BitVec.toNat_setWidth, minimum]
      · have room := fits usePf size (by simp [given]) (Nat.le_of_not_lt larger)
        simp [compare, larger, roundup_unit_toNat _ room]

end Host

section Split

variable (pfFbSize : Megabytes)

theorem splitEqually_exact : (adapt.splitEqually pfFbSize).exact = true ↔
    pfFbSize.toNat ≤ adapt.totalFbUsable.toNat ∧ pfFbSize.toNat + (adapt.unit - 1) < 2 ^ 32 := by
  rw [splitEqually, exact_bind, sub_exact, exact_bind, roundup_unit, exact_bind]
  simp [rounddown_exact]

variable {pfFbSize}

theorem splitEqually_offset (room : pfFbSize.toNat + (adapt.unit - 1) < 2 ^ 32) :
    (adapt.splitEqually pfFbSize).val.fbOffset.toNat = alignUp pfFbSize.toNat adapt.unit :=
  adapt.roundup_unit_toNat room

theorem splitEqually_size (below : pfFbSize.toNat ≤ adapt.totalFbUsable.toNat) :
    (adapt.splitEqually pfFbSize).val.fbSize.toNat =
      (adapt.totalFbUsable.toNat - pfFbSize.toNat) / adapt.numVf.toNat / adapt.unit *
        adapt.unit := by
  show (rounddown ((sub adapt.totalFbUsable pfFbSize).val / adapt.numVf)
    adapt.functionFbAlignment).val.toNat = _
  rw [rounddown_toNat, BitVec.toNat_udiv, sub_toNat below]
  rfl

theorem shares_total (rest : Nat) :
    adapt.numVf.toNat * (rest / adapt.numVf.toNat / adapt.unit * adapt.unit) =
      rest - rest % (adapt.numVf.toNat * adapt.unit) := by
  have parts := Nat.div_add_mod rest (adapt.numVf.toNat * adapt.unit)
  rw [Nat.div_div_eq_div_mul]
  have swap : adapt.numVf.toNat * (rest / (adapt.numVf.toNat * adapt.unit) * adapt.unit) =
      adapt.numVf.toNat * adapt.unit * (rest / (adapt.numVf.toNat * adapt.unit)) := by ring
  omega

theorem equalFits_iff : adapt.EqualFits ↔
    adapt.pfDemand ≤ adapt.totalFbUsable.toNat ∧
      alignUp adapt.pfDemand adapt.unit + adapt.numVf.toNat * adapt.equalShare ≤
        adapt.totalFbUsable.toNat := by
  have total := adapt.shares_total (adapt.totalFbUsable.toNat - adapt.pfDemand)
  have above := le_alignUp adapt.pfDemand adapt.unit_pos
  have part := Nat.mod_le (adapt.totalFbUsable.toNat - adapt.pfDemand)
    (adapt.numVf.toNat * adapt.unit)
  unfold EqualFits equalShare
  omega

end Split

section Entries

def vfSpans (vfs : List VfEntry) : List Tiling.Span := vfs.map fun entry => entry.fb.span

variable {share : FbRange} {tmrSize slot : Megabytes}

theorem counter_toNat {idx left : Nat} (small : idx + (left + 1) ≤ 2 ^ 32) :
    (BitVec.ofNat 32 idx).toNat = idx := by
  rw [BitVec.toNat_ofNat, Nat.mod_eq_of_lt]
  omega

theorem initEntriesTmr_exact (left idx : Nat) (small : idx + left ≤ 2 ^ 32) :
    (initEntriesTmr share tmrSize slot left idx).exact = true ↔
      ∀ i, idx ≤ i → i < idx + left →
        share.fbOffset.toNat + i * share.fbSize.toNat < 2 ^ 32 ∧
        share.fbSize.toNat + tmrSize.toNat < 2 ^ 32 ∧
        share.fbOffset.toNat + i * slot.toNat < 2 ^ 32 := by
  induction left generalizing idx with
  | zero =>
    simp only [initEntriesTmr, exact_pure, true_iff]
    intro i low high
    omega
  | succ left ih =>
    have counter := counter_toNat small
    have later := ih (idx + 1) (by omega)
    simp only [initEntriesTmr, exact_bind, mul_exact, add_exact, counter, exact_pure, and_true,
      later]
    constructor
    · rintro ⟨before, fits, size, beforeTmr, fitsTmr, rest⟩ i low high
      rw [mul_toNat (by rw [counter]; exact before), counter] at fits
      rw [mul_toNat (by rw [counter]; exact beforeTmr), counter] at fitsTmr
      rcases Nat.eq_or_lt_of_le low with rfl | above
      · exact ⟨fits, size, fitsTmr⟩
      · exact rest i above (by omega)
    · intro all
      obtain ⟨fits, size, fitsTmr⟩ := all idx (Nat.le_refl _) (by omega)
      have before : idx * share.fbSize.toNat < 2 ^ 32 := by omega
      have beforeTmr : idx * slot.toNat < 2 ^ 32 := by omega
      refine ⟨before, ?_, size, beforeTmr, ?_, ?_⟩
      · rw [mul_toNat (by rw [counter]; exact before), counter]
        exact fits
      · rw [mul_toNat (by rw [counter]; exact beforeTmr), counter]
        exact fitsTmr
      · intro i low high
        exact all i (by omega) (by omega)

theorem initEntriesTmr_spans (left idx : Nat) (small : idx + left ≤ 2 ^ 32)
    (fits : ∀ i, idx ≤ i → i < idx + left →
      share.fbOffset.toNat + i * share.fbSize.toNat < 2 ^ 32) :
    vfSpans (initEntriesTmr share tmrSize slot left idx).val =
      (List.range' idx left).map fun i =>
        (share.fbOffset.toNat + i * share.fbSize.toNat, share.fbSize.toNat) := by
  induction left generalizing idx with
  | zero => rfl
  | succ left ih =>
    have counter := counter_toNat small
    have here := fits idx (Nat.le_refl _) (by omega)
    have later := ih (idx + 1) (by omega) fun i low high => fits i (by omega) (by omega)
    have before : (mul (BitVec.ofNat 32 idx) share.fbSize).val.toNat =
        idx * share.fbSize.toNat := by
      rw [mul_toNat, counter]
      rw [counter]
      omega
    have offset : (add share.fbOffset (mul (BitVec.ofNat 32 idx) share.fbSize).val).val.toNat =
        share.fbOffset.toNat + idx * share.fbSize.toNat := by
      rw [add_toNat, before]
      rw [before]
      exact here
    rw [List.range'_succ, List.map_cons, ← later, ← offset]
    rfl

variable {numaFbSize : Megabytes}

theorem nextOffset_single (single : adapt.perNode = false) (idx : Nat) (share : FbRange) :
    adapt.nextOffset numaFbSize idx share = add share.fbOffset share.fbSize := by
  rw [nextOffset, single]
  rfl

theorem initEntries_exact (single : adapt.perNode = false) (left idx : Nat) (share : FbRange) :
    (adapt.initEntries numaFbSize left idx share).exact = true ↔
      share.fbOffset.toNat + left * share.fbSize.toNat < 2 ^ 32 := by
  induction left generalizing idx share with
  | zero =>
    have bound := share.fbOffset.isLt
    simp only [initEntries, exact_pure, true_iff]
    omega
  | succ left ih =>
    simp only [initEntries, exact_bind, adapt.nextOffset_single single, add_exact, ih,
      exact_pure, and_true, Nat.succ_mul]
    constructor
    · rintro ⟨fits, rest⟩
      rw [add_toNat fits] at rest
      omega
    · intro fits
      have here : share.fbOffset.toNat + share.fbSize.toNat < 2 ^ 32 := by omega
      rw [add_toNat here]
      omega

theorem initEntries_spans (single : adapt.perNode = false) (left idx : Nat) (share : FbRange)
    (fits : share.fbOffset.toNat + left * share.fbSize.toNat < 2 ^ 32) :
    vfSpans (adapt.initEntries numaFbSize left idx share).val =
      (List.range' 0 left).map fun i =>
        (share.fbOffset.toNat + i * share.fbSize.toNat, share.fbSize.toNat) := by
  induction left generalizing idx share with
  | zero => rfl
  | succ left ih =>
    rw [Nat.succ_mul] at fits
    have here : share.fbOffset.toNat + share.fbSize.toNat < 2 ^ 32 := by omega
    have later := ih (idx + 1) { share with fbOffset := (add share.fbOffset share.fbSize).val }
      (by simp only [add_toNat here]; omega)
    simp only [add_toNat here] at later
    simp only [initEntries, adapt.nextOffset_single single, val_bind, val_pure, vfSpans,
      List.map_cons] at later ⊢
    rw [later, List.range'_succ, List.map_cons, List.range'_eq_map_range, List.range'_eq_map_range]
    simp [FbRange.span, Nat.add_mul, Nat.add_assoc, Nat.add_comm share.fbSize.toNat]

theorem nextOffset_node (node : adapt.perNode = true) (idx : Nat) (share : FbRange)
    (small : idx + 1 < 2 ^ 32)
    (fits : numaFbSize.toNat / adapt.numVf.toNat * (idx + 1) < 2 ^ 32) :
    (adapt.nextOffset numaFbSize idx share).exact = true ∧
      (adapt.nextOffset numaFbSize idx share).val.toNat =
        numaFbSize.toNat / adapt.numVf.toNat * (idx + 1) := by
  have counter : (BitVec.ofNat 32 (idx + 1)).toNat = idx + 1 := by
    rw [BitVec.toNat_ofNat, Nat.mod_eq_of_lt small]
  rw [nextOffset, if_pos node]
  constructor
  · rw [mul_exact, counter, BitVec.toNat_udiv]
    exact fits
  · rw [mul_toNat, counter, BitVec.toNat_udiv]
    rw [counter, BitVec.toNat_udiv]
    exact fits

theorem initEntries_node (node : adapt.perNode = true) (left idx : Nat) (share : FbRange)
    (small : idx + left + 1 < 2 ^ 32)
    (fits : numaFbSize.toNat / adapt.numVf.toNat * (idx + left + 1) < 2 ^ 32) :
    (adapt.initEntries numaFbSize (left + 1) idx share).exact = true ∧
      vfSpans (adapt.initEntries numaFbSize (left + 1) idx share).val =
        share.span :: (List.range' (idx + 1) left).map fun i =>
          (numaFbSize.toNat / adapt.numVf.toNat * i, share.fbSize.toNat) := by
  induction left generalizing idx share with
  | zero =>
    obtain ⟨exact, -⟩ := adapt.nextOffset_node node idx share small fits
    rw [initEntries]
    constructor
    · rw [exact_bind]
      exact ⟨exact, rfl⟩
    · rfl
  | succ left ih =>
    have fewer : numaFbSize.toNat / adapt.numVf.toNat * (idx + 1) ≤
        numaFbSize.toNat / adapt.numVf.toNat * (idx + (left + 1) + 1) :=
      Nat.mul_le_mul_left _ (by omega)
    obtain ⟨exact, value⟩ := adapt.nextOffset_node node idx share (by omega)
      (lt_of_le_of_lt fewer fits)
    obtain ⟨exactRest, rest⟩ := ih (idx + 1)
      { share with fbOffset := (adapt.nextOffset numaFbSize idx share).val }
      (by omega) (by rwa [show idx + 1 + left + 1 = idx + (left + 1) + 1 by omega])
    rw [initEntries]
    constructor
    · rw [exact_bind, exact_bind]
      exact ⟨exact, exactRest, rfl⟩
    · rw [FbRange.span, value] at rest
      rw [List.range'_succ, List.map_cons, ← rest]
      rfl

end Entries

section Nodes

theorem perNode_iff :
    adapt.perNode = true ↔ 1 < adapt.numaCount.toNat ∧ 1 < adapt.numVf.toNat := by
  rw [perNode, Bool.and_eq_true_iff, decide_eq_true_iff, decide_eq_true_iff]
  exact Iff.rfl

theorem numaNodeSize_toNat : adapt.numaNodeSize.toNat =
    (adapt.numaEnd - adapt.numaStart + 1).toNat / 2 ^ 20 % 2 ^ 32 := by
  rw [numaNodeSize, BitVec.toNat_setWidth, BitVec.toNat_ushiftRight, Nat.shiftRight_eq_div_pow]

theorem numaFbSize_exact : adapt.numaFbSize.exact = true ↔ adapt.numaTotal < 2 ^ 32 := by
  unfold numaFbSize numaTotal
  split
  · rw [mul_exact, numaNodeSize_toNat]
  · have none : adapt.numaCount.toNat = 0 := by bv_omega
    simp [none]

theorem numaFbSize_toNat (fits : adapt.numaTotal < 2 ^ 32) :
    adapt.numaFbSize.val.toNat = adapt.numaTotal := by
  unfold numaTotal at fits ⊢
  unfold numaFbSize
  split
  · rw [← numaNodeSize_toNat] at fits ⊢
    exact mul_toNat fits
  · have none : adapt.numaCount.toNat = 0 := by bv_omega
    rw [none]
    rfl

variable {pfFbSize numaFbSize : Megabytes}

theorem tmrIpDataSize_exact : (adapt.tmrIpDataSize numaFbSize).exact = true := by
  unfold tmrIpDataSize
  split
  · rename_i reserve
    rw [sub_exact, ← Nat.not_lt, ← BitVec.lt_def]
    exact reserve.2
  · rfl

theorem tmrIpDataSize_toNat (node : adapt.perNode = true)
    (above : adapt.totalFbUsable.toNat ≤ numaFbSize.toNat) :
    (adapt.tmrIpDataSize numaFbSize).val.toNat =
      numaFbSize.toNat - adapt.totalFbUsable.toNat := by
  have several := (adapt.perNode_iff.mp node).1
  have some : adapt.numaCount > 0 := by bv_omega
  rw [tmrIpDataSize, if_pos, sub_toNat above]
  refine ⟨some, ?_⟩
  rw [BitVec.lt_def]
  omega

theorem firstShare_equal (split : ¬ (adapt.perNode = true ∧
    adapt.totalFbUsable.toNat ≤ numaFbSize.toNat)) :
    ((adapt.firstShare pfFbSize numaFbSize).exact = true ↔
        (adapt.splitEqually pfFbSize).exact = true) ∧
      (adapt.firstShare pfFbSize numaFbSize).val = (adapt.splitEqually pfFbSize).val := by
  have other : ¬ (adapt.perNode = true ∧ ¬ numaFbSize < adapt.totalFbUsable) := by
    rw [BitVec.lt_def, Nat.not_lt]
    exact split
  have none (top : Megabytes) : adapt.nodeShare pfFbSize numaFbSize top =
      pure { fbOffset := 0, fbSize := 0 } := by
    rw [nodeShare, if_neg other]
  constructor
  · rw [firstShare, exact_bind, exact_bind, none]
    simp [tmrIpDataSize_exact]
  · rw [firstShare, val_bind, val_bind, none]
    rfl

/-- `vf_fb_offset` in the first node: behind the PF, and behind what the last node gives up. -/
def reserve (pfFbSize top : Megabytes) : Megabytes := if pfFbSize > top then pfFbSize else top

theorem reserve_toNat (top : Megabytes) :
    (reserve pfFbSize top).toNat = max pfFbSize.toNat top.toNat := by
  unfold reserve
  split
  · bv_omega
  · bv_omega

variable {top : Megabytes}

theorem reserve_offset (room : alignUp (max pfFbSize.toNat top.toNat) adapt.unit < 2 ^ 32) :
    (roundup (reserve pfFbSize top) adapt.functionFbAlignment).val.toNat =
      alignUp (max pfFbSize.toNat top.toNat) adapt.unit := by
  rw [adapt.roundup_unit_toNat, reserve_toNat]
  rw [reserve_toNat]
  exact adapt.alignUp_fits room

theorem splitByNode_exact : (adapt.splitByNode pfFbSize numaFbSize top).exact = true ↔
    alignUp (max pfFbSize.toNat top.toNat) adapt.unit ≤
      numaFbSize.toNat / adapt.numVf.toNat := by
  have bound := numaFbSize.isLt
  have node := Nat.div_le_self numaFbSize.toNat adapt.numVf.toNat
  rw [splitByNode, exact_bind, ← reserve, roundup_unit, reserve_toNat]
  constructor
  · rintro ⟨fits, rest⟩
    rw [exact_bind, sub_exact, adapt.roundup_unit_toNat (by rw [reserve_toNat]; exact fits),
      reserve_toNat, BitVec.toNat_udiv] at rest
    exact rest.1
  · intro room
    have fits := lt_of_le_of_lt (room.trans node) bound
    have offset := adapt.reserve_offset fits
    refine ⟨adapt.alignUp_fits fits, ?_⟩
    rw [exact_bind, sub_exact, offset, BitVec.toNat_udiv]
    refine ⟨room, ?_⟩
    rw [exact_bind, exact_bind, mul_exact, rounddown_toNat, sub_toNat, BitVec.toNat_udiv]
    · refine ⟨rounddown_exact, ?_, rfl⟩
      apply lt_of_le_of_lt _ bound
      calc
        _ ≤ (numaFbSize.toNat / adapt.numVf.toNat) * adapt.numVf.toNat := by
          apply Nat.mul_le_mul_right
          exact (Nat.div_mul_le_self _ _).trans (Nat.sub_le _ _)
        _ ≤ numaFbSize.toNat := Nat.div_mul_le_self _ _
    · rw [offset, BitVec.toNat_udiv]
      exact room

theorem splitByNode_val (room : alignUp (max pfFbSize.toNat top.toNat) adapt.unit ≤
      numaFbSize.toNat / adapt.numVf.toNat) :
    (adapt.splitByNode pfFbSize numaFbSize top).val.span =
      (alignUp (max pfFbSize.toNat top.toNat) adapt.unit,
        (numaFbSize.toNat / adapt.numVf.toNat -
          alignUp (max pfFbSize.toNat top.toNat) adapt.unit) / adapt.unit * adapt.unit) := by
  have node := Nat.div_le_self numaFbSize.toNat adapt.numVf.toNat
  have offset := adapt.reserve_offset (lt_of_le_of_lt (room.trans node) numaFbSize.isLt)
  apply Prod.ext
  · exact offset
  · show (rounddown (sub (numaFbSize / adapt.numVf)
      (roundup (reserve pfFbSize top) adapt.functionFbAlignment).val).val
      adapt.functionFbAlignment).val.toNat = _
    rw [rounddown_toNat, sub_toNat, offset, BitVec.toNat_udiv]
    · rfl
    · rw [offset, BitVec.toNat_udiv]
      exact room

def nodeOffset (pfSize total : Nat) : Nat :=
  alignUp (max pfSize (total - adapt.totalFbUsable.toNat)) adapt.unit

theorem splitEqually_whole (above : adapt.totalFbUsable.toNat ≤ numaFbSize.toNat)
    (zero : adapt.nodeOffset pfFbSize.toNat numaFbSize.toNat = 0) :
    (adapt.splitEqually pfFbSize).exact = true ∧
      (adapt.splitEqually pfFbSize).val.span =
        (0, numaFbSize.toNat / adapt.numVf.toNat / adapt.unit * adapt.unit) := by
  have least := le_alignUp (max pfFbSize.toNat (numaFbSize.toNat - adapt.totalFbUsable.toNat))
    adapt.unit_pos
  have none : pfFbSize.toNat = 0 := by
    unfold nodeOffset at zero
    omega
  have all : numaFbSize.toNat = adapt.totalFbUsable.toNat := by
    unfold nodeOffset at zero
    omega
  have unit := adapt.unit_cases
  have room : pfFbSize.toNat + (adapt.unit - 1) < 2 ^ 32 := by omega
  have below : pfFbSize.toNat ≤ adapt.totalFbUsable.toNat := by omega
  constructor
  · rw [splitEqually_exact]
    exact ⟨below, room⟩
  · apply Prod.ext
    · show (adapt.splitEqually pfFbSize).val.fbOffset.toNat = 0
      rw [adapt.splitEqually_offset room, none]
      apply Nat.le_zero.mp
      exact alignUp_least (Nat.le_refl 0) (Nat.dvd_zero _)
    · show (adapt.splitEqually pfFbSize).val.fbSize.toNat = _
      rw [adapt.splitEqually_size below, none, all, Nat.sub_zero]

theorem firstShare_node (node : adapt.perNode = true)
    (above : adapt.totalFbUsable.toNat ≤ numaFbSize.toNat) :
    ((adapt.firstShare pfFbSize numaFbSize).exact = true ↔
        adapt.nodeOffset pfFbSize.toNat numaFbSize.toNat ≤
          numaFbSize.toNat / adapt.numVf.toNat) ∧
      (adapt.nodeOffset pfFbSize.toNat numaFbSize.toNat ≤ numaFbSize.toNat / adapt.numVf.toNat →
        (adapt.firstShare pfFbSize numaFbSize).val.span =
          (adapt.nodeOffset pfFbSize.toNat numaFbSize.toNat,
            (numaFbSize.toNat / adapt.numVf.toNat -
              adapt.nodeOffset pfFbSize.toNat numaFbSize.toNat) / adapt.unit * adapt.unit)) := by
  have regular : adapt.perNode = true ∧ ¬ numaFbSize < adapt.totalFbUsable := by
    rw [BitVec.lt_def]
    exact ⟨node, by omega⟩
  have here (top : Megabytes) : adapt.nodeShare pfFbSize numaFbSize top =
      adapt.splitByNode pfFbSize numaFbSize top := by
    rw [nodeShare, if_pos regular]
  have top := adapt.tmrIpDataSize_toNat node above
  have exact := @splitByNode_exact adapt pfFbSize numaFbSize (adapt.tmrIpDataSize numaFbSize).val
  have value := @splitByNode_val adapt pfFbSize numaFbSize (adapt.tmrIpDataSize numaFbSize).val
  rw [top, ← nodeOffset] at exact value
  rw [firstShare, exact_bind, exact_bind, val_bind, val_bind, here, exact]
  have whole := @splitEqually_whole adapt pfFbSize numaFbSize above
  by_cases zero : (adapt.splitByNode pfFbSize numaFbSize
      (adapt.tmrIpDataSize numaFbSize).val).val.fbOffset = 0
  · rw [if_pos zero]
    have nothing (room : adapt.nodeOffset pfFbSize.toNat numaFbSize.toNat ≤
        numaFbSize.toNat / adapt.numVf.toNat) :
        adapt.nodeOffset pfFbSize.toNat numaFbSize.toNat = 0 :=
      (congrArg Prod.fst (value room)).symm.trans (congrArg BitVec.toNat zero)
    constructor
    · constructor
      · exact fun all => all.2.1
      · exact fun room => ⟨adapt.tmrIpDataSize_exact, room, (whole (nothing room)).1⟩
    · intro room
      rw [(whole (nothing room)).2, nothing room, Nat.sub_zero]
  · rw [if_neg zero]
    constructor
    · constructor
      · exact fun all => all.2.1
      · exact fun room => ⟨adapt.tmrIpDataSize_exact, room, rfl⟩
    · exact value

end Nodes

end Adapter

end VfLayout
