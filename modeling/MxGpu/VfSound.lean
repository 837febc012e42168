import MxGpu.VfShares

/- When the default layout is sound. -/
namespace VfLayout

open TrackedWord AlignUp

section Rows

variable {spans : List Tiling.Span} {pf offset size base stride count usable : Nat}

theorem apart_of_le {range other : Tiling.Span} (before : range.1 + range.2 ≤ other.1) :
    Apart range other := by
  intro mb low high inside
  omega

theorem apart_of_empty {range other : Tiling.Span} (empty : range.2 = 0 ∨ other.2 = 0) :
    Apart range other := by
  intro mb low high inside
  omega

theorem Apart.cases {range other : Tiling.Span} (apart : Apart range other)
    (first : 0 < range.2) (second : 0 < other.2) :
    range.1 + range.2 ≤ other.1 ∨ other.1 + other.2 ≤ range.1 := by
  have shared := apart (max range.1 other.1) (Nat.le_max_left _ _)
  omega

/-- The ranges of a layout: the PF, the first VF, and the others at a fixed distance. -/
def rowSpans (pf offset size base stride count : Nat) : List Tiling.Span :=
  (0, pf) :: (offset, size) ::
    (List.range' 1 (count - 1)).map fun i => (base + i * stride, size)

theorem mem_rowSpans {range : Tiling.Span} :
    range ∈ rowSpans pf offset size base stride count ↔
      range = (0, pf) ∨ range = (offset, size) ∨
        ∃ i, 1 ≤ i ∧ i < count ∧ range = (base + i * stride, size) := by
  simp only [rowSpans, List.mem_cons, List.mem_map, List.mem_range'_1]
  constructor
  · rintro (host | first | ⟨i, ⟨low, high⟩, same⟩)
    · exact Or.inl host
    · exact Or.inr (Or.inl first)
    · exact Or.inr (Or.inr ⟨i, low, by omega, same.symm⟩)
  · rintro (host | first | ⟨i, low, high, same⟩)
    · exact Or.inl host
    · exact Or.inr (Or.inl first)
    · exact Or.inr (Or.inr ⟨i, ⟨low, by omega⟩, same.symm⟩)

theorem rowSpans_apart (host : pf ≤ offset) (first : offset + size ≤ base + stride)
    (slot : size ≤ stride) :
    (rowSpans pf offset size base stride count).Pairwise Apart := by
  have others := @Tiling.laid_progression base stride size slot 1 (count - 1)
  have laid : Tiling.Laid (· ≤ ·) (rowSpans pf offset size base stride count) 0
      (base + (1 + (count - 1)) * stride) := by
    refine ⟨Nat.le_refl 0, ?_, others.weaken Tiling.le_nearness ?_⟩
    · omega
    · omega
  apply (laid.ordered Tiling.le_nearness).imp
  intro range other before
  exact apart_of_le before

theorem rowSpans_empty : (rowSpans pf offset 0 base stride count).Pairwise Apart := by
  have rest : ∀ range ∈ (offset, 0) ::
      (List.range' 1 (count - 1)).map (fun i => (base + i * stride, 0)), range.2 = 0 := by
    intro range member
    simp only [List.mem_cons, List.mem_map] at member
    obtain rfl | ⟨i, -, rfl⟩ := member
    · rfl
    · rfl
  apply List.pairwise_cons.mpr
  constructor
  · intro other member
    exact apart_of_empty (Or.inr (rest other member))
  · apply List.Pairwise.imp_of_mem _ (List.pairwise_of_forall fun _ _ => trivial)
    intro range other member _ _
    exact apart_of_empty (Or.inl (rest range member))

theorem range'_split (positive : 0 < count) :
    List.range' 0 count = 0 :: List.range' 1 (count - 1) := by
  obtain ⟨fewer, rfl⟩ := Nat.exists_eq_succ_of_ne_zero (Nat.ne_of_gt positive)
  rfl

theorem equalRow (positive : 0 < count) :
    (0, pf) :: (List.range' 0 count).map (fun i => (offset + i * size, size)) =
      rowSpans pf offset size offset size count := by
  rw [range'_split positive, List.map_cons, Nat.zero_mul, Nat.add_zero]
  rfl

structure Placed (spans : List Tiling.Span) (usable : Nat) : Prop where
  apart : spans.Pairwise Apart
  inside : ∀ range ∈ spans, range.1 + range.2 ≤ usable
  aligned : ∀ range ∈ spans, 16 ∣ range.1 ∧ 16 ∣ range.2

theorem equalRow_placed (positive : 0 < count) (host : pf ≤ offset) (alignedOffset : 16 ∣ offset)
    (alignedSize : 16 ∣ size) :
    Placed (rowSpans pf offset size offset size count) usable ↔
      16 ∣ pf ∧ offset + count * size ≤ usable := by
  constructor
  · intro placed
    refine ⟨(placed.aligned (0, pf) (mem_rowSpans.mpr (Or.inl rfl))).2, ?_⟩
    have last : (offset + (count - 1) * size, size) ∈
        rowSpans pf offset size offset size count := by
      apply mem_rowSpans.mpr
      rcases Nat.lt_or_ge 1 count with several | single
      · exact Or.inr (Or.inr ⟨count - 1, by omega, by omega, rfl⟩)
      · have one : count - 1 = 0 := by omega
        rw [one, Nat.zero_mul]
        exact Or.inr (Or.inl rfl)
    have ends := placed.inside _ last
    have whole : count * size = (count - 1) * size + size := by
      rw [← Nat.succ_mul, Nat.succ_eq_add_one, Nat.sub_add_cancel positive]
    simp only at ends
    omega
  · rintro ⟨alignedHost, ends⟩
    have upTo (i : Nat) (below : i < count) : i * size + size ≤ count * size := by
      rw [← Nat.succ_mul]
      exact Nat.mul_le_mul_right _ below
    have first := upTo 0 positive
    refine ⟨rowSpans_apart host (Nat.le_refl _) (Nat.le_refl _), ?_, ?_⟩
    · intro range member
      obtain rfl | rfl | ⟨i, -, below, rfl⟩ := mem_rowSpans.mp member
      · simp only
        omega
      · simp only
        omega
      · have := upTo i below
        simp only
        omega
    · intro range member
      obtain rfl | rfl | ⟨i, -, below, rfl⟩ := mem_rowSpans.mp member
      · exact ⟨Nat.dvd_zero _, alignedHost⟩
      · exact ⟨alignedOffset, alignedSize⟩
      · exact ⟨Nat.dvd_add alignedOffset (Dvd.dvd.mul_left alignedSize i), alignedSize⟩

variable {node unit : Nat}

theorem nodeRow_placed (several : 1 < count) (alignedOffset : 16 ∣ offset)
    (alignedHost : 16 ∣ pf) (alignedNode : 16 ∣ node) (alignedSize : 16 ∣ size)
    (host : pf ≤ offset) (first : offset + size ≤ usable) (room : size = 0 ∨ offset + size ≤ node)
    (last : node * (count - 1) + size ≤ usable) :
    Placed (rowSpans pf offset size 0 node count) usable := by
  refine ⟨?_, ?_, ?_⟩
  · obtain rfl | room := room
    · exact rowSpans_empty
    · exact rowSpans_apart host (by omega) (by omega)
  · intro range member
    obtain rfl | rfl | ⟨i, -, below, rfl⟩ := mem_rowSpans.mp member
    · simp only
      omega
    · exact first
    · have bound : i * node ≤ node * (count - 1) := by
        rw [Nat.mul_comm]
        exact Nat.mul_le_mul_left node (by omega)
      simp only
      omega
  · intro range member
    obtain rfl | rfl | ⟨i, -, below, rfl⟩ := mem_rowSpans.mp member
    · exact ⟨Nat.dvd_zero _, alignedHost⟩
    · exact ⟨alignedOffset, alignedSize⟩
    · rw [Nat.zero_add]
      exact ⟨Dvd.dvd.mul_left alignedNode i, alignedSize⟩

theorem Placed.alignedNode (several : 1 < count)
    (placed : Placed (rowSpans pf offset size 0 node count) usable) : 16 ∣ pf ∧ 16 ∣ node := by
  have host : (0, pf) ∈ rowSpans pf offset size 0 node count := mem_rowSpans.mpr (Or.inl rfl)
  have second : (0 + 1 * node, size) ∈ rowSpans pf offset size 0 node count :=
    mem_rowSpans.mpr (Or.inr (Or.inr ⟨1, Nat.le_refl 1, several, rfl⟩))
  rw [Nat.one_mul, Nat.zero_add] at second
  exact ⟨(placed.aligned _ host).2, (placed.aligned _ second).1⟩

theorem Placed.firstNode (several : 1 < count) (behind : offset < pf + unit)
    (multiple : unit ∣ size) (placed : Placed (rowSpans pf offset size 0 node count) usable) :
    offset + size ≤ usable ∧ (size = 0 ∨ offset + size ≤ node) := by
  have first : (offset, size) ∈ rowSpans pf offset size 0 node count :=
    mem_rowSpans.mpr (Or.inr (Or.inl rfl))
  refine ⟨placed.inside _ first, ?_⟩
  rcases Nat.eq_zero_or_pos size with empty | filled
  · exact Or.inl empty
  · right
    -- The second share is too large to lie in the padding behind the PF.
    have large := Nat.le_of_dvd filled multiple
    have others : List.range' 1 (count - 1) = 1 :: List.range' 2 (count - 2) := by
      obtain ⟨more, rfl⟩ := Nat.exists_eq_add_of_lt several
      rw [show 1 + more + 1 - 1 = more + 1 by omega, show 1 + more + 1 - 2 = more by omega]
      rfl
    have apart := placed.apart
    rw [rowSpans, others, List.map_cons, Nat.one_mul, Nat.zero_add] at apart
    obtain ⟨fromHost, apart⟩ := List.pairwise_cons.mp apart
    obtain ⟨fromFirst, -⟩ := List.pairwise_cons.mp apart
    have firstSecond := (fromFirst (node, size) (by simp)).cases filled filled
    have hostSecond := fromHost (node, size) (by simp)
    rcases Nat.eq_zero_or_pos pf with none | some
    · simp only at firstSecond
      omega
    · have := hostSecond.cases some filled
      simp only at firstSecond this
      omega

end Rows

namespace Adapter

variable (adapt : Adapter)

theorem layout_exact : adapt.layout.exact = true ↔
    adapt.OptionFits ∧ (adapt.initVfs adapt.initPfConfig.val).exact = true := by
  rw [layout, exact_bind, exact_bind, initPfConfig_exact]
  simp

theorem layout_spans (fits : adapt.OptionFits) : adapt.layout.val.spans =
    (0, adapt.pfDemand) :: vfSpans (adapt.initVfs adapt.initPfConfig.val).val := by
  rw [← adapt.initPfConfig_toNat fits]
  rfl

theorem sound_iff : Sound adapt ↔
    adapt.OptionFits ∧ (adapt.initVfs adapt.initPfConfig.val).exact = true ∧
      Placed ((0, adapt.pfDemand) :: vfSpans (adapt.initVfs adapt.initPfConfig.val).val)
        adapt.totalFbUsable.toNat := by
  constructor
  · rintro ⟨exact, apart, inside, aligned⟩
    obtain ⟨fits, exact⟩ := adapt.layout_exact.mp exact
    rw [adapt.layout_spans fits] at apart inside aligned
    exact ⟨fits, exact, apart, inside, aligned⟩
  · rintro ⟨fits, exact, placed⟩
    rw [← adapt.layout_spans fits] at placed
    exact ⟨adapt.layout_exact.mpr ⟨fits, exact⟩, placed.apart, placed.inside, placed.aligned⟩

section Equal

theorem unit_dvd_equalShare : adapt.unit ∣ adapt.equalShare := Nat.dvd_mul_left _ _

theorem equalFits_placed {offset size : Nat}
    (span : (offset, size) = (alignUp adapt.pfDemand adapt.unit, adapt.equalShare)) :
    Placed (rowSpans adapt.pfDemand offset size offset size adapt.numVf.toNat)
        adapt.totalFbUsable.toNat ↔
      16 ∣ adapt.pfDemand ∧ adapt.EqualFits := by
  obtain ⟨rfl, rfl⟩ := Prod.mk.inj span
  have above := le_alignUp adapt.pfDemand adapt.unit_pos
  have whole := adapt.equalFits_iff
  rw [equalRow_placed adapt.numVf_pos above (adapt.sixteen_dvd (dvd_alignUp _ _))
    (adapt.sixteen_dvd adapt.unit_dvd_equalShare), whole]
  omega

variable {pfFbSize : Megabytes} (demand : pfFbSize.toNat = adapt.pfDemand)
include demand

theorem splitEqually_span (below : adapt.pfDemand ≤ adapt.totalFbUsable.toNat)
    (room : adapt.pfDemand + (adapt.unit - 1) < 2 ^ 32) :
    (adapt.splitEqually pfFbSize).val.span =
      (alignUp adapt.pfDemand adapt.unit, adapt.equalShare) := by
  rw [← demand] at below room
  apply Prod.ext
  · rw [← demand]
    exact adapt.splitEqually_offset room
  · rw [equalShare, ← demand]
    exact adapt.splitEqually_size below

theorem equalFits_exact (fits : adapt.EqualFits) :
    (adapt.splitEqually pfFbSize).exact = true ∧
      (adapt.splitEqually pfFbSize).val.span =
        (alignUp adapt.pfDemand adapt.unit, adapt.equalShare) := by
  obtain ⟨below, ends⟩ := adapt.equalFits_iff.mp fits
  have room : adapt.pfDemand + (adapt.unit - 1) < 2 ^ 32 := adapt.alignUp_fits (by omega)
  constructor
  · rw [splitEqually_exact, demand]
    exact ⟨below, room⟩
  · exact adapt.splitEqually_span demand below room

theorem splitEqually_share (exact : (adapt.splitEqually pfFbSize).exact = true) :
    (adapt.splitEqually pfFbSize).val.span =
      (alignUp adapt.pfDemand adapt.unit, adapt.equalShare) := by
  rw [splitEqually_exact, demand] at exact
  exact adapt.splitEqually_span demand exact.1 exact.2

end Equal

section Trusted

variable {vfFbSize : Megabytes} (share : vfFbSize.toNat = adapt.equalShare)
include share

theorem vfFbSizeTmr_toNat : (adapt.vfFbSizeTmr vfFbSize).toNat = adapt.tmrSlot := by
  have unit := adapt.unit_cases
  have length := adapt.tmrLen.isLt
  have wide : (vfFbSize.setWidth 64 + adapt.tmrLen >>> 20).toNat =
      adapt.equalShare + adapt.tmrLen.toNat / 2 ^ 20 := by
    rw [BitVec.toNat_add, BitVec.toNat_setWidth, BitVec.toNat_ushiftRight,
      Nat.shiftRight_eq_div_pow, share]
    omega
  rw [vfFbSizeTmr, BitVec.toNat_setWidth, roundup_toNat, wide, unit_wide]
  · rfl
  · rw [unit_wide]
    exact adapt.unit_pos
  · rw [wide, unit_wide]
    omega

theorem vfFbSizeTmrAsymmetric_toNat :
    (adapt.vfFbSizeTmrAsymmetric vfFbSize).toNat = adapt.tmrSlotAsymmetric := by
  have unit := adapt.unit_cases
  have part : ((vfFbSize / 2048).setWidth 64).toNat = adapt.equalShare / 2048 := by
    rw [BitVec.toNat_setWidth, BitVec.toNat_udiv, share]
    show adapt.equalShare / 2048 % 2 ^ 64 = _
    omega
  have extra : (adapt.tmrLen >>> 20 * (vfFbSize / 2048).setWidth 64 * 11 / 10).toNat =
      adapt.tmrLen.toNat / 2 ^ 20 * (adapt.equalShare / 2048) * 11 % 2 ^ 64 / 10 := by
    rw [BitVec.toNat_udiv, BitVec.toNat_mul, BitVec.toNat_mul, part, BitVec.toNat_ushiftRight,
      Nat.shiftRight_eq_div_pow, Nat.mod_mul_mod]
    rfl
  have wide : (vfFbSize.setWidth 64 +
        adapt.tmrLen >>> 20 * (vfFbSize / 2048).setWidth 64 * 11 / 10).toNat =
      adapt.equalShare +
        adapt.tmrLen.toNat / 2 ^ 20 * (adapt.equalShare / 2048) * 11 % 2 ^ 64 / 10 := by
    rw [BitVec.toNat_add, BitVec.toNat_setWidth, extra, share]
    omega
  rw [vfFbSizeTmrAsymmetric, BitVec.toNat_setWidth, roundup_toNat, wide, unit_wide]
  · rfl
  · rw [unit_wide]
    exact adapt.unit_pos
  · rw [wide, unit_wide]
    omega

end Trusted

/-- `vf_fb_size_tmr` as the loop uses it. -/
def slot : Nat := if adapt.asymmetricFbEnabled then adapt.tmrSlotAsymmetric else adapt.tmrSlot

theorem initEntriesTmr_equal {share : FbRange} {tmrSize slot : Megabytes}
    (span : share.span = (alignUp adapt.pfDemand adapt.unit, adapt.equalShare))
    (grown : tmrSize.toNat = adapt.tmrSlot - adapt.equalShare)
    (larger : adapt.equalShare ≤ adapt.tmrSlot) (known : slot.toNat = adapt.slot) :
    (initEntriesTmr share tmrSize slot adapt.numVf.toNat 0).exact = true ∧
        Placed ((0, adapt.pfDemand) ::
          vfSpans (initEntriesTmr share tmrSize slot adapt.numVf.toNat 0).val)
          adapt.totalFbUsable.toNat ↔
      16 ∣ adapt.pfDemand ∧ adapt.EqualFits ∧
        alignUp adapt.pfDemand adapt.unit + (adapt.numVf.toNat - 1) * adapt.slot < 2 ^ 32 := by
  have few := adapt.numVf_le
  have some := adapt.numVf_pos
  have bound := adapt.totalFbUsable.isLt
  have sum : adapt.equalShare + (adapt.tmrSlot - adapt.equalShare) < 2 ^ 32 := by
    unfold tmrSlot at larger ⊢
    omega
  have exact := @initEntriesTmr_exact share tmrSize slot adapt.numVf.toNat 0 (by omega)
  have spans := @initEntriesTmr_spans share tmrSize slot adapt.numVf.toNat 0 (by omega)
  have placed := adapt.equalFits_placed span
  obtain ⟨offset, size⟩ := Prod.mk.inj span
  rw [offset, size] at exact spans placed
  rw [grown, known] at exact
  rw [exact]
  constructor
  · rintro ⟨fits, inPlace⟩
    rw [spans fun i low high => (fits i low high).1, equalRow some, placed] at inPlace
    exact ⟨inPlace.1, inPlace.2, (fits _ (Nat.zero_le _) (by omega)).2.2⟩
  · rintro ⟨aligned, equal, last⟩
    have ends := (adapt.equalFits_iff.mp equal).2
    have each (i : Nat) (below : i < adapt.numVf.toNat) :
        alignUp adapt.pfDemand adapt.unit + i * adapt.equalShare < 2 ^ 32 := by
      have := Nat.mul_le_mul_right adapt.equalShare below.le
      omega
    constructor
    · intro i _ below
      rw [Nat.zero_add] at below
      have slots : i * adapt.slot ≤ (adapt.numVf.toNat - 1) * adapt.slot :=
        Nat.mul_le_mul_right _ (by omega)
      exact ⟨each i below, sum, by omega⟩
    · rw [spans fun i _ below => each i (by omega), equalRow some, placed]
      exact ⟨aligned, equal⟩

theorem tmr_placed {pfFbSize : Megabytes} (demand : pfFbSize.toNat = adapt.pfDemand) :
    (adapt.initVfsFbConfigTmr pfFbSize).exact = true ∧
        Placed ((0, adapt.pfDemand) :: vfSpans (adapt.initVfsFbConfigTmr pfFbSize).val)
          adapt.totalFbUsable.toNat ↔
      16 ∣ adapt.pfDemand ∧ adapt.EqualFits ∧ adapt.TmrFits := by
  have loop (equal : (adapt.splitEqually pfFbSize).exact = true)
      (larger : (adapt.splitEqually pfFbSize).val.fbSize.toNat ≤
        (adapt.vfFbSizeTmr (adapt.splitEqually pfFbSize).val.fbSize).toNat) := by
    have span := adapt.splitEqually_share demand equal
    have size : (adapt.splitEqually pfFbSize).val.fbSize.toNat = adapt.equalShare :=
      (Prod.mk.inj span).2
    have slot := adapt.vfFbSizeTmr_toNat size
    have known : (if adapt.asymmetricFbEnabled then
          adapt.vfFbSizeTmrAsymmetric (adapt.splitEqually pfFbSize).val.fbSize
        else adapt.vfFbSizeTmr (adapt.splitEqually pfFbSize).val.fbSize).toNat = adapt.slot := by
      unfold Adapter.slot
      split
      · exact adapt.vfFbSizeTmrAsymmetric_toNat size
      · exact slot
    have grown := sub_toNat larger
    rw [slot, size] at larger grown
    exact adapt.initEntriesTmr_equal span grown larger known
  rw [initVfsFbConfigTmr, exact_bind, exact_bind, sub_exact, val_bind, val_bind]
  constructor
  · rintro ⟨⟨equal, larger, rest⟩, placed⟩
    obtain ⟨aligned, fits, last⟩ := (loop equal larger).mp ⟨rest, placed⟩
    have size : (adapt.splitEqually pfFbSize).val.fbSize.toNat = adapt.equalShare :=
      (Prod.mk.inj (adapt.splitEqually_share demand equal)).2
    rw [adapt.vfFbSizeTmr_toNat size, size] at larger
    exact ⟨aligned, fits, larger, last⟩
  · rintro ⟨aligned, fits, larger, last⟩
    obtain ⟨equal, span⟩ := adapt.equalFits_exact demand fits
    have size : (adapt.splitEqually pfFbSize).val.fbSize.toNat = adapt.equalShare :=
      (Prod.mk.inj span).2
    rw [← adapt.vfFbSizeTmr_toNat size, ← size] at larger
    obtain ⟨rest, placed⟩ := (loop equal larger).mpr ⟨aligned, fits, last⟩
    exact ⟨⟨equal, larger, rest⟩, placed⟩

theorem initEntries_equal {numaFbSize : Megabytes} {share : FbRange}
    (single : adapt.perNode = false)
    (span : share.span = (alignUp adapt.pfDemand adapt.unit, adapt.equalShare)) :
    (adapt.initEntries numaFbSize adapt.numVf.toNat 0 share).exact = true ∧
        Placed ((0, adapt.pfDemand) ::
          vfSpans (adapt.initEntries numaFbSize adapt.numVf.toNat 0 share).val)
          adapt.totalFbUsable.toNat ↔
      16 ∣ adapt.pfDemand ∧ adapt.EqualFits := by
  have some := adapt.numVf_pos
  have bound := adapt.totalFbUsable.isLt
  have exact := @initEntries_exact adapt numaFbSize single adapt.numVf.toNat 0 share
  have spans := @initEntries_spans adapt numaFbSize single adapt.numVf.toNat 0 share
  have placed := adapt.equalFits_placed span
  obtain ⟨offset, size⟩ := Prod.mk.inj span
  rw [offset, size] at exact spans placed
  rw [exact]
  constructor
  · rintro ⟨fits, inPlace⟩
    rwa [spans fits, equalRow some, placed] at inPlace
  · intro fits
    have ends := (adapt.equalFits_iff.mp fits.2).2
    have room : alignUp adapt.pfDemand adapt.unit + adapt.numVf.toNat * adapt.equalShare <
        2 ^ 32 := by omega
    rw [spans room, equalRow some, placed]
    exact ⟨room, fits⟩

theorem equal_placed {pfFbSize : Megabytes} (demand : pfFbSize.toNat = adapt.pfDemand)
    (single : adapt.perNode = false) :
    (adapt.initVfsConfig pfFbSize).exact = true ∧
        Placed ((0, adapt.pfDemand) :: vfSpans (adapt.initVfsConfig pfFbSize).val)
          adapt.totalFbUsable.toNat ↔
      16 ∣ adapt.pfDemand ∧ adapt.numaTotal < 2 ^ 32 ∧ adapt.EqualFits := by
  obtain ⟨exact, value⟩ := @firstShare_equal adapt pfFbSize adapt.numaFbSize.val
    (by simp [single])
  rw [initVfsConfig, exact_bind, exact_bind, numaFbSize_exact, exact, val_bind, val_bind, value]
  constructor
  · rintro ⟨⟨total, equal, rest⟩, placed⟩
    have span := adapt.splitEqually_share demand equal
    obtain ⟨aligned, fits⟩ := (adapt.initEntries_equal single span).mp ⟨rest, placed⟩
    exact ⟨aligned, total, fits⟩
  · rintro ⟨aligned, total, fits⟩
    obtain ⟨equal, span⟩ := adapt.equalFits_exact demand fits
    obtain ⟨rest, placed⟩ := (adapt.initEntries_equal single span).mpr ⟨aligned, fits⟩
    exact ⟨⟨total, equal, rest⟩, placed⟩

theorem initEntries_nodes {numaFbSize : Megabytes} {share : FbRange} (node : adapt.perNode = true)
    (total : numaFbSize.toNat = adapt.numaTotal) :
    (adapt.initEntries numaFbSize adapt.numVf.toNat 0 share).exact = true ∧
      (0, adapt.pfDemand) ::
          vfSpans (adapt.initEntries numaFbSize adapt.numVf.toNat 0 share).val =
        rowSpans adapt.pfDemand share.fbOffset.toNat share.fbSize.toNat 0
          (adapt.numaTotal / adapt.numVf.toNat) adapt.numVf.toNat := by
  have few := adapt.numVf_le
  have some := adapt.numVf_pos
  have all := Nat.div_mul_le_self numaFbSize.toNat adapt.numVf.toNat
  have same : adapt.numVf.toNat - 1 + 1 = adapt.numVf.toNat := by omega
  obtain ⟨exact, spans⟩ := @initEntries_node adapt numaFbSize node (adapt.numVf.toNat - 1) 0 share
    (by omega) (by rw [Nat.zero_add, same]; omega)
  rw [same] at exact spans
  refine ⟨exact, ?_⟩
  rw [spans, total, rowSpans]
  simp [FbRange.span, Nat.mul_comm]

theorem equalShare_eq_zero : adapt.equalShare = 0 ↔
    adapt.totalFbUsable.toNat - adapt.pfDemand < adapt.numVf.toNat * adapt.unit := by
  have some := adapt.numVf_pos
  have unit := adapt.unit_pos
  rw [equalShare, Nat.mul_eq_zero, Nat.div_div_eq_div_mul, Nat.div_eq_zero_iff]
  have product := Nat.mul_pos some unit
  omega

theorem lastNode (several : 1 < adapt.numVf.toNat) :
    adapt.numaTotal / adapt.numVf.toNat ≤
        adapt.numaTotal / adapt.numVf.toNat * (adapt.numVf.toNat - 1) ∧
      adapt.numaTotal / adapt.numVf.toNat * (adapt.numVf.toNat - 1) +
        adapt.numaTotal / adapt.numVf.toNat ≤ adapt.numaTotal := by
  constructor
  · exact Nat.le_mul_of_pos_right _ (by omega)
  · have all := Nat.div_mul_le_self adapt.numaTotal adapt.numVf.toNat
    rwa [← Nat.mul_succ, Nat.succ_eq_add_one, Nat.sub_add_cancel (by omega)]

theorem wrong_placed {pfFbSize : Megabytes} (demand : pfFbSize.toNat = adapt.pfDemand)
    (node : adapt.perNode = true) (wrong : adapt.numaTotal < adapt.totalFbUsable.toNat) :
    (adapt.initVfsConfig pfFbSize).exact = true ∧
        Placed ((0, adapt.pfDemand) :: vfSpans (adapt.initVfsConfig pfFbSize).val)
          adapt.totalFbUsable.toNat ↔
      16 ∣ adapt.pfDemand ∧ adapt.NodesFit := by
  have bound := adapt.totalFbUsable.isLt
  have several := (adapt.perNode_iff.mp node).2
  obtain ⟨secondNode, lastNode⟩ := adapt.lastNode several
  have total := adapt.numaFbSize_toNat (wrong.trans bound)
  have above := le_alignUp adapt.pfDemand adapt.unit_pos
  obtain ⟨exact, value⟩ := @firstShare_equal adapt pfFbSize adapt.numaFbSize.val
    (by rw [total]; omega)
  obtain ⟨loop, spans⟩ := @initEntries_nodes adapt adapt.numaFbSize.val
    (adapt.splitEqually pfFbSize).val node total
  rw [initVfsConfig, exact_bind, exact_bind, numaFbSize_exact, exact, val_bind, val_bind, value,
    spans, NodesFit, if_pos wrong]
  constructor
  · rintro ⟨⟨-, equal, -⟩, placed⟩
    obtain ⟨offset, size⟩ := Prod.mk.inj (adapt.splitEqually_share demand equal)
    rw [offset, size] at placed
    obtain ⟨host, aligned⟩ := placed.alignedNode several
    obtain ⟨inside, room⟩ := placed.firstNode several (alignUp_lt _ adapt.unit_pos)
      adapt.unit_dvd_equalShare
    refine ⟨host, aligned, ?_⟩
    rcases room with empty | room
    · exact Or.inl ⟨by omega, adapt.equalShare_eq_zero.mp empty⟩
    · exact Or.inr room
  · rintro ⟨host, aligned, room⟩
    have room : alignUp adapt.pfDemand adapt.unit + adapt.equalShare ≤
          adapt.totalFbUsable.toNat ∧
        (adapt.equalShare = 0 ∨ alignUp adapt.pfDemand adapt.unit + adapt.equalShare ≤
          adapt.numaTotal / adapt.numVf.toNat) := by
      rcases room with ⟨inside, small⟩ | room
      · have empty := adapt.equalShare_eq_zero.mpr small
        exact ⟨by omega, Or.inl empty⟩
      · exact ⟨by omega, Or.inr room⟩
    have fits : adapt.pfDemand + (adapt.unit - 1) < 2 ^ 32 := adapt.alignUp_fits (by omega)
    have equal : (adapt.splitEqually pfFbSize).exact = true := by
      rw [splitEqually_exact, demand]
      exact ⟨by omega, fits⟩
    obtain ⟨offset, size⟩ := Prod.mk.inj (adapt.splitEqually_share demand equal)
    rw [offset, size]
    have others := (Nat.le_add_right _ _).trans lastNode
    refine ⟨⟨wrong.trans bound, equal, loop⟩, ?_⟩
    apply nodeRow_placed several (adapt.sixteen_dvd (dvd_alignUp _ _)) host aligned
      (adapt.sixteen_dvd adapt.unit_dvd_equalShare) above room.1 room.2
    omega

theorem node_placed {pfFbSize : Megabytes} (demand : pfFbSize.toNat = adapt.pfDemand)
    (node : adapt.perNode = true) (fits : adapt.numaTotal < 2 ^ 32)
    (above : adapt.totalFbUsable.toNat ≤ adapt.numaTotal) :
    (adapt.initVfsConfig pfFbSize).exact = true ∧
        Placed ((0, adapt.pfDemand) :: vfSpans (adapt.initVfsConfig pfFbSize).val)
          adapt.totalFbUsable.toNat ↔
      16 ∣ adapt.pfDemand ∧ adapt.NodesFit := by
  have several := (adapt.perNode_iff.mp node).2
  obtain ⟨secondNode, lastNode⟩ := adapt.lastNode several
  have total := adapt.numaFbSize_toNat fits
  obtain ⟨exact, value⟩ := @firstShare_node adapt pfFbSize adapt.numaFbSize.val node
    (by rw [total]; exact above)
  obtain ⟨loop, spans⟩ := @initEntries_nodes adapt adapt.numaFbSize.val
    (adapt.firstShare pfFbSize adapt.numaFbSize.val).val node total
  rw [total, demand] at exact value
  rw [initVfsConfig, exact_bind, exact_bind, numaFbSize_exact, exact, val_bind, val_bind, spans,
    NodesFit, if_neg (Nat.not_lt.mpr above), ← nodeOffset]
  have reserved := le_alignUp (max adapt.pfDemand (adapt.numaTotal - adapt.totalFbUsable.toNat))
    adapt.unit_pos
  rw [← nodeOffset] at reserved
  constructor
  · rintro ⟨⟨-, room, -⟩, placed⟩
    obtain ⟨host, aligned⟩ := placed.alignedNode several
    exact ⟨host, aligned, room⟩
  · rintro ⟨host, aligned, room⟩
    obtain ⟨offset, size⟩ := Prod.mk.inj (value room)
    rw [offset, size]
    have part := Nat.div_mul_le_self (adapt.numaTotal / adapt.numVf.toNat -
      adapt.nodeOffset adapt.pfDemand adapt.numaTotal) adapt.unit
    have alignedOffset : 16 ∣ adapt.nodeOffset adapt.pfDemand adapt.numaTotal :=
      adapt.sixteen_dvd (dvd_alignUp _ _)
    refine ⟨⟨fits, room, loop⟩, ?_⟩
    apply nodeRow_placed several alignedOffset host aligned
      (adapt.sixteen_dvd (Nat.dvd_mul_left _ _))
    · omega
    · omega
    · omega
    · omega

theorem initVfs_placed {pfFbSize : Megabytes} (demand : pfFbSize.toNat = adapt.pfDemand) :
    (adapt.initVfs pfFbSize).exact = true ∧
        Placed ((0, adapt.pfDemand) :: vfSpans (adapt.initVfs pfFbSize).val)
          adapt.totalFbUsable.toNat ↔
      16 ∣ adapt.pfDemand ∧
        if adapt.shareTmr then adapt.EqualFits ∧ adapt.TmrFits
        else adapt.numaTotal < 2 ^ 32 ∧
          if 1 < adapt.numaCount.toNat ∧ 1 < adapt.numVf.toNat then adapt.NodesFit
          else adapt.EqualFits := by
  unfold initVfs
  split
  · exact adapt.tmr_placed demand
  · split
    · rename_i nodes
      have node := adapt.perNode_iff.mpr nodes
      by_cases fits : adapt.numaTotal < 2 ^ 32
      · rcases Nat.lt_or_ge adapt.numaTotal adapt.totalFbUsable.toNat with wrong | above
        · rw [adapt.wrong_placed demand node wrong, and_iff_right fits]
        · rw [adapt.node_placed demand node fits above, and_iff_right fits]
      · rw [initVfsConfig, exact_bind, numaFbSize_exact]
        constructor
        · rintro ⟨⟨total, -⟩, -⟩
          exact absurd total fits
        · rintro ⟨-, total, -⟩
          exact absurd total fits
    · rename_i nodes
      have single : adapt.perNode = false := by
        rwa [← Bool.not_eq_true, perNode_iff]
      exact adapt.equal_placed demand single

end Adapter

/-- The default layout is sound, and computed without wrapping, exactly when the usable
frame buffer has room for the host and for the shares as the layout places them. -/
theorem layout_sound (adapt : Adapter) : Sound adapt ↔ adapt.Fits := by
  rw [Adapter.sound_iff, Adapter.Fits]
  constructor
  · rintro ⟨option, placed⟩
    exact ⟨option, (adapt.initVfs_placed (adapt.initPfConfig_toNat option)).mp placed⟩
  · rintro ⟨option, fits⟩
    exact ⟨option, (adapt.initVfs_placed (adapt.initPfConfig_toNat option)).mpr fits⟩

def wrongNodes : Adapter where
  fbAlignment := 0
  fbAlignment_known := Or.inl rfl
  memmgrPf := none
  isPmfwManagedEeprom := false
  usePf := false
  pfOption := none
  totalFbUsable := 2048
  numVf := 2
  numVf_pos := by decide
  numVf_le := by decide
  numaCount := 2
  numaCount_le := by decide
  numaStart := 0
  numaEnd := 0x1fffffff
  shareTmr := false
  tmrLen := 0
  asymmetricFbEnabled := false

/-- The equal split cuts shares of 1008 MB, and the second one starts at 512 MB. -/
theorem wrongNodes_overlap :
    wrongNodes.layout.val.spans = [(0, 16), (16, 1008), (512, 1008)] ∧ ¬ Sound wrongNodes := by
  have spans : wrongNodes.layout.val.spans = [(0, 16), (16, 1008), (512, 1008)] := by
    decide +kernel
  refine ⟨spans, ?_⟩
  intro sound
  have apart := sound.apart
  rw [spans] at apart
  obtain ⟨-, apart⟩ := List.pairwise_cons.mp apart
  obtain ⟨apart, -⟩ := List.pairwise_cons.mp apart
  exact apart (512, 1008) (by simp) 512 (by decide) (by decide) (by decide)

end VfLayout
