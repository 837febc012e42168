import MxGpu.MemmgrFailed

/- Blocks at a fixed place, and the pages that are reserved with them. -/
namespace MxGpu.Fb

open AlignUp Tiling Transition

def Memmgr.heapEnd (memmgr : Memmgr) : Nat := memmgr.offset.toNat + memmgr.size.toNat

def InHeap (memmgr : Memmgr) (offset len : Addr) : Prop :=
  memmgr.offset.toNat ≤ offset.toNat ∧ offset.toNat + len.toNat ≤ memmgr.heapEnd

def BehindHeap (memmgr : Memmgr) (offset len : Addr) : Prop :=
  memmgr.heapEnd < offset.toNat + len.toNat

/-- A block that `amdgv_memmgr_alloc_align_at` returns is the one asked for, and it returns
none for what ends behind the manager's range. -/
structure CoversRequest (s : Adapt) (env : Env) (offset len : Addr) (id : MemId) : Prop where
  exact : InHeap s.memmgr offset len → ∀ mem, (s.allocAlignAt env offset len id).2 = some mem →
    mem.span = (offset.toNat, len.toNat)
  refused : BehindHeap s.memmgr offset len → (s.allocAlignAt env offset len id).2 = none

/-- An offset that the manager's alignment leaves where it is: aligned, and below 4 GiB. -/
def Fixed (memmgr : Memmgr) (offset : Addr) : Prop :=
  offset.toNat < 2 ^ 32 ∧ 2 ^ memmgr.align.toNat ∣ offset.toNat

/-- No memory for the node, no index, or no place where the request is looked for. -/
def NotPlaced (s : Adapt) (env : Env) (offset len : Addr) (id : MemId) : Prop :=
  env.noMemory = true ∨ (¬∃ tag, NextTag s.mems id tag) ∨
    s.memmgr.exceeds (align32 offset s.memmgr.alignAt) len = true ∨
    s.memmgr.findSizeAt offset len (s.memmgr.alignAt.setWidth 64) = none

variable {s : Adapt} {memmgr : Memmgr} {env : Env} {offset len : Addr} {id : MemId}

theorem alignAt_toNat (hshift : memmgr.align.toNat < 32) :
    memmgr.alignAt.toNat = 2 ^ memmgr.align.toNat := by
  have hpow : 2 ^ memmgr.align.toNat < 2 ^ 32 := Nat.pow_lt_pow_right (by decide) hshift
  unfold Memmgr.alignAt
  rw [BitVec.toNat_setWidth, BitVec.shiftLeft_eq', BitVec.toNat_shiftLeft, Nat.shiftLeft_eq]
  show 1 * 2 ^ memmgr.align.toNat % 2 ^ 64 % 2 ^ 32 = _
  rw [Nat.one_mul, Nat.mod_eq_of_lt (hpow.trans (by decide)), Nat.mod_eq_of_lt hpow]

theorem alignAt_wide (hshift : 32 ≤ memmgr.align.toNat) : memmgr.alignAt = 0 := by
  apply BitVec.eq_of_toNat_eq
  unfold Memmgr.alignAt
  rw [BitVec.toNat_setWidth, BitVec.shiftLeft_eq', BitVec.toNat_shiftLeft, Nat.shiftLeft_eq]
  have hdvd : (2 ^ 32 : Nat) ∣ 2 ^ memmgr.align.toNat := Nat.pow_dvd_pow 2 hshift
  show 1 * 2 ^ memmgr.align.toNat % 2 ^ 64 % 2 ^ 32 = 0
  rw [Nat.one_mul, Nat.mod_mod_of_dvd _ (by decide)]
  exact Nat.mod_eq_zero_of_dvd hdvd

theorem align32_lt (addr : Addr) (align : BitVec 32) : (align32 addr align).toNat < 2 ^ 32 := by
  have hle := Nat.and_le_right (n := (addr + align.setWidth 64 - 1).toNat)
    (m := ((~~~(align - 1)).setWidth 64).toNat)
  have hmask : ((~~~(align - 1)).setWidth 64).toNat < 2 ^ 32 := by
    rw [BitVec.toNat_setWidth]
    exact Nat.lt_of_le_of_lt (Nat.mod_le _ _) (~~~(align - 1)).isLt
  unfold align32
  rw [BitVec.toNat_and]
  omega

theorem align32_dvd {addr : Addr} {align : BitVec 32} {k : Nat} (ha : align.toNat = 2 ^ k) :
    2 ^ k ∣ (align32 addr align).toNat := by
  have hpos := Nat.two_pow_pos k
  have hlow : (align - 1).toNat = 2 ^ k - 1 := by
    rw [BitVec.toNat_sub_of_le, ha]
    · rfl
    · rw [BitVec.le_def, ha]
      exact hpos
  apply Nat.dvd_of_mod_eq_zero
  apply Nat.eq_of_testBit_eq
  intro i
  rw [Nat.testBit_mod_two_pow, Nat.zero_testBit]
  by_cases hi : i < k
  · have hi32 : i < 32 := by
      by_contra hge
      have := Nat.pow_le_pow_right (n := 2) (by decide) (show 32 ≤ k by omega)
      omega
    have hbit : (align - 1).toNat.testBit i = true := by
      rw [hlow, Nat.testBit_two_pow_sub_one]
      simpa using hi
    have hclear : (~~~(align - 1)).toNat.testBit i = false := by
      rw [BitVec.testBit_toNat, BitVec.getLsbD_not, ← BitVec.testBit_toNat, hbit]
      simp
    unfold align32
    rw [BitVec.toNat_and, Nat.testBit_and, BitVec.toNat_setWidth, Nat.testBit_mod_two_pow, hclear]
    simp
  · simp [hi]

theorem Fixed.fits (h : Fixed memmgr offset) (hshift : memmgr.align.toNat < 32) :
    offset.toNat + (2 ^ memmgr.align.toNat - 1) < 2 ^ 32 := by
  have hpos := Nat.two_pow_pos memmgr.align.toNat
  have hlow := h.1
  have hwhole : 2 ^ memmgr.align.toNat ∣ 2 ^ 32 - offset.toNat :=
    Nat.dvd_sub (Nat.pow_dvd_pow 2 (by omega)) h.2
  have hle := Nat.le_of_dvd (by omega) hwhole
  omega

theorem Fixed.alignUp (h : Fixed memmgr offset) :
    alignUp offset.toNat (2 ^ memmgr.align.toNat) = offset.toNat :=
  Nat.le_antisymm (alignUp_least (Nat.le_refl _) h.2) (le_alignUp _ (Nat.two_pow_pos _))

theorem align32_fixed : align32 offset memmgr.alignAt = offset ↔ Fixed memmgr offset := by
  constructor
  · intro hsame
    have hlow := align32_lt offset memmgr.alignAt
    rw [hsame] at hlow
    refine ⟨hlow, ?_⟩
    by_cases hshift : memmgr.align.toNat < 32
    · rw [← hsame]
      exact align32_dvd (alignAt_toNat hshift)
    · have hzero : offset = 0 := by
        rw [← hsame, alignAt_wide (by omega)]
        unfold align32
        simp
      rw [hzero]
      exact Nat.dvd_zero _
  · intro hfixed
    apply BitVec.eq_of_toNat_eq
    by_cases hshift : memmgr.align.toNat < 32
    · rw [align32_toNat (alignAt_toNat hshift) (hfixed.fits hshift)]
      exact hfixed.alignUp
    · obtain ⟨hlow, hdvd⟩ := hfixed
      have hwide : 2 ^ 32 ≤ 2 ^ memmgr.align.toNat := Nat.pow_le_pow_right (by decide) (by omega)
      have hzero : offset.toNat = 0 := Nat.eq_zero_of_dvd_of_lt hdvd (by omega)
      rw [alignAt_wide (by omega), hzero]
      unfold align32
      simp

theorem allocAlignAt_cases (env : Env) (offset len : Addr) (id : MemId)
    (hup : s.memmgr.down = false) :
    (∃ s', s.allocAlignAt env offset len id = (s', none) ∧ NotPlaced s env offset len id) ∨
    (∃ mems tag before after,
      s.allocAlignAt env offset len id =
        ({ mems
           nextMem := s.nextMem + 1
           memmgr := s.memmgr.insert before
            (s.newMem (align32 offset s.memmgr.alignAt + len) len (s.memmgr.alignAt.setWidth 64)
              tag) after },
        some (s.newMem (align32 offset s.memmgr.alignAt + len) len
          (s.memmgr.alignAt.setWidth 64) tag)) ∧
      ¬NotPlaced s env offset len id) := by
  unfold Adapt.allocAlignAt
  split
  · next hmemory => exact Or.inl ⟨s, rfl, Or.inl hmemory⟩
  · next hmemory =>
    dsimp only
    split
    · next mems hadd =>
      refine Or.inl ⟨_, rfl, Or.inr (Or.inl ?_)⟩
      rintro ⟨tag, htag⟩
      obtain ⟨mems', hsome⟩ := htag.added
      rw [hadd] at hsome
      cases hsome
    · next mems tag hadd =>
      split
      · next hexceeds => exact Or.inl ⟨_, rfl, Or.inr (Or.inr (Or.inl hexceeds))⟩
      · next hinside =>
        split
        · next hroom => exact Or.inl ⟨_, rfl, Or.inr (Or.inr (Or.inr hroom))⟩
        · next before after hroom =>
          refine Or.inr ⟨mems, tag, before, after, ?_, ?_⟩
          · rw [if_neg (by simp [hup])]
            rfl
          · rintro (hnone | hnone | hnone | hnone)
            · exact hmemory hnone
            · exact hnone ⟨tag, nextTag_of_some hadd⟩
            · exact hinside hnone
            · exact absurd (hroom.symm.trans hnone) (Option.some_ne_none _)

theorem newMem_span (addr align : Addr) (tag : MemTag) :
    (s.newMem (addr + len) len align tag).span = (addr.toNat, len.toNat) := by
  unfold Adapt.newMem Mem.span Mem.start
  simp only [BitVec.add_sub_cancel]

/-- A block is where it was asked for exactly when it is placed nowhere, or is aligned and
below 4 GiB when it is asked for in the manager's range and not asked for behind it. -/
theorem coversRequest_iff (hup : s.memmgr.down = false) :
    CoversRequest s env offset len id ↔
      NotPlaced s env offset len id ∨
        (InHeap s.memmgr offset len → Fixed s.memmgr offset) ∧ ¬BehindHeap s.memmgr offset len := by
  rcases allocAlignAt_cases env offset len id hup with
    ⟨s', hnone, hnot⟩ | ⟨mems, tag, before, after, hsome, hplaced⟩
  · constructor
    · intro _
      exact Or.inl hnot
    · intro _
      constructor
      · intro _ mem hmem
        rw [hnone] at hmem
        cases hmem
      · intro _
        rw [hnone]
  · constructor
    · intro hcovers
      apply Or.inr
      constructor
      · intro hin
        have hspan := hcovers.exact hin _ (by rw [hsome])
        rw [newMem_span] at hspan
        apply align32_fixed.mp
        apply BitVec.eq_of_toNat_eq
        exact congrArg Prod.fst hspan
      · intro hbehind
        have hnone := hcovers.refused hbehind
        rw [hsome] at hnone
        exact absurd hnone (Option.some_ne_none _)
    · intro hcond
      obtain ⟨hfixed, hbehind⟩ := hcond.resolve_left hplaced
      constructor
      · intro hin mem hmem
        rw [hsome] at hmem
        cases hmem
        rw [newMem_span, align32_fixed.mpr (hfixed hin)]
      · intro hbehind'
        exact absurd hbehind' hbehind

theorem Fixed.covers (h : Fixed s.memmgr offset) (hup : s.memmgr.down = false)
    (hend : offset.toNat + len.toNat < 2 ^ 64) : CoversRequest s env offset len id := by
  rw [coversRequest_iff hup]
  by_cases hbehind : BehindHeap s.memmgr offset len
  · apply Or.inl
    refine Or.inr (Or.inr (Or.inl ?_))
    have hwrapped := Nat.mod_le (s.memmgr.offset.toNat + s.memmgr.size.toNat) (2 ^ 64)
    unfold BehindHeap Memmgr.heapEnd at hbehind
    unfold Memmgr.exceeds
    rw [align32_fixed.mpr h, decide_eq_true_eq, gt_iff_lt, BitVec.lt_def, BitVec.toNat_add,
      BitVec.toNat_add, Nat.mod_eq_of_lt hend]
    omega
  · exact Or.inr ⟨fun _ => h, hbehind⟩

end MxGpu.Fb
