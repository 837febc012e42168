import MxGpu.Tiling
import MxGpu.TrackedWord
import Mathlib.Data.Nat.ModEq
import Mathlib.Tactic.Ring

/- How the frame buffer is cut between the host and the virtual functions when nobody
configures it: `amdgv_vfmgr_init_pf_config`, `amdgv_vfmgr_init_vfs_config` and
`amdgv_vfmgr_init_vfs_fb_config_tmr`. Offsets and sizes are in megabytes. -/
namespace VfLayout

open TrackedWord AlignUp

abbrev Megabytes := BitVec 32

/-- What the layout asks of `adapt->memmgr_pf`, in bytes. -/
structure MemmgrUse where
  tom : BitVec 64
  size : BitVec 64
  deriving DecidableEq, Repr

structure Adapter where
  fbAlignment : Megabytes
  fbAlignment_known : fbAlignment = 0 ∨ fbAlignment = 256
  /-- None while `memmgr_pf.is_init` is false. -/
  memmgrPf : Option MemmgrUse
  isPmfwManagedEeprom : Bool
  usePf : Bool
  /-- `opt.pf_option->fb_size`, if there is an option. -/
  pfOption : Option Megabytes
  totalFbUsable : Megabytes
  numVf : BitVec 32
  numVf_pos : 0 < numVf.toNat
  numVf_le : numVf.toNat ≤ 31
  numaCount : BitVec 32
  numaCount_le : numaCount.toNat ≤ 12
  /-- `mcp.numa_range[0]`, in bytes. -/
  numaStart : BitVec 64
  numaEnd : BitVec 64
  shareTmr : Bool
  /-- `psp.tmr_context.mem->len`, in bytes. -/
  tmrLen : BitVec 64
  asymmetricFbEnabled : Bool

/-- `MBYTES_TO_BYTES(AMDGV_DEFAULT_USE_PF_SIZE)`. -/
def defaultUsePfBytes : BitVec 64 := 256 <<< 20

structure FbRange where
  fbOffset : Megabytes
  fbSize : Megabytes
  deriving DecidableEq, Repr

/-- The fields of a function's entry that the layout writes; `tmr` is `fb_offset_tmr` and
`fb_size_tmr`. -/
structure VfEntry where
  fb : FbRange
  tmr : Option FbRange
  deriving DecidableEq, Repr

structure Layout where
  pf : FbRange
  vfs : List VfEntry
  deriving DecidableEq, Repr

namespace Adapter

variable (adapt : Adapter)

def functionFbAlignment : Megabytes := if adapt.fbAlignment ≠ 0 then adapt.fbAlignment else 16

/-- `pf_fb_min_size`. This part is in 64 bits. -/
def pfFbMinSize : BitVec 64 :=
  match adapt.memmgrPf with
  | none => 16
  | some memmgr =>
    if adapt.isPmfwManagedEeprom then memmgr.size >>> 20
    else
      let used :=
        if memmgr.size ≥ defaultUsePfBytes then memmgr.tom + (memmgr.size - defaultUsePfBytes)
        else memmgr.tom
      (roundup used (adapt.functionFbAlignment.setWidth 64 <<< 20)).val >>> 20

/-- `pf_entry->fb_size` of `amdgv_vfmgr_init_pf_config`. -/
def initPfConfig : Tracked Megabytes :=
  if adapt.usePf then
    match adapt.pfOption with
    | some size =>
      if adapt.pfFbMinSize > size.setWidth 64 then pure (adapt.pfFbMinSize.setWidth 32)
      else roundup size adapt.functionFbAlignment
    | none =>
      pure ((if adapt.pfFbMinSize > 256 then adapt.pfFbMinSize else 256).setWidth 32)
  else pure (adapt.pfFbMinSize.setWidth 32)

/-- The frame buffer after the PF, equally split to each enabled VF: offset of the first
share, and size of each. -/
def splitEqually (pfFbSize : Megabytes) : Tracked FbRange := do
  let totalVfFbSize ← sub adapt.totalFbUsable pfFbSize
  let vfFbSize := totalVfFbSize / adapt.numVf
  let vfFbOffset ← roundup pfFbSize adapt.functionFbAlignment
  let vfFbSize ← rounddown vfFbSize adapt.functionFbAlignment
  pure { fbOffset := vfFbOffset, fbSize := vfFbSize }

/-- `vf_fb_size_tmr` of a share, before asymmetric mode adjusts it. -/
def vfFbSizeTmr (vfFbSize : Megabytes) : Megabytes :=
  (roundup (vfFbSize.setWidth 64 + adapt.tmrLen >>> 20)
    (adapt.functionFbAlignment.setWidth 64)).val.setWidth 32

/-- `vf_fb_size_tmr` in asymmetric mode; 2048 is `AMDGV_MIN_FB_SIZE_MB`. -/
def vfFbSizeTmrAsymmetric (vfFbSize : Megabytes) : Megabytes :=
  (roundup
    (vfFbSize.setWidth 64 +
      adapt.tmrLen >>> 20 * (vfFbSize / 2048).setWidth 64 * 11 / 10)
    (adapt.functionFbAlignment.setWidth 64)).val.setWidth 32

/-- The loop of `amdgv_vfmgr_init_vfs_fb_config_tmr` over the VFs from `idxVf` on. -/
def initEntriesTmr (share : FbRange) (tmrSize vfFbSizeTmr : Megabytes) :
    Nat → Nat → Tracked (List VfEntry)
  | 0, _ => pure []
  | left + 1, idxVf => do
    let before ← mul (BitVec.ofNat 32 idxVf) share.fbSize
    let fbOffset ← add share.fbOffset before
    let fbSizeTmr ← add share.fbSize tmrSize
    let beforeTmr ← mul (BitVec.ofNat 32 idxVf) vfFbSizeTmr
    let fbOffsetTmr ← add share.fbOffset beforeTmr
    let rest ← initEntriesTmr share tmrSize vfFbSizeTmr left (idxVf + 1)
    pure ({ fb := { fbOffset, fbSize := share.fbSize },
            tmr := some { fbOffset := fbOffsetTmr, fbSize := fbSizeTmr } } :: rest)

def initVfsFbConfigTmr (pfFbSize : Megabytes) : Tracked (List VfEntry) := do
  let share ← adapt.splitEqually pfFbSize
  let tmrSize ← sub (adapt.vfFbSizeTmr share.fbSize) share.fbSize
  let vfFbSizeTmr :=
    if adapt.asymmetricFbEnabled then adapt.vfFbSizeTmrAsymmetric share.fbSize
    else adapt.vfFbSizeTmr share.fbSize
  initEntriesTmr share tmrSize vfFbSizeTmr adapt.numVf.toNat 0

/-- `numa_node_size`, which the source truncates to 32 bits. -/
def numaNodeSize : Megabytes := ((adapt.numaEnd - adapt.numaStart + 1) >>> 20).setWidth 32

/-- `adapt->mcp.numa_count > 1 && adapt->num_vf > 1`. -/
def perNode : Bool := decide (adapt.numaCount > 1) && decide (adapt.numVf > 1)

def numaFbSize : Tracked Megabytes :=
  if adapt.numaCount > 0 then mul adapt.numaNodeSize adapt.numaCount else pure 0

/-- The share that starts behind the PF in the first node, the same size in every node. -/
def splitByNode (pfFbSize numaFbSize tmrIpDataSize : Megabytes) : Tracked FbRange := do
  let vfFbOffset := if pfFbSize > tmrIpDataSize then pfFbSize else tmrIpDataSize
  let vfFbOffset ← roundup vfFbOffset adapt.functionFbAlignment
  let room ← sub (numaFbSize / adapt.numVf) vfFbOffset
  let vfFbSize ← rounddown room adapt.functionFbAlignment
  let _totalVfFbSize ← mul vfFbSize adapt.numVf
  pure { fbOffset := vfFbOffset, fbSize := vfFbSize }

/-- `tmr_ip_data_size`: what the nodes hold beyond the usable frame buffer. -/
def tmrIpDataSize (numaFbSize : Megabytes) : Tracked Megabytes :=
  if adapt.numaCount > 0 ∧ ¬ numaFbSize < adapt.totalFbUsable then
    sub numaFbSize adapt.totalFbUsable
  else pure 0

/-- The share by node. Wrong IP discovery data leaves the offset 0. -/
def nodeShare (pfFbSize numaFbSize tmrIpDataSize : Megabytes) : Tracked FbRange :=
  if adapt.perNode ∧ ¬ numaFbSize < adapt.totalFbUsable then
    adapt.splitByNode pfFbSize numaFbSize tmrIpDataSize
  else pure { fbOffset := 0, fbSize := 0 }

/-- `vf_fb_offset` and `vf_fb_size` before the loop of `amdgv_vfmgr_init_vfs_config`. -/
def firstShare (pfFbSize numaFbSize : Megabytes) : Tracked FbRange := do
  let tmrIpDataSize ← adapt.tmrIpDataSize numaFbSize
  let share ← adapt.nodeShare pfFbSize numaFbSize tmrIpDataSize
  if share.fbOffset = 0 then adapt.splitEqually pfFbSize else pure share

/-- `vf_fb_offset` after the VF `idxVf`. -/
def nextOffset (numaFbSize : Megabytes) (idxVf : Nat) (share : FbRange) : Tracked Megabytes :=
  if adapt.perNode then mul (numaFbSize / adapt.numVf) (BitVec.ofNat 32 (idxVf + 1))
  else add share.fbOffset share.fbSize

/-- The loop of `amdgv_vfmgr_init_vfs_config` over the VFs from `idxVf` on. -/
def initEntries (numaFbSize : Megabytes) : Nat → Nat → FbRange → Tracked (List VfEntry)
  | 0, _, _ => pure []
  | left + 1, idxVf, share => do
    let next ← adapt.nextOffset numaFbSize idxVf share
    let rest ← initEntries numaFbSize left (idxVf + 1) { share with fbOffset := next }
    pure ({ fb := share, tmr := none } :: rest)

/-- `amdgv_vfmgr_init_vfs_config`, not in `customized_vf_config_mode`. -/
def initVfsConfig (pfFbSize : Megabytes) : Tracked (List VfEntry) := do
  let numaFbSize ← adapt.numaFbSize
  let share ← adapt.firstShare pfFbSize numaFbSize
  adapt.initEntries numaFbSize adapt.numVf.toNat 0 share

def initVfs (pfFbSize : Megabytes) : Tracked (List VfEntry) :=
  if adapt.shareTmr then adapt.initVfsFbConfigTmr pfFbSize else adapt.initVfsConfig pfFbSize

/-- The order of `amdgv_vfmgr_hw_init`. -/
def layout : Tracked Layout := do
  let pfFbSize ← adapt.initPfConfig
  let vfs ← adapt.initVfs pfFbSize
  pure { pf := { fbOffset := 0, fbSize := pfFbSize }, vfs }

end Adapter

def FbRange.span (range : FbRange) : Tiling.Span := (range.fbOffset.toNat, range.fbSize.toNat)

def Layout.spans (layout : Layout) : List Tiling.Span :=
  layout.pf.span :: layout.vfs.map fun entry => entry.fb.span

def Apart (range other : Tiling.Span) : Prop :=
  ∀ mb, range.1 ≤ mb → mb < range.1 + range.2 → ¬ (other.1 ≤ mb ∧ mb < other.1 + other.2)

structure Sound (adapt : Adapter) : Prop where
  exact : adapt.layout.exact = true
  apart : adapt.layout.val.spans.Pairwise Apart
  inside : ∀ range ∈ adapt.layout.val.spans, range.1 + range.2 ≤ adapt.totalFbUsable.toNat
  aligned : ∀ range ∈ adapt.layout.val.spans, 16 ∣ range.1 ∧ 16 ∣ range.2

namespace Adapter

variable (adapt : Adapter)

/-- `AMDGV_FUNCTION_FB_ALIGNMENT` as a number. -/
def unit : Nat := adapt.functionFbAlignment.toNat

def pfMinimum : Nat :=
  match adapt.memmgrPf with
  | none => 16
  | some memmgr =>
    if adapt.isPmfwManagedEeprom then memmgr.size.toNat / 2 ^ 20
    else
      ((memmgr.tom.toNat + (memmgr.size.toNat - 2 ^ 28)) % 2 ^ 64 + (adapt.unit * 2 ^ 20 - 1)) %
        2 ^ 64 / (adapt.unit * 2 ^ 20) * adapt.unit

def pfDemand : Nat :=
  if adapt.usePf then
    match adapt.pfOption with
    | some size =>
      if size.toNat < adapt.pfMinimum then adapt.pfMinimum % 2 ^ 32
      else alignUp size.toNat adapt.unit
    | none => max adapt.pfMinimum 256 % 2 ^ 32
  else adapt.pfMinimum % 2 ^ 32

def OptionFits : Prop :=
  adapt.usePf → ∀ size ∈ adapt.pfOption, adapt.pfMinimum ≤ size.toNat →
    size.toNat + (adapt.unit - 1) < 2 ^ 32

/-- Each VF's share when what the PF leaves is split equally. -/
def equalShare : Nat :=
  (adapt.totalFbUsable.toNat - adapt.pfDemand) / adapt.numVf.toNat / adapt.unit * adapt.unit

/-- What the equal split leaves over makes room for the padding behind the PF. -/
def EqualFits : Prop :=
  adapt.pfDemand ≤ adapt.totalFbUsable.toNat ∧
    alignUp adapt.pfDemand adapt.unit - adapt.pfDemand ≤
      (adapt.totalFbUsable.toNat - adapt.pfDemand) % (adapt.numVf.toNat * adapt.unit)

def tmrSlot : Nat := alignUp (adapt.equalShare + adapt.tmrLen.toNat / 2 ^ 20) adapt.unit % 2 ^ 32

def tmrSlotAsymmetric : Nat :=
  alignUp (adapt.equalShare +
    adapt.tmrLen.toNat / 2 ^ 20 * (adapt.equalShare / 2048) * 11 % 2 ^ 64 / 10) adapt.unit % 2 ^ 32

def TmrFits : Prop :=
  adapt.equalShare ≤ adapt.tmrSlot ∧
    alignUp adapt.pfDemand adapt.unit +
      (adapt.numVf.toNat - 1) *
        (if adapt.asymmetricFbEnabled then adapt.tmrSlotAsymmetric else adapt.tmrSlot) < 2 ^ 32

def numaTotal : Nat :=
  ((adapt.numaEnd - adapt.numaStart + 1).toNat / 2 ^ 20 % 2 ^ 32) * adapt.numaCount.toNat

/-- The nodes hold the usable frame buffer, begin on an aligned megabyte, and the first
one has room for the PF; or they do not hold it, and the equal split happens to fit. -/
def NodesFit : Prop :=
  16 ∣ adapt.numaTotal / adapt.numVf.toNat ∧
    if adapt.numaTotal < adapt.totalFbUsable.toNat then
      (alignUp adapt.pfDemand adapt.unit ≤ adapt.totalFbUsable.toNat ∧
        adapt.totalFbUsable.toNat - adapt.pfDemand < adapt.numVf.toNat * adapt.unit) ∨
      alignUp adapt.pfDemand adapt.unit + adapt.equalShare ≤ adapt.numaTotal / adapt.numVf.toNat
    else
      alignUp (max adapt.pfDemand (adapt.numaTotal - adapt.totalFbUsable.toNat)) adapt.unit ≤
        adapt.numaTotal / adapt.numVf.toNat

def Fits : Prop :=
  adapt.OptionFits ∧ 16 ∣ adapt.pfDemand ∧
    if adapt.shareTmr then adapt.EqualFits ∧ adapt.TmrFits
    else adapt.numaTotal < 2 ^ 32 ∧
      if 1 < adapt.numaCount.toNat ∧ 1 < adapt.numVf.toNat then adapt.NodesFit
      else adapt.EqualFits

end Adapter

end VfLayout
