import MxGpu.Transition
import MxGpu.MaskUnion
import Mathlib.Data.Fintype.Card

/- Which virtual functions a world switch serves, and which world switches a virtual function is
on: two tables of one relation (`amdgv_sched.c`, `amdgv_sched_switch.c`). -/
namespace MxGpu.SchedMapping

open Function List

inductive SchedBlock where
  | gfx
  | uvd
  | vce
  | uvd1
  | vcn
  | vcn1
  | jpeg
  deriving DecidableEq

abbrev Mask := BitVec 32

/-- `BIT` -/
def bit (x : Nat) : Mask := 1#32 <<< x

abbrev pfIdx : Nat := 31

/-- The ids that `for_each_id` goes through, from the lowest. -/
def ids (mask : Mask) : List Nat := (range 32).filter fun id => mask.getLsbD id

/-- What `amdgv_sched_world_switch` has of the mapping. -/
structure WorldSwitch where
  enabled : Bool
  schedBlock : SchedBlock
  allowedVfAssignment : Mask
  hwSchedMask : Mask

def WorldSwitch.zero : WorldSwitch := ⟨false, .gfx, 0, 0⟩

structure SpatialPart where
  idxVfMask : Mask
  hwSchedMask : Mask
  xccMask : Mask
  worldSwitchMask : Mask
  wsMap : SchedBlock → Option Nat

def SpatialPart.zero : SpatialPart := ⟨0, 0, 0, 0, fun _ => none⟩

structure BlockMap where
  worldSwitchMask : Mask
  hwSchedMask : Mask

/-- What `amdgv_sched_vf_info` has of the mapping. -/
structure VfInfo where
  worldSwitchMask : Mask
  hwSchedMask : Mask
  blockMap : SchedBlock → BlockMap
  xccMask : Mask

def VfInfo.zero : VfInfo := ⟨0, 0, fun _ => ⟨0, 0⟩, 0⟩

/-- `ctrlBlocks` are the blocks of the hardware schedulers. -/
structure Adapter where
  ctrlBlocks : Nat → SchedBlock
  numSpatialPartitions : Nat
  spatialPart : Nat → SpatialPart
  numWorldSwitch : Nat
  worldSwitch : Nat → WorldSwitch
  arrayVf : Nat → VfInfo

def Adapter.zero (ctrlBlocks : Nat → SchedBlock) : Adapter :=
  { ctrlBlocks := ctrlBlocks
    numSpatialPartitions := 0
    spatialPart := fun _ => .zero
    numWorldSwitch := 0
    worldSwitch := fun _ => .zero
    arrayVf := fun _ => .zero }

structure PartConfig where
  idxVfMask : Mask
  hwSchedMask : Mask
  xccMask : Mask

/-- What an ASIC tells the scheduler: a table for each number of VFs, over fewer hardware
schedulers than a mask has bits; each partition has some; and where the number of VFs can be
changed, the schedulers of the partitions stay the same. -/
structure Asic where
  table : Nat → List PartConfig
  hwSchedBlockNum : Nat
  dynamicVfNum : Bool
  few : hwSchedBlockNum < 32
  known : ∀ numVf, ∀ part ∈ table numVf, ∀ id, part.hwSchedMask.getLsbD id = true →
    id < hwSchedBlockNum
  some : ∀ numVf, ∀ part ∈ table numVf, ∃ id, part.hwSchedMask.getLsbD id = true
  stable : dynamicVfNum = true → ∀ numVf numVf',
    (table numVf).map PartConfig.hwSchedMask = (table numVf').map PartConfig.hwSchedMask

section Code

variable (adapt : Adapter)

def Adapter.setWorldSwitch (i : Nat) (worldSwitch : WorldSwitch) : Adapter :=
  { adapt with worldSwitch := update adapt.worldSwitch i worldSwitch }

/-- The ASIC's `copy_static_spatial_part_table`. The `memset` clears the first partition only. -/
def copySpatialPartTable (table : List PartConfig) : Adapter :=
  let cleared := update adapt.spatialPart 0 .zero
  { adapt with
    numSpatialPartitions := table.length
    spatialPart := fun i =>
      match table[i]? with
      | some config => { cleared i with
          idxVfMask := config.idxVfMask
          hwSchedMask := config.hwSchedMask
          xccMask := config.xccMask }
      | none => cleared i }

/-- One request of a partition in `amdgv_sched_world_switch_init_sw_config`; `idx` is the number
of world switches so far, `startIdx` what it was before the partition. -/
def requestHwSched (ctrlBlocks : Nat → SchedBlock) (idxVfMask : Mask) (startIdx : Nat)
    (state : (Nat → WorldSwitch) × Nat) (hwSchedId : Nat) : (Nat → WorldSwitch) × Nat :=
  let (worldSwitch, idx) := state
  -- shared with an earlier partition
  match (range 32).find? fun i =>
      (worldSwitch i).enabled && (worldSwitch i).hwSchedMask.getLsbD hwSchedId with
  | some i =>
    (update worldSwitch i { worldSwitch i with
      allowedVfAssignment := (worldSwitch i).allowedVfAssignment ||| idxVfMask }, idx)
  | none =>
    -- another scheduler of the same type in this partition
    match (range' startIdx (32 - startIdx)).find? fun i =>
        (worldSwitch i).enabled && (worldSwitch i).schedBlock = ctrlBlocks hwSchedId with
    | some i =>
      (update worldSwitch i { worldSwitch i with
        hwSchedMask := (worldSwitch i).hwSchedMask ||| bit hwSchedId }, idx)
    | none =>
      (update worldSwitch idx { worldSwitch idx with
        enabled := true
        allowedVfAssignment := (worldSwitch idx).allowedVfAssignment ||| idxVfMask
        hwSchedMask := (worldSwitch idx).hwSchedMask ||| bit hwSchedId
        schedBlock := ctrlBlocks hwSchedId }, idx + 1)

/-- The partitions in order; `false` when the array is full. -/
def requestParts (ctrlBlocks : Nat → SchedBlock) :
    List SpatialPart → (Nat → WorldSwitch) × Nat → Bool × (Nat → WorldSwitch) × Nat
  | [], state => (true, state)
  | part :: parts, state =>
    if 32 ≤ state.2 then (false, state)
    else
      requestParts ctrlBlocks parts
        ((ids part.hwSchedMask).foldl
          (requestHwSched ctrlBlocks part.idxVfMask state.2) state)

def Adapter.parts : List SpatialPart :=
  (range adapt.numSpatialPartitions).map adapt.spatialPart

def worldSwitchInitSwConfig : Adapter :=
  let (ok, worldSwitch, idx) := requestParts adapt.ctrlBlocks adapt.parts (fun _ => .zero, 0)
  if ok then { adapt with worldSwitch := worldSwitch, numWorldSwitch := idx }
  else { adapt with worldSwitch := worldSwitch }

def vfMapAdd (vf : VfInfo) (part : SpatialPart) : VfInfo :=
  let vf := { vf with
    worldSwitchMask := vf.worldSwitchMask ||| part.worldSwitchMask
    hwSchedMask := vf.hwSchedMask ||| part.hwSchedMask
    xccMask := vf.xccMask ||| part.xccMask }
  let addHw (blockMap : SchedBlock → BlockMap) (id : Nat) :=
    let schedBlock := adapt.ctrlBlocks id
    update blockMap schedBlock { blockMap schedBlock with
      hwSchedMask := (blockMap schedBlock).hwSchedMask ||| bit id }
  let addWorldSwitch (blockMap : SchedBlock → BlockMap) (id : Nat) :=
    let schedBlock := (adapt.worldSwitch id).schedBlock
    update blockMap schedBlock { blockMap schedBlock with
      worldSwitchMask := (blockMap schedBlock).worldSwitchMask ||| bit id }
  { vf with
    blockMap := (ids vf.worldSwitchMask).foldl addWorldSwitch
      ((ids vf.hwSchedMask).foldl addHw vf.blockMap) }

/-- The world switches of a partition in `amdgv_sched_part_mapping_init`. -/
def mapPart (part : SpatialPart) : SpatialPart :=
  (range adapt.numWorldSwitch).foldl (fun part j =>
    if part.hwSchedMask &&& (adapt.worldSwitch j).hwSchedMask = 0 then part
    else { part with
      worldSwitchMask := part.worldSwitchMask ||| bit j
      wsMap := update part.wsMap (adapt.worldSwitch j).schedBlock (some j) }) part

def partMappingInit : Adapter :=
  let adapt := { adapt with arrayVf := fun _ => VfInfo.zero }
  (range adapt.numSpatialPartitions).foldl (fun adapt i =>
    let part := mapPart adapt (adapt.spatialPart i)
    let adapt := { adapt with spatialPart := update adapt.spatialPart i part }
    (ids part.idxVfMask).foldl (fun adapt idxVf =>
      { adapt with
        arrayVf := update adapt.arrayVf idxVf
          (vfMapAdd adapt (adapt.arrayVf idxVf) part) }) adapt) adapt

/-- One partition of `amdgv_sched_world_switch_remap_vf_assignment`, with whether it was a hit. -/
def remapPart (part : SpatialPart) : Bool × Adapter :=
  (range adapt.numWorldSwitch).foldl (fun (hit, adapt) i =>
    let worldSwitch := adapt.worldSwitch i
    if worldSwitch.hwSchedMask &&& part.hwSchedMask = 0 then (hit, adapt)
    else (true, adapt.setWorldSwitch i { worldSwitch with
      allowedVfAssignment := worldSwitch.allowedVfAssignment ||| part.idxVfMask })) (false, adapt)

def remapParts (adapt : Adapter) : List SpatialPart → Bool × Adapter
  | [] => (true, adapt)
  | part :: parts =>
    let (hit, adapt) := remapPart adapt part
    if hit then remapParts adapt parts else (false, adapt)

def remapVfAssignment : Bool × Adapter :=
  let adapt := (range adapt.numWorldSwitch).foldl (fun adapt i =>
    adapt.setWorldSwitch i { adapt.worldSwitch i with allowedVfAssignment := 0 }) adapt
  remapParts adapt adapt.parts

/-- The ASIC's `sched_sw_init` on an adapter just allocated. -/
def schedSwInit (asic : Asic) (ctrlBlocks : Nat → SchedBlock) (numVf : Nat) : Adapter :=
  partMappingInit
    (worldSwitchInitSwConfig (copySpatialPartTable (.zero ctrlBlocks) (asic.table numVf)))

/-- The ASIC's `reconfig_mapping_tables`. -/
def reconfigMappingTables (asic : Asic) (numVf : Nat) : Adapter :=
  if asic.dynamicVfNum then
    let (ok, adapt) := remapVfAssignment (copySpatialPartTable adapt (asic.table numVf))
    if ok then partMappingInit adapt else adapt
  else adapt

/-- `count_bits` of a value of at most `fuel` bits. -/
def countBits : (fuel val : Nat) → Nat
  | 0, _ => 0
  | fuel + 1, val => if val = 0 then 0 else val % 2 + countBits fuel (val / 2)

/-- The loop of `is_any_world_switch_engine_shared`. -/
def anyShared (adapt : Adapter) : List Nat → Bool × Adapter
  | [] => (false, adapt)
  | id :: rest =>
    let allowed := (adapt.worldSwitch id).allowedVfAssignment &&& ~~~bit pfIdx
    let adapt := adapt.setWorldSwitch id
      { adapt.worldSwitch id with allowedVfAssignment := allowed }
    if 1 < countBits 32 allowed.toNat then (true, adapt) else anyShared adapt rest

def isAnyWorldSwitchEngineShared (idxVf : Nat) : Bool × Adapter :=
  anyShared adapt (ids (adapt.arrayVf idxVf).worldSwitchMask)

end Code

section Masks

theorem bit_getLsbD (x i : Nat) : (bit x).getLsbD i = true ↔ i = x ∧ i < 32 := by
  have h := BitVec.getLsbD_twoPow (w := 32) x i
  rw [BitVec.twoPow_eq] at h
  unfold bit
  rw [h]
  simp
  omega

theorem mem_ids {mask : Mask} {id : Nat} : id ∈ ids mask ↔ mask.getLsbD id = true := by
  unfold ids
  simp only [mem_filter, mem_range, and_iff_right_iff_imp]
  exact BitVec.lt_of_getLsbD

theorem meets_iff {x y : Mask} :
    x &&& y ≠ 0 ↔ ∃ id, x.getLsbD id = true ∧ y.getLsbD id = true := by
  constructor
  · intro h
    by_contra hnone
    apply h
    apply MaskUnion.and_eq_zero_of_not_both
    intro id hx
    cases hy : y.getLsbD id with
    | false => rfl
    | true => exact absurd ⟨id, hx, hy⟩ hnone
  · rintro ⟨id, hx, hy⟩ hzero
    rw [MaskUnion.not_both_of_and_eq_zero hzero hx] at hy
    cases hy

theorem or_getLsbD {x y : Mask} {i : Nat} :
    (x ||| y).getLsbD i = true ↔ x.getLsbD i = true ∨ y.getLsbD i = true := by
  rw [BitVec.getLsbD_or, Bool.or_eq_true]

theorem zero_getLsbD (i : Nat) : (0 : Mask).getLsbD i = false := by
  simp

end Masks

section Init

variable {ctrlBlocks : Nat → SchedBlock} {worldSwitch : Nat → WorldSwitch} {idx : Nat}
  {requests : List (Nat × Mask)}

/-- The world switches that a list of requests has made: each scheduler asked for is on one of
them, and each serves those who have asked for a scheduler of it. -/
structure Built (worldSwitch : Nat → WorldSwitch) (idx : Nat) (requests : List (Nat × Mask)) :
    Prop where
  enabled : ∀ i, (worldSwitch i).enabled = true ↔ i < idx
  beyond : ∀ i, idx ≤ i → worldSwitch i = .zero
  some : ∀ i < idx, ∃ h, (worldSwitch i).hwSchedMask.getLsbD h = true
  owned : ∀ r ∈ requests, ∃ i < idx, (worldSwitch i).hwSchedMask.getLsbD r.1 = true
  alone : ∀ i j h, (worldSwitch i).hwSchedMask.getLsbD h = true →
    (worldSwitch j).hwSchedMask.getLsbD h = true → i = j
  asked : ∀ i h, (worldSwitch i).hwSchedMask.getLsbD h = true → ∃ r ∈ requests, r.1 = h
  allowed : ∀ i v, (worldSwitch i).allowedVfAssignment.getLsbD v = true ↔
    ∃ r ∈ requests, (worldSwitch i).hwSchedMask.getLsbD r.1 = true ∧ r.2.getLsbD v = true

/-- The world switches from `startIdx` on have been made for `idxVfMask`. -/
def MadeFor (worldSwitch : Nat → WorldSwitch) (startIdx idx : Nat) (requests : List (Nat × Mask))
    (idxVfMask : Mask) : Prop :=
  ∀ i, startIdx ≤ i → i < idx →
    ∃ r ∈ requests, r.2 = idxVfMask ∧ (worldSwitch i).hwSchedMask.getLsbD r.1 = true

theorem Built.empty : Built (fun _ => .zero) 0 [] := by
  refine ⟨?_, fun _ _ => rfl, nofun, nofun, ?_, ?_, ?_⟩
  · intro i
    simp [WorldSwitch.zero]
  · intro i j h hi
    simp [WorldSwitch.zero] at hi
  · intro i h hi
    simp [WorldSwitch.zero] at hi
  · intro i v
    simp [WorldSwitch.zero]

theorem Built.few (hbuilt : Built worldSwitch idx requests) {num : Nat}
    (hknown : ∀ r ∈ requests, r.1 < num) : idx ≤ num := by
  have hchoice : ∀ i : Fin idx, ∃ h : Fin num,
      (worldSwitch i).hwSchedMask.getLsbD h = true := by
    intro i
    obtain ⟨h, hh⟩ := hbuilt.some i i.isLt
    obtain ⟨r, hr, rfl⟩ := hbuilt.asked i h hh
    exact ⟨⟨r.1, hknown r hr⟩, hh⟩
  choose f hf using hchoice
  have hinjective : Injective f := by
    intro i j heq
    have hi := hf i
    rw [heq] at hi
    exact Fin.ext (hbuilt.alone i j _ hi (hf j))
  have := Fintype.card_le_of_injective f hinjective
  simpa using this

/-- What is known of a list of requests and of the partition that makes the next. -/
structure Making (worldSwitch : Nat → WorldSwitch) (idx : Nat) (requests : List (Nat × Mask))
    (startIdx : Nat) (idxVfMask : Mask) : Prop where
  built : Built worldSwitch idx requests
  madeFor : MadeFor worldSwitch startIdx idx requests idxVfMask
  started : startIdx ≤ idx

variable {startIdx hwSchedId : Nat} {idxVfMask : Mask}

theorem Making.share (h : Making worldSwitch idx requests startIdx idxVfMask) {i : Nat}
    (howned : (worldSwitch i).hwSchedMask.getLsbD hwSchedId = true) :
    Making (update worldSwitch i { worldSwitch i with
        allowedVfAssignment := (worldSwitch i).allowedVfAssignment ||| idxVfMask })
      idx ((hwSchedId, idxVfMask) :: requests) startIdx idxVfMask := by
  have hless : i < idx := by
    by_contra hnot
    rw [h.built.beyond i (by omega)] at howned
    simp [WorldSwitch.zero] at howned
  have hmask : ∀ j, (update worldSwitch i { worldSwitch i with
      allowedVfAssignment := (worldSwitch i).allowedVfAssignment ||| idxVfMask } j).hwSchedMask =
      (worldSwitch j).hwSchedMask := by
    intro j
    by_cases hj : j = i
    · subst hj
      simp
    · simp [hj]
  refine ⟨⟨?_, ?_, ?_, ?_, ?_, ?_, ?_⟩, ?_, h.started⟩
  · intro j
    rw [← h.built.enabled j]
    by_cases hj : j = i
    · subst hj
      simp
    · simp [hj]
  · intro j hj
    rw [update_of_ne (by omega)]
    exact h.built.beyond j hj
  · intro j hj
    rw [hmask]
    exact h.built.some j hj
  · intro r hr
    rcases mem_cons.mp hr with rfl | hr
    · exact ⟨i, hless, by rw [hmask]; exact howned⟩
    · obtain ⟨j, hj, hbit⟩ := h.built.owned r hr
      exact ⟨j, hj, by rw [hmask]; exact hbit⟩
  · intro j k id hj hk
    rw [hmask] at hj hk
    exact h.built.alone j k id hj hk
  · intro j id hj
    rw [hmask] at hj
    obtain ⟨r, hr, hid⟩ := h.built.asked j id hj
    exact ⟨r, mem_cons_of_mem _ hr, hid⟩
  · intro j v
    rw [hmask]
    by_cases hj : j = i
    · subst hj
      simp only [update_self, or_getLsbD, h.built.allowed j v]
      constructor
      · rintro (⟨r, hr, hbit, hv⟩ | hv)
        · exact ⟨r, mem_cons_of_mem _ hr, hbit, hv⟩
        · exact ⟨_, mem_cons_self, howned, hv⟩
      · rintro ⟨r, hr, hbit, hv⟩
        rcases mem_cons.mp hr with rfl | hr
        · exact .inr hv
        · exact .inl ⟨r, hr, hbit, hv⟩
    · rw [update_of_ne hj, h.built.allowed j v]
      constructor
      · rintro ⟨r, hr, hbit, hv⟩
        exact ⟨r, mem_cons_of_mem _ hr, hbit, hv⟩
      · rintro ⟨r, hr, hbit, hv⟩
        rcases mem_cons.mp hr with rfl | hr
        · exact absurd (h.built.alone j i _ hbit howned) hj
        · exact ⟨r, hr, hbit, hv⟩
  · intro j hstart hj
    obtain ⟨r, hr, hfor, hbit⟩ := h.madeFor j hstart hj
    exact ⟨r, mem_cons_of_mem _ hr, hfor, by rw [hmask]; exact hbit⟩

theorem Making.join (h : Making worldSwitch idx requests startIdx idxVfMask) {i : Nat}
    (hid : hwSchedId < 32)
    (hfresh : ∀ j, (worldSwitch j).hwSchedMask.getLsbD hwSchedId = false)
    (hstart : startIdx ≤ i) (hless : i < idx) :
    Making (update worldSwitch i { worldSwitch i with
        hwSchedMask := (worldSwitch i).hwSchedMask ||| bit hwSchedId })
      idx ((hwSchedId, idxVfMask) :: requests) startIdx idxVfMask := by
  have hmask : ∀ j id, (update worldSwitch i { worldSwitch i with
      hwSchedMask := (worldSwitch i).hwSchedMask ||| bit hwSchedId } j).hwSchedMask.getLsbD id =
        true ↔ (worldSwitch j).hwSchedMask.getLsbD id = true ∨ j = i ∧ id = hwSchedId := by
    intro j id
    by_cases hj : j = i
    · subst hj
      rw [update_self, or_getLsbD, bit_getLsbD]
      simp only [true_and]
      constructor
      · rintro (hb | hb)
        · exact .inl hb
        · exact .inr hb.1
      · rintro (hb | rfl)
        · exact .inl hb
        · exact .inr ⟨rfl, hid⟩
    · rw [update_of_ne hj]
      simp [hj]
  have hnone : ∀ r ∈ requests, r.1 ≠ hwSchedId := by
    intro r hr heq
    obtain ⟨j, _, hbit⟩ := h.built.owned r hr
    rw [heq, hfresh j] at hbit
    cases hbit
  refine ⟨⟨?_, ?_, ?_, ?_, ?_, ?_, ?_⟩, ?_, h.started⟩
  · intro j
    rw [← h.built.enabled j]
    by_cases hj : j = i
    · subst hj
      simp
    · simp [hj]
  · intro j hj
    rw [update_of_ne (by omega)]
    exact h.built.beyond j hj
  · intro j hj
    obtain ⟨id, hbit⟩ := h.built.some j hj
    exact ⟨id, (hmask j id).mpr (.inl hbit)⟩
  · intro r hr
    rcases mem_cons.mp hr with rfl | hr
    · exact ⟨i, hless, (hmask i _).mpr (.inr ⟨rfl, rfl⟩)⟩
    · obtain ⟨j, hj, hbit⟩ := h.built.owned r hr
      exact ⟨j, hj, (hmask j _).mpr (.inl hbit)⟩
  · intro j k id hj hk
    rcases (hmask j id).mp hj with hold | ⟨rfl, rfl⟩
    · rcases (hmask k id).mp hk with hold' | ⟨rfl, rfl⟩
      · exact h.built.alone j k id hold hold'
      · rw [hfresh j] at hold
        cases hold
    · rcases (hmask k _).mp hk with hold | ⟨rfl, _⟩
      · rw [hfresh k] at hold
        cases hold
      · rfl
  · intro j id hj
    rcases (hmask j id).mp hj with hj | ⟨_, rfl⟩
    · obtain ⟨r, hr, hr1⟩ := h.built.asked j id hj
      exact ⟨r, mem_cons_of_mem _ hr, hr1⟩
    · exact ⟨_, mem_cons_self, rfl⟩
  · intro j v
    have hallowed : (update worldSwitch i { worldSwitch i with
        hwSchedMask := (worldSwitch i).hwSchedMask ||| bit hwSchedId } j).allowedVfAssignment =
        (worldSwitch j).allowedVfAssignment := by
      by_cases hj : j = i
      · subst hj
        simp
      · simp [hj]
    rw [hallowed, h.built.allowed j v]
    constructor
    · rintro ⟨r, hr, hbit, hv⟩
      exact ⟨r, mem_cons_of_mem _ hr, (hmask j _).mpr (.inl hbit), hv⟩
    · rintro ⟨r, hr, hbit, hv⟩
      rcases mem_cons.mp hr with rfl | hr
      · -- the world switch serves them already, by the request that made it
        rcases (hmask j _).mp hbit with hbit | ⟨rfl, _⟩
        · rw [hfresh j] at hbit
          cases hbit
        · obtain ⟨r, hr, hfor, hbit⟩ := h.madeFor j hstart hless
          exact ⟨r, hr, hbit, by rw [hfor]; exact hv⟩
      · rcases (hmask j _).mp hbit with hbit | ⟨_, heq⟩
        · exact ⟨r, hr, hbit, hv⟩
        · exact absurd heq (hnone r hr)
  · intro j hj hjless
    obtain ⟨r, hr, hfor, hbit⟩ := h.madeFor j hj hjless
    exact ⟨r, mem_cons_of_mem _ hr, hfor, (hmask j _).mpr (.inl hbit)⟩

theorem Making.create (h : Making worldSwitch idx requests startIdx idxVfMask)
    (hid : hwSchedId < 32)
    (hfresh : ∀ j, (worldSwitch j).hwSchedMask.getLsbD hwSchedId = false)
    (schedBlock : SchedBlock) :
    Making (update worldSwitch idx { worldSwitch idx with
        enabled := true
        allowedVfAssignment := (worldSwitch idx).allowedVfAssignment ||| idxVfMask
        hwSchedMask := (worldSwitch idx).hwSchedMask ||| bit hwSchedId
        schedBlock := schedBlock })
      (idx + 1) ((hwSchedId, idxVfMask) :: requests) startIdx idxVfMask := by
  have hzero := h.built.beyond idx (Nat.le_refl idx)
  have hbit : ∀ id, ((worldSwitch idx).hwSchedMask ||| bit hwSchedId).getLsbD id = true ↔
      id = hwSchedId := by
    intro id
    rw [or_getLsbD, bit_getLsbD, hzero]
    simp only [WorldSwitch.zero, zero_getLsbD, Bool.false_eq_true, false_or]
    constructor
    · exact fun hb => hb.1
    · rintro rfl
      exact ⟨rfl, hid⟩
  have hnone : ∀ r ∈ requests, r.1 ≠ hwSchedId := by
    intro r hr heq
    obtain ⟨j, _, hbit⟩ := h.built.owned r hr
    rw [heq, hfresh j] at hbit
    cases hbit
  refine ⟨⟨?_, ?_, ?_, ?_, ?_, ?_, ?_⟩, ?_, Nat.le_succ_of_le h.started⟩
  · intro j
    by_cases hj : j = idx
    · subst hj
      simp
    · rw [update_of_ne hj, h.built.enabled j]
      omega
  · intro j hj
    rw [update_of_ne (by omega)]
    exact h.built.beyond j (by omega)
  · intro j hj
    by_cases hji : j = idx
    · subst hji
      exact ⟨hwSchedId, by rw [update_self]; exact (hbit _).mpr rfl⟩
    · rw [update_of_ne hji]
      exact h.built.some j (by omega)
  · intro r hr
    rcases mem_cons.mp hr with rfl | hr
    · exact ⟨idx, by omega, by rw [update_self]; exact (hbit _).mpr rfl⟩
    · obtain ⟨j, hj, hb⟩ := h.built.owned r hr
      exact ⟨j, by omega, by rw [update_of_ne (by omega)]; exact hb⟩
  · intro j k id hj hk
    by_cases hji : j = idx
    · subst hji
      rw [update_self] at hj
      cases (hbit id).mp hj
      by_cases hki : k = j
      · exact hki.symm
      · rw [update_of_ne hki, hfresh k] at hk
        cases hk
    · rw [update_of_ne hji] at hj
      by_cases hki : k = idx
      · subst hki
        rw [update_self] at hk
        cases (hbit id).mp hk
        rw [hfresh j] at hj
        cases hj
      · rw [update_of_ne hki] at hk
        exact h.built.alone j k id hj hk
  · intro j id hj
    by_cases hji : j = idx
    · subst hji
      rw [update_self] at hj
      exact ⟨_, mem_cons_self, ((hbit id).mp hj).symm⟩
    · rw [update_of_ne hji] at hj
      obtain ⟨r, hr, hr1⟩ := h.built.asked j id hj
      exact ⟨r, mem_cons_of_mem _ hr, hr1⟩
  · intro j v
    by_cases hji : j = idx
    · subst hji
      simp only [update_self, or_getLsbD (i := v), hbit]
      rw [hzero]
      simp only [WorldSwitch.zero, zero_getLsbD, Bool.false_eq_true, false_or]
      constructor
      · exact fun hv => ⟨_, mem_cons_self, rfl, hv⟩
      · rintro ⟨r, hr, hr1, hv⟩
        rcases mem_cons.mp hr with rfl | hr
        · exact hv
        · exact absurd hr1 (hnone r hr)
    · rw [update_of_ne hji, h.built.allowed j v]
      constructor
      · rintro ⟨r, hr, hb, hv⟩
        exact ⟨r, mem_cons_of_mem _ hr, hb, hv⟩
      · rintro ⟨r, hr, hb, hv⟩
        rcases mem_cons.mp hr with rfl | hr
        · rw [hfresh j] at hb
          cases hb
        · exact ⟨r, hr, hb, hv⟩
  · intro j hj hjless
    by_cases hji : j = idx
    · subst hji
      exact ⟨_, mem_cons_self, rfl, by rw [update_self]; exact (hbit _).mpr rfl⟩
    · obtain ⟨r, hr, hfor, hb⟩ := h.madeFor j hj (by omega)
      exact ⟨r, mem_cons_of_mem _ hr, hfor, by rw [update_of_ne hji]; exact hb⟩

theorem Making.request (h : Making worldSwitch idx requests startIdx idxVfMask)
    (hid : hwSchedId < 32) (hroom : idx ≤ 32) {worldSwitch' : Nat → WorldSwitch} {idx' : Nat}
    (hrequest : requestHwSched ctrlBlocks idxVfMask startIdx (worldSwitch, idx) hwSchedId =
      (worldSwitch', idx')) :
    Making worldSwitch' idx' ((hwSchedId, idxVfMask) :: requests) startIdx idxVfMask := by
  unfold requestHwSched at hrequest
  dsimp only at hrequest
  split at hrequest
  case h_1 i hfind =>
    obtain ⟨rfl, rfl⟩ := Prod.mk.inj hrequest
    have hfound := find?_some hfind
    simp only [Bool.and_eq_true] at hfound
    exact h.share hfound.2
  case h_2 hfind =>
    have hfresh : ∀ j, (worldSwitch j).hwSchedMask.getLsbD hwSchedId = false := by
      intro j
      by_cases hj : j < idx
      · have hnot := find?_eq_none.mp hfind j (mem_range.mpr (by omega))
        simpa [(h.built.enabled j).mpr hj] using hnot
      · rw [h.built.beyond j (by omega)]
        simp [WorldSwitch.zero]
    split at hrequest
    case h_1 i hfind' =>
      obtain ⟨rfl, rfl⟩ := Prod.mk.inj hrequest
      have hfound := find?_some hfind'
      have hmem := mem_range'_1.mp (mem_of_find?_eq_some hfind')
      simp only [Bool.and_eq_true] at hfound
      exact h.join hid hfresh hmem.1 ((h.built.enabled i).mp hfound.1)
    case h_2 _ =>
      obtain ⟨rfl, rfl⟩ := Prod.mk.inj hrequest
      exact h.create hid hfresh _

theorem Making.part {num : Nat} (hnum : num ≤ 32) (list : List Nat) (hlist : ∀ id ∈ list, id < num)
    (h : Making worldSwitch idx requests startIdx idxVfMask) (hknown : ∀ r ∈ requests, r.1 < num)
    {worldSwitch' : Nat → WorldSwitch} {idx' : Nat}
    (hfold : list.foldl (requestHwSched ctrlBlocks idxVfMask startIdx) (worldSwitch, idx) =
      (worldSwitch', idx')) :
    ∃ requests', Built worldSwitch' idx' requests' ∧
      ∀ r, r ∈ requests' ↔ r ∈ requests ∨ r.1 ∈ list ∧ r.2 = idxVfMask := by
  induction list generalizing worldSwitch idx requests with
  | nil =>
    obtain ⟨rfl, rfl⟩ := Prod.mk.inj hfold
    exact ⟨requests, h.built, fun r => by simp⟩
  | cons id list ih =>
    rw [foldl_cons] at hfold
    have hid := hlist id mem_cons_self
    have hnext := h.request (show id < 32 by omega) (Nat.le_trans (h.built.few hknown) hnum)
      (show requestHwSched ctrlBlocks idxVfMask startIdx (worldSwitch, idx) id = _ from rfl)
    obtain ⟨requests', hbuilt, hrequests⟩ := ih
      (fun id hid => hlist id (mem_cons_of_mem _ hid)) hnext
      (fun r hr => by
        rcases mem_cons.mp hr with rfl | hr
        · exact hid
        · exact hknown r hr) hfold
    refine ⟨requests', hbuilt, fun r => ?_⟩
    rw [hrequests r, mem_cons, mem_cons]
    constructor
    · rintro ((rfl | hr) | ⟨hr, hfor⟩)
      · exact .inr ⟨.inl rfl, rfl⟩
      · exact .inl hr
      · exact .inr ⟨.inr hr, hfor⟩
    · rintro (hr | ⟨heq | hr, hfor⟩)
      · exact .inl (.inr hr)
      · exact .inl (.inl (Prod.ext heq hfor))
      · exact .inr ⟨hr, hfor⟩

theorem requestParts_built {num : Nat} (hnum : num < 32) (parts : List SpatialPart)
    (hparts : ∀ part ∈ parts, ∀ id, part.hwSchedMask.getLsbD id = true → id < num)
    (h : Built worldSwitch idx requests) (hknown : ∀ r ∈ requests, r.1 < num) :
    ∃ worldSwitch' idx' requests',
      requestParts ctrlBlocks parts (worldSwitch, idx) = (true, worldSwitch', idx') ∧
      Built worldSwitch' idx' requests' ∧ idx' ≤ num ∧
      ∀ r, r ∈ requests' ↔ r ∈ requests ∨
        ∃ part ∈ parts, part.hwSchedMask.getLsbD r.1 = true ∧ r.2 = part.idxVfMask := by
  induction parts generalizing worldSwitch idx requests with
  | nil => exact ⟨worldSwitch, idx, requests, rfl, h, h.few hknown, fun r => by simp⟩
  | cons part parts ih =>
    have hfew := h.few hknown
    have hpart : ∀ id ∈ ids part.hwSchedMask, id < num := fun id hid =>
      hparts part mem_cons_self id (mem_ids.mp hid)
    have hmaking : Making worldSwitch idx requests idx part.idxVfMask :=
      ⟨h, fun i hstart hless => absurd hless (by omega), Nat.le_refl idx⟩
    obtain ⟨requests', hbuilt, hrequests⟩ := hmaking.part
      (Nat.le_of_lt hnum) (ids part.hwSchedMask) hpart hknown
      (show (ids part.hwSchedMask).foldl
        (requestHwSched ctrlBlocks part.idxVfMask idx) (worldSwitch, idx) = _ from rfl)
    obtain ⟨worldSwitch'', idx'', requests'', hrun, hbuilt'', hfew'', hrequests''⟩ := ih
      (fun part hpart => hparts part (mem_cons_of_mem _ hpart)) hbuilt
      (fun r hr => by
        rcases (hrequests r).mp hr with hr | ⟨hr, _⟩
        · exact hknown r hr
        · exact hpart r.1 hr)
    refine ⟨worldSwitch'', idx'', requests'', ?_, hbuilt'', hfew'', fun r => ?_⟩
    · unfold requestParts
      rw [if_neg (show ¬ 32 ≤ idx by omega)]
      exact hrun
    · rw [hrequests'' r, hrequests r, mem_ids, or_assoc]
      simp only [mem_cons, exists_eq_or_imp]

end Init

end MxGpu.SchedMapping
