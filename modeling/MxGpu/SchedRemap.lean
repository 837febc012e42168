import MxGpu.SchedMapping

/- The two tables of the mapping stay the same relation, whatever the number of virtual functions. -/
namespace MxGpu.SchedMapping

open Function List

section Mapping

variable {adapt : Adapter}

/-- What the tables have to say: the VFs of the partitions that ask for a scheduler of the world
switch. -/
def Covers (adapt : Adapter) (w v : Nat) : Prop :=
  ∃ part ∈ adapt.parts, part.hwSchedMask &&& (adapt.worldSwitch w).hwSchedMask ≠ 0 ∧
    part.idxVfMask.getLsbD v = true

/-- `v` is among the VFs that `w` serves. -/
def Allowed (adapt : Adapter) (w v : Nat) : Prop :=
  (adapt.worldSwitch w).allowedVfAssignment.getLsbD v = true

/-- `w` is among the world switches that `v` is on. -/
def Switched (adapt : Adapter) (v w : Nat) : Prop :=
  (adapt.arrayVf v).worldSwitchMask.getLsbD w = true

def Symmetric (adapt : Adapter) : Prop := ∀ w v, Allowed adapt w v ↔ Switched adapt v w

theorem mapPart_loop (list : List Nat) (hlist : ∀ j ∈ list, j < 32) (part : SpatialPart) :
    let part' := list.foldl (fun part j =>
      if part.hwSchedMask &&& (adapt.worldSwitch j).hwSchedMask = 0 then part
      else { part with
        worldSwitchMask := part.worldSwitchMask ||| bit j
        wsMap := update part.wsMap (adapt.worldSwitch j).schedBlock (some j) }) part
    part'.idxVfMask = part.idxVfMask ∧ part'.hwSchedMask = part.hwSchedMask ∧
      ∀ w, part'.worldSwitchMask.getLsbD w = true ↔
        part.worldSwitchMask.getLsbD w = true ∨
          w ∈ list ∧ part.hwSchedMask &&& (adapt.worldSwitch w).hwSchedMask ≠ 0 := by
  induction list generalizing part with
  | nil => simp
  | cons j list ih =>
    have hj := hlist j mem_cons_self
    have hrest := fun k hk => hlist k (mem_cons_of_mem _ hk)
    rw [foldl_cons]
    by_cases hmeet : part.hwSchedMask &&& (adapt.worldSwitch j).hwSchedMask = 0
    · rw [if_pos hmeet]
      obtain ⟨hvf, hhw, hmask⟩ := ih hrest part
      refine ⟨hvf, hhw, fun w => ?_⟩
      rw [hmask w, mem_cons]
      constructor
      · rintro (hold | ⟨hw, hne⟩)
        · exact .inl hold
        · exact .inr ⟨.inr hw, hne⟩
      · rintro (hold | ⟨rfl | hw, hne⟩)
        · exact .inl hold
        · exact absurd hmeet hne
        · exact .inr ⟨hw, hne⟩
    · rw [if_neg hmeet]
      obtain ⟨hvf, hhw, hmask⟩ := ih hrest { part with
        worldSwitchMask := part.worldSwitchMask ||| bit j
        wsMap := update part.wsMap (adapt.worldSwitch j).schedBlock (some j) }
      refine ⟨hvf, hhw, fun w => ?_⟩
      rw [hmask w, or_getLsbD, bit_getLsbD, mem_cons]
      constructor
      · rintro ((hold | ⟨rfl, _⟩) | ⟨hw, hne⟩)
        · exact .inl hold
        · exact .inr ⟨.inl rfl, hmeet⟩
        · exact .inr ⟨.inr hw, hne⟩
      · rintro (hold | ⟨rfl | hw, hne⟩)
        · exact .inl (.inl hold)
        · exact .inl (.inr ⟨rfl, hj⟩)
        · exact .inr ⟨hw, hne⟩

theorem mapPart_spec (hnum : adapt.numWorldSwitch ≤ 32) (part : SpatialPart) :
    (mapPart adapt part).idxVfMask = part.idxVfMask ∧
      (mapPart adapt part).hwSchedMask = part.hwSchedMask ∧
      ∀ w, (mapPart adapt part).worldSwitchMask.getLsbD w = true ↔
        part.worldSwitchMask.getLsbD w = true ∨ w < adapt.numWorldSwitch ∧
          part.hwSchedMask &&& (adapt.worldSwitch w).hwSchedMask ≠ 0 := by
  have h := (@mapPart_loop adapt) (range adapt.numWorldSwitch)
    (fun j hj => by have := mem_range.mp hj; omega) part
  simp only [mem_range] at h
  exact h

theorem addVfs_loop (part : SpatialPart) (list : List Nat) (adapt : Adapter) :
    ∃ arrayVf, list.foldl (fun adapt idxVf => { adapt with
        arrayVf := update adapt.arrayVf idxVf
          (vfMapAdd adapt (adapt.arrayVf idxVf) part) }) adapt =
        { adapt with arrayVf := arrayVf } ∧
      ∀ v w, (arrayVf v).worldSwitchMask.getLsbD w = true ↔
        (adapt.arrayVf v).worldSwitchMask.getLsbD w = true ∨
          v ∈ list ∧ part.worldSwitchMask.getLsbD w = true := by
  induction list generalizing adapt with
  | nil => exact ⟨adapt.arrayVf, rfl, fun v w => by simp⟩
  | cons idxVf list ih =>
    rw [foldl_cons]
    obtain ⟨arrayVf, hfold, hmask⟩ := ih { adapt with
      arrayVf := update adapt.arrayVf idxVf
        (vfMapAdd adapt (adapt.arrayVf idxVf) part) }
    refine ⟨arrayVf, hfold, fun v w => ?_⟩
    rw [hmask v w, mem_cons]
    by_cases hv : v = idxVf
    · subst hv
      simp only [update_self, vfMapAdd, or_getLsbD, true_or, true_and]
      constructor
      · rintro ((hold | hnew) | ⟨_, hnew⟩)
        · exact .inl hold
        · exact .inr hnew
        · exact .inr hnew
      · rintro (hold | hnew)
        · exact .inl (.inl hold)
        · exact .inl (.inr hnew)
    · simp [hv]

def mapPartAt (adapt : Adapter) (i : Nat) : Adapter :=
  let part := mapPart adapt (adapt.spatialPart i)
  let adapt := { adapt with spatialPart := update adapt.spatialPart i part }
  (ids part.idxVfMask).foldl (fun adapt idxVf =>
    { adapt with
      arrayVf := update adapt.arrayVf idxVf
        (vfMapAdd adapt (adapt.arrayVf idxVf) part) }) adapt

/-- The masks of the partitions hold only world switches that they meet. -/
def Fresh (adapt : Adapter) : Prop :=
  ∀ i w, (adapt.spatialPart i).worldSwitchMask.getLsbD w = true → w < adapt.numWorldSwitch ∧
    (adapt.spatialPart i).hwSchedMask &&& (adapt.worldSwitch w).hwSchedMask ≠ 0

theorem mapPartAt_spec (hnum : adapt.numWorldSwitch ≤ 32) (hfresh : Fresh adapt) (i : Nat) :
    ∃ spatialPart arrayVf, mapPartAt adapt i =
        { adapt with spatialPart := spatialPart, arrayVf := arrayVf } ∧
      Fresh (mapPartAt adapt i) ∧
      (∀ j, (spatialPart j).idxVfMask = (adapt.spatialPart j).idxVfMask ∧
        (spatialPart j).hwSchedMask = (adapt.spatialPart j).hwSchedMask) ∧
      ∀ v w, (arrayVf v).worldSwitchMask.getLsbD w = true ↔
        (adapt.arrayVf v).worldSwitchMask.getLsbD w = true ∨
          (adapt.spatialPart i).idxVfMask.getLsbD v = true ∧ w < adapt.numWorldSwitch ∧
            (adapt.spatialPart i).hwSchedMask &&& (adapt.worldSwitch w).hwSchedMask ≠ 0 := by
  obtain ⟨hvf, hhw, hmask⟩ := mapPart_spec hnum (adapt.spatialPart i)
  obtain ⟨arrayVf, hfold, harray⟩ := addVfs_loop (mapPart adapt (adapt.spatialPart i))
    (ids (mapPart adapt (adapt.spatialPart i)).idxVfMask)
    { adapt with
      spatialPart := update adapt.spatialPart i (mapPart adapt (adapt.spatialPart i)) }
  have hmask' : ∀ w, (mapPart adapt (adapt.spatialPart i)).worldSwitchMask.getLsbD w = true ↔
      w < adapt.numWorldSwitch ∧
        (adapt.spatialPart i).hwSchedMask &&& (adapt.worldSwitch w).hwSchedMask ≠ 0 := by
    intro w
    rw [hmask w]
    constructor
    · rintro (hold | hnew)
      · exact hfresh i w hold
      · exact hnew
    · exact .inr
  refine ⟨_, arrayVf, hfold, ?_, ?_, ?_⟩
  · intro j w
    unfold mapPartAt
    dsimp only
    rw [hfold]
    by_cases hj : j = i
    · subst hj
      simp only [update_self, hhw]
      exact (hmask' w).mp
    · simp only [update_of_ne hj]
      exact hfresh j w
  · intro j
    by_cases hj : j = i
    · subst hj
      simp only [update_self, hvf, hhw, and_self]
    · simp only [update_of_ne hj, and_self]
  · intro v w
    rw [harray v w, mem_ids, hvf, hmask' w]

theorem mapParts_loop (list : List Nat) (hnum : adapt.numWorldSwitch ≤ 32)
    (hfresh : Fresh adapt) :
    ∃ spatialPart arrayVf, list.foldl mapPartAt adapt =
        { adapt with spatialPart := spatialPart, arrayVf := arrayVf } ∧
      Fresh (list.foldl mapPartAt adapt) ∧
      (∀ j, (spatialPart j).idxVfMask = (adapt.spatialPart j).idxVfMask ∧
        (spatialPart j).hwSchedMask = (adapt.spatialPart j).hwSchedMask) ∧
      ∀ v w, (arrayVf v).worldSwitchMask.getLsbD w = true ↔
        (adapt.arrayVf v).worldSwitchMask.getLsbD w = true ∨
          ∃ i ∈ list, (adapt.spatialPart i).idxVfMask.getLsbD v = true ∧
            w < adapt.numWorldSwitch ∧
              (adapt.spatialPart i).hwSchedMask &&& (adapt.worldSwitch w).hwSchedMask ≠ 0 := by
  induction list generalizing adapt with
  | nil => exact ⟨adapt.spatialPart, adapt.arrayVf, rfl, hfresh, fun _ => ⟨rfl, rfl⟩, by simp⟩
  | cons i list ih =>
    obtain ⟨spatialPart, arrayVf, hat, hfresh', hsame, hmask⟩ := mapPartAt_spec hnum hfresh i
    rw [foldl_cons]
    have hnum' : (mapPartAt adapt i).numWorldSwitch ≤ 32 := by
      rw [hat]
      exact hnum
    obtain ⟨spatialPart', arrayVf', hloop, hfresh'', hsame', hmask'⟩ := ih hnum' hfresh'
    rw [hat] at hsame' hmask'
    refine ⟨spatialPart', arrayVf', ?_, hfresh'', fun j => ?_, fun v w => ?_⟩
    · rw [hloop, hat]
    · exact ⟨(hsame' j).1.trans (hsame j).1, (hsame' j).2.trans (hsame j).2⟩
    · rw [hmask' v w]
      dsimp only
      rw [hmask v w]
      simp only [mem_cons, exists_eq_or_imp, (hsame _).1, (hsame _).2, or_assoc]

theorem mem_parts {part : SpatialPart} :
    part ∈ adapt.parts ↔ ∃ i < adapt.numSpatialPartitions, adapt.spatialPart i = part := by
  simp [Adapter.parts]

theorem partMappingInit_spec (hnum : adapt.numWorldSwitch ≤ 32) (hfresh : Fresh adapt) :
    ∃ spatialPart arrayVf, partMappingInit adapt =
        { adapt with spatialPart := spatialPart, arrayVf := arrayVf } ∧
      Fresh (partMappingInit adapt) ∧
      (∀ j, (spatialPart j).idxVfMask = (adapt.spatialPart j).idxVfMask ∧
        (spatialPart j).hwSchedMask = (adapt.spatialPart j).hwSchedMask) ∧
      ∀ v w, (arrayVf v).worldSwitchMask.getLsbD w = true ↔
        w < adapt.numWorldSwitch ∧ Covers adapt w v := by
  obtain ⟨spatialPart, arrayVf, hloop, hfresh', hsame, hmask⟩ :=
    (@mapParts_loop { adapt with arrayVf := fun _ => VfInfo.zero })
      (range adapt.numSpatialPartitions) hnum hfresh
  refine ⟨spatialPart, arrayVf, hloop, hfresh', hsame, fun v w => ?_⟩
  rw [hmask v w]
  unfold Covers
  simp only [VfInfo.zero, zero_getLsbD, Bool.false_eq_true, false_or, mem_range, mem_parts]
  constructor
  · rintro ⟨i, hi, hv, hw, hmeet⟩
    exact ⟨hw, _, ⟨i, hi, rfl⟩, hmeet, hv⟩
  · rintro ⟨hw, _, ⟨i, hi, rfl⟩, hmeet, hv⟩
    exact ⟨i, hi, hv, hw, hmeet⟩

/-- The world switches are those of before, but for the VFs they serve. -/
structure SameSwitches (adapt adapt' : Adapter) : Prop where
  ctrlBlocks : adapt'.ctrlBlocks = adapt.ctrlBlocks
  numSpatialPartitions : adapt'.numSpatialPartitions = adapt.numSpatialPartitions
  spatialPart : adapt'.spatialPart = adapt.spatialPart
  numWorldSwitch : adapt'.numWorldSwitch = adapt.numWorldSwitch
  hwSchedMask : ∀ w, (adapt'.worldSwitch w).hwSchedMask = (adapt.worldSwitch w).hwSchedMask

variable {adapt' adapt'' : Adapter}

theorem SameSwitches.refl (adapt : Adapter) : SameSwitches adapt adapt :=
  ⟨rfl, rfl, rfl, rfl, fun _ => rfl⟩

theorem SameSwitches.trans (h : SameSwitches adapt adapt') (h' : SameSwitches adapt' adapt'') :
    SameSwitches adapt adapt'' :=
  ⟨h'.ctrlBlocks.trans h.ctrlBlocks, h'.numSpatialPartitions.trans h.numSpatialPartitions,
    h'.spatialPart.trans h.spatialPart, h'.numWorldSwitch.trans h.numWorldSwitch,
    fun w => (h'.hwSchedMask w).trans (h.hwSchedMask w)⟩

theorem SameSwitches.parts (h : SameSwitches adapt adapt') : adapt'.parts = adapt.parts := by
  unfold Adapter.parts
  rw [h.numSpatialPartitions, h.spatialPart]

theorem sameSwitches_set (w : Nat) (allowed : Mask) :
    SameSwitches adapt (adapt.setWorldSwitch w { adapt.worldSwitch w with
      allowedVfAssignment := allowed }) := by
  refine ⟨rfl, rfl, rfl, rfl, fun j => ?_⟩
  by_cases hj : j = w
  · subst hj
    simp [Adapter.setWorldSwitch]
  · simp [Adapter.setWorldSwitch, hj]

theorem set_allowed (w : Nat) (allowed : Mask) (j v : Nat) :
    Allowed (adapt.setWorldSwitch w { adapt.worldSwitch w with
      allowedVfAssignment := allowed }) j v ↔
      if j = w then allowed.getLsbD v = true else Allowed adapt j v := by
  unfold Allowed Adapter.setWorldSwitch
  by_cases hj : j = w
  · subst hj
    simp
  · simp [hj]

theorem Covers.same (h : SameSwitches adapt adapt') (w v : Nat) :
    Covers adapt' w v ↔ Covers adapt w v := by
  unfold Covers
  rw [h.parts, h.hwSchedMask]

theorem clear_loop (list : List Nat) (adapt : Adapter) :
    SameSwitches adapt (list.foldl (fun adapt i =>
        adapt.setWorldSwitch i { adapt.worldSwitch i with allowedVfAssignment := 0 }) adapt) ∧
      ∀ w v, Allowed (list.foldl (fun adapt i =>
        adapt.setWorldSwitch i { adapt.worldSwitch i with allowedVfAssignment := 0 }) adapt) w v ↔
          w ∉ list ∧ Allowed adapt w v := by
  induction list generalizing adapt with
  | nil => exact ⟨.refl adapt, by simp⟩
  | cons i list ih =>
    rw [foldl_cons]
    obtain ⟨hsame, hallowed⟩ := ih (adapt.setWorldSwitch i
      { adapt.worldSwitch i with allowedVfAssignment := 0 })
    refine ⟨(sameSwitches_set i 0).trans hsame, fun w v => ?_⟩
    rw [hallowed w v, set_allowed, mem_cons]
    by_cases hw : w = i
    · simp [hw]
    · simp [hw]

theorem remapPart_loop (part : SpatialPart) (list : List Nat) (hit : Bool) (adapt : Adapter) :
    let result := list.foldl (fun (hit, adapt) i =>
      let worldSwitch := adapt.worldSwitch i
      if worldSwitch.hwSchedMask &&& part.hwSchedMask = 0 then (hit, adapt)
      else (true, adapt.setWorldSwitch i { worldSwitch with
        allowedVfAssignment := worldSwitch.allowedVfAssignment ||| part.idxVfMask })) (hit, adapt)
    SameSwitches adapt result.2 ∧
      ((∃ i ∈ list, part.hwSchedMask &&& (adapt.worldSwitch i).hwSchedMask ≠ 0) →
        result.1 = true) ∧ (hit = true → result.1 = true) ∧
      ∀ w v, Allowed result.2 w v ↔ Allowed adapt w v ∨
        w ∈ list ∧ part.hwSchedMask &&& (adapt.worldSwitch w).hwSchedMask ≠ 0 ∧
          part.idxVfMask.getLsbD v = true := by
  induction list generalizing adapt hit with
  | nil => exact ⟨.refl adapt, by simp, id, by simp⟩
  | cons i list ih =>
    rw [foldl_cons]
    dsimp only
    rw [BitVec.and_comm]
    by_cases hmeet : part.hwSchedMask &&& (adapt.worldSwitch i).hwSchedMask = 0
    · rw [if_pos hmeet]
      obtain ⟨hsame, hhit, hkeeps, hallowed⟩ := ih hit adapt
      refine ⟨hsame, ?_, hkeeps, fun w v => ?_⟩
      · rintro ⟨j, hj, hne⟩
        rcases mem_cons.mp hj with rfl | hj
        · exact absurd hmeet hne
        · exact hhit ⟨j, hj, hne⟩
      · rw [hallowed w v, mem_cons]
        constructor
        · rintro (hold | ⟨hw, hnew⟩)
          · exact .inl hold
          · exact .inr ⟨.inr hw, hnew⟩
        · rintro (hold | ⟨rfl | hw, hne, hv⟩)
          · exact .inl hold
          · exact absurd hmeet hne
          · exact .inr ⟨hw, hne, hv⟩
    · rw [if_neg hmeet]
      obtain ⟨hsame, _, hkeeps, hallowed⟩ := ih true (adapt.setWorldSwitch i
        { adapt.worldSwitch i with
          allowedVfAssignment := (adapt.worldSwitch i).allowedVfAssignment ||| part.idxVfMask })
      have hset := (@sameSwitches_set adapt) i
        ((adapt.worldSwitch i).allowedVfAssignment ||| part.idxVfMask)
      refine ⟨hset.trans hsame, fun _ => hkeeps rfl, fun _ => hkeeps rfl, fun w v => ?_⟩
      rw [hallowed w v, set_allowed, hset.hwSchedMask, mem_cons]
      by_cases hw : w = i
      · subst hw
        rw [if_pos rfl, or_getLsbD]
        constructor
        · rintro ((hold | hv) | ⟨_, hne, hv⟩)
          · exact .inl hold
          · exact .inr ⟨.inl rfl, hmeet, hv⟩
          · exact .inr ⟨.inl rfl, hne, hv⟩
        · rintro (hold | ⟨_, _, hv⟩)
          · exact .inl (.inl hold)
          · exact .inl (.inr hv)
      · simp [hw]

theorem remapParts_spec (parts : List SpatialPart) (adapt : Adapter)
    (hhits : ∀ part ∈ parts, ∃ w < adapt.numWorldSwitch,
      part.hwSchedMask &&& (adapt.worldSwitch w).hwSchedMask ≠ 0) :
    (remapParts adapt parts).1 = true ∧ SameSwitches adapt (remapParts adapt parts).2 ∧
      ∀ w v, Allowed (remapParts adapt parts).2 w v ↔ Allowed adapt w v ∨
        w < adapt.numWorldSwitch ∧ ∃ part ∈ parts,
          part.hwSchedMask &&& (adapt.worldSwitch w).hwSchedMask ≠ 0 ∧
            part.idxVfMask.getLsbD v = true := by
  induction parts generalizing adapt with
  | nil => exact ⟨rfl, .refl adapt, by simp [remapParts]⟩
  | cons part parts ih =>
    obtain ⟨hsame, hhit, _, hallowed⟩ :=
      remapPart_loop part (range adapt.numWorldSwitch) false adapt
    have hpart : (remapPart adapt part).1 = true := by
      obtain ⟨w, hw, hmeet⟩ := hhits part mem_cons_self
      exact hhit ⟨w, mem_range.mpr hw, hmeet⟩
    have hsame' : SameSwitches adapt (remapPart adapt part).2 := hsame
    obtain ⟨hok, hrest, hallowed'⟩ := ih (remapPart adapt part).2 (by
      intro part' hpart'
      rw [hsame'.numWorldSwitch]
      obtain ⟨w, hw, hmeet⟩ := hhits part' (mem_cons_of_mem _ hpart')
      exact ⟨w, hw, by rw [hsame'.hwSchedMask]; exact hmeet⟩)
    have hunfold : remapParts adapt (part :: parts) = remapParts (remapPart adapt part).2 parts := by
      show (if (remapPart adapt part).1 = true then remapParts (remapPart adapt part).2 parts
        else (false, (remapPart adapt part).2)) = _
      rw [if_pos hpart]
    rw [hunfold]
    refine ⟨hok, hsame'.trans hrest, fun w v => ?_⟩
    have hfirst : Allowed (remapPart adapt part).2 w v ↔ Allowed adapt w v ∨
        w ∈ range adapt.numWorldSwitch ∧
          part.hwSchedMask &&& (adapt.worldSwitch w).hwSchedMask ≠ 0 ∧
            part.idxVfMask.getLsbD v = true := hallowed w v
    rw [hallowed' w v, hfirst, hsame'.numWorldSwitch, hsame'.hwSchedMask, mem_range, or_assoc]
    simp only [mem_cons, exists_eq_or_imp]
    constructor
    · rintro (hold | ⟨hw, hnew⟩ | ⟨hw, hnew⟩)
      · exact .inl hold
      · exact .inr ⟨hw, .inl hnew⟩
      · exact .inr ⟨hw, .inr hnew⟩
    · rintro (hold | ⟨hw, hnew | hnew⟩)
      · exact .inl hold
      · exact .inr (.inl ⟨hw, hnew⟩)
      · exact .inr (.inr ⟨hw, hnew⟩)

end Mapping

section Runs

variable {asic : Asic} {ctrlBlocks : Nat → SchedBlock} {adapt adapt' : Adapter}

/-- The world switches that the loop of a query comes to: up to the first that two VFs share. -/
def visited (adapt : Adapter) : List Nat → List Nat
  | [] => []
  | id :: rest =>
    if 1 < countBits 32 ((adapt.worldSwitch id).allowedVfAssignment &&& ~~~bit pfIdx).toNat then
      [id]
    else id :: visited adapt rest

/-- What happens to the two tables. Adding or removing a VF, and a request for another partition
mode, write neither. -/
inductive Call where
  | schedSwInit (numVf : Nat)
  | setVfNum (numVf : Nat)
  | addVf (idxVf : Nat)
  | removeVf (idxVf : Nat)
  | setPartitionMode
  | isShared (idxVf : Nat)

def Call.run (asic : Asic) (adapt : Adapter) : Call → Adapter
  | .schedSwInit numVf => SchedMapping.schedSwInit asic adapt.ctrlBlocks numVf
  | .setVfNum numVf => reconfigMappingTables adapt asic numVf
  | .addVf _ | .removeVf _ | .setPartitionMode => adapt
  | .isShared idxVf => (isAnyWorldSwitchEngineShared adapt idxVf).2

def Step (asic : Asic) (adapt : Adapter) (call : Call) (adapt' : Adapter) : Prop :=
  adapt' = call.run asic adapt

def Started (asic : Asic) (adapt : Adapter) : Prop :=
  ∃ ctrlBlocks numVf, adapt = schedSwInit asic ctrlBlocks numVf

def SparesPf (adapt : Adapter) : Call → Prop
  | .isShared idxVf => ∀ w ∈ visited adapt (ids (adapt.arrayVf idxVf).worldSwitchMask),
      ¬ Allowed adapt w pfIdx
  | _ => True

structure Inv (asic : Asic) (adapt : Adapter) : Prop where
  few : adapt.numWorldSwitch ≤ 32
  beyond : ∀ w, adapt.numWorldSwitch ≤ w → (adapt.worldSwitch w).hwSchedMask = 0
  hits : ∀ part ∈ adapt.parts, ∃ w < adapt.numWorldSwitch,
    part.hwSchedMask &&& (adapt.worldSwitch w).hwSchedMask ≠ 0
  table : ∃ numVf, adapt.parts.map SpatialPart.hwSchedMask =
    (asic.table numVf).map PartConfig.hwSchedMask
  fresh : Fresh adapt
  allowed : ∀ w v, Allowed adapt w v ↔ Covers adapt w v
  switched : ∀ v w, Switched adapt v w ↔ Covers adapt w v

theorem Covers.less (hbeyond : ∀ w, adapt.numWorldSwitch ≤ w →
    (adapt.worldSwitch w).hwSchedMask = 0) {w v : Nat} (h : Covers adapt w v) :
    w < adapt.numWorldSwitch := by
  obtain ⟨part, _, hmeet, _⟩ := h
  by_contra hnot
  apply hmeet
  rw [hbeyond w (by omega)]
  exact BitVec.and_zero

theorem partMappingInit_inv (hfew : adapt.numWorldSwitch ≤ 32)
    (hbeyond : ∀ w, adapt.numWorldSwitch ≤ w → (adapt.worldSwitch w).hwSchedMask = 0)
    (hhits : ∀ part ∈ adapt.parts, ∃ w < adapt.numWorldSwitch,
      part.hwSchedMask &&& (adapt.worldSwitch w).hwSchedMask ≠ 0)
    (htable : ∃ numVf, adapt.parts.map SpatialPart.hwSchedMask =
      (asic.table numVf).map PartConfig.hwSchedMask)
    (hfresh : Fresh adapt) (hallowed : ∀ w v, Allowed adapt w v ↔ Covers adapt w v) :
    Inv asic (partMappingInit adapt) := by
  obtain ⟨spatialPart, arrayVf, heq, hfresh', hsame, hmask⟩ := partMappingInit_spec hfew hfresh
  have hparts : ∀ part ∈ (partMappingInit adapt).parts, ∃ old ∈ adapt.parts,
      part.hwSchedMask = old.hwSchedMask ∧ part.idxVfMask = old.idxVfMask := by
    intro part hpart
    rw [heq, mem_parts] at hpart
    obtain ⟨i, hi, rfl⟩ := hpart
    exact ⟨_, mem_parts.mpr ⟨i, hi, rfl⟩, (hsame i).2, (hsame i).1⟩
  have hparts' : ∀ old ∈ adapt.parts, ∃ part ∈ (partMappingInit adapt).parts,
      part.hwSchedMask = old.hwSchedMask ∧ part.idxVfMask = old.idxVfMask := by
    intro old hold
    obtain ⟨i, hi, rfl⟩ := mem_parts.mp hold
    refine ⟨spatialPart i, ?_, (hsame i).2, (hsame i).1⟩
    rw [heq]
    exact mem_parts.mpr ⟨i, hi, rfl⟩
  have hswitch : (partMappingInit adapt).worldSwitch = adapt.worldSwitch := by rw [heq]
  have hcount : (partMappingInit adapt).numWorldSwitch = adapt.numWorldSwitch := by rw [heq]
  have hcovers : ∀ w v, Covers (partMappingInit adapt) w v ↔ Covers adapt w v := by
    intro w v
    unfold Covers
    rw [hswitch]
    constructor
    · rintro ⟨part, hpart, hmeet, hv⟩
      obtain ⟨old, hold, hhw, hvf⟩ := hparts part hpart
      exact ⟨old, hold, hhw ▸ hmeet, hvf ▸ hv⟩
    · rintro ⟨old, hold, hmeet, hv⟩
      obtain ⟨part, hpart, hhw, hvf⟩ := hparts' old hold
      exact ⟨part, hpart, hhw ▸ hmeet, hvf ▸ hv⟩
  refine ⟨by rw [hcount]; exact hfew, ?_, ?_, ?_, hfresh', ?_, ?_⟩
  · rw [hcount, hswitch]
    exact hbeyond
  · intro part hpart
    obtain ⟨old, hold, hhw, _⟩ := hparts part hpart
    rw [hcount, hswitch, hhw]
    exact hhits old hold
  · obtain ⟨numVf, htable⟩ := htable
    refine ⟨numVf, ?_⟩
    rw [← htable, heq]
    unfold Adapter.parts
    rw [map_map, map_map]
    apply map_congr_left
    intro i _
    exact (hsame i).2
  · intro w v
    rw [hcovers w v, ← hallowed w v]
    unfold Allowed
    rw [hswitch]
  · intro v w
    have hswitched : Switched (partMappingInit adapt) v w ↔
        w < adapt.numWorldSwitch ∧ Covers adapt w v := by
      unfold Switched
      rw [heq]
      exact hmask v w
    rw [hswitched, hcovers w v]
    exact ⟨And.right, fun h => ⟨h.less hbeyond, h⟩⟩

theorem copy_parts (adapt : Adapter) (table : List PartConfig) :
    (copySpatialPartTable adapt table).parts.map SpatialPart.hwSchedMask =
        table.map PartConfig.hwSchedMask ∧
      (copySpatialPartTable adapt table).parts.map SpatialPart.idxVfMask =
        table.map PartConfig.idxVfMask := by
  unfold Adapter.parts copySpatialPartTable
  dsimp only
  rw [map_map, map_map]
  constructor
  · apply ext_getElem
    · simp
    · intro i hi hi'
      simp at hi hi'
      simp [hi]
  · apply ext_getElem
    · simp
    · intro i hi hi'
      simp at hi hi'
      simp [hi]

theorem copy_mem {table : List PartConfig} {part : SpatialPart}
    (hpart : part ∈ (copySpatialPartTable adapt table).parts) :
    ∃ config ∈ table, part.hwSchedMask = config.hwSchedMask ∧
      part.idxVfMask = config.idxVfMask := by
  obtain ⟨i, hi, rfl⟩ := mem_parts.mp hpart
  unfold copySpatialPartTable at hi ⊢
  dsimp only at hi ⊢
  exact ⟨table[i], getElem_mem hi, by simp [hi], by simp [hi]⟩

theorem schedSwInit_inv (asic : Asic) (ctrlBlocks : Nat → SchedBlock) (numVf : Nat) :
    Inv asic (schedSwInit asic ctrlBlocks numVf) := by
  unfold schedSwInit
  generalize hcopied : copySpatialPartTable (.zero ctrlBlocks) (asic.table numVf) = copied
  have hhw := (copy_parts (.zero ctrlBlocks) (asic.table numVf)).1
  rw [hcopied] at hhw
  have hparts : ∀ part ∈ copied.parts, ∃ config ∈ asic.table numVf,
      part.hwSchedMask = config.hwSchedMask := by
    intro part hpart
    rw [← hcopied] at hpart
    obtain ⟨config, hconfig, hsame, _⟩ := copy_mem hpart
    exact ⟨config, hconfig, hsame⟩
  have hzero : ∀ i, (copied.spatialPart i).worldSwitchMask = 0 := by
    intro i
    rw [← hcopied]
    unfold copySpatialPartTable
    dsimp only
    have hcleared : update (Adapter.zero ctrlBlocks).spatialPart 0 .zero i =
        SpatialPart.zero := by
      by_cases hi : i = 0
      · rw [hi, update_self]
      · rw [update_of_ne hi]
        rfl
    split
    · rw [hcleared]
      rfl
    · rw [hcleared]
      rfl
  obtain ⟨worldSwitch, idx, requests, hrun, hbuilt, hfew, hrequests⟩ :=
    (@requestParts_built copied.ctrlBlocks) asic.few copied.parts
      (fun part hpart id hid => by
        obtain ⟨config, hconfig, hsame⟩ := hparts part hpart
        exact asic.known numVf config hconfig id (hsame ▸ hid))
      Built.empty nofun
  have hinit : worldSwitchInitSwConfig copied =
      { copied with worldSwitch := worldSwitch, numWorldSwitch := idx } := by
    unfold worldSwitchInitSwConfig
    rw [hrun]
    rfl
  have hnum := asic.few
  rw [hinit]
  apply partMappingInit_inv
  · show idx ≤ 32
    omega
  · intro w hw
    show (worldSwitch w).hwSchedMask = 0
    rw [hbuilt.beyond w hw]
    rfl
  · intro part hpart
    obtain ⟨config, hconfig, hsame⟩ := hparts part hpart
    obtain ⟨id, hid⟩ := asic.some numVf config hconfig
    have hrequest : (id, part.idxVfMask) ∈ requests :=
      (hrequests _).mpr (.inr ⟨part, hpart, by rw [hsame]; exact hid, rfl⟩)
    obtain ⟨w, hw, hbit⟩ := hbuilt.owned _ hrequest
    exact ⟨w, hw, meets_iff.mpr ⟨id, by rw [hsame]; exact hid, hbit⟩⟩
  · exact ⟨numVf, hhw⟩
  · intro i w hbit
    have hnone : (copied.spatialPart i).worldSwitchMask.getLsbD w = true := hbit
    rw [hzero i, zero_getLsbD] at hnone
    cases hnone
  · intro w v
    show (worldSwitch w).allowedVfAssignment.getLsbD v = true ↔ _
    rw [hbuilt.allowed w v]
    constructor
    · rintro ⟨r, hr, hbit, hv⟩
      rcases (hrequests r).mp hr with hr | ⟨part, hpart, hid, hfor⟩
      · cases hr
      · exact ⟨part, hpart, meets_iff.mpr ⟨r.1, hid, hbit⟩, hfor ▸ hv⟩
    · rintro ⟨part, hpart, hmeet, hv⟩
      obtain ⟨id, hid, hbit⟩ := meets_iff.mp hmeet
      exact ⟨(id, part.idxVfMask), (hrequests _).mpr (.inr ⟨part, hpart, hid, rfl⟩), hbit, hv⟩

theorem Inv.reconfig (h : Inv asic adapt) (numVf : Nat) :
    Inv asic (reconfigMappingTables adapt asic numVf) := by
  unfold reconfigMappingTables
  cases hdynamic : asic.dynamicVfNum with
  | false => exact h
  | true =>
    obtain ⟨before, htable⟩ := h.table
    generalize hcopied : copySpatialPartTable adapt (asic.table numVf) = copied
    have hhw := (copy_parts adapt (asic.table numVf)).1
    rw [hcopied, asic.stable hdynamic numVf before, ← htable] at hhw
    have hswitch : copied.worldSwitch = adapt.worldSwitch := by rw [← hcopied]; rfl
    have hcount : copied.numWorldSwitch = adapt.numWorldSwitch := by rw [← hcopied]; rfl
    have hhits : ∀ part ∈ copied.parts, ∃ w < adapt.numWorldSwitch,
        part.hwSchedMask &&& (adapt.worldSwitch w).hwSchedMask ≠ 0 := by
      intro part hpart
      have hmem := mem_map_of_mem (f := SpatialPart.hwSchedMask) hpart
      rw [hhw] at hmem
      obtain ⟨old, hold, hsame⟩ := mem_map.mp hmem
      rw [← hsame]
      exact h.hits old hold
    have hfresh : Fresh copied := by
      intro i w hbit
      rw [hswitch, hcount]
      have hcleared : (update adapt.spatialPart 0 SpatialPart.zero i).worldSwitchMask =
          (copied.spatialPart i).worldSwitchMask := by
        rw [← hcopied]
        unfold copySpatialPartTable
        dsimp only
        split <;> rfl
      have hi : i ≠ 0 := by
        rintro rfl
        rw [← hcleared, update_self] at hbit
        simp [SpatialPart.zero] at hbit
      rw [← hcleared, update_of_ne hi] at hbit
      obtain ⟨hw, hmeet⟩ := h.fresh i w hbit
      refine ⟨hw, ?_⟩
      have hlength : copied.numSpatialPartitions = adapt.numSpatialPartitions := by
        have := congrArg length hhw
        simpa [Adapter.parts] using this
      by_cases hless : i < adapt.numSpatialPartitions
      · have hat := congrArg (fun list => list[i]?) hhw
        simp [Adapter.parts, hless, hlength] at hat
        rw [hat]
        exact hmeet
      · have hsame : copied.spatialPart i = adapt.spatialPart i := by
          have hout : (asic.table numVf).length ≤ i := by
            have : copied.numSpatialPartitions = (asic.table numVf).length := by
              rw [← hcopied]
              rfl
            omega
          rw [← hcopied]
          unfold copySpatialPartTable
          simp [getElem?_eq_none hout, hi]
        rw [hsame]
        exact hmeet
    obtain ⟨hclear, hcleared⟩ := clear_loop (range copied.numWorldSwitch) copied
    generalize hnone : (range copied.numWorldSwitch).foldl (fun adapt i =>
      adapt.setWorldSwitch i { adapt.worldSwitch i with allowedVfAssignment := 0 }) copied = cleared
      at hclear hcleared
    have hparts := hclear.parts
    obtain ⟨hok, hremap, hallowed⟩ := remapParts_spec cleared.parts cleared (by
      intro part hpart
      rw [hparts] at hpart
      rw [hclear.numWorldSwitch, hcount]
      obtain ⟨w, hw, hmeet⟩ := hhits part hpart
      exact ⟨w, hw, by rw [hclear.hwSchedMask, hswitch]; exact hmeet⟩)
    have hrun : remapVfAssignment copied = remapParts cleared cleared.parts := by
      unfold remapVfAssignment
      rw [hnone]
    have hsame : SameSwitches copied (remapParts cleared cleared.parts).2 := hclear.trans hremap
    have hunfold : (if (true : Bool) = true then
        let (ok, adapt) := remapVfAssignment copied
        if ok then partMappingInit adapt else adapt
        else adapt) = partMappingInit (remapParts cleared cleared.parts).2 := by
      rw [if_pos rfl, hrun]
      show (if (remapParts cleared cleared.parts).1 = true then _ else _) = _
      rw [if_pos hok]
    rw [hunfold]
    have hbeyond : ∀ w, copied.numWorldSwitch ≤ w → (copied.worldSwitch w).hwSchedMask = 0 := by
      rw [hcount, hswitch]
      exact h.beyond
    apply partMappingInit_inv
    · rw [hsame.numWorldSwitch, hcount]
      exact h.few
    · intro w hw
      rw [hsame.numWorldSwitch] at hw
      rw [hsame.hwSchedMask]
      exact hbeyond w hw
    · intro part hpart
      rw [hsame.parts] at hpart
      rw [hsame.numWorldSwitch, hcount]
      obtain ⟨w, hw, hmeet⟩ := hhits part hpart
      exact ⟨w, hw, by rw [hsame.hwSchedMask, hswitch]; exact hmeet⟩
    · exact ⟨before, by rw [hsame.parts, hhw, htable]⟩
    · intro i w hbit
      rw [hsame.spatialPart] at hbit
      rw [hsame.numWorldSwitch, hsame.spatialPart, hsame.hwSchedMask]
      exact hfresh i w hbit
    · intro w v
      rw [hallowed w v, hcleared w v, mem_range, Covers.same hsame w v,
        hclear.numWorldSwitch, hclear.hwSchedMask, hparts]
      constructor
      · rintro (⟨hout, hold⟩ | ⟨_, hnew⟩)
        · have hold' : Allowed adapt w v := by
            unfold Allowed at hold ⊢
            rw [hswitch] at hold
            exact hold
          have := ((h.allowed w v).mp hold').less h.beyond
          omega
        · exact hnew
      · intro hnew
        exact .inr ⟨hnew.less hbeyond, hnew⟩

def Unchanged (adapt adapt' : Adapter) : Prop :=
  ∀ w v, (Allowed adapt' w v ↔ Allowed adapt w v) ∧ (Switched adapt' v w ↔ Switched adapt v w)

theorem anyShared_same (list : List Nat)
    (hspares : ∀ w ∈ visited adapt list, ¬ Allowed adapt w pfIdx) :
    (anyShared adapt list).2 = adapt := by
  induction list with
  | nil => rfl
  | cons id list ih =>
    have hmem : id ∈ visited adapt (id :: list) := by
      unfold visited
      split <;> simp
    have hnot := hspares id hmem
    have hallowed : (adapt.worldSwitch id).allowedVfAssignment &&& ~~~bit pfIdx =
        (adapt.worldSwitch id).allowedVfAssignment := by
      apply BitVec.eq_of_getLsbD_eq
      intro i hi
      rw [BitVec.getLsbD_and, BitVec.getLsbD_not]
      cases hbit : (bit pfIdx).getLsbD i with
      | false => simp [hi]
      | true =>
        obtain ⟨rfl, _⟩ := (bit_getLsbD pfIdx i).mp hbit
        have hoff : (adapt.worldSwitch id).allowedVfAssignment.getLsbD pfIdx = false := by
          simpa [Allowed] using hnot
        rw [hoff]
        rfl
    have hsame : adapt.setWorldSwitch id { adapt.worldSwitch id with
        allowedVfAssignment := (adapt.worldSwitch id).allowedVfAssignment } = adapt := by
      simp [Adapter.setWorldSwitch]
    unfold anyShared
    dsimp only
    rw [hallowed, hsame]
    split
    · rfl
    · rename_i hfew
      apply ih
      intro w hw
      apply hspares w
      unfold visited
      rw [hallowed, if_neg hfew]
      exact mem_cons_of_mem _ hw

/-- In every run in which no query comes to a world switch of the PF, both tables have the same
pairs, and a query leaves them alone. -/
theorem mapping_symmetric (asic : Asic) (adapt : Adapter)
    (hrun : Transition.Run (Started asic) (Step asic) SparesPf adapt) :
    Symmetric adapt ∧ ∀ idxVf, SparesPf adapt (.isShared idxVf) →
      Unchanged adapt (isAnyWorldSwitchEngineShared adapt idxVf).2 := by
  have hinv : Inv asic adapt := by
    apply hrun.invariant (Inv asic)
    · rintro _ ⟨ctrlBlocks, numVf, rfl⟩
      exact schedSwInit_inv asic ctrlBlocks numVf
    · rintro before call after h hspares rfl
      cases call with
      | schedSwInit numVf => exact schedSwInit_inv asic before.ctrlBlocks numVf
      | setVfNum numVf => exact h.reconfig numVf
      | addVf idxVf => exact h
      | removeVf idxVf => exact h
      | setPartitionMode => exact h
      | isShared idxVf =>
        have hsame := anyShared_same _ hspares
        show Inv asic (anyShared before _).2
        rw [hsame]
        exact h
  refine ⟨fun w v => (hinv.allowed w v).trans (hinv.switched v w).symm, fun idxVf hspares => ?_⟩
  have hsame := anyShared_same _ hspares
  unfold isAnyWorldSwitchEngineShared
  rw [hsame]
  exact fun w v => ⟨Iff.rfl, Iff.rfl⟩

theorem below {mask : Mask} {num : Nat}
    (h : ∀ id < 32, mask.getLsbD id = true → id < num) (id : Nat)
    (hid : mask.getLsbD id = true) : id < num :=
  h id (BitVec.lt_of_getLsbD hid) hid

/-- `mi200_sched_config_tbl`: one partition for all. -/
def mi200 : Asic where
  table numVf :=
    [{ idxVfMask := 0xffffffff &&& (bit numVf - 1) ||| bit pfIdx
       hwSchedMask := bit 0 ||| bit 2 ||| bit 3
       xccMask := bit 0 }]
  hwSchedBlockNum := 4
  dynamicVfNum := true
  few := by decide
  known numVf part hpart := by
    cases mem_singleton.mp hpart
    exact (@below (bit 0 ||| bit 2 ||| bit 3) 4) (by decide)
  some numVf part hpart := by
    cases mem_singleton.mp hpart
    exact ⟨0, show (bit 0 ||| bit 2 ||| bit 3 : Mask).getLsbD 0 = true by decide⟩
  stable _ numVf numVf' := rfl

/-- `mi200_hw_sched_static_config` -/
def mi200Blocks : Nat → SchedBlock
  | 0 => .uvd
  | 1 => .vce
  | 2 => .gfx
  | _ => .uvd1

/-- `navi32_sched_config_tbl`: no PF on the blocks for multimedia. -/
def navi32SchedConfigTbl (numVf : Nat) : List PartConfig :=
  let valid := (bit numVf - 1) ||| bit pfIdx
  [{ idxVfMask := 0x0fff &&& valid
     hwSchedMask := bit 0 ||| bit 1 ||| bit 3
     xccMask := 0 },
   { idxVfMask := 0x0fff &&& valid
     hwSchedMask := bit 2 ||| bit 1 ||| bit 3
     xccMask := 0 },
   { idxVfMask := bit pfIdx &&& valid
     hwSchedMask := bit 1
     xccMask := 0 }]

theorem navi32_masks {numVf : Nat} {part : PartConfig} (hpart : part ∈ navi32SchedConfigTbl numVf) :
    part.hwSchedMask = bit 0 ||| bit 1 ||| bit 3 ∨ part.hwSchedMask = bit 2 ||| bit 1 ||| bit 3 ∨
      part.hwSchedMask = bit 1 := by
  have hmem : part.hwSchedMask ∈
      [bit 0 ||| bit 1 ||| bit 3, bit 2 ||| bit 1 ||| bit 3, bit 1] := mem_map_of_mem hpart
  simpa only [mem_cons, not_mem_nil, or_false] using hmem

def navi32 : Asic where
  table := navi32SchedConfigTbl
  hwSchedBlockNum := 4
  dynamicVfNum := true
  few := by decide
  known numVf part hpart := by
    rcases navi32_masks hpart with hmask | hmask | hmask
    · rw [hmask]
      exact below (by decide)
    · rw [hmask]
      exact below (by decide)
    · rw [hmask]
      exact below (by decide)
  some numVf part hpart := by
    rcases navi32_masks hpart with hmask | hmask | hmask
    · exact ⟨0, by rw [hmask]; decide⟩
    · exact ⟨2, by rw [hmask]; decide⟩
    · exact ⟨1, by rw [hmask]; decide⟩
  stable _ numVf numVf' := rfl

def navi32Blocks : Nat → SchedBlock
  | 0 => .vcn
  | 1 => .gfx
  | 2 => .vcn1
  | _ => .jpeg

/-- Two VFs of the NAVI32 share the first world switch that a query comes to. -/
theorem mapping_symmetric_navi32 :
    Symmetric (schedSwInit navi32 navi32Blocks 2) ∧
      Unchanged (schedSwInit navi32 navi32Blocks 2)
        (isAnyWorldSwitchEngineShared (schedSwInit navi32 navi32Blocks 2) 0).2 := by
  have h := mapping_symmetric navi32 (schedSwInit navi32 navi32Blocks 2) (.start ⟨_, _, rfl⟩)
  refine ⟨h.1, h.2 0 ?_⟩
  have hvisited : visited (schedSwInit navi32 navi32Blocks 2)
      (ids ((schedSwInit navi32 navi32Blocks 2).arrayVf 0).worldSwitchMask) = [0] := by
    decide +kernel
  intro w hw
  rw [hvisited, mem_singleton] at hw
  subst hw
  unfold Allowed
  decide +kernel

/-- One VF on the MI200, and a query: its world switches forget that they serve the PF. -/
theorem query_forgets :
    ¬ ∀ (asic : Asic) (adapt : Adapter),
      Transition.Run (Started asic) (Step asic) Transition.always adapt →
        Symmetric adapt ∧
          ∀ idxVf, Unchanged adapt (isAnyWorldSwitchEngineShared adapt idxVf).2 := by
  intro hall
  have hstart : Transition.Run (Started mi200) (Step mi200) Transition.always
      (schedSwInit mi200 mi200Blocks 1) := .start ⟨_, _, rfl⟩
  have hquery := (hall mi200 _ (.next (.isShared 0) hstart trivial rfl)).1 0 pfIdx
  revert hquery
  unfold Allowed Switched
  decide +kernel

end Runs

end MxGpu.SchedMapping
