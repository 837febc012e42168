import MxGpu.FfbmTranslate

/- Guest and system addresses (`amdgv_umc.c` and the RAS commands): the blocks of the FFBM lead from
one to the other, or the place of a VF's frame buffer does. -/
namespace MxGpu.FbAddress

open Ffbm Tiling Transition

/-- What is used of `struct amdgv_vf_device`, in megabytes. -/
structure VfDevice where
  configured : Bool
  fbOffset : BitVec 32
  fbSize : BitVec 32

/-- What is used of `struct amdgv_adapter`; the count of the VFs is with the FFBM. -/
structure Adapter where
  ffbm : Table
  arrayVf : Nat → VfDevice

def VfDevice.start (entry : VfDevice) : Addr := mbytesToBytes (entry.fbOffset.setWidth 64)

def VfDevice.length (entry : VfDevice) : Addr := mbytesToBytes (entry.fbSize.setWidth 64)

/-- `amdgv_umc_local_gpa_to_spa`: the address, or nothing inside for a failure. -/
def localGpaToSpa (adapt : Adapter) (gpa : Addr) (idxVf : Nat) : Option (Option Addr) :=
  if idxVf ≥ adapt.ffbm.numVf then some none
  else if adapt.ffbm.enabled then
    (adapt.ffbm.gpaToSpa gpa idxVf).map fun spa => if spa = invalidAddr then none else some spa
  else if !(adapt.arrayVf idxVf).configured then some none
  else some (some ((adapt.arrayVf idxVf).start + gpa))

/-- What the loop of `amdgv_umc_local_spa_to_gpa` looks for. -/
def VfDevice.inRange (entry : VfDevice) (spa : Addr) : Bool :=
  entry.configured && entry.start ≤ spa && spa < entry.start + entry.length

/-- `amdgv_umc_local_spa_to_gpa`: the address with its VF. -/
def localSpaToGpa (adapt : Adapter) (spa : Addr) : Option (Option (Addr × Nat)) :=
  if adapt.ffbm.enabled then
    (adapt.ffbm.spaToGpa spa).map fun (gpa, owner) =>
      if gpa = invalidAddr then none else owner.map fun idxVf => (gpa, idxVf)
  else
    some (((List.range adapt.ffbm.numVf).find? fun i => (adapt.arrayVf i).inRange spa).map fun i =>
      (spa - (adapt.arrayVf i).start, i))

/-- `union ras_translate_fb_address` with its type. -/
inductive FbAddr (Bank : Type)
  | socPhy (addr : Addr)
  | bank (addr : Bank)
  | vfPhy (addr : Addr) (vfIdx : Nat)
  | unknown

inductive FbAddrType
  | socPhy
  | bank
  | vfPhy
  | unknown

/-- What `ras_translate_fb_address` fails with: `RAS_CMD__ERROR_GENERIC`, or
`RAS_CMD__ERROR_INVALID_CMD`. -/
inductive CmdError
  | generic
  | invalidCmd

section Command

variable {Bank : Type}

/-- The first switch of `ras_translate_fb_address`. -/
def translateSource (adapt : Adapter) (toSocPa : Bank → Option Addr) :
    FbAddr Bank → Option (Except CmdError Addr)
  | .socPhy addr => some (.ok addr)
  | .bank addr => some ((toSocPa addr).elim (.error .generic) .ok)
  | .vfPhy addr vfIdx =>
    if vfIdx = pfIdx ∨ !(adapt.arrayVf vfIdx).configured then some (.error .generic)
    else (localGpaToSpa adapt addr vfIdx).map fun spa => spa.elim (.error .generic) .ok
  | .unknown => some (.error .invalidCmd)

def translateDest (adapt : Adapter) (toBank : Addr → Option Bank) (socPhyAddr : Addr) :
    FbAddrType → Option (Except CmdError (FbAddr Bank))
  | .socPhy => some (.ok (.socPhy socPhyAddr))
  | .bank => some ((toBank socPhyAddr).elim (.error .generic) fun bank => .ok (.bank bank))
  | .vfPhy =>
    (localSpaToGpa adapt socPhyAddr).map fun found =>
      found.elim (.error .generic) fun (addr, vfIdx) => .ok (.vfPhy addr vfIdx)
  | .unknown => some (.error .invalidCmd)

def rasTranslateFbAddress (adapt : Adapter) (toSocPa : Bank → Option Addr)
    (toBank : Addr → Option Bank) (srcAddr : FbAddr Bank) (destType : FbAddrType) :
    Option (Except CmdError (FbAddr Bank)) :=
  (translateSource adapt toSocPa srcAddr).bind fun
    | .ok socPhyAddr => translateDest adapt toBank socPhyAddr destType
    | .error failed => some (.error failed)

end Command

/-- The frame buffer of a VF at its system addresses: its range, or its blocks. -/
def Adapter.Holds (adapt : Adapter) (v : Nat) (spa : Addr) : Prop :=
  if adapt.ffbm.enabled then
    ∃ i, adapt.ffbm.findPtebByPhy spa = some (some i) ∧ (adapt.ffbm.block i).type = .vf ∧
      (adapt.ffbm.block i).vfIdx = v
  else v < adapt.ffbm.numVf ∧ (adapt.arrayVf v).inRange spa

/-- The frame buffer of a VF at its guest addresses; the window to the shared trusted memory is no
part of it. -/
def Adapter.Owns (adapt : Adapter) (v : Nat) (gpa : Addr) : Prop :=
  v < adapt.ffbm.numVf ∧ v ≠ pfIdx ∧ (adapt.arrayVf v).configured ∧
    if adapt.ffbm.enabled then
      ∃ i, adapt.ffbm.findPtebByFfbm gpa v = some (some i) ∧ (adapt.ffbm.block i).type = .vf ∧
        (adapt.ffbm.block i).vfIdx = v
    else gpa < (adapt.arrayVf v).length

def Adapter.Disjoint (adapt : Adapter) : Prop :=
  adapt.ffbm.enabled = false → ∀ spa v w, adapt.Holds v spa → adapt.Holds w spa → v = w

structure Adapter.Translates (adapt : Adapter) : Prop where
  inside : ∀ v gpa, adapt.Owns v gpa →
    ∃ spa, localGpaToSpa adapt gpa v = some (some spa) ∧ adapt.Holds v spa
  back : ∀ v gpa spa, adapt.Owns v gpa → localGpaToSpa adapt gpa v = some (some spa) →
    (localSpaToGpa adapt spa = some (some (gpa, v)) ↔ ∀ w < v, ¬ adapt.Holds w spa)
  apart : adapt.Disjoint → ∀ v w gpa other, adapt.Owns v gpa → adapt.Owns w other →
    localGpaToSpa adapt gpa v = localGpaToSpa adapt other w → v = w ∧ gpa = other
  unknownVf : ∀ v gpa, v ≥ adapt.ffbm.numVf ∨
      adapt.ffbm.enabled = false ∧ (adapt.arrayVf v).configured = false ∨
      adapt.ffbm.enabled = true ∧ adapt.ffbm.findPtebByFfbm gpa v = some none →
    localGpaToSpa adapt gpa v = some none
  foreign : ∀ spa, (if adapt.ffbm.enabled then adapt.ffbm.findPtebByPhy spa = some none
      else ∀ v, ¬ adapt.Holds v spa) →
    localSpaToGpa adapt spa = some none
  commands : ∀ (Bank : Type) (toSocPa : Bank → Option Addr) (toBank : Addr → Option Bank) v gpa spa,
    adapt.Owns v gpa → localGpaToSpa adapt gpa v = some (some spa) →
    rasTranslateFbAddress adapt toSocPa toBank (.vfPhy gpa v) .socPhy =
        some (.ok (.socPhy spa)) ∧
      (localSpaToGpa adapt spa = some (some (gpa, v)) →
        rasTranslateFbAddress adapt toSocPa toBank (.socPhy spa) .vfPhy =
          some (.ok (.vfPhy gpa v)))

section Linear

variable {adapt : Adapter} {v w : Nat} {gpa spa : Addr}

theorem rasTranslateFbAddress_owned {Bank : Type} (toSocPa : Bank → Option Addr)
    (toBank : Addr → Option Bank) (own : adapt.Owns v gpa)
    (there : localGpaToSpa adapt gpa v = some (some spa)) :
    rasTranslateFbAddress adapt toSocPa toBank (.vfPhy gpa v) .socPhy =
        some (.ok (.socPhy spa)) ∧
      (localSpaToGpa adapt spa = some (some (gpa, v)) →
        rasTranslateFbAddress adapt toSocPa toBank (.socPhy spa) .vfPhy =
          some (.ok (.vfPhy gpa v))) := by
  constructor
  · have allowed : ¬(v = pfIdx ∨ (!(adapt.arrayVf v).configured) = true) := by
      rw [own.2.2.1]
      simp [own.2.1]
    unfold rasTranslateFbAddress translateSource
    dsimp only
    rw [if_neg allowed, there]
    rfl
  · intro back
    unfold rasTranslateFbAddress translateSource translateDest
    dsimp only [Option.bind_some]
    rw [back]
    rfl

theorem toNat_mbytesToBytes (mb : BitVec 32) :
    (mbytesToBytes (mb.setWidth 64)).toNat = mb.toNat * 2 ^ 20 := by
  have small := mb.isLt
  have wide : mb.toNat % 2 ^ 64 = mb.toNat := Nat.mod_eq_of_lt (by omega)
  rw [mbytesToBytes, BitVec.toNat_shiftLeft, BitVec.toNat_setWidth, wide, Nat.shiftLeft_eq]
  exact Nat.mod_eq_of_lt (by omega)

theorem inRange_iff (entry : VfDevice) (spa : Addr) :
    entry.inRange spa = true ↔ entry.configured = true ∧ entry.start.toNat ≤ spa.toNat ∧
      spa.toNat < entry.start.toNat + entry.length.toNat := by
  have start : entry.start.toNat = entry.fbOffset.toNat * 2 ^ 20 :=
    toNat_mbytesToBytes entry.fbOffset
  have length : entry.length.toNat = entry.fbSize.toNat * 2 ^ 20 :=
    toNat_mbytesToBytes entry.fbSize
  have sum : (entry.start + entry.length).toNat = entry.start.toNat + entry.length.toNat := by
    rw [BitVec.toNat_add]
    exact Nat.mod_eq_of_lt (by omega)
  unfold VfDevice.inRange
  rw [Bool.and_eq_true, Bool.and_eq_true, decide_eq_true_iff, decide_eq_true_iff, BitVec.le_def,
    BitVec.lt_def, sum, and_assoc]

theorem start_add_inRange {entry : VfDevice} (configured : entry.configured = true)
    (inside : gpa < entry.length) : entry.inRange (entry.start + gpa) = true := by
  have start : entry.start.toNat = entry.fbOffset.toNat * 2 ^ 20 :=
    toNat_mbytesToBytes entry.fbOffset
  have length : entry.length.toNat = entry.fbSize.toNat * 2 ^ 20 :=
    toNat_mbytesToBytes entry.fbSize
  have below := BitVec.lt_def.mp inside
  have sum : (entry.start + gpa).toNat = entry.start.toNat + gpa.toNat := by
    rw [BitVec.toNat_add]
    exact Nat.mod_eq_of_lt (by omega)
  rw [inRange_iff, sum]
  refine ⟨configured, ?_, ?_⟩
  · omega
  · omega

theorem localGpaToSpa_linear (linear : adapt.ffbm.enabled = false) (own : adapt.Owns v gpa) :
    localGpaToSpa adapt gpa v = some (some ((adapt.arrayVf v).start + gpa)) := by
  obtain ⟨known, -, configured, -⟩ := own
  unfold localGpaToSpa
  rw [if_neg (Nat.not_le.mpr known), linear, configured]
  rfl

theorem holds_linear (linear : adapt.ffbm.enabled = false) :
    adapt.Holds v spa ↔ v < adapt.ffbm.numVf ∧ (adapt.arrayVf v).inRange spa := by
  unfold Adapter.Holds
  rw [linear]
  exact Iff.rfl

theorem owns_linear (linear : adapt.ffbm.enabled = false) (own : adapt.Owns v gpa) :
    gpa < (adapt.arrayVf v).length := by
  have inside := own.2.2.2
  rw [linear] at inside
  exact inside

theorem holds_start_add (linear : adapt.ffbm.enabled = false) (own : adapt.Owns v gpa) :
    adapt.Holds v ((adapt.arrayVf v).start + gpa) := by
  rw [holds_linear linear]
  exact ⟨own.1, start_add_inRange own.2.2.1 (owns_linear linear own)⟩

theorem localSpaToGpa_linear (linear : adapt.ffbm.enabled = false) (held : adapt.Holds v spa) :
    localSpaToGpa adapt spa = some (some (spa - (adapt.arrayVf v).start, v)) ↔
      ∀ w < v, ¬ adapt.Holds w spa := by
  obtain ⟨known, inRange⟩ := (holds_linear linear).mp held
  have below : (∀ w < v, ¬ adapt.Holds w spa) ↔
      ∀ w, w < v → !(adapt.arrayVf w).inRange spa := by
    apply forall_congr'
    intro w
    apply imp_congr_right
    intro before
    rw [holds_linear linear, Bool.not_eq_true']
    constructor
    · intro elsewhere
      apply Bool.eq_false_iff.mpr
      intro inside
      exact elsewhere ⟨Nat.lt_trans before known, inside⟩
    · intro outside inside
      rw [outside] at inside
      cases inside.2
  have first : ((List.range adapt.ffbm.numVf).find? fun i => (adapt.arrayVf i).inRange spa) =
      some v ↔ ∀ w, w < v → !(adapt.arrayVf w).inRange spa := by
    rw [List.find?_range_eq_some]
    constructor
    · intro found
      exact found.2.2
    · intro before
      exact ⟨inRange, List.mem_range.mpr known, before⟩
  rw [below, ← first]
  unfold localSpaToGpa
  rw [linear, if_neg Bool.false_ne_true]
  constructor
  · intro same
    obtain ⟨i, found, pair⟩ := Option.map_eq_some_iff.mp (Option.some.inj same)
    rw [found, (Prod.mk.inj pair).2]
  · intro found
    rw [found]
    rfl

theorem Adapter.translates_linear (linear : adapt.ffbm.enabled = false) :
    adapt.Translates := by
  have back : ∀ v gpa spa, adapt.Owns v gpa → localGpaToSpa adapt gpa v = some (some spa) →
      (localSpaToGpa adapt spa = some (some (gpa, v)) ↔ ∀ w < v, ¬ adapt.Holds w spa) := by
    intro v gpa spa own there
    rw [localGpaToSpa_linear linear own] at there
    cases there
    have law := localSpaToGpa_linear linear (holds_start_add linear own)
    have offset : (adapt.arrayVf v).start + gpa - (adapt.arrayVf v).start = gpa := by
      rw [BitVec.add_comm]
      exact BitVec.add_sub_cancel _ _
    rw [offset] at law
    exact law
  refine ⟨?_, back, ?_, ?_, ?_, ?_⟩
  · intro v gpa own
    exact ⟨_, localGpaToSpa_linear linear own, holds_start_add linear own⟩
  · intro disjoint v w gpa other ownV ownW same
    rw [localGpaToSpa_linear linear ownV, localGpaToSpa_linear linear ownW] at same
    have spa := Option.some.inj (Option.some.inj same)
    have heldW := holds_start_add linear ownW
    rw [← spa] at heldW
    have one := disjoint linear _ v w (holds_start_add linear ownV) heldW
    subst one
    exact ⟨rfl, (BitVec.add_right_inj _).mp spa⟩
  · intro v gpa unknown
    unfold localGpaToSpa
    rcases unknown with high | ⟨-, free⟩ | ⟨paged, -⟩
    · rw [if_pos high]
    · rw [linear, free]
      simp
    · rw [linear] at paged
      cases paged
  · intro spa foreign
    rw [linear, if_neg Bool.false_ne_true] at foreign
    have nobody : ((List.range adapt.ffbm.numVf).find? fun i =>
        (adapt.arrayVf i).inRange spa) = none := by
      apply List.find?_eq_none.mpr
      intro v known inside
      exact foreign v ((holds_linear linear).mpr ⟨List.mem_range.mp known, inside⟩)
    unfold localSpaToGpa
    rw [linear, if_neg Bool.false_ne_true, nobody]
    rfl
  · intro Bank toSocPa toBank v gpa spa own there
    exact rasTranslateFbAddress_owned toSocPa toBank own there

end Linear

section Paged

variable {adapt : Adapter} {v w i : Nat} {gpa spa : Addr} {ids : List Nat}

theorem addrInRange_ne_invalid {start size addr : Addr}
    (inside : addrInRange start size addr = true) : addr ≠ invalidAddr := by
  have below := (Table.addrInRange_iff.mp inside).2
  intro invalid
  have top : invalidAddr.toNat = 2 ^ 64 - 1 := by decide
  rw [invalid, BitVec.lt_def, top] at below
  omega

theorem Sound.paged_gpaToSpa (sound : Table.Sound (· ≤ ·) adapt.ffbm ids)
    (known : v < adapt.ffbm.numVf) (paged : adapt.ffbm.enabled = true)
    (found : adapt.ffbm.findPtebByFfbm gpa v = some (some i))
    (type : (adapt.ffbm.block i).type = .vf) :
    ∃ spa, localGpaToSpa adapt gpa v = some (some spa) ∧
      adapt.ffbm.findPtebByPhy spa = some (some i) ∧
      localSpaToGpa adapt spa = some (some (gpa, (adapt.ffbm.block i).vfIdx)) := by
  have member := sound.vf i type
  have inside := Table.findPtebByFfbm_inside found
  have there := Table.addrInRange_offset inside (sound.memory le_nearness member)
  have back := sound.spaToGpa_gpaToSpa found type inside
  refine ⟨(adapt.ffbm.block i).spa + (gpa - (adapt.ffbm.block i).gpa), ?_,
    sound.findPtebByPhy_eq member there, ?_⟩
  · unfold localGpaToSpa Table.gpaToSpa
    rw [if_neg (Nat.not_le.mpr known), if_pos paged, found]
    dsimp only [Option.map_some]
    rw [if_neg (addrInRange_ne_invalid there)]
  · rw [Table.gpaToSpa, found, Option.map_some, Option.bind_some] at back
    dsimp only at back
    unfold localSpaToGpa
    rw [if_pos paged, back]
    dsimp only [Option.map_some]
    rw [if_neg (addrInRange_ne_invalid inside)]

theorem holds_paged (paged : adapt.ffbm.enabled = true) :
    adapt.Holds v spa ↔ ∃ i, adapt.ffbm.findPtebByPhy spa = some (some i) ∧
      (adapt.ffbm.block i).type = .vf ∧ (adapt.ffbm.block i).vfIdx = v := by
  unfold Adapter.Holds
  rw [if_pos paged]

theorem holds_paged_unique (paged : adapt.ffbm.enabled = true) (heldV : adapt.Holds v spa)
    (heldW : adapt.Holds w spa) : v = w := by
  obtain ⟨i, foundI, -, ownerI⟩ := (holds_paged paged).mp heldV
  obtain ⟨j, foundJ, -, ownerJ⟩ := (holds_paged paged).mp heldW
  have one := Option.some.inj (Option.some.inj (foundI.symm.trans foundJ))
  rw [← ownerI, ← ownerJ, one]

theorem owns_paged (paged : adapt.ffbm.enabled = true) (own : adapt.Owns v gpa) :
    ∃ i, adapt.ffbm.findPtebByFfbm gpa v = some (some i) ∧
      (adapt.ffbm.block i).type = .vf ∧ (adapt.ffbm.block i).vfIdx = v := by
  have block := own.2.2.2
  rw [if_pos paged] at block
  exact block

theorem Sound.paged_owned (sound : Table.Sound (· ≤ ·) adapt.ffbm ids)
    (paged : adapt.ffbm.enabled = true) (own : adapt.Owns v gpa) :
    ∃ spa, localGpaToSpa adapt gpa v = some (some spa) ∧ adapt.Holds v spa ∧
      localSpaToGpa adapt spa = some (some (gpa, v)) := by
  obtain ⟨i, found, type, owner⟩ := owns_paged paged own
  obtain ⟨spa, there, held, back⟩ := Sound.paged_gpaToSpa sound own.1 paged found type
  rw [owner] at back
  exact ⟨spa, there, (holds_paged paged).mpr ⟨i, held, type, owner⟩, back⟩

theorem Adapter.translates_paged (sound : Table.Sound (· ≤ ·) adapt.ffbm ids)
    (paged : adapt.ffbm.enabled = true) : adapt.Translates := by
  refine ⟨?_, ?_, ?_, ?_, ?_, ?_⟩
  · intro v gpa own
    obtain ⟨spa, there, held, -⟩ := Sound.paged_owned sound paged own
    exact ⟨spa, there, held⟩
  · intro v gpa spa own there
    obtain ⟨spa', there', held, back⟩ := Sound.paged_owned sound paged own
    have same := Option.some.inj (Option.some.inj (there.symm.trans there'))
    rw [same]
    refine iff_of_true back ?_
    intro w below heldW
    exact Nat.ne_of_lt below (holds_paged_unique paged heldW held)
  · intro _ v w gpa other ownV ownW same
    obtain ⟨spa, thereV, -, backV⟩ := Sound.paged_owned sound paged ownV
    obtain ⟨spa', thereW, -, backW⟩ := Sound.paged_owned sound paged ownW
    have one := Option.some.inj (Option.some.inj (thereV.symm.trans (same.trans thereW)))
    rw [one] at backV
    have pair := Option.some.inj (Option.some.inj (backV.symm.trans backW))
    exact ⟨(Prod.mk.inj pair).2, (Prod.mk.inj pair).1⟩
  · intro v gpa unknown
    unfold localGpaToSpa
    rcases unknown with high | ⟨linear, -⟩ | ⟨-, unmapped⟩
    · rw [if_pos high]
    · rw [linear] at paged
      cases paged
    · rw [if_pos paged, Table.gpaToSpa, unmapped]
      simp
  · intro spa foreign
    rw [if_pos paged] at foreign
    unfold localSpaToGpa
    rw [if_pos paged, Table.spaToGpa, foreign]
    simp
  · intro Bank toSocPa toBank v gpa spa own there
    exact rasTranslateFbAddress_owned toSocPa toBank own there

end Paged

/-- Without the FFBM, and with it over every page table whose blocks the calls have kept apart: a
guest address in the frame buffer of a VF goes to the VF's frame buffer and comes back, unless
a frame buffer of a VF before it lies over it; different ones go to different addresses; and what
is in no frame buffer or no block is refused. -/
theorem translations_hold {adapt : Adapter}
    (reached : adapt.ffbm.enabled = true →
      Run (Initialised Table.KeepsApart) Call.Returns (Call.Meets Table.KeepsApart) adapt.ffbm) :
    adapt.Translates := by
  cases enabled : adapt.ffbm.enabled with
  | false => exact Adapter.translates_linear enabled
  | true =>
    obtain ⟨ids, sound⟩ := Table.sound_of_run le_nearness
      (fun _ _ => Table.KeepsApart.keeps) (reached enabled)
    exact Adapter.translates_paged sound enabled

def smallAdapt (calls : List Call) : Adapter where
  ffbm := Table.tableAfter calls
  arrayVf _ := ⟨true, 4, 2⟩

/-- A page of the first VF, and its second byte there and back. -/
theorem translations_hold_small : (smallAdapt [Table.smallMap]).Translates ∧
    localGpaToSpa (smallAdapt [Table.smallMap]) 1 0 = some (some (mbytesToBytes 4 + 1)) ∧
    localSpaToGpa (smallAdapt [Table.smallMap]) (mbytesToBytes 4 + 1) = some (some (1, 0)) := by
  refine ⟨translations_hold fun _ => ?_, by decide +kernel, by decide +kernel⟩
  have run : Run (Initialised Table.KeepsTiling) Call.Returns (Call.Meets Table.KeepsTiling)
      (Table.tableAfter [Table.smallMap]) :=
    Table.tableAfter_run (by decide +kernel) (by decide +kernel) (by decide +kernel)
  exact Table.run_weaken (fun _ _ => Table.KeepsTiling.apart) run

def tmrWindow (v : Nat) : Call := .manualMap
  { vfIdx := v
    size := mbytesToBytes 2
    gpa := mbytesToBytes fbTmrOffset
    spa := mbytesToBytes fbTmrOffset
    permission := permRw
    type := .tmr }

/-- All VFs see the same trusted memory. -/
theorem trusted_memory_shared : ¬ ∀ adapt : Adapter,
    (adapt.ffbm.enabled = true →
      Run (Initialised Table.KeepsApart) Call.Returns (Call.Meets Table.KeepsApart) adapt.ffbm) →
    ∀ v w gpa other, v < adapt.ffbm.numVf → w < adapt.ffbm.numVf →
      (adapt.arrayVf v).configured → (adapt.arrayVf w).configured →
      (∃ i, adapt.ffbm.findPtebByFfbm gpa v = some (some i)) →
      (∃ i, adapt.ffbm.findPtebByFfbm other w = some (some i)) →
      (v, gpa) ≠ (w, other) → localGpaToSpa adapt gpa v ≠ localGpaToSpa adapt other w := by
  intro claim
  have run : Run (Initialised Table.KeepsTiling) Call.Returns (Call.Meets Table.KeepsTiling)
      (Table.tableAfter [tmrWindow 0, tmrWindow 1]) :=
    Table.tableAfter_run (by decide +kernel) (by decide +kernel) (by decide +kernel)
  have mapped : ∀ v < 2, ∃ i, (smallAdapt [tmrWindow 0, tmrWindow 1]).ffbm.findPtebByFfbm
      (mbytesToBytes fbTmrOffset) v = some (some i) := by
    intro v known
    have found : ((smallAdapt [tmrWindow 0, tmrWindow 1]).ffbm.findPtebByFfbm
        (mbytesToBytes fbTmrOffset) v).join.isSome := by
      revert v
      decide +kernel
    obtain ⟨i, joined⟩ := Option.isSome_iff_exists.mp found
    exact ⟨i, Option.join_eq_some_iff.mp joined⟩
  apply claim (smallAdapt [tmrWindow 0, tmrWindow 1])
    (fun _ => Table.run_weaken (fun _ _ => Table.KeepsTiling.apart) run) 0 1
    (mbytesToBytes fbTmrOffset) (mbytesToBytes fbTmrOffset) (by decide +kernel) (by decide +kernel)
    rfl rfl (mapped 0 (by decide)) (mapped 1 (by decide)) (by decide)
  decide +kernel

end MxGpu.FbAddress
