import MxGpu.FbCopyInfo
import MxGpu.PageRange

/- Bad pages in memory that the host or a guest cannot do without. -/
namespace MxGpu.Crit

open Fb VfFb

def kbytesToBytes (x : Addr) : Addr := x <<< 10

/-- `enum amd_sriov_msg_table_id_enum`. -/
inductive TableId
  | ipd
  | vbiosImg
  | rasTelemetry
  | dataexchange
  | badPageInfo
  | initdH
  deriving DecidableEq

def TableId.all : List TableId := [ipd, vbiosImg, rasTelemetry, dataexchange, badPageInfo, initdH]

/-- `enum amd_sriov_crit_region_version`; `unset` is 0, `other` a value past the last one. -/
inductive CritVersion
  | unset
  | v1
  | v2
  | v3
  | other
  deriving DecidableEq

structure SpaRange where
  base : Addr
  size : Addr

/-- `struct amdgv_vf_xchg`; `gpaCtx` has the chunks of the exchange region of a guest, in order. -/
structure Xchg where
  vfTableOffsets : TableId → Addr
  vfTableSizesKb : TableId → Addr
  vfCritRegion : CritVersion
  gpaCtx : Option (List SpaRange)

/-- `struct amdgv_vf_device`, with the state of its scheduler entry. -/
structure Device where
  configured : Bool
  active : Bool
  fbOffset : BitVec 32
  fbSize : BitVec 32
  xchg : Xchg

structure Block where
  gpuAddr : Addr
  size : Addr

/-- `struct amdgv_adapter`; `spaToGpa` is `amdgv_ffbm_spa_to_gpa`, which leaves the slot as it is
where it finds no block. -/
structure Host where
  numVf : Nat
  arrayVf : Nat → Device
  ffbmEnabled : Bool
  spaToGpa : Addr → Nat → Addr × Nat
  ignoreRma : Bool
  usePf : Bool
  memmgrPfOffset : Addr
  memmgrPfSize : Addr
  mcBase : Addr
  tmr : Option Block
  totalAvailFb : BitVec 32
  ipDiscoverySize : Addr
  csaNonCritical : Bool
  csaFbMem : Option Block
  adjustFbSize : Option (Nat → Addr → Addr)

def pfIdx : Nat := 31

def ffbmInvalidAddr : Addr := 0xffffffffffffffff

def ipDiscoveryOffset : Addr := 0x10000

def bpInRange (errAddr offsetStart offsetSize : Addr) : Prop :=
  errAddr < offsetStart + offsetSize ∧ offsetStart < errAddr + gpuPageSize

instance (errAddr offsetStart offsetSize : Addr) :
    Decidable (bpInRange errAddr offsetStart offsetSize) :=
  inferInstanceAs (Decidable (_ ∧ _))

def Device.tableOffset (entry : Device) (id : TableId) : Addr := entry.xchg.vfTableOffsets id

def Device.tableSize (entry : Device) (id : TableId) : Addr :=
  kbytesToBytes (entry.xchg.vfTableSizesKb id)

variable (host : Host)

def Host.checkBpInV1CritRegion (idxVf : Nat) (errAddr : Addr) : Bool :=
  let entry := host.arrayVf idxVf
  let vfFbOffset := mbytesToBytes entry.fbOffset
  let fbSize := entry.tableOffset .dataexchange + entry.tableSize .dataexchange
  let fbSize :=
    match host.adjustFbSize with
    | none => fbSize
    | some adjust => adjust idxVf fbSize
  if bpInRange errAddr (vfFbOffset + entry.tableOffset .vbiosImg) fbSize then true
  else bpInRange errAddr (vfFbOffset + entry.tableOffset .ipd) (entry.tableSize .ipd)

def Host.checkBpInV2CritRegion (idxVf : Nat) (errAddr : Addr) : Bool :=
  let entry := host.arrayVf idxVf
  TableId.all.any fun id =>
    bpInRange errAddr (mbytesToBytes entry.fbOffset + entry.tableOffset id) (entry.tableSize id)

/-- The loop of `amdgv_vfmgr_check_bp_in_v3_crit_region` over the chunks; `cumulative` is the
offset of the next chunk in the exchange region. -/
def checkChunks (entry : Device) (errAddr : Addr) : List SpaRange → Addr → Bool
  | [], _ => false
  | range :: rest, cumulative =>
    if errAddr ≥ range.base ∧ errAddr < range.base + range.size then
      TableId.all.any fun id =>
        bpInRange (cumulative + (errAddr - range.base)) (entry.tableOffset id) (entry.tableSize id)
    else checkChunks entry errAddr rest (cumulative + range.size)

def Host.checkBpInV3CritRegion (idxVf : Nat) (errAddr : Addr) : Bool :=
  match (host.arrayVf idxVf).xchg.gpaCtx with
  | none => false
  | some chunks => checkChunks (host.arrayVf idxVf) errAddr chunks 0

def Host.checkBpInCritRegion (idxVf : Nat) (errAddr : Addr) : Bool :=
  match (host.arrayVf idxVf).xchg.vfCritRegion with
  | .v3 => host.checkBpInV3CritRegion idxVf errAddr
  | .v2 => host.checkBpInV2CritRegion idxVf errAddr
  | .v1 => host.checkBpInV1CritRegion idxVf errAddr
  | _ => false

def Host.calcRetiredPageVfSlot (errAddr : Addr) : Nat :=
  if host.ffbmEnabled then (host.spaToGpa errAddr pfIdx).2
  else
    ((List.range host.numVf).find? fun idxVf =>
      isBpInRange errAddr (mbytesToBytes (host.arrayVf idxVf).fbOffset)
        (mbytesToBytes (host.arrayVf idxVf).fbSize)).getD pfIdx

/-- `adapt->bp_msg_type`, as a check that finds a page sets it. -/
inductive BpMsg
  | inPfFb
  | inVfCriticalRegion
  | inCriticalRegion
  deriving DecidableEq

def Host.checkFunctions (errAddr : Addr) (idxVf : Nat) : Option BpMsg :=
  let entry := host.arrayVf idxVf
  if idxVf = pfIdx then
    if isBpInRange errAddr (mbytesToBytes entry.fbOffset) (mbytesToBytes entry.fbSize) ∧
        host.usePf then
      some .inPfFb
    else if isBpInRange errAddr host.memmgrPfOffset host.memmgrPfSize ∧ host.usePf then
      some .inPfFb
    else none
  else if entry.xchg.vfCritRegion = .v1 ∨ entry.active then
    -- every turn of the loop asks for the same VF
    if (List.range host.numVf).any fun _ => host.checkBpInCritRegion idxVf errAddr then
      some .inVfCriticalRegion
    else none
  else none

def Host.checkRegions (errAddr : Addr) : Option BpMsg :=
  let inTmr :=
    match host.tmr with
    | none => false
    | some tmr => decide (isBpInRange errAddr (tmr.gpuAddr - host.mcBase) tmr.size)
  let inCsa :=
    match host.csaFbMem with
    | none => false
    | some csa => decide (isBpInRange errAddr (csa.gpuAddr - host.mcBase) csa.size)
  if inTmr then some .inCriticalRegion
  else if isBpInRange errAddr (mbytesToBytes host.totalAvailFb - ipDiscoveryOffset)
      host.ipDiscoverySize then
    some .inCriticalRegion
  else if !host.csaNonCritical && inCsa then some .inCriticalRegion
  else none

def Host.checkFfbmPf (errAddr : Addr) (idxVf : Nat) : Option BpMsg :=
  let (gpa, slot) := host.spaToGpa errAddr idxVf
  if slot = pfIdx ∧ gpa ≠ ffbmInvalidAddr ∧ host.usePf then some .inPfFb else none

/-- `amdgv_umc_check_bp_in_critical_region`: whether the page is found, with the message for the
log. -/
def Host.checkBpInCriticalRegion (errAddr : Addr) (idxVf : Nat) : Option BpMsg :=
  if host.ignoreRma then none
  else
    let inFunctions := if host.ffbmEnabled then none else host.checkFunctions errAddr idxVf
    match inFunctions with
    | some msg => some msg
    | none =>
      match host.checkRegions errAddr with
      | some msg => some msg
      | none => if host.ffbmEnabled then host.checkFfbmPf errAddr idxVf else none

/-- A page has a byte in common with `size` bytes from `start` on. -/
def PageMeets (addr start size : Nat) : Prop := addr < start + size ∧ start < addr + 4096

/-- The regions of a VF that its guest cannot do without, each as a start and a size: with the
static layout, everything up to the end of the data exchange, and IP discovery; with a dynamic one,
the tables. -/
def Host.critRegions (j : Nat) : List (Nat × Nat) :=
  let entry := host.arrayVf j
  let table := fun id => ((entry.tableOffset id).toNat, (entry.tableSize id).toNat)
  match entry.xchg.vfCritRegion with
  | .v1 =>
    let upTo := entry.tableOffset .dataexchange + entry.tableSize .dataexchange
    [((entry.tableOffset .vbiosImg).toNat,
        (match host.adjustFbSize with
        | none => upTo
        | some adjust => adjust j upTo).toNat),
      table .ipd]
  | .v2 => TableId.all.map table
  | .v3 => TableId.all.map table
  | _ => []

/-- Where a page is in the exchange region of a guest, when it begins in one of its chunks. -/
def placeInChunks (addr : Nat) : List SpaRange → Option Nat
  | [] => none
  | range :: rest =>
    if range.base.toNat ≤ addr ∧ addr < range.base.toNat + range.size.toNat then
      some (addr - range.base.toNat)
    else (placeInChunks addr rest).map fun place => range.size.toNat + place

/-- Where a page is in the memory that the tables of a VF are in. -/
def Host.placeOf (j : Nat) (addr : Nat) : Option Nat :=
  let entry := host.arrayVf j
  match entry.xchg.vfCritRegion with
  | .v3 => entry.xchg.gpaCtx.bind (placeInChunks addr)
  | _ => some addr

def Host.Critical (j : Nat) (errAddr : Addr) : Prop :=
  let entry := host.arrayVf j
  let base := if entry.xchg.vfCritRegion = .v3 then 0 else (mbytesToBytes entry.fbOffset).toNat
  ∃ place, host.placeOf j errAddr.toNat = some place ∧
    ∃ region ∈ host.critRegions j, PageMeets place (base + region.1) region.2

/-- A page that is in the critical region of a VF is found, with the slot that is computed for
it. -/
def Host.Recognised (errAddr : Addr) : Prop :=
  ∀ j < host.numVf, host.Critical j errAddr →
    (host.checkBpInCriticalRegion errAddr (host.calcRetiredPageVfSlot errAddr)).isSome = true

/-- Where the check looks for a page in a table: at its address, or at the place in the exchange
region of the guest. -/
def chunkPlace (errAddr : Addr) : List SpaRange → Addr → Option Addr
  | [], _ => none
  | range :: rest, cumulative =>
    if errAddr ≥ range.base ∧ errAddr < range.base + range.size then
      some (cumulative + (errAddr - range.base))
    else chunkPlace errAddr rest (cumulative + range.size)

def Host.wordPlace (j : Nat) (errAddr : Addr) : Option Addr :=
  let entry := host.arrayVf j
  match entry.xchg.vfCritRegion with
  | .v3 => entry.xchg.gpaCtx.bind fun chunks => chunkPlace errAddr chunks 0
  | _ => some errAddr

/-- A page is in a table, or in the region of the static layout, of a VF, as far as sums of 64 bits
tell. -/
def Host.InTables (j : Nat) (errAddr : Addr) : Prop :=
  let entry := host.arrayVf j
  let base := if entry.xchg.vfCritRegion = .v3 then 0 else mbytesToBytes entry.fbOffset
  ∃ place, host.wordPlace j errAddr = some place ∧
    ∃ region ∈ host.critRegions j,
      bpInRange place (base + BitVec.ofNat 64 region.1) (BitVec.ofNat 64 region.2)

/-- The page is wholly in TMR, in IP discovery or in a CSA that matters. -/
def Host.InHostMemory (errAddr : Addr) : Prop :=
  (∃ tmr, host.tmr = some tmr ∧ isBpInRange errAddr (tmr.gpuAddr - host.mcBase) tmr.size) ∨
    isBpInRange errAddr (mbytesToBytes host.totalAvailFb - ipDiscoveryOffset)
      host.ipDiscoverySize ∨
    host.csaNonCritical = false ∧
      ∃ csa, host.csaFbMem = some csa ∧ isBpInRange errAddr (csa.gpuAddr - host.mcBase) csa.size

def Host.InFb (j : Nat) (errAddr : Addr) : Prop :=
  isBpInRange errAddr (mbytesToBytes (host.arrayVf j).fbOffset)
    (mbytesToBytes (host.arrayVf j).fbSize)

/-- The first VF with the page in its frame buffer, else the PF. -/
def Host.Owner (errAddr : Addr) (slot : Nat) : Prop :=
  slot < host.numVf ∧ host.InFb slot errAddr ∧ (∀ j < slot, ¬host.InFb j errAddr) ∨
    slot = pfIdx ∧ ∀ j < host.numVf, ¬host.InFb j errAddr

/-- Without FFBM, a page in what its owner cannot do without: all memory of a PF in use, and the
tables of a VF that is active or static. -/
def Host.Owned (errAddr : Addr) : Prop :=
  ∃ slot, host.Owner errAddr slot ∧
    (slot = pfIdx ∧ host.usePf = true ∧
        (host.InFb slot errAddr ∨ isBpInRange errAddr host.memmgrPfOffset host.memmgrPfSize) ∨
      slot ≠ pfIdx ∧
        ((host.arrayVf slot).xchg.vfCritRegion = .v1 ∨ (host.arrayVf slot).active = true) ∧
        host.InTables slot errAddr)

/-- With FFBM, a page in a block of a PF in use. -/
def Host.MapsToPf (errAddr : Addr) : Prop :=
  host.usePf = true ∧ ∃ gpa ≠ ffbmInvalidAddr,
    host.spaToGpa errAddr (host.spaToGpa errAddr pfIdx).2 = (gpa, pfIdx)

/-- The pages that matter, unless the mode ignores them. -/
def Host.Guarded (errAddr : Addr) : Prop :=
  host.ignoreRma = false ∧
    (host.InHostMemory errAddr ∨
      if host.ffbmEnabled then host.MapsToPf errAddr else host.Owned errAddr)

variable {host} {errAddr : Addr} {slot : Nat}

theorem checkChunks_iff {entry : Device} {chunks : List SpaRange} {cumulative : Addr} :
    checkChunks entry errAddr chunks cumulative = true ↔
      ∃ place, chunkPlace errAddr chunks cumulative = some place ∧
        ∃ id ∈ TableId.all, bpInRange place (entry.tableOffset id) (entry.tableSize id) := by
  induction chunks generalizing cumulative with
  | nil => simp [checkChunks, chunkPlace]
  | cons range rest ih =>
    unfold checkChunks chunkPlace
    by_cases inside : errAddr ≥ range.base ∧ errAddr < range.base + range.size
    · rw [if_pos inside, if_pos inside]
      simp
    · rw [if_neg inside, if_neg inside]
      exact ih

theorem checkBpInCritRegion_iff (j : Nat) :
    host.checkBpInCritRegion j errAddr = true ↔ host.InTables j errAddr := by
  unfold Host.checkBpInCritRegion Host.InTables Host.wordPlace Host.critRegions
  cases version : (host.arrayVf j).xchg.vfCritRegion with
  | v1 =>
    unfold Host.checkBpInV1CritRegion
    cases host.adjustFbSize <;> simp [version, -BitVec.toNat_add]
  | v2 =>
    unfold Host.checkBpInV2CritRegion
    simp [version]
  | v3 =>
    unfold Host.checkBpInV3CritRegion
    cases context : (host.arrayVf j).xchg.gpaCtx with
    | none => simp [version, context]
    | some chunks => simp [version, context, checkChunks_iff]
  | unset => simp [version]
  | other => simp [version]

theorem calcRetiredPageVfSlot_owner (direct : host.ffbmEnabled = false) :
    host.Owner errAddr (host.calcRetiredPageVfSlot errAddr) := by
  unfold Host.calcRetiredPageVfSlot
  rw [direct, if_neg Bool.false_ne_true]
  cases search : (List.range host.numVf).find? fun idxVf =>
      isBpInRange errAddr (mbytesToBytes (host.arrayVf idxVf).fbOffset)
        (mbytesToBytes (host.arrayVf idxVf).fbSize) with
  | none =>
    rw [List.find?_range_eq_none] at search
    refine .inr ⟨rfl, fun j listed inside => ?_⟩
    have missed := search j listed
    rw [decide_eq_true (show isBpInRange _ _ _ from inside)] at missed
    exact absurd missed Bool.false_ne_true
  | some idxVf =>
    rw [List.find?_range_eq_some] at search
    obtain ⟨inside, listed, before⟩ := search
    have held_first : isBpInRange _ _ _ := of_decide_eq_true inside
    refine .inl ⟨List.mem_range.mp listed, held_first, fun j less held => ?_⟩
    have missed := before j less
    rw [decide_eq_true (show isBpInRange _ _ _ from held)] at missed
    exact absurd missed Bool.false_ne_true

theorem Host.Owner.eq {other : Nat} (owner : host.Owner errAddr slot)
    (second : host.Owner errAddr other) : slot = other := by
  rcases owner with ⟨listed, inside, before⟩ | ⟨pf, outside⟩
  · rcases second with ⟨_, held, earlier⟩ | ⟨_, outside⟩
    · rcases Nat.lt_trichotomy slot other with less | same | more
      · exact absurd inside (earlier slot less)
      · exact same
      · exact absurd held (before other more)
    · exact absurd inside (outside slot listed)
  · rcases second with ⟨listed, held, _⟩ | ⟨rfl, _⟩
    · exact absurd held (outside other listed)
    · exact pf

theorem checkRegions_isSome :
    (host.checkRegions errAddr).isSome = true ↔ host.InHostMemory errAddr := by
  have listed (block : Option Block) :
      (match block with
        | none => false
        | some block => decide (isBpInRange errAddr (block.gpuAddr - host.mcBase) block.size)) =
          true ↔
        ∃ found, block = some found ∧
          isBpInRange errAddr (found.gpuAddr - host.mcBase) found.size := by
    cases block <;> simp
  have tmr := listed host.tmr
  have csa := listed host.csaFbMem
  unfold Host.checkRegions Host.InHostMemory
  rw [← tmr, ← csa]
  dsimp only
  split_ifs with in_tmr in_ipd in_csa
  · simp [in_tmr]
  · simp [in_ipd]
  · rw [Bool.and_eq_true, Bool.not_eq_true'] at in_csa
    simp [in_csa]
  · rw [Bool.and_eq_true, Bool.not_eq_true'] at in_csa
    simp [in_tmr, in_ipd, in_csa]

theorem any_same_turn (n : Nat) (found : Bool) :
    ((List.range n).any fun _ => found) = (decide (0 < n) && found) := by
  cases n with
  | zero => rfl
  | succ n =>
    cases found with
    | false =>
      rw [Bool.and_false, List.any_eq_false]
      exact fun _ _ => Bool.false_ne_true
    | true =>
      rw [List.any_eq_true.mpr ⟨0, List.mem_range.mpr (Nat.succ_pos n), rfl⟩]
      simp

theorem checkFunctions_isSome :
    (host.checkFunctions errAddr slot).isSome = true ↔
      slot = pfIdx ∧ host.usePf = true ∧
        (isBpInRange errAddr (mbytesToBytes (host.arrayVf slot).fbOffset)
            (mbytesToBytes (host.arrayVf slot).fbSize) ∨
          isBpInRange errAddr host.memmgrPfOffset host.memmgrPfSize) ∨
      slot ≠ pfIdx ∧ 0 < host.numVf ∧
        ((host.arrayVf slot).xchg.vfCritRegion = .v1 ∨ (host.arrayVf slot).active = true) ∧
        host.checkBpInCritRegion slot errAddr = true := by
  unfold Host.checkFunctions
  dsimp only
  rw [any_same_turn]
  by_cases pf : slot = pfIdx
  · rw [if_pos pf]
    by_cases own : isBpInRange errAddr (mbytesToBytes (host.arrayVf slot).fbOffset)
        (mbytesToBytes (host.arrayVf slot).fbSize) ∧ host.usePf = true
    · rw [if_pos own]
      simp [pf, own.2, pf ▸ own.1]
    · rw [if_neg own]
      by_cases managed : isBpInRange errAddr host.memmgrPfOffset host.memmgrPfSize ∧
          host.usePf = true
      · rw [if_pos managed]
        simp [pf, managed.1, managed.2]
      · rw [if_neg managed]
        simp only [Option.isSome_none, Bool.false_eq_true, false_iff]
        intro found
        rcases found with ⟨_, use, either⟩ | ⟨other, _⟩
        · rcases either with in_own | in_managed
          · exact own ⟨in_own, use⟩
          · exact managed ⟨in_managed, use⟩
        · exact other pf
  · rw [if_neg pf]
    by_cases asked : (host.arrayVf slot).xchg.vfCritRegion = .v1 ∨
        (host.arrayVf slot).active = true
    · rw [if_pos asked]
      by_cases found : (decide (0 < host.numVf) && host.checkBpInCritRegion slot errAddr) = true
      · rw [if_pos found]
        rw [Bool.and_eq_true, decide_eq_true_iff] at found
        simp [pf, asked, found.1, found.2]
      · rw [if_neg found]
        rw [Bool.and_eq_true, decide_eq_true_iff] at found
        simp only [Option.isSome_none, Bool.false_eq_true, false_iff]
        intro listed
        rcases listed with ⟨same, _⟩ | ⟨_, some_vf, _, critical⟩
        · exact pf same
        · exact found ⟨some_vf, critical⟩
    · rw [if_neg asked]
      simp only [Option.isSome_none, Bool.false_eq_true, false_iff]
      intro listed
      rcases listed with ⟨same, _⟩ | ⟨_, _, either, _⟩
      · exact pf same
      · exact asked either

theorem checkFfbmPf_isSome :
    (host.checkFfbmPf errAddr slot).isSome = true ↔
      host.usePf = true ∧ (host.spaToGpa errAddr slot).2 = pfIdx ∧
        (host.spaToGpa errAddr slot).1 ≠ ffbmInvalidAddr := by
  unfold Host.checkFfbmPf
  dsimp only
  by_cases mapped : (host.spaToGpa errAddr slot).2 = pfIdx ∧
      (host.spaToGpa errAddr slot).1 ≠ ffbmInvalidAddr ∧ host.usePf = true
  · rw [if_pos mapped]
    simp [mapped.1, mapped.2.1, mapped.2.2]
  · rw [if_neg mapped]
    simp only [Option.isSome_none, Bool.false_eq_true, false_iff]
    intro found
    exact mapped ⟨found.2.1, found.2.2, found.1⟩

theorem checkFunctions_owned (direct : host.ffbmEnabled = false) :
    (host.checkFunctions errAddr (host.calcRetiredPageVfSlot errAddr)).isSome = true ↔
      host.Owned errAddr := by
  have owner : host.Owner errAddr _ := calcRetiredPageVfSlot_owner direct
  rw [checkFunctions_isSome]
  constructor
  · rintro (⟨pf, used, held⟩ | ⟨other, _, asked, found⟩)
    · exact ⟨_, owner, .inl ⟨pf, used, held⟩⟩
    · exact ⟨_, owner, .inr ⟨other, asked, (checkBpInCritRegion_iff _).mp found⟩⟩
  · rintro ⟨slot, owns, guarded⟩
    rw [owner.eq owns]
    rcases guarded with pf | ⟨other, asked, found⟩
    · exact .inl pf
    · have listed : 0 < host.numVf := by
        rcases owns with ⟨less, _⟩ | ⟨pf, _⟩
        · exact Nat.zero_lt_of_lt less
        · exact absurd pf other
      exact .inr ⟨other, listed, asked, (checkBpInCritRegion_iff _).mpr found⟩

theorem checkFfbmPf_mapped (managed : host.ffbmEnabled = true) :
    (host.checkFfbmPf errAddr (host.calcRetiredPageVfSlot errAddr)).isSome = true ↔
      host.MapsToPf errAddr := by
  have slot : host.calcRetiredPageVfSlot errAddr = (host.spaToGpa errAddr pfIdx).2 := by
    unfold Host.calcRetiredPageVfSlot
    rw [if_pos managed]
  rw [checkFfbmPf_isSome, slot]
  constructor
  · rintro ⟨used, pf, valid⟩
    exact ⟨used, _, valid, Prod.ext rfl pf⟩
  · rintro ⟨used, gpa, valid, pf⟩
    rw [pf]
    exact ⟨used, rfl, valid⟩

theorem checkBpInCriticalRegion_isSome :
    (host.checkBpInCriticalRegion errAddr (host.calcRetiredPageVfSlot errAddr)).isSome = true ↔
      host.Guarded errAddr := by
  unfold Host.checkBpInCriticalRegion Host.Guarded
  cases ignored : host.ignoreRma with
  | true => simp
  | false =>
    rw [if_neg Bool.false_ne_true, and_iff_right rfl, ← checkRegions_isSome]
    dsimp only
    cases mode : host.ffbmEnabled with
    | true =>
      rw [if_pos rfl, if_pos rfl, if_pos rfl, ← checkFfbmPf_mapped mode]
      cases host.checkRegions errAddr <;> simp
    | false =>
      simp only [Bool.false_eq_true, if_false]
      rw [← checkFunctions_owned mode]
      cases host.checkFunctions errAddr (host.calcRetiredPageVfSlot errAddr) <;>
        cases host.checkRegions errAddr <;> simp

/-- With the slot that is computed for a page, a page in the critical region of some VF is found
exactly when it is guarded: in memory of the host, or in the tables of the VF that owns it. -/
theorem recognised_iff (host : Host) (errAddr : Addr) :
    host.Recognised errAddr ↔
      (∀ j < host.numVf, ¬host.Critical j errAddr) ∨ host.Guarded errAddr := by
  unfold Host.Recognised
  rw [checkBpInCriticalRegion_isSome]
  constructor
  · intro recognised
    by_cases clear : ∀ j < host.numVf, ¬host.Critical j errAddr
    · exact Or.inl clear
    · simp only [Classical.not_forall, Classical.not_not] at clear
      obtain ⟨j, listed, critical⟩ := clear
      exact Or.inr (recognised j listed critical)
  · intro cases j listed critical
    rcases cases with clear | found
    · exact absurd critical (clear j listed)
    · exact found

/-- Two VFs of 16 MB; the exchange region of the second one is a page of the first one, whose
tables are empty. -/
def twoVfs : Host where
  numVf := 2
  arrayVf := fun j =>
    { configured := true
      active := true
      fbOffset := if j = 0 then 0 else 16
      fbSize := 16
      xchg :=
        { vfTableOffsets := fun _ => 0
          vfTableSizesKb := fun _ => if j = 0 then 0 else 4
          vfCritRegion := if j = 0 then .v2 else .v3
          gpaCtx := if j = 0 then none else some [{ base := 0x1000, size := 0x1000 }] } }
  ffbmEnabled := false
  spaToGpa := fun addr slot => (addr, slot)
  ignoreRma := false
  usePf := false
  memmgrPfOffset := 0
  memmgrPfSize := 0
  mcBase := 0
  tmr := none
  totalAvailFb := 64
  ipDiscoverySize := 0x2800
  csaNonCritical := false
  csaFbMem := none
  adjustFbSize := none

theorem page_of_other_vf_missed :
    ¬ ∀ (host : Host) (errAddr : Addr), host.Recognised errAddr := by
  intro recognised
  have found := recognised twoVfs 0x1000 1 (by decide)
    ⟨0, by decide, (0, 4096), List.mem_cons_self, by decide, by decide⟩
  revert found
  decide

end MxGpu.Crit
