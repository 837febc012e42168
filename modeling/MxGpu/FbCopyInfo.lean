import Mathlib.Algebra.GroupWithZero.Nat

/- Where a copy of the frame buffer of a VF reads or writes: the offset and the size of the event
are clamped to the VF before the address of the copy is made. -/
namespace MxGpu.VfFb

def mbytesToBytes (x : BitVec 32) : BitVec 64 := x.setWidth 64 <<< 20

theorem mbytesToBytes_toNat (x : BitVec 32) : (mbytesToBytes x).toNat = x.toNat * 2 ^ 20 := by
  have small := x.isLt
  unfold mbytesToBytes
  rw [BitVec.toNat_shiftLeft, BitVec.toNat_setWidth, Nat.shiftLeft_eq]
  omega

/-- `struct amdgv_vf_device`: the frame buffer of a VF, in megabytes. -/
structure VfDevice where
  configured : Bool
  fbOffset : BitVec 32
  fbSize : BitVec 32

structure Xgmi where
  nodeSegmentSize : BitVec 64
  phyNodeId : BitVec 32
  phyNodesNum : BitVec 32

/-- `struct amdgv_adapter`; `fb` is where the processor sees the frame buffer. -/
structure Adapt where
  numVf : BitVec 32
  arrayVf : BitVec 32 → VfDevice
  fb : BitVec 64
  mcFbLocAddr : BitVec 64
  xgmi : Xgmi

structure CopyData where
  fbOffset : BitVec 64
  size : BitVec 64
  gpuAddr : BitVec 64
  vaddr : BitVec 64
  toFb : Bool

structure FbInfo where
  mcAddr : BitVec 64
  vaddr : BitVec 64
  size : BitVec 64

def Adapt.getVfFbInfo (adapt : Adapt) (idxVf : BitVec 32) (event : CopyData) : Option FbInfo :=
  if idxVf ≥ adapt.numVf then none
  else
    let entry := adapt.arrayVf idxVf
    if !entry.configured then none
    else
      let vfFbOffset := mbytesToBytes entry.fbOffset
      let vfFbSize := mbytesToBytes entry.fbSize
      if event.fbOffset ≥ vfFbSize then none
      else
        let size :=
          if event.fbOffset + event.size > vfFbSize then vfFbSize - event.fbOffset else event.size
        let fbOffset := event.fbOffset + vfFbOffset
        let mcAddr := fbOffset + adapt.mcFbLocAddr
        some
          { mcAddr :=
              if adapt.xgmi.phyNodesNum > 1 then
                mcAddr + adapt.xgmi.phyNodeId.setWidth 64 * adapt.xgmi.nodeSegmentSize
              else mcAddr
            vaddr := adapt.fb + fbOffset
            size }

/-- The two ends of a copy; the addresses of the processor are 0 where there are none. -/
structure FbCopy where
  src : BitVec 64
  size : BitVec 64
  dst : BitVec 64
  srcVaddr : BitVec 64
  dstVaddr : BitVec 64
  deriving DecidableEq

def Adapt.getVfFbCopyInfo (adapt : Adapt) (idxVf : BitVec 32) (event : CopyData) :
    Option FbCopy :=
  match adapt.getVfFbInfo idxVf event with
  | none => none
  | some info =>
    let size := if info.size < event.size then info.size else event.size
    if event.toFb then
      some
        { src := event.gpuAddr
          size
          dst := info.mcAddr
          srcVaddr := if event.vaddr ≠ 0 then event.vaddr else 0
          dstVaddr := if event.vaddr ≠ 0 then info.vaddr else 0 }
    else
      some
        { src := info.mcAddr
          size
          dst := event.gpuAddr
          srcVaddr := if event.vaddr ≠ 0 then info.vaddr else 0
          dstVaddr := if event.vaddr ≠ 0 then event.vaddr else 0 }

def FbCopy.fbSide (copy : FbCopy) (toFb : Bool) : BitVec 64 :=
  if toFb then copy.dst else copy.src

@[simp] theorem FbCopy.fbSide_true (copy : FbCopy) : copy.fbSide true = copy.dst := if_pos rfl

@[simp] theorem FbCopy.fbSide_false (copy : FbCopy) : copy.fbSide false = copy.src :=
  if_neg Bool.false_ne_true

def Adapt.mcBase (adapt : Adapt) : BitVec 64 :=
  adapt.mcFbLocAddr +
    if adapt.xgmi.phyNodesNum > 1 then
      adapt.xgmi.phyNodeId.setWidth 64 * adapt.xgmi.nodeSegmentSize
    else 0

def Adapt.vfStart (adapt : Adapt) (idxVf : BitVec 32) : Nat :=
  adapt.mcBase.toNat + (adapt.arrayVf idxVf).fbOffset.toNat * 2 ^ 20

def Adapt.vfLength (adapt : Adapt) (idxVf : BitVec 32) : Nat :=
  (adapt.arrayVf idxVf).fbSize.toNat * 2 ^ 20

/-- The addresses from `addr` on for `size` bytes do not wrap and are in the frame buffer of the
VF. -/
def Adapt.Contains (adapt : Adapt) (idxVf : BitVec 32) (addr size : BitVec 64) : Prop :=
  addr.toNat + size.toNat ≤ 2 ^ 64 ∧
    adapt.vfStart idxVf ≤ addr.toNat ∧
    addr.toNat + size.toNat ≤ adapt.vfStart idxVf + adapt.vfLength idxVf

instance (adapt : Adapt) (idxVf : BitVec 32) (addr size : BitVec 64) :
    Decidable (adapt.Contains idxVf addr size) :=
  inferInstanceAs (Decidable (_ ∧ _))

/-- The offset and the size of the event do not wrap, and neither do the addresses from the
offset on, to the end of the event or to that of the VF. -/
def Adapt.Unwrapped (adapt : Adapt) (idxVf : BitVec 32) (event : CopyData) : Prop :=
  let start := adapt.vfStart idxVf + event.fbOffset.toNat
  event.fbOffset.toNat + event.size.toNat < 2 ^ 64 ∧
    start < 2 ^ 64 ∧
    (start + event.size.toNat ≤ 2 ^ 64 ∨ adapt.vfStart idxVf + adapt.vfLength idxVf ≤ 2 ^ 64)

variable {adapt : Adapt} {idxVf : BitVec 32} {event : CopyData}

theorem getVfFbInfo_some {info : FbInfo} (found : adapt.getVfFbInfo idxVf event = some info) :
    event.fbOffset.toNat < adapt.vfLength idxVf ∧
      info.mcAddr.toNat = (adapt.vfStart idxVf + event.fbOffset.toNat) % 2 ^ 64 ∧
      info.size.toNat =
        if adapt.vfLength idxVf < (event.fbOffset.toNat + event.size.toNat) % 2 ^ 64 then
          adapt.vfLength idxVf - event.fbOffset.toNat
        else event.size.toNat := by
  have offset := mbytesToBytes_toNat (adapt.arrayVf idxVf).fbOffset
  have length : (mbytesToBytes (adapt.arrayVf idxVf).fbSize).toNat = adapt.vfLength idxVf :=
    mbytesToBytes_toNat (adapt.arrayVf idxVf).fbSize
  unfold Adapt.getVfFbInfo at found
  by_cases listed : idxVf ≥ adapt.numVf
  · rw [if_pos listed] at found
    simp at found
  rw [if_neg listed] at found
  by_cases configured : (!(adapt.arrayVf idxVf).configured) = true
  · rw [if_pos configured] at found
    simp at found
  rw [if_neg configured] at found
  by_cases outside : event.fbOffset ≥ mbytesToBytes (adapt.arrayVf idxVf).fbSize
  · rw [if_pos outside] at found
    simp at found
  rw [if_neg outside] at found
  have inside : event.fbOffset.toNat < adapt.vfLength idxVf := by
    rw [ge_iff_le, BitVec.le_def, length] at outside
    omega
  cases found
  refine ⟨inside, ?_, ?_⟩
  · unfold Adapt.vfStart Adapt.mcBase
    split
    · simp only [BitVec.toNat_add, offset]
      omega
    · simp only [BitVec.toNat_add, offset, BitVec.ofNat_eq_ofNat, BitVec.toNat_ofNat]
      omega
  · dsimp only
    simp only [gt_iff_lt, BitVec.lt_def, BitVec.toNat_add, length]
    split
    · rw [BitVec.toNat_sub_of_le (by rw [BitVec.le_def, length]; omega), length]
    · rfl

theorem getVfFbCopyInfo_some {copy : FbCopy}
    (found : adapt.getVfFbCopyInfo idxVf event = some copy) :
    ∃ info, adapt.getVfFbInfo idxVf event = some info ∧
      copy.fbSide event.toFb = info.mcAddr ∧
      copy.size.toNat =
        if info.size.toNat < event.size.toNat then info.size.toNat else event.size.toNat := by
  unfold Adapt.getVfFbCopyInfo at found
  cases query : adapt.getVfFbInfo idxVf event with
  | none => simp [query] at found
  | some info =>
    have least : (if info.size < event.size then info.size else event.size).toNat =
        if info.size.toNat < event.size.toNat then info.size.toNat else event.size.toNat := by
      simp only [BitVec.lt_def]
      split <;> rfl
    refine ⟨info, rfl, ?_⟩
    simp only [query] at found
    cases side : event.toFb with
    | true =>
      rw [if_pos side, Option.some.injEq] at found
      rw [← found, FbCopy.fbSide_true]
      exact ⟨rfl, least⟩
    | false =>
      rw [if_neg (by simp [side]), Option.some.injEq] at found
      rw [← found, FbCopy.fbSide_false]
      exact ⟨rfl, least⟩

theorem clamped_inside_iff {start offset size length clamped : Nat} (inside : offset < length)
    (short : length < 2 ^ 52) (given : size < 2 ^ 64)
    (clamp : clamped =
      if length < (offset + size) % 2 ^ 64 then length - offset else size) :
    ((start + offset) % 2 ^ 64 + clamped ≤ 2 ^ 64 ∧ start ≤ (start + offset) % 2 ^ 64 ∧
        (start + offset) % 2 ^ 64 + clamped ≤ start + length) ↔
      offset + size < 2 ^ 64 ∧ start + offset < 2 ^ 64 ∧
        (start + offset + size ≤ 2 ^ 64 ∨ start + length ≤ 2 ^ 64) := by
  by_cases wraps : offset + size < 2 ^ 64
  · rw [Nat.mod_eq_of_lt wraps] at clamp
    by_cases long : length < offset + size
    · rw [if_pos long] at clamp
      omega
    · rw [if_neg long] at clamp
      omega
  · -- the sum comes out below the offset, so that the size is taken as it is
    rw [if_neg (by omega)] at clamp
    omega

/-- A copy stays in the frame buffer of its VF exactly when neither the range of the event nor the
addresses of the copy wrap. -/
theorem copy_contained_iff {copy : FbCopy}
    (found : adapt.getVfFbCopyInfo idxVf event = some copy) :
    adapt.Contains idxVf (copy.fbSide event.toFb) copy.size ↔ adapt.Unwrapped idxVf event := by
  obtain ⟨info, query, side, size⟩ := getVfFbCopyInfo_some found
  obtain ⟨inside, addr, clamped⟩ := getVfFbInfo_some query
  have short : adapt.vfLength idxVf < 2 ^ 52 := by
    have small := (adapt.arrayVf idxVf).fbSize.isLt
    unfold Adapt.vfLength
    omega
  have clamp : copy.size.toNat =
      if adapt.vfLength idxVf < (event.fbOffset.toNat + event.size.toNat) % 2 ^ 64 then
        adapt.vfLength idxVf - event.fbOffset.toNat
      else event.size.toNat := by
    rw [← clamped, size]
    split
    · rfl
    · split at clamped
      · omega
      · exact clamped.symm
  unfold Adapt.Contains Adapt.Unwrapped
  rw [side, addr]
  exact clamped_inside_iff inside short event.size.isLt clamp

/-- A VF of 256 MB behind 16 MB of the host, with an event whose range wraps: 4096 bytes into the
VF, and the rest of all addresses. -/
def wrappedAdapt : Adapt where
  numVf := 1
  arrayVf := fun _ => { configured := true, fbOffset := 16, fbSize := 256 }
  fb := 0
  mcFbLocAddr := 0x8000000000
  xgmi := { nodeSegmentSize := 0, phyNodeId := 0, phyNodesNum := 0 }

def wrappedCopy : CopyData where
  fbOffset := 0x1000
  size := 0xffffffffffffffff
  gpuAddr := 0x7f0000000000
  vaddr := 0
  toFb := true

theorem copy_leaves_vf :
    ¬ ∀ (adapt : Adapt) (idxVf : BitVec 32) (event : CopyData) (copy : FbCopy),
      adapt.getVfFbCopyInfo idxVf event = some copy →
        adapt.Contains idxVf (copy.fbSide event.toFb) copy.size := by
  intro contained
  have copied := contained wrappedAdapt 0 wrappedCopy
    { src := 0x7f0000000000, size := 0xffffffffffffffff, dst := 0x8001001000,
      srcVaddr := 0, dstVaddr := 0 } (by decide)
  revert copied
  decide

/-- The same VF and a copy of its first page. -/
theorem copy_contained_page :
    wrappedAdapt.Contains 0 0x8001000000 0x1000 ↔
      wrappedAdapt.Unwrapped 0 { wrappedCopy with fbOffset := 0, size := 0x1000 } :=
  @copy_contained_iff wrappedAdapt 0 { wrappedCopy with fbOffset := 0, size := 0x1000 }
    { src := 0x7f0000000000, size := 0x1000, dst := 0x8001000000, srcVaddr := 0, dstVaddr := 0 }
    (by decide)

end MxGpu.VfFb
