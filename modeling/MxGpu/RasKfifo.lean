import MxGpu.ByteStore
import MxGpu.SlotRing
import MxGpu.Transition

/- The byte FIFO of the RAS manager (`amdgv_ras_fifo.c`). -/
namespace MxGpu.Kfifo

open ByteStore SlotRing

structure AmdgvFifo where
  buffer : Store
  size : BitVec 32
  inIdx : BitVec 32
  outIdx : BitVec 32

/-- What `fifo_alloc` returns when it fails. -/
inductive AllocError where
  | einval
  | enomem
  deriving DecidableEq

section Operations

variable (fifo : AmdgvFifo)

def isPowerOfTwo (val : BitVec 32) : Bool := val ≠ 0 ∧ val &&& (val - 1) = 0

/-- The loop of `count_leading_zeros` from the bit below `bit` on. -/
def clzLoop (val : BitVec 32) : Nat → Nat
  | 0 => 0
  | bit + 1 => if val.getLsbD bit then 0 else clzLoop val bit + 1

def countLeadingZeros (val : BitVec 32) : Nat := if val = 0 then 32 else clzLoop val 32

def roundUpToPowerOfTwo (val : BitVec 32) : BitVec 32 :=
  if val = 0 then 1
  else if isPowerOfTwo val then val
  else if 32 - countLeadingZeros val ≥ 32 then 0x80000000
  else 1#32 <<< (32 - countLeadingZeros val)

def computeBufferIndex (logicalIndex : BitVec 32) : BitVec 32 := logicalIndex &&& (fifo.size - 1)

def getUsedSpace : BitVec 32 := fifo.inIdx - fifo.outIdx

def getFreeSpace : BitVec 32 := fifo.size - getUsedSpace fifo

/-- `copy_to_buffer`: the buffer after `len` bytes from `src` are copied in. -/
def copyToBuffer (src : Store) (len writeOffset : BitVec 32) : Store :=
  let bufferOffset := computeBufferIndex fifo (fifo.inIdx + writeOffset)
  let bytesToEnd := fifo.size - bufferOffset
  let firstChunk := if len ≤ bytesToEnd then len else bytesToEnd
  let buffer := write fifo.buffer bufferOffset.toNat (read src 0 firstChunk.toNat)
  if len > firstChunk then write buffer 0 (read src firstChunk.toNat (len - firstChunk).toNat)
  else buffer

/-- `copy_from_buffer`: the bytes that are copied out. -/
def copyFromBuffer (len readOffset : BitVec 32) : List UInt8 :=
  let bufferOffset := computeBufferIndex fifo (fifo.outIdx + readOffset)
  let bytesToEnd := fifo.size - bufferOffset
  let firstChunk := if len ≤ bytesToEnd then len else bytesToEnd
  let first := read fifo.buffer bufferOffset.toNat firstChunk.toNat
  if len > firstChunk then first ++ read fifo.buffer 0 (len - firstChunk).toNat else first

/-- `fifo_write`, with the number of bytes that it returns. -/
def fifoWrite (src : Store) (len : BitVec 32) : AmdgvFifo × BitVec 32 :=
  let available := getFreeSpace fifo
  let len := if len > available then available else len
  if len = 0 then (fifo, 0)
  else ({ fifo with buffer := copyToBuffer fifo src len 0, inIdx := fifo.inIdx + len }, len)

/-- `fifo_read`, with the bytes in the destination and their number. -/
def fifoRead (len : BitVec 32) : AmdgvFifo × List UInt8 × BitVec 32 :=
  let stored := getUsedSpace fifo
  let len := if len > stored then stored else len
  if len = 0 then (fifo, [], 0)
  else ({ fifo with outIdx := fifo.outIdx + len }, copyFromBuffer fifo len 0, len)

def fifoPeek (len offset : BitVec 32) : List UInt8 × BitVec 32 :=
  let stored := getUsedSpace fifo
  if offset ≥ stored then ([], 0)
  else
    let availableFromOffset := stored - offset
    let len := if len > availableFromOffset then availableFromOffset else len
    if len = 0 then ([], 0) else (copyFromBuffer fifo len offset, len)

def fifoInit (buffer : Store) (size : BitVec 32) : AmdgvFifo := ⟨buffer, size, 0, 0⟩

/-- `fifo_alloc`; the buffer is zeroed. -/
def fifoAlloc (allocated : Bool) (size : BitVec 32) : Except AllocError AmdgvFifo :=
  if size = 0 then .error .einval
  else
    let actualSize := if !isPowerOfTwo size then roundUpToPowerOfTwo size else size
    if !allocated then .error .enomem else .ok (fifoInit (fun _ => 0) actualSize)

def contents : List UInt8 :=
  window fifo.buffer fifo.size.toNat fifo.outIdx.toNat (getUsedSpace fifo).toNat

structure Sized : Prop where
  pow : ∃ k, fifo.size.toNat = 2 ^ k
  used : (getUsedSpace fifo).toNat ≤ fifo.size.toNat

end Operations

section Sizes

variable {val : BitVec 32}

theorem isPowerOfTwo_pow (h : isPowerOfTwo val = true) : ∃ k, val.toNat = 2 ^ k := by
  obtain ⟨hne, hand⟩ := of_decide_eq_true h
  have hpos : val.toNat ≠ 0 := fun hzero => hne (BitVec.eq_of_toNat_eq hzero)
  have hsub : (val - 1).toNat = val.toNat - 1 := by
    apply BitVec.toNat_sub_of_le
    show 1 ≤ val.toNat
    omega
  have hzero := congrArg BitVec.toNat hand
  rw [BitVec.toNat_and, hsub] at hzero
  exact (Nat.and_sub_one_eq_zero_iff_isPowerOfTwo hpos).mp hzero

theorem roundUp_pow (val : BitVec 32) : ∃ k, (roundUpToPowerOfTwo val).toNat = 2 ^ k := by
  unfold roundUpToPowerOfTwo
  split
  · exact ⟨0, rfl⟩
  · split
    · rename_i hpow
      exact isPowerOfTwo_pow hpow
    · split
      · exact ⟨31, rfl⟩
      · refine ⟨32 - countLeadingZeros val, ?_⟩
        have hshift : 32 - countLeadingZeros val < 32 := by omega
        have hlt : 2 ^ (32 - countLeadingZeros val) < 2 ^ 32 :=
          Nat.pow_lt_pow_right (by decide) hshift
        rw [BitVec.toNat_shiftLeft, Nat.shiftLeft_eq]
        show 1 * _ % _ = _
        rw [Nat.one_mul, Nat.mod_eq_of_lt hlt]

end Sizes

section Specifications

variable {fifo : AmdgvFifo} {src : Store} {len offset : BitVec 32}

theorem fifoAlloc_sized {allocated : Bool} {size : BitVec 32}
    (h : fifoAlloc allocated size = .ok fifo) : Sized fifo ∧ contents fifo = [] := by
  unfold fifoAlloc at h
  split at h
  · cases h
  · dsimp only at h
    split at h
    · cases h
    · cases h
      have hused : (getUsedSpace (fifoInit (fun _ => 0)
          (if (!isPowerOfTwo size) = true then roundUpToPowerOfTwo size else size))).toNat = 0 := by
        simp [getUsedSpace, fifoInit]
      refine ⟨⟨?_, ?_⟩, ?_⟩
      · show ∃ k, (if (!isPowerOfTwo size) = true then _ else size).toNat = 2 ^ k
        split
        · exact roundUp_pow size
        · rename_i hpow
          exact isPowerOfTwo_pow (by simpa using hpow)
      · rw [hused]
        exact Nat.zero_le _
      · unfold contents
        rw [hused]
        rfl

@[simp] theorem contents_length : (contents fifo).length = (getUsedSpace fifo).toNat :=
  window_length

theorem Sized.index (h : Sized fifo) (idx : BitVec 32) :
    (computeBufferIndex fifo idx).toNat = idx.toNat % fifo.size.toNat := by
  obtain ⟨k, hk⟩ := h.pow
  have hpos : 0 < 2 ^ k := Nat.two_pow_pos k
  have hsub : (fifo.size - 1).toNat = 2 ^ k - 1 := by
    rw [← hk]
    apply BitVec.toNat_sub_of_le
    show 1 ≤ fifo.size.toNat
    omega
  unfold computeBufferIndex
  rw [BitVec.toNat_and, hsub, Nat.and_two_pow_sub_one_eq_mod, hk]

theorem Sized.pos (h : Sized fifo) : 0 < fifo.size.toNat := by
  obtain ⟨k, hk⟩ := h.pow
  rw [hk]
  exact Nat.two_pow_pos k

theorem Sized.add_mod (h : Sized fifo) (idx step : BitVec 32) :
    (idx + step).toNat % fifo.size.toNat = (idx.toNat + step.toNat) % fifo.size.toNat := by
  obtain ⟨k, hk⟩ := h.pow
  have hlt : 2 ^ k < 2 ^ 32 := hk ▸ fifo.size.isLt
  have hdvd : 2 ^ k ∣ 2 ^ 32 :=
    Nat.pow_dvd_pow 2 (Nat.le_of_lt ((Nat.pow_lt_pow_iff_right (by decide)).mp hlt))
  rw [BitVec.toNat_add, hk, Nat.mod_mod_of_dvd _ hdvd]

theorem Sized.free (h : Sized fifo) :
    (getFreeSpace fifo).toNat + (getUsedSpace fifo).toNat = fifo.size.toNat := by
  have hused := h.used
  unfold getFreeSpace
  rw [BitVec.toNat_sub_of_le hused]
  omega

theorem Sized.write_index (h : Sized fifo) :
    fifo.inIdx.toNat % fifo.size.toNat =
      (fifo.outIdx.toNat + (getUsedSpace fifo).toNat) % fifo.size.toNat := by
  have hback : fifo.outIdx + getUsedSpace fifo = fifo.inIdx := by
    unfold getUsedSpace
    rw [BitVec.add_comm, BitVec.sub_add_cancel]
  rw [← hback, h.add_mod]

theorem Sized.firstChunk (h : Sized fifo) (idx : BitVec 32) :
    (if len ≤ fifo.size - computeBufferIndex fifo idx then len
      else fifo.size - computeBufferIndex fifo idx).toNat =
        min len.toNat (fifo.size.toNat - idx.toNat % fifo.size.toNat) := by
  have hlt := Nat.mod_lt idx.toNat h.pos
  have hend : (fifo.size - computeBufferIndex fifo idx).toNat =
      fifo.size.toNat - idx.toNat % fifo.size.toNat := by
    have hindex := h.index idx
    rw [BitVec.toNat_sub_of_le, hindex]
    show (computeBufferIndex fifo idx).toNat ≤ _
    omega
  split
  · rename_i hle
    rw [BitVec.le_def, hend] at hle
    omega
  · rename_i hle
    rw [BitVec.le_def, hend] at hle
    omega

theorem Sized.copyToBuffer_eq (h : Sized fifo) :
    copyToBuffer fifo src len 0 =
      write (write fifo.buffer (fifo.inIdx.toNat % fifo.size.toNat)
        (read src 0 (min len.toNat (fifo.size.toNat - fifo.inIdx.toNat % fifo.size.toNat))))
        0 (read src (min len.toNat (fifo.size.toNat - fifo.inIdx.toNat % fifo.size.toNat))
          (len.toNat - (fifo.size.toNat - fifo.inIdx.toNat % fifo.size.toNat))) := by
  have hfirst := @Sized.firstChunk _ len h fifo.inIdx
  have hindex := h.index fifo.inIdx
  unfold copyToBuffer
  rw [show fifo.inIdx + 0 = fifo.inIdx from BitVec.add_zero _]
  dsimp only
  generalize (if len ≤ fifo.size - computeBufferIndex fifo fifo.inIdx then len
    else fifo.size - computeBufferIndex fifo fifo.inIdx) = chunk at hfirst ⊢
  rw [hindex, hfirst]
  split
  · rename_i hgt
    have hsub : (len - chunk).toNat =
        len.toNat - (fifo.size.toNat - fifo.inIdx.toNat % fifo.size.toNat) := by
      rw [BitVec.toNat_sub_of_le (BitVec.le_of_lt hgt), hfirst]
      omega
    rw [hsub]
  · rename_i hgt
    rw [gt_iff_lt, BitVec.lt_def, hfirst] at hgt
    have hnone : len.toNat - (fifo.size.toNat - fifo.inIdx.toNat % fifo.size.toNat) = 0 := by
      omega
    rw [hnone]
    rfl

theorem Sized.copyToBuffer_slot (h : Sized fifo) (hlen : len.toNat ≤ fifo.size.toNat) {j : Nat}
    (hj : j < len.toNat) :
    copyToBuffer fifo src len 0 ((fifo.inIdx.toNat + j) % fifo.size.toNat) = src j := by
  rw [h.copyToBuffer_eq]
  have hlt := Nat.mod_lt fifo.inIdx.toNat h.pos
  have hmod := Nat.mod_add_mod fifo.inIdx.toNat fifo.size.toNat j
  rw [← hmod]
  revert hlt
  generalize fifo.inIdx.toNat % fifo.size.toNat = w
  intro hlt
  by_cases hfirst : w + j < fifo.size.toNat
  · rw [Nat.mod_eq_of_lt hfirst, write_outside, write_inside]
    · rw [read_getElem, Nat.zero_add]
    · rw [read_length]
      omega
    · rw [read_length]
      omega
  · have haddr : (w + j) % fifo.size.toNat = 0 + (j - (fifo.size.toNat - w)) := by
      rw [Nat.mod_eq_sub_mod (by omega), Nat.mod_eq_of_lt (by omega)]
      omega
    rw [haddr, write_inside]
    · rw [read_getElem]
      congr 1
      omega
    · rw [read_length]
      omega

theorem Sized.copyToBuffer_other (h : Sized fifo) {i : Nat} (hi : i < fifo.size.toNat)
    (hother : ∀ j < len.toNat, i ≠ (fifo.inIdx.toNat + j) % fifo.size.toNat) :
    copyToBuffer fifo src len 0 i = fifo.buffer i := by
  rw [h.copyToBuffer_eq]
  have hlt := Nat.mod_lt fifo.inIdx.toNat h.pos
  have hmod := Nat.mod_add_mod fifo.inIdx.toNat fifo.size.toNat
  simp only [← hmod] at hother
  revert hlt hother
  generalize fifo.inIdx.toNat % fifo.size.toNat = w
  intro hlt hother
  rw [write_outside, write_outside]
  · rw [read_length]
    by_contra hin
    have hsame := hother (i - w) (by omega)
    rw [Nat.mod_eq_of_lt (by omega)] at hsame
    omega
  · rw [read_length]
    by_contra hin
    have hsame := hother (fifo.size.toNat - w + i) (by omega)
    rw [Nat.mod_eq_sub_mod (by omega), Nat.mod_eq_of_lt (by omega)] at hsame
    omega

theorem Sized.copyFromBuffer_eq (h : Sized fifo) (hlen : len.toNat ≤ fifo.size.toNat)
    (readOffset : BitVec 32) :
    copyFromBuffer fifo len readOffset = window fifo.buffer fifo.size.toNat
      (fifo.outIdx.toNat + readOffset.toNat) len.toNat := by
  have hfirst := @Sized.firstChunk _ len h (fifo.outIdx + readOffset)
  have hindex := h.index (fifo.outIdx + readOffset)
  have hmod := h.add_mod fifo.outIdx readOffset
  have hlt := Nat.mod_lt (fifo.outIdx.toNat + readOffset.toNat) h.pos
  have hwindow := @window_mod _ fifo.buffer fifo.size.toNat
    (fifo.outIdx.toNat + readOffset.toNat) len.toNat
  rw [← hwindow, window_split hlt hlen]
  unfold copyFromBuffer
  dsimp only
  generalize (if len ≤ fifo.size - computeBufferIndex fifo (fifo.outIdx + readOffset) then len
    else fifo.size - computeBufferIndex fifo (fifo.outIdx + readOffset)) = chunk at hfirst ⊢
  rw [hindex, hfirst, hmod]
  have hzero : ∀ n, (List.range n).map fifo.buffer = ByteStore.read fifo.buffer 0 n := by
    intro n
    unfold ByteStore.read
    simp only [Nat.zero_add]
  rw [hzero]
  split
  · rename_i hgt
    rw [BitVec.toNat_sub_of_le (BitVec.le_of_lt hgt), hfirst, hmod]
    have hrest : len.toNat - min len.toNat
        (fifo.size.toNat - (fifo.outIdx.toNat + readOffset.toNat) % fifo.size.toNat) =
        len.toNat -
          (fifo.size.toNat - (fifo.outIdx.toNat + readOffset.toNat) % fifo.size.toNat) := by
      omega
    rw [hrest]
    rfl
  · rename_i hgt
    rw [gt_iff_lt, BitVec.lt_def, hfirst, hmod] at hgt
    have hnone : len.toNat -
        (fifo.size.toNat - (fifo.outIdx.toNat + readOffset.toNat) % fifo.size.toNat) = 0 := by
      omega
    rw [hnone]
    exact (List.append_nil _).symm

theorem Sized.clip (bound : BitVec 32) :
    (if len > bound then bound else len).toNat = min len.toNat bound.toNat := by
  split
  · rename_i hgt
    rw [gt_iff_lt, BitVec.lt_def] at hgt
    omega
  · rename_i hle
    rw [gt_iff_lt, BitVec.lt_def] at hle
    omega

theorem fifoWrite_spec (h : Sized fifo) (src : Store) (len : BitVec 32) :
    let after := fifoWrite fifo src len
    Sized after.1 ∧ after.1.size = fifo.size ∧
      after.2.toNat = min len.toNat (fifo.size.toNat - (contents fifo).length) ∧
      contents after.1 = contents fifo ++ ByteStore.read src 0 after.2.toNat := by
  have hfree := h.free
  have hclip := @Sized.clip len (getFreeSpace fifo)
  have hroom : (getFreeSpace fifo).toNat = fifo.size.toNat - (contents fifo).length := by
    rw [contents_length]
    omega
  unfold fifoWrite
  dsimp only
  generalize (if len > getFreeSpace fifo then getFreeSpace fifo else len) = n at hclip ⊢
  rw [hroom] at hclip
  split
  · rename_i hzero
    subst hzero
    exact ⟨h, rfl, hclip, (List.append_nil _).symm⟩
  · have hused : (fifo.inIdx + n - fifo.outIdx).toNat = (getUsedSpace fifo).toNat + n.toNat := by
      have hadd : fifo.inIdx + n - fifo.outIdx = getUsedSpace fifo + n := by
        unfold getUsedSpace
        rw [BitVec.sub_eq_add_neg, BitVec.sub_eq_add_neg, BitVec.add_assoc, BitVec.add_comm n,
          ← BitVec.add_assoc]
      rw [hadd, BitVec.toNat_add, Nat.mod_eq_of_lt (by omega)]
    have hlen : n.toNat ≤ fifo.size.toNat := by omega
    refine ⟨⟨h.pow, ?_⟩, rfl, hclip, ?_⟩
    · show (fifo.inIdx + n - fifo.outIdx).toNat ≤ fifo.size.toNat
      omega
    · have hwindow := @window_room _ fifo.buffer (copyToBuffer fifo src n 0) fifo.size.toNat
        fifo.outIdx.toNat (getUsedSpace fifo).toNat (ByteStore.read src 0 n.toNat)
        (by rw [read_length]; omega)
        (by
          intro j hj
          rw [read_length] at hj
          have hslot := @Sized.copyToBuffer_slot fifo src n h hlen j hj
          rw [read_getElem, Nat.zero_add, ← hslot, ← Nat.mod_add_mod, ← h.write_index,
            Nat.mod_add_mod])
        (by
          intro i _ hother
          apply h.copyToBuffer_other (Nat.mod_lt _ h.pos)
          intro j hj
          have hne := hother j (by rwa [read_length])
          rwa [← Nat.mod_add_mod (fifo.outIdx.toNat + _), ← h.write_index, Nat.mod_add_mod] at hne)
      rw [window_mod, read_length] at hwindow
      show window _ _ _ (fifo.inIdx + n - fifo.outIdx).toNat = _
      rw [hused]
      exact hwindow

theorem fifoRead_spec (h : Sized fifo) (len : BitVec 32) :
    let after := fifoRead fifo len
    Sized after.1 ∧ after.1.size = fifo.size ∧ after.2.1 = (contents fifo).take len.toNat ∧
      after.2.2.toNat = min len.toNat (contents fifo).length ∧
      contents after.1 = (contents fifo).drop len.toNat := by
  have hclip := @Sized.clip len (getUsedSpace fifo)
  have hused := h.used
  have htake : (contents fifo).take len.toNat =
      (contents fifo).take (min len.toNat (getUsedSpace fifo).toNat) := by
    rw [← contents_length, List.take_eq_take_min]
  have hdrop : (contents fifo).drop len.toNat =
      (contents fifo).drop (min len.toNat (getUsedSpace fifo).toNat) := by
    rw [← contents_length]
    rcases Nat.le_total len.toNat (contents fifo).length with hle | hle
    · rw [Nat.min_eq_left hle]
    · rw [Nat.min_eq_right hle, List.drop_eq_nil_of_le hle, List.drop_length]
  unfold fifoRead
  dsimp only
  rw [htake, hdrop, contents_length]
  generalize (if len > getUsedSpace fifo then getUsedSpace fifo else len) = n at hclip ⊢
  rw [← hclip]
  split
  · rename_i hzero
    subst hzero
    exact ⟨h, rfl, rfl, rfl, rfl⟩
  · have hleft : (fifo.inIdx - (fifo.outIdx + n)).toNat = (getUsedSpace fifo).toNat - n.toNat := by
      have hsub : fifo.inIdx - (fifo.outIdx + n) = getUsedSpace fifo - n := by
        unfold getUsedSpace
        rw [BitVec.sub_eq_add_neg, BitVec.sub_eq_add_neg, BitVec.sub_eq_add_neg, BitVec.neg_add,
          BitVec.sub_eq_add_neg, BitVec.add_assoc]
      have hle : n.toNat ≤ (getUsedSpace fifo).toNat := by omega
      rw [hsub, BitVec.toNat_sub_of_le hle]
    refine ⟨⟨h.pow, ?_⟩, rfl, ?_, rfl, ?_⟩
    · show (fifo.inIdx - (fifo.outIdx + n)).toNat ≤ fifo.size.toNat
      omega
    · rw [h.copyFromBuffer_eq (by omega)]
      exact (window_take (by omega)).symm
    · show window _ _ (fifo.outIdx + n).toNat (fifo.inIdx - (fifo.outIdx + n)).toNat = _
      rw [hleft, window_congr (h.add_mod _ _)]
      exact (window_drop _).symm

theorem fifoPeek_spec (h : Sized fifo) (len offset : BitVec 32) :
    (fifoPeek fifo len offset).1 = ((contents fifo).drop offset.toNat).take len.toNat ∧
      (fifoPeek fifo len offset).2.toNat = (fifoPeek fifo len offset).1.length := by
  have hused := h.used
  unfold fifoPeek
  dsimp only
  split
  · rename_i hge
    have hle : (contents fifo).length ≤ offset.toNat := by
      rw [contents_length]
      exact BitVec.le_def.mp hge
    rw [List.drop_eq_nil_of_le hle, List.take_nil]
    exact ⟨rfl, rfl⟩
  · rename_i hlt
    have hoff : offset.toNat < (getUsedSpace fifo).toNat := by
      rw [ge_iff_le, BitVec.le_def] at hlt
      omega
    have hclip := @Sized.clip len (getUsedSpace fifo - offset)
    rw [BitVec.toNat_sub_of_le (Nat.le_of_lt hoff)] at hclip
    have hwindow : ((contents fifo).drop offset.toNat).take len.toNat =
        window fifo.buffer fifo.size.toNat (fifo.outIdx.toNat + offset.toNat)
          (min len.toNat ((getUsedSpace fifo).toNat - offset.toNat)) := by
      unfold contents
      rw [window_drop, List.take_eq_take_min, window_length, window_take (by omega)]
    rw [hwindow]
    generalize (if len > getUsedSpace fifo - offset then getUsedSpace fifo - offset else len) = n
      at hclip ⊢
    rw [← hclip]
    split
    · rename_i hzero
      subst hzero
      exact ⟨rfl, rfl⟩
    · dsimp only
      rw [h.copyFromBuffer_eq (by omega)]
      exact ⟨rfl, window_length.symm⟩

end Specifications

end MxGpu.Kfifo
