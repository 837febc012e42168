import Mathlib.Data.Nat.Bitwise
import Mathlib.Tactic.Ring
import MxGpu.Transition

/- The accumulated dirty bits of the virtual functions (`amdgv_dirtybit.c`): one buffer of bytes for
the whole frame buffer, a slice of it for each function, and queries that are merged into a slice or
copied out of it. -/
namespace MxGpu.Dirtybit

open Transition (Run)

/-! ### Bytes and bits -/

/-- Bit `i` of a bitmap. -/
def bitAt (m : Nat → UInt8) (i : Nat) : Bool := (m (i / 8)).toNat.testBit (i % 8)

/-- One element of `width` bytes: `if (src[i] != 0) dst[i] |= src[i];` -/
def orElement (width : Nat) (src : Nat → UInt8) (dst : Nat → UInt8) (at_ : Nat) : Nat → UInt8 :=
  if ∀ k, k < width → src (at_ + k) = 0 then dst
  else fun j => if at_ ≤ j ∧ j < at_ + width then dst j ||| src j else dst j

/-- A loop over `n` such elements. -/
def orElements (width : Nat) (src : Nat → UInt8) (start : Nat) :
    Nat → (Nat → UInt8) → Nat → UInt8
  | 0, dst => dst
  | n + 1, dst => orElement width src (orElements width src start n dst) (start + n * width)

theorem orElement_apply (width : Nat) (src dst : Nat → UInt8) (at_ j : Nat) :
    orElement width src dst at_ j =
      if at_ ≤ j ∧ j < at_ + width then dst j ||| src j else dst j := by
  unfold orElement
  by_cases hzero : ∀ k, k < width → src (at_ + k) = 0
  · rw [if_pos hzero]
    split
    · rename_i hin
      have hsrc : src j = 0 := by
        have hat := hzero (j - at_) (by omega)
        rwa [Nat.add_sub_of_le hin.1] at hat
      rw [hsrc, UInt8.or_zero]
    · rfl
  · rw [if_neg hzero]

theorem orElements_apply (width : Nat) (src dst : Nat → UInt8) (start n j : Nat) :
    orElements width src start n dst j =
      if start ≤ j ∧ j < start + n * width then dst j ||| src j else dst j := by
  induction n with
  | zero =>
    rw [orElements, if_neg (by omega)]
  | succ n ih =>
    have hend : (n + 1) * width = n * width + width := Nat.succ_mul n width
    rw [orElements, orElement_apply, ih, hend]
    split_ifs <;> first | rfl | omega

/-- `byte_size` bytes: whole words first, then the bytes that are left. -/
def mergeBytes (byteSize : Nat) (src dst : Nat → UInt8) : Nat → UInt8 :=
  orElements 1 src (byteSize / 4 * 4) (byteSize % 4) (orElements 4 src 0 (byteSize / 4) dst)

theorem mergeBytes_apply (byteSize : Nat) (src dst : Nat → UInt8) (j : Nat) :
    mergeBytes byteSize src dst j = if j < byteSize then dst j ||| src j else dst j := by
  unfold mergeBytes
  rw [orElements_apply, orElements_apply]
  split_ifs <;> first | rfl | omega

/-! ### Slices -/

def dirtybitBufferSize : Nat := 32 * 2 ^ 10

/-- `amdgv_fb_size_to_byte_size`, as it is stored in 32 bits. -/
def fbSizeToByteSize (fbSize pageSize : Nat) : Nat := fbSize / pageSize / 8 % 2 ^ 32

/-- The dirty pages of the supported devices: navi32, MI308X and MI350X. -/
inductive DirtyPage
  | mb1
  | mb2
  | mb4
  deriving DecidableEq

def DirtyPage.size : DirtyPage → Nat
  | .mb1 => 2 ^ 20
  | .mb2 => 2 * 2 ^ 20
  | .mb4 => 4 * 2 ^ 20

structure VfFb where
  fbOffset : Nat
  fbSize : Nat
  deriving DecidableEq

def mbytesToBytes (mb : Nat) : Nat := mb <<< 20

/-- `struct acc_bits`; `ptr` is an offset in `acc_bits_whole_fb`. -/
structure AccBits where
  ptr : Nat
  size : Nat

/-- `amdgv_dirtybit_assgin_acc_bits_to_vf` for one function -/
def assignAccBits (page : DirtyPage) (vf : VfFb) : AccBits where
  ptr := fbSizeToByteSize (mbytesToBytes vf.fbOffset) page.size
  size := fbSizeToByteSize (mbytesToBytes vf.fbSize) page.size

/-- Functions whose frame buffers are aligned to 16 MiB and do not overlap. -/
structure FbLayout where
  vfs : List VfFb
  aligned : ∀ vf ∈ vfs, 16 ∣ vf.fbOffset ∧ 16 ∣ vf.fbSize
  word : ∀ vf ∈ vfs, vf.fbOffset < 2 ^ 32 ∧ vf.fbSize < 2 ^ 32
  apart : vfs.Pairwise fun a b =>
    a.fbOffset + a.fbSize ≤ b.fbOffset ∨ b.fbOffset + b.fbSize ≤ a.fbOffset

/-! ### Queries -/

/-- `struct amdgv_query_dirty_bit_data`, without its buffer. -/
structure DirtyQuery where
  queryFbOffset : Nat
  querySize : Nat
  dbitPlaneDataSize : Nat
  dbitPreserve : Bool

inductive QueryPath
  /-- frame buffers are shared and there are no hashes: everything is dirty -/
  | forced
  /-- `mi300_dirtybit_query_data` with hashes -/
  | fbHash
  /-- `mi300_dirtybit_query_data` with the bit planes -/
  | sdma
  /-- `navi32_query_dirtybit_data`, with what the system sees of the frame buffer, in MiB -/
  | ffbm (fbSizeOs : Nat)
  deriving DecidableEq

/-- `DIV_ROUND_UP` in 64 bits -/
def divRoundUp (n d : Nat) : Nat := (n + d - 1) % 2 ^ 64 / d

/-- `amdgv_dirtybit_querydata` and the function of the device, up to the hardware: a refusal, or the
window, cut at the end of the frame buffer. -/
def acceptedWindow (path : QueryPath) (page : DirtyPage) (mcFbTopAddr : Nat) (vf : VfFb)
    (q : DirtyQuery) : Option DirtyQuery :=
  if q.querySize = 0 then none
  else if mcFbTopAddr < q.queryFbOffset then none
  else
    match path with
    | .forced =>
      let numBits := divRoundUp q.querySize page.size
      let needed := numBits / 8 + if numBits % 8 ≠ 0 then 1 else 0
      if q.dbitPlaneDataSize < needed then none else some q
    | .fbHash => if mbytesToBytes vf.fbSize < q.queryFbOffset then none else some q
    | .sdma =>
      if mbytesToBytes vf.fbSize < q.queryFbOffset then none
      else if mbytesToBytes vf.fbSize < (q.queryFbOffset + q.querySize) % 2 ^ 64 then
        some { q with querySize := mbytesToBytes vf.fbSize - q.queryFbOffset }
      else some q
    | .ffbm fbSizeOs =>
      if mbytesToBytes fbSizeOs < (q.queryFbOffset + q.querySize) % 2 ^ 64 then none else some q

/-- `amdgv_dirtybit_merge_bitmap` to the accumulated bits -/
def mergeToAcc (page : DirtyPage) (bits : AccBits) (q : DirtyQuery) (bitmap acc : Nat → UInt8) :
    Nat → UInt8 :=
  let base := bits.ptr + fbSizeToByteSize q.queryFbOffset page.size
  let byteSize := fbSizeToByteSize q.querySize page.size
  fun a =>
    if base ≤ a then mergeBytes byteSize bitmap (fun j => acc (base + j)) (a - base) else acc a

/-- `amdgv_dirtybit_merge_bitmap` to the bitmap of the query -/
def mergeToBitmap (page : DirtyPage) (bits : AccBits) (q : DirtyQuery) (acc bitmap : Nat → UInt8) :
    Nat → UInt8 :=
  let base := bits.ptr + fbSizeToByteSize q.queryFbOffset page.size
  mergeBytes (fbSizeToByteSize q.querySize page.size) (fun j => acc (base + j)) bitmap

def setVfAccBits (bits : AccBits) (pattern : UInt8) (acc : Nat → UInt8) : Nat → UInt8 :=
  fun a => if bits.ptr ≤ a ∧ a < bits.ptr + bits.size then pattern else acc a

/-- `amdgv_dirtybit_set_bitmap_query_buffer_to_dirty`, the part that writes -/
def forcedBitmap (page : DirtyPage) (q : DirtyQuery) (buffer : Nat → UInt8) : Nat → UInt8 :=
  let numBits := divRoundUp q.querySize page.size
  fun j =>
    if j < numBits / 8 then 0xff
    else if j = numBits / 8 ∧ numBits % 8 ≠ 0 then UInt8.ofNat (2 ^ (numBits % 8) - 1)
    else buffer j

/-- The bitmap of a query that has been accepted. The hardware fails, or leaves a bitmap. -/
def queriedBitmap (path : QueryPath) (page : DirtyPage) (q : DirtyQuery) (buffer : Nat → UInt8)
    (hw : Option (Nat → UInt8)) : Option (Nat → UInt8) :=
  match path with
  | .forced => some (forcedBitmap page q buffer)
  | _ => hw

/-- `AMDGV_EVENT_QUERY_DIRTYBIT_DATA`: `amdgv_dirtybit_query_and_accumulate`, and the accumulated
bits for the first query of a migration. The accumulated bits, and the bitmap of a success. -/
def queryEvent (path : QueryPath) (page : DirtyPage) (mcFbTopAddr : Nat) (vf : VfFb)
    (q : DirtyQuery) (isFirstQuery : Bool) (buffer : Nat → UInt8) (hw : Option (Nat → UInt8))
    (acc : Nat → UInt8) : (Nat → UInt8) × Option (Nat → UInt8) :=
  let bits := assignAccBits page vf
  match acceptedWindow path page mcFbTopAddr vf q with
  | none => (setVfAccBits bits 0xff acc, none)
  | some q =>
    match queriedBitmap path page q buffer hw with
    | none => (setVfAccBits bits 0xff acc, none)
    | some bitmap =>
      let acc := mergeToAcc page bits q bitmap acc
      (acc, some (if isFirstQuery then mergeToBitmap page bits q acc bitmap else bitmap))

/-! ### Isolation -/

/-- A step on the accumulated bits that neither changes nor reads what is outside of a slice. -/
structure Isolated {α : Type} (bits : AccBits) (step : (Nat → UInt8) → (Nat → UInt8) × α) :
    Prop where
  changes : ∀ acc a, ¬ (bits.ptr ≤ a ∧ a < bits.ptr + bits.size) → (step acc).1 a = acc a
  reads : ∀ acc acc', (∀ a, bits.ptr ≤ a → a < bits.ptr + bits.size → acc a = acc' a) →
    (step acc).2 = (step acc').2 ∧
      ∀ a, bits.ptr ≤ a → a < bits.ptr + bits.size → (step acc).1 a = (step acc').1 a

/-- Every query of the window stays in the slice of its function, and so does every clear. -/
def QueryIsolated (path : QueryPath) (page : DirtyPage) (mcFbTopAddr : Nat) (vf : VfFb)
    (q : DirtyQuery) : Prop :=
  (∀ isFirstQuery buffer hw, Isolated (assignAccBits page vf)
    (queryEvent path page mcFbTopAddr vf q isFirstQuery buffer hw)) ∧
  ∀ pattern, Isolated (assignAccBits page vf)
    (fun acc => (setVfAccBits (assignAccBits page vf) pattern acc, ()))

/-- The slices of two functions have no byte in common, and the slices lie in the buffer. -/
def SlicesApart (page : DirtyPage) (layout : FbLayout) : Prop :=
  (layout.vfs.map (assignAccBits page)).Pairwise fun a b =>
    a.ptr + a.size ≤ b.ptr ∨ b.ptr + b.size ≤ a.ptr

def SlicesInside (page : DirtyPage) (layout : FbLayout) : Prop :=
  ∀ vf ∈ layout.vfs, (assignAccBits page vf).ptr + (assignAccBits page vf).size ≤ dirtybitBufferSize

/-- The frame buffers fit a bit for each page into the buffer. -/
def FbFits (page : DirtyPage) (layout : FbLayout) : Prop :=
  ∀ vf ∈ layout.vfs, mbytesToBytes vf.fbOffset / page.size / 8 +
    mbytesToBytes vf.fbSize / page.size / 8 ≤ 2 ^ 15

/-- What is left of the window ends, in whole bytes of its bitmap, with the frame buffer. -/
def WindowFits (path : QueryPath) (page : DirtyPage) (mcFbTopAddr : Nat) (vf : VfFb)
    (q : DirtyQuery) : Prop :=
  ∀ q', acceptedWindow path page mcFbTopAddr vf q = some q' →
    q'.querySize / page.size / 8 % 2 ^ 32 = 0 ∨
      q'.queryFbOffset / page.size / 8 % 2 ^ 32 + q'.querySize / page.size / 8 % 2 ^ 32 ≤
        mbytesToBytes vf.fbSize / page.size / 8

theorem DirtyPage.size_bounds (page : DirtyPage) : 2 ^ 20 ≤ page.size ∧ page.size ≤ 2 ^ 22 := by
  cases page <;> decide

theorem fbSizeToByteSize_eq {page : DirtyPage} {mb : Nat} (hmb : mb < 2 ^ 32) :
    fbSizeToByteSize (mbytesToBytes mb) page.size = mbytesToBytes mb / page.size / 8 := by
  unfold fbSizeToByteSize mbytesToBytes
  rw [Nat.shiftLeft_eq]
  apply Nat.mod_eq_of_lt
  have hpages : mb * 2 ^ 20 / page.size ≤ mb := by
    calc mb * 2 ^ 20 / page.size ≤ mb * 2 ^ 20 / 2 ^ 20 :=
          Nat.div_le_div_left page.size_bounds.1 (by decide)
      _ = mb := Nat.mul_div_cancel _ (by decide)
  omega

theorem assignAccBits_apart {page : DirtyPage} {a b : VfFb} (ha : a.fbOffset < 2 ^ 32)
    (ha' : a.fbSize < 2 ^ 32) (hb : b.fbOffset < 2 ^ 32)
    (h : a.fbOffset + a.fbSize ≤ b.fbOffset) :
    (assignAccBits page a).ptr + (assignAccBits page a).size ≤ (assignAccBits page b).ptr := by
  unfold assignAccBits
  simp only
  rw [fbSizeToByteSize_eq ha, fbSizeToByteSize_eq ha', fbSizeToByteSize_eq hb]
  unfold mbytesToBytes
  rw [Nat.shiftLeft_eq, Nat.shiftLeft_eq, Nat.shiftLeft_eq, Nat.div_div_eq_div_mul,
    Nat.div_div_eq_div_mul, Nat.div_div_eq_div_mul]
  calc a.fbOffset * 2 ^ 20 / (page.size * 8) + a.fbSize * 2 ^ 20 / (page.size * 8)
      ≤ (a.fbOffset * 2 ^ 20 + a.fbSize * 2 ^ 20) / (page.size * 8) := Nat.div_add_div_le_add_div
    _ ≤ b.fbOffset * 2 ^ 20 / (page.size * 8) := Nat.div_le_div_right (by omega)

theorem slices_apart (page : DirtyPage) (layout : FbLayout) : SlicesApart page layout := by
  unfold SlicesApart
  rw [List.pairwise_map]
  apply layout.apart.imp_of_mem
  intro a b ha hb hapart
  obtain ⟨ha, ha'⟩ := layout.word a ha
  obtain ⟨hb, hb'⟩ := layout.word b hb
  rcases hapart with hle | hle
  · exact .inl (assignAccBits_apart ha ha' hb hle)
  · exact .inr (assignAccBits_apart hb hb' ha hle)

theorem slicesInside_iff (page : DirtyPage) (layout : FbLayout) :
    SlicesInside page layout ↔ FbFits page layout := by
  unfold SlicesInside FbFits
  apply forall₂_congr
  intro vf hvf
  obtain ⟨hoffset, hsize⟩ := layout.word vf hvf
  unfold assignAccBits dirtybitBufferSize
  simp only [fbSizeToByteSize_eq hoffset, fbSizeToByteSize_eq hsize]
  norm_num

theorem setVfAccBits_isolated (bits : AccBits) (pattern : UInt8) {α : Type} (result : α) :
    Isolated bits (fun acc => (setVfAccBits bits pattern acc, result)) where
  changes := by
    intro acc a hout
    simp only [setVfAccBits]
    rw [if_neg hout]
  reads := by
    intro acc acc' _
    refine ⟨rfl, fun a hlo hhi => ?_⟩
    simp only [setVfAccBits]
    rw [if_pos ⟨hlo, hhi⟩, if_pos ⟨hlo, hhi⟩]

theorem mergeToAcc_apply (page : DirtyPage) (bits : AccBits) (q : DirtyQuery)
    (bitmap acc : Nat → UInt8) (a : Nat) :
    mergeToAcc page bits q bitmap acc a =
      if bits.ptr + fbSizeToByteSize q.queryFbOffset page.size ≤ a ∧
          a < bits.ptr + fbSizeToByteSize q.queryFbOffset page.size +
            fbSizeToByteSize q.querySize page.size then
        acc a ||| bitmap (a - (bits.ptr + fbSizeToByteSize q.queryFbOffset page.size))
      else acc a := by
  unfold mergeToAcc
  simp only [mergeBytes_apply]
  by_cases hlo : bits.ptr + fbSizeToByteSize q.queryFbOffset page.size ≤ a
  · rw [if_pos hlo, Nat.add_sub_of_le hlo]
    split_ifs <;> first | rfl | omega
  · rw [if_neg hlo, if_neg (fun h => hlo h.1)]

theorem merge_isolated {page : DirtyPage} {bits : AccBits} {q : DirtyQuery}
    (hfits : fbSizeToByteSize q.querySize page.size = 0 ∨
      fbSizeToByteSize q.queryFbOffset page.size + fbSizeToByteSize q.querySize page.size ≤
        bits.size) (bitmap : Nat → UInt8) (isFirstQuery : Bool) :
    Isolated bits (fun acc =>
      (mergeToAcc page bits q bitmap acc,
        some (if isFirstQuery then
          mergeToBitmap page bits q (mergeToAcc page bits q bitmap acc) bitmap
        else bitmap))) := by
  have hmerged : ∀ acc acc' : Nat → UInt8,
      (∀ a, bits.ptr ≤ a → a < bits.ptr + bits.size → acc a = acc' a) →
      ∀ a, bits.ptr ≤ a → a < bits.ptr + bits.size →
        mergeToAcc page bits q bitmap acc a = mergeToAcc page bits q bitmap acc' a := by
    intro acc acc' hsame a hlo hhi
    rw [mergeToAcc_apply, mergeToAcc_apply, hsame a hlo hhi]
  refine ⟨fun acc a hout => ?_, fun acc acc' hsame => ⟨?_, hmerged acc acc' hsame⟩⟩
  · simp only [mergeToAcc_apply]
    rw [if_neg (by omega)]
  · cases isFirstQuery with
    | false => rfl
    | true =>
      simp only [if_true, Option.some.injEq]
      funext j
      unfold mergeToBitmap
      simp only [mergeBytes_apply]
      split
      · rw [hmerged acc acc' hsame _ (by omega) (by omega)]
      · rfl

theorem merge_not_isolated {page : DirtyPage} {bits : AccBits} {q : DirtyQuery}
    {bitmap : Nat → UInt8} (hdirty : ∀ j, bitmap j ≠ 0) {α : Type}
    {step : (Nat → UInt8) → (Nat → UInt8) × α}
    (hstep : ∀ acc, (step acc).1 = mergeToAcc page bits q bitmap acc)
    (hisolated : Isolated bits step) :
    fbSizeToByteSize q.querySize page.size = 0 ∨
      fbSizeToByteSize q.queryFbOffset page.size + fbSizeToByteSize q.querySize page.size ≤
        bits.size := by
  by_contra hover
  rw [not_or, not_le] at hover
  obtain ⟨hsome, hover⟩ := hover
  -- the last byte of the window
  have hlast := hisolated.changes (fun _ => 0) (bits.ptr +
    fbSizeToByteSize q.queryFbOffset page.size + fbSizeToByteSize q.querySize page.size - 1)
    (by omega)
  rw [hstep, mergeToAcc_apply, if_pos (by omega), UInt8.zero_or] at hlast
  exact hdirty _ hlast

theorem forcedBitmap_ne_zero (page : DirtyPage) (q : DirtyQuery) (j : Nat) :
    forcedBitmap page q (fun _ => 0xff) j ≠ 0 := by
  unfold forcedBitmap
  simp only
  split_ifs with hfull hrest
  · decide
  · have hbits : ∀ k, k < 8 → k ≠ 0 → UInt8.ofNat (2 ^ k - 1) ≠ 0 := by decide
    exact hbits _ (Nat.mod_lt _ (by decide)) hrest.2
  · decide

/-- The slices of functions do not overlap and lie in the buffer, and a query of a window stays in
its own slice, exactly if the frame buffers fit into the buffer and the window into the slice. -/
theorem accBits_isolated_iff (path : QueryPath) (page : DirtyPage) (mcFbTopAddr : Nat)
    (layout : FbLayout) (vf : VfFb) (hvf : vf ∈ layout.vfs) (q : DirtyQuery) :
    SlicesApart page layout ∧ SlicesInside page layout ∧
        QueryIsolated path page mcFbTopAddr vf q ↔
      FbFits page layout ∧ WindowFits path page mcFbTopAddr vf q := by
  obtain ⟨_, hsize⟩ := layout.word vf hvf
  have hslice : (assignAccBits page vf).size = mbytesToBytes vf.fbSize / page.size / 8 :=
    fbSizeToByteSize_eq hsize
  have hisolated : QueryIsolated path page mcFbTopAddr vf q ↔
      WindowFits path page mcFbTopAddr vf q := by
    unfold QueryIsolated WindowFits
    constructor
    · rintro ⟨hquery, _⟩ q' haccepted
      rw [← hslice]
      have hout := hquery false (fun _ => 0xff) (some fun _ => 0xff)
      have hbitmap : ∃ bitmap, queriedBitmap path page q' (fun _ => 0xff) (some fun _ => 0xff) =
          some bitmap ∧ ∀ j, bitmap j ≠ 0 := by
        cases path with
        | forced => exact ⟨_, rfl, forcedBitmap_ne_zero page q'⟩
        | _ => exact ⟨_, rfl, fun _ => by decide⟩
      obtain ⟨bitmap, hbitmap, hdirty⟩ := hbitmap
      apply merge_not_isolated hdirty _ hout
      intro acc
      unfold queryEvent
      rw [haccepted]
      simp only [hbitmap]
    · intro hfits
      refine ⟨fun isFirstQuery buffer hw => ?_, fun pattern => setVfAccBits_isolated _ _ _⟩
      unfold queryEvent
      cases haccepted : acceptedWindow path page mcFbTopAddr vf q with
      | none => exact setVfAccBits_isolated _ _ _
      | some q' =>
        simp only
        cases queriedBitmap path page q' buffer hw with
        | none => exact setVfAccBits_isolated _ _ _
        | some bitmap =>
          apply merge_isolated
          rw [hslice]
          exact hfits q' haccepted
  rw [slicesInside_iff, hisolated]
  exact ⟨fun h => h.2, fun h => ⟨slices_apart page layout, h⟩⟩

def twoFunctions : FbLayout where
  vfs := [⟨0, 16⟩, ⟨16, 16⟩]
  aligned := by decide
  word := by decide
  apart := by decide

def wideQuery (querySize : Nat) : DirtyQuery := ⟨0, querySize, 4096, false⟩

theorem accBits_isolated_iff_two :
    SlicesApart .mb2 twoFunctions ∧ SlicesInside .mb2 twoFunctions ∧
        QueryIsolated .fbHash .mb2 (2 ^ 40) ⟨0, 16⟩ (wideQuery (2 ^ 23)) ↔
      FbFits .mb2 twoFunctions ∧ WindowFits .fbHash .mb2 (2 ^ 40) ⟨0, 16⟩ (wideQuery (2 ^ 23)) :=
  accBits_isolated_iff .fbHash .mb2 (2 ^ 40) twoFunctions ⟨0, 16⟩ (by decide) (wideQuery (2 ^ 23))

/-- With hashes the window is not cut: a query of the first function for 32 MiB makes the pages of
the second one dirty. -/
theorem hash_query_crosses : ¬ ∀ (path : QueryPath) (page : DirtyPage) (mcFbTopAddr : Nat)
    (layout : FbLayout), ∀ vf ∈ layout.vfs, ∀ q : DirtyQuery,
      SlicesApart page layout ∧ SlicesInside page layout ∧
        QueryIsolated path page mcFbTopAddr vf q := by
  intro h
  obtain ⟨_, _, hquery, _⟩ :=
    h .fbHash .mb2 (2 ^ 40) twoFunctions ⟨0, 16⟩ (by decide) (wideQuery (2 ^ 25))
  have hchanged := (hquery false (fun _ => 0) (some fun _ => 0xff)).changes (fun _ => 0) 1
    (by decide)
  revert hchanged
  decide +kernel

end MxGpu.Dirtybit
