import MxGpu.MigMessage
import MxGpu.MigRing
import MxGpu.RingStream
import MxGpu.Transition

/- The ring between the copy thread and user space as a stream of bytes: each side in its own
steps, in any order. -/
namespace MxGpu.Mig

open RingStream (Flow)
open Transition (Run)

variable {d : Device} {f : File} {T Q P : List UInt8}

/-! ### Room and data in the ring -/

theorem and_bufMask (x : Nat) : x &&& bufMask = x % ringBufSize := by
  rw [bufMask, ringBufSize, Nat.one_shiftLeft, Nat.and_two_pow_sub_one_eq_mod]

abbrev File.Flow (d : Device) (f : File) (T Q P : List UInt8) : Prop :=
  RingStream.Flow ringBufSize d.fbPageSize f.ring.mem f.ring.rptr f.ring.wptr T Q P

theorem ringBufSize_eq : ringBufSize = 33554432 := by decide

theorem pointers (h : f.Flow d T Q P) :
    f.ring.rptr < 33554432 ∧ 0 < d.fbPageSize ∧
      T.length + Q.length + P.length + d.fbPageSize ≤ 33554432 ∧
      f.ring.wptr = (f.ring.rptr + (T.length + Q.length)) % 33554432 := by
  have hroom := h.room
  have htarget := h.target
  rw [ringBufSize_eq, List.length_append] at htarget
  rw [ringBufSize_eq, List.length_append, List.length_append] at hroom
  exact ⟨ringBufSize_eq ▸ h.origin, h.gap_pos, hroom, htarget⟩

theorem threadRoom (h : f.Flow d T Q P) :
    (subSize (ringBufSize + f.ring.rptr - f.ring.wptr) d.fbPageSize &&& bufMask) +
      (T.length + Q.length) + d.fbPageSize = ringBufSize := by
  obtain ⟨hr, hpage, hroom, hw⟩ := pointers h
  rw [and_bufMask, ringBufSize_eq, subSize]
  omega

theorem threadData (h : f.Flow d [] Q P) :
    (f.ring.wptr + ringBufSize - f.ring.rptr) &&& bufMask = Q.length := by
  obtain ⟨hr, hpage, hroom, hw⟩ := pointers h
  rw [and_bufMask, ringBufSize_eq]
  simp only [List.length_nil] at hroom hw
  omega

theorem userData (h : f.Flow d T Q P) :
    (f.ring.wptr + ringBufSize - (f.ring.rptr + T.length) % ringBufSize) &&& bufMask =
      Q.length := by
  rw [and_bufMask]
  exact h.waiting

theorem userRoom (h : f.Flow d T Q P) :
    (subSize (subSize ringBufSize d.fbPageSize + f.ring.rptr)
      ((f.ring.wptr + P.length) % ringBufSize) &&& bufMask) +
      (T.length + Q.length + P.length) + d.fbPageSize = ringBufSize := by
  obtain ⟨hr, hpage, hroom, hw⟩ := pointers h
  rw [and_bufMask, ringBufSize_eq, subSize, subSize]
  omega

/-! ### What user space copies -/

theorem beforeEnd_le (available ptr : Nat) : beforeEnd available ptr ≤ available := by
  unfold beforeEnd
  simp only
  omega

theorem min_beforeEnd (available : Nat) {ptr : Nat} (len : Nat) (hptr : ptr < ringBufSize) :
    min (beforeEnd available ptr) len +
        min (available - beforeEnd available ptr) (len - min (beforeEnd available ptr) len) =
      min available len ∧
    ptr + beforeEnd available ptr ≤ ringBufSize ∧
    (0 < available - beforeEnd available ptr → ptr + beforeEnd available ptr = ringBufSize) := by
  unfold beforeEnd
  simp only
  split <;> omega

structure SamePtrs (f f' : File) : Prop where
  isTarget : f'.isTarget = f.isTarget
  rptr : f'.ring.rptr = f.ring.rptr
  wptr : f'.ring.wptr = f.ring.wptr

theorem startMessage_same (f : File) (addr len : Nat) :
    SamePtrs f (startMessage f addr len) ∧ (startMessage f addr len).ring.mem = f.ring.mem := by
  unfold startMessage getTotalBytes
  split
  · simp only
    split <;> exact ⟨⟨rfl, rfl, rfl⟩, rfl⟩
  · exact ⟨⟨rfl, rfl, rfl⟩, rfl⟩

theorem SamePtrs.refl (f : File) : SamePtrs f f := ⟨rfl, rfl, rfl⟩

theorem SamePtrs.trans {f g h : File} (hfg : SamePtrs f g) (hgh : SamePtrs g h) : SamePtrs f h :=
  ⟨hgh.isTarget.trans hfg.isTarget, hgh.rptr.trans hfg.rptr, hgh.wptr.trans hfg.wptr⟩

theorem memcpy_zero (dst src : Nat → UInt8) (dstPos srcPos : Nat) :
    memcpy dst dstPos src srcPos 0 = dst := by
  funext i
  unfold memcpy
  rw [if_neg (by omega)]

theorem memcpy_at {dst src : Nat → UInt8} {dstPos srcPos len j : Nat} (hj : j < len) :
    memcpy dst dstPos src srcPos len (dstPos + j) = src (srcPos + j) := by
  unfold memcpy
  rw [if_pos (by omega), Nat.add_sub_cancel_left]

theorem memcpy_of_not {dst src : Nat → UInt8} {dstPos srcPos len i : Nat}
    (h : i < dstPos ∨ dstPos + len ≤ i) : memcpy dst dstPos src srcPos len i = dst i := by
  unfold memcpy
  rw [if_neg (by omega)]

theorem doDataCopy_source {vaddr off sz : Nat} {buf buf' : Nat → UInt8} {fault ret : Option Nat}
    {g : File} (htarget : f.isTarget = false)
    (h : userRingbufferDoDataCopy f vaddr buf off sz fault = (ret, g, buf')) :
    g = f ∧ ∀ n, ret = some n → n = sz ∧ buf' = memcpy buf off f.ring.mem vaddr sz := by
  unfold userRingbufferDoDataCopy at h
  split at h
  · rename_i hzero
    obtain ⟨rfl, rfl, rfl⟩ := by simpa using h
    refine ⟨rfl, fun n hn => ?_⟩
    rw [hzero, memcpy_zero]
    exact ⟨(Option.some.inj hn).symm, rfl⟩
  · simp only [htarget, Bool.false_eq_true, if_false, Prod.mk.injEq] at h
    obtain ⟨hret, rfl, rfl⟩ := h
    refine ⟨rfl, fun n hn => ?_⟩
    cases fault with
    | none =>
      rw [hn, Option.some.injEq] at hret
      exact ⟨hret.symm, rfl⟩
    | some k =>
      rw [hn] at hret
      exact absurd hret.symm (Option.some_ne_none n)

theorem doDataCopy_target {vaddr off sz : Nat} {buf buf' : Nat → UInt8} {fault ret : Option Nat}
    {g : File} (htarget : f.isTarget = true)
    (h : userRingbufferDoDataCopy f vaddr buf off sz fault = (ret, g, buf')) :
    buf' = buf ∧ SamePtrs f g ∧ ∃ k, k ≤ sz ∧ g.ring.mem = memcpy f.ring.mem vaddr buf off k ∧
      ∀ n, ret = some n → n = sz ∧ k = sz := by
  unfold userRingbufferDoDataCopy at h
  split at h
  · rename_i hzero
    obtain ⟨rfl, rfl, rfl⟩ := by simpa using h
    refine ⟨rfl, .refl _, 0, Nat.zero_le _, (memcpy_zero _ _ _ _).symm, fun n hn => ?_⟩
    exact ⟨by rw [hzero]; exact (Option.some.inj hn).symm, hzero.symm⟩
  · simp only [htarget, Prod.mk.injEq] at h
    obtain ⟨hret, rfl, rfl⟩ := h
    refine ⟨rfl, ⟨htarget.symm ▸ rfl, rfl, rfl⟩, _, ?_, rfl, fun n hn => ?_⟩
    · cases fault with
      | none => exact Nat.le_refl _
      | some k => exact Nat.min_le_right _ _
    · cases fault with
      | none =>
        rw [hn, Option.some.injEq] at hret
        exact ⟨hret.symm, rfl⟩
      | some k =>
        rw [hn] at hret
        exact absurd hret.symm (Option.some_ne_none n)

theorem userRingbufferDataCopy_source {rptr available off len : Nat} {buf buf' : Nat → UInt8}
    {fault fault' : Option Nat} {ret : Option Nat} {g : File} (htarget : f.isTarget = false)
    (hptr : rptr < ringBufSize) (havailable : available ≤ ringBufSize)
    (h : userRingbufferDataCopy f rptr available buf off len fault fault' = (ret, g, buf')) :
    SamePtrs f g ∧ g.ring.mem = f.ring.mem ∧
      ∀ n, ret = some n → n = min available len ∧
        ∀ j, j < n → buf' (off + j) = f.ring.mem ((rptr + j) % ringBufSize) := by
  obtain ⟨hsum, hend, hwrap⟩ := min_beforeEnd available len hptr
  unfold userRingbufferDataCopy at h
  simp only at h
  generalize hfirst : userRingbufferDoDataCopy f rptr buf off
    (min (beforeEnd available rptr) len) fault = r at h
  obtain ⟨ret₁, f₁, buf₁⟩ := r
  obtain ⟨rfl, hcopy₁⟩ := doDataCopy_source htarget hfirst
  cases ret₁ with
  | none =>
    simp only [Prod.mk.injEq] at h
    obtain ⟨rfl, rfl, rfl⟩ := h
    exact ⟨.refl _, rfl, fun n hn => absurd hn.symm (Option.some_ne_none n)⟩
  | some sz₁ =>
    obtain ⟨rfl, rfl⟩ := hcopy₁ sz₁ rfl
    simp only at h
    generalize hsz : min (beforeEnd available rptr) len = sz₁ at h hsum
    obtain ⟨hsame, hmem⟩ := startMessage_same f₁ rptr sz₁
    generalize startMessage f₁ rptr sz₁ = f₂ at h hsame hmem
    generalize hsecond : userRingbufferDoDataCopy f₂ 0 (memcpy buf off f₁.ring.mem rptr sz₁)
      (off + sz₁) (min (available - beforeEnd available rptr) (len - sz₁)) fault' = r at h
    obtain ⟨ret₂, f₃, buf₂⟩ := r
    obtain ⟨rfl, hcopy₂⟩ := doDataCopy_source (hsame.isTarget.trans htarget) hsecond
    cases ret₂ with
    | none =>
      simp only [Prod.mk.injEq] at h
      obtain ⟨rfl, rfl, rfl⟩ := h
      exact ⟨hsame, hmem, fun n hn => absurd hn.symm (Option.some_ne_none n)⟩
    | some sz₂ =>
      obtain ⟨rfl, rfl⟩ := hcopy₂ sz₂ rfl
      simp only [Prod.mk.injEq] at h
      obtain ⟨rfl, rfl, rfl⟩ := h
      generalize hsz₂ : min (available - beforeEnd available rptr) (len - sz₁) = sz₂ at hsum
      obtain ⟨hsame', hmem'⟩ := startMessage_same f₃ 0 sz₂
      refine ⟨hsame.trans hsame', hmem'.trans hmem, fun n hn => ?_⟩
      rw [Option.some.injEq] at hn
      refine ⟨by omega, fun j hj => ?_⟩
      rcases Nat.lt_or_ge j sz₁ with hlt | hge
      · rw [memcpy_of_not (by omega), memcpy_at hlt, Nat.mod_eq_of_lt (by omega)]
      · have hj' : off + j = off + sz₁ + (j - sz₁) := by omega
        have hwrapped := hwrap (by omega)
        rw [hj', memcpy_at (by omega), Nat.zero_add, hmem]
        congr 1
        rw [Nat.mod_eq_sub_mod (by omega), Nat.mod_eq_of_lt (by omega)]
        omega

theorem userRingbufferDataCopy_target {rptr available off len : Nat} {buf buf' : Nat → UInt8}
    {fault fault' : Option Nat} {ret : Option Nat} {g : File} (htarget : f.isTarget = true)
    (hptr : rptr < ringBufSize) (havailable : available ≤ ringBufSize)
    (h : userRingbufferDataCopy f rptr available buf off len fault fault' = (ret, g, buf')) :
    SamePtrs f g ∧ buf' = buf ∧
      (∀ i, (∀ j, j < min available len → i ≠ (rptr + j) % ringBufSize) →
        g.ring.mem i = f.ring.mem i) ∧
      ∀ n, ret = some n → n = min available len ∧
        ∀ j, j < n → g.ring.mem ((rptr + j) % ringBufSize) = buf (off + j) := by
  obtain ⟨hsum, hend, hwrap⟩ := min_beforeEnd available len hptr
  unfold userRingbufferDataCopy at h
  simp only at h
  generalize hfirst : userRingbufferDoDataCopy f rptr buf off
    (min (beforeEnd available rptr) len) fault = r at h
  obtain ⟨ret₁, f₁, buf₁⟩ := r
  obtain ⟨rfl, hsame₁, k₁, hk₁, hmem₁, hcopy₁⟩ := doDataCopy_target htarget hfirst
  generalize hsz : min (beforeEnd available rptr) len = sz₁ at h hsum hk₁ hcopy₁
  -- the first piece lies before the end of the ring
  have hplace : ∀ j, j < sz₁ → (rptr + j) % ringBufSize = rptr + j :=
    fun j hj => Nat.mod_eq_of_lt (by omega)
  have hfree₁ : ∀ i, (∀ j, j < min available len → i ≠ (rptr + j) % ringBufSize) →
      f₁.ring.mem i = f.ring.mem i := by
    intro i hi
    rw [hmem₁]
    apply memcpy_of_not
    by_contra hin
    have := hi (i - rptr) (by omega)
    rw [hplace _ (by omega)] at this
    omega
  cases ret₁ with
  | none =>
    simp only [Prod.mk.injEq] at h
    obtain ⟨rfl, rfl, rfl⟩ := h
    exact ⟨hsame₁, rfl, hfree₁, fun n hn => absurd hn.symm (Option.some_ne_none n)⟩
  | some n₁ =>
    obtain ⟨hn₁, hfull₁⟩ := hcopy₁ n₁ rfl
    subst hn₁
    subst k₁
    simp only at h
    obtain ⟨hsame₂, hmem₂⟩ := startMessage_same f₁ rptr n₁
    generalize startMessage f₁ rptr n₁ = f₂ at h hsame₂ hmem₂
    generalize hsecond : userRingbufferDoDataCopy f₂ 0 buf₁ (off + n₁)
      (min (available - beforeEnd available rptr) (len - n₁)) fault' = r at h
    obtain ⟨ret₂, f₃, buf₂⟩ := r
    obtain ⟨rfl, hsame₃, k₂, hk₂, hmem₃, hcopy₂⟩ :=
      doDataCopy_target (hsame₂.isTarget.trans (hsame₁.isTarget.trans htarget)) hsecond
    generalize hsz₂ : min (available - beforeEnd available rptr) (len - n₁) = sz₂
      at h hsum hk₂ hcopy₂
    have hplace₂ : ∀ j, j < sz₂ → (rptr + (n₁ + j)) % ringBufSize = j := by
      intro j hj
      have hwrapped := hwrap (by omega)
      rw [Nat.mod_eq_sub_mod (by omega), Nat.mod_eq_of_lt (by omega)]
      omega
    have hfree₂ : ∀ i, (∀ j, j < min available len → i ≠ (rptr + j) % ringBufSize) →
        f₃.ring.mem i = f.ring.mem i := by
      intro i hi
      rw [hmem₃, hmem₂, ← hfree₁ i hi]
      apply memcpy_of_not
      by_contra hin
      have := hi (n₁ + i) (by omega)
      rw [hplace₂ i (by omega)] at this
      exact this rfl
    cases ret₂ with
    | none =>
      simp only [Prod.mk.injEq] at h
      obtain ⟨rfl, rfl, rfl⟩ := h
      exact ⟨(hsame₁.trans hsame₂).trans hsame₃, rfl, hfree₂,
        fun n hn => absurd hn.symm (Option.some_ne_none n)⟩
    | some n₂ =>
      obtain ⟨hn₂, hfull₂⟩ := hcopy₂ n₂ rfl
      subst hn₂
      subst k₂
      simp only [Prod.mk.injEq] at h
      obtain ⟨rfl, rfl, rfl⟩ := h
      obtain ⟨hsame₄, hmem₄⟩ := startMessage_same f₃ 0 n₂
      refine ⟨((hsame₁.trans hsame₂).trans hsame₃).trans hsame₄, rfl,
        fun i hi => by rw [hmem₄]; exact hfree₂ i hi, fun n hn => ?_⟩
      rw [Option.some.injEq] at hn
      refine ⟨by omega, fun j hj => ?_⟩
      rw [hmem₄, hmem₃]
      rcases Nat.lt_or_ge j n₁ with hlt | hge
      · rw [hplace j hlt, memcpy_of_not, hmem₂, hmem₁, memcpy_at hlt]
        -- the second piece ends before the first begins
        rcases Nat.eq_zero_or_pos n₂ with hz | hpos
        · omega
        · have hwrapped := hwrap (by omega)
          omega
      · have hj' : j = n₁ + (j - n₁) := by omega
        rw [hj', hplace₂ _ (by omega)]
        have hcopied : memcpy f₂.ring.mem 0 buf₂ (off + n₁) n₂ (0 + (j - n₁)) =
            buf₂ (off + n₁ + (j - n₁)) := memcpy_at (by omega)
        rw [Nat.zero_add] at hcopied
        rw [hcopied, Nat.add_assoc]

/-! ### Both sides in steps -/

/-- A read or a write under way: the user's buffer and its length, how much of it a write has got
rid of, and whether a read waits for a message it has set going. -/
structure Request where
  buf : Nat → UInt8
  len : Nat
  done : Nat
  pending : Bool

/-- Where user space is: outside; before `gim_mig_ringbuffer_data_copy_user`; in it, at the test
of its loop, before its copy and before it writes its pointer; back from it; and asleep. -/
inductive UserPc
  | idle
  | enter (q : Request)
  | look (q : Request) (rptr copied : Nat)
  | copy (q : Request) (rptr copied available : Nat)
  | leave (q : Request) (rptr copied : Nat)
  | back (q : Request) (ret : Option Nat)
  | sleep (q : Request)

/-- Where the copy thread is: at its wait, past it, and before it writes its pointer. -/
inductive ThreadPc
  | wait
  | go (available wptr : Nat)
  | publish (copied wptr : Nat)

/-- Both sides, the bytes that went in on one end and came out on the other so far, and the totals
that `left_bytes_fd` has been set to. -/
structure Sys where
  file : File
  user : UserPc
  thread : ThreadPc
  sent : List UInt8
  received : List UInt8
  loaded : Int

def bytesOf (buf : Nat → UInt8) (n : Nat) : List UInt8 := (List.range n).map buf

/-- `gim_migf_save_read` after its call: the file, where it goes on, and what it tells the user. -/
def saveReadBack (f : File) (q : Request) (ret : Option Nat) : File × UserPc × Nat :=
  match ret with
  | none => (f, .idle, 0)
  | some copied =>
    if copied = 0 then
      if !f.nextCopyMask.isZero then
        ({ f with ring := { f.ring with state := .running } }, .sleep { q with pending := true }, 0)
      else if q.pending then (f, .sleep q, 0)
      else if 0 < f.leftBytesFd then (f, .sleep q, 0)
      else (f, .idle, 0)
    else ({ f with leftBytesFd := f.leftBytesFd - copied }, .idle, copied)

/-- `gim_migf_resume_write` after its call. -/
def resumeWriteBack (f : File) (q : Request) (ret : Option Nat) : File × UserPc × Nat :=
  match ret with
  | none => (f, .idle, 0)
  | some sz =>
    if sz = 0 then (f, .sleep q, 0)
    else
      let f := { f with leftBytesFd := f.leftBytesFd - sz }
      let q := { q with done := q.done + sz }
      (f, if q.done < q.len then .enter q else .idle, sz)

structure SameStream (f f' : File) : Prop extends SamePtrs f f' where
  mem : f'.ring.mem = f.ring.mem
  left : f'.leftBytesFd = f.leftBytesFd
  total : f'.totalBytesFd = f.totalBytesFd

def File.withMem (f : File) (mem : Nat → UInt8) : File := { f with ring := { f.ring with mem } }

/-- One step of user space, of the copy thread, or of another entry point. -/
inductive Step (d : Device) : Sys → Sys → Prop
  /-- the other entry points do not touch the stream -/
  | other {s : Sys} {f : File} (hsame : SameStream s.file f) : Step d s { s with file := f }
  /-- `gim_migf_save_read` -/
  | read {s : Sys} (buf : Nat → UInt8) (len : Nat) (hidle : s.user = .idle)
      (hsource : s.file.isTarget = false) (hleft : 0 ≤ s.file.leftBytesFd) :
      Step d s { s with user := .enter ⟨buf, len, 0, false⟩ }
  /-- `gim_migf_resume_write` -/
  | write {s : Sys} (buf : Nat → UInt8) (len : Nat) (hidle : s.user = .idle)
      (htarget : s.file.isTarget = true) (hlen : 0 < len) :
      Step d s { s with user := .enter ⟨buf, len, 0, false⟩ }
  | enter {s : Sys} {q : Request} (hat : s.user = .enter q) :
      Step d s { s with user := .look q s.file.userPtr 0 }
  | look {s : Sys} {q : Request} {rptr copied : Nat} (hat : s.user = .look q rptr copied) :
      Step d s { s with
        user :=
          if copied < q.len - q.done ∧ userCheckRingbufferSpace d s.file rptr ≠ 0 then
            .copy q rptr copied (userCheckRingbufferSpace d s.file rptr)
          else .leave q rptr copied }
  | copy {s : Sys} {q : Request} {rptr copied available : Nat} {fault fault' ret : Option Nat}
      {f : File} {buf : Nat → UInt8} (hat : s.user = .copy q rptr copied available)
      (hdone : userRingbufferDataCopy s.file rptr available q.buf copied
        (q.len - q.done - copied) fault fault' = (ret, f, buf)) :
      Step d s { s with
        file := f
        -- `copied_size` is the count of this round alone
        user := match ret with
          | none => .back { q with buf } none
          | some n => .look { q with buf } ((rptr + n) &&& bufMask) n
        loaded := s.loaded + (f.leftBytesFd - s.file.leftBytesFd) }
  | leave {s : Sys} {q : Request} {rptr copied : Nat} (hat : s.user = .leave q rptr copied) :
      Step d s { s with file := publishUser s.file rptr, user := .back q (some copied) }
  | readBack {s : Sys} {q : Request} {ret : Option Nat} (hat : s.user = .back q ret)
      (hsource : s.file.isTarget = false) :
      Step d s { s with
        file := (saveReadBack s.file q ret).1
        user := (saveReadBack s.file q ret).2.1
        received := s.received ++ bytesOf q.buf (saveReadBack s.file q ret).2.2 }
  | writeBack {s : Sys} {q : Request} {ret : Option Nat} (hat : s.user = .back q ret)
      (htarget : s.file.isTarget = true) :
      Step d s { s with
        file := (resumeWriteBack s.file q ret).1
        user := (resumeWriteBack s.file q ret).2.1
        sent := s.sent ++
          bytesOf (fun j => q.buf (q.done + j)) (resumeWriteBack s.file q ret).2.2 }
  | wake {s : Sys} {q : Request} (hat : s.user = .sleep q) : Step d s { s with user := .enter q }
  | timeout {s : Sys} {q : Request} (hat : s.user = .sleep q) : Step d s { s with user := .idle }
  | threadLook {s : Sys} {available wptr : Nat} (hat : s.thread = .wait)
      (hrunning : s.file.ring.state = .running)
      (hroom : threadCheckRingbufferSpace d s.file = (true, available, wptr)) :
      Step d s { s with thread := .go available wptr }
  /-- the bytes that the thread puts into the ring of the source may be any -/
  | threadCopy {s : Sys} {available wptr n : Nat} {o : Outside} {gpuAddr : Nat}
      (data : Nat → UInt8) (hat : s.thread = .go available wptr)
      (hdone : (threadRingbufferDataCopy d o s.file gpuAddr available wptr).size = some n) :
      Step d s { s with
        file :=
          if s.file.isTarget then
            (threadRingbufferDataCopy d o s.file gpuAddr available wptr).file
          else (threadRingbufferDataCopy d o s.file gpuAddr available wptr).file.withMem
            (memcpy s.file.ring.mem wptr data 0 n)
        thread := .publish n wptr
        sent := if s.file.isTarget then s.sent else s.sent ++ bytesOf data n
        received :=
          if s.file.isTarget then
            s.received ++ bytesOf (fun j => s.file.ring.mem (wptr + j)) n
          else s.received }
  /-- a copy that fails may have put some bytes before it did -/
  | threadFail {s : Sys} {available wptr k : Nat} {o : Outside} {gpuAddr : Nat}
      (data : Nat → UInt8) (hat : s.thread = .go available wptr)
      (hfailed : (threadRingbufferDataCopy d o s.file gpuAddr available wptr).size = none)
      (hk : k ≤ beforeEnd available wptr) :
      Step d s { s with
        file :=
          if s.file.isTarget then
            (threadRingbufferDataCopy d o s.file gpuAddr available wptr).file
          else (threadRingbufferDataCopy d o s.file gpuAddr available wptr).file.withMem
            (memcpy s.file.ring.mem wptr data 0 k)
        thread := .wait }
  | threadPublish {s : Sys} {n wptr : Nat} (hat : s.thread = .publish n wptr) :
      Step d s { s with
        file := if n = 0 then s.file else publishThread s.file ((wptr + n) &&& bufMask)
        thread := .wait }

def Starts (s : Sys) : Prop :=
  s.file.ring.rptr = 0 ∧ s.file.ring.wptr = 0 ∧ s.user = .idle ∧ s.thread = .wait ∧
    s.sent = [] ∧ s.received = [] ∧ s.file.leftBytesFd = 0 ∧ s.loaded = 0

/-- User space finds the ring as one look at it suffices: a read that has copied some bytes finds
nothing more, and a write finds room for all it brings, or none. -/
def Calm (d : Device) (s : Sys) : Prop :=
  match s.user with
  | .look q rptr copied =>
    copied < q.len - q.done → userCheckRingbufferSpace d s.file rptr ≠ 0 →
      if s.file.isTarget then q.len ≤ userCheckRingbufferSpace d s.file rptr else copied = 0
  | _ => True

def CalmRun (d : Device) : Sys → Prop :=
  Run Starts (fun s (_ : Unit) s' => Step d s s') (fun s _ => Calm d s)

def ringContents (f : File) : List UInt8 :=
  bytesOf (fun j => f.ring.mem ((f.ring.rptr + j) % ringBufSize))
    ((f.ring.wptr + ringBufSize - f.ring.rptr) % ringBufSize)

def Sys.underWay (s : Sys) : List UInt8 :=
  if s.file.isTarget then
    match s.user with
    | .idle => []
    | .enter q => bytesOf q.buf q.len
    | .look q _ _ => bytesOf q.buf q.len
    | .copy q _ _ _ => bytesOf q.buf q.len
    | .leave q _ _ => bytesOf q.buf q.len
    | .back q _ => bytesOf q.buf q.len
    | .sleep q => bytesOf q.buf q.len
  else []

/-! ### The copy thread keeps to its chunk -/

theorem SameStream.refl (f : File) : SameStream f f := ⟨.refl f, rfl, rfl, rfl⟩

theorem SameStream.trans {f g h : File} (hfg : SameStream f g) (hgh : SameStream g h) :
    SameStream f h :=
  ⟨hfg.toSamePtrs.trans hgh.toSamePtrs, hgh.mem.trans hfg.mem, hgh.left.trans hfg.left,
    hgh.total.trans hfg.total⟩

theorem SameCursor.stream {f g : File} (h : SameCursor f g) : SameStream f g :=
  ⟨⟨h.isTarget, by rw [h.ring], by rw [h.ring]⟩, by rw [h.ring], h.left, h.total⟩

theorem endMessage_stream (f : File) : SameStream f (endMessage f) := by
  unfold endMessage
  simp only
  split <;> exact ⟨⟨rfl, rfl, rfl⟩, rfl, rfl, rfl⟩

theorem OnlyMsg.stream {f g : File} (h : OnlyMsg f g) : SameStream f g := by
  obtain ⟨msg, rfl⟩ := h
  exact ⟨⟨rfl, rfl, rfl⟩, rfl, rfl, rfl⟩

theorem dirtyFbCopyLoop_stream (d : Device) (fails : FbCopy → Bool) (gpuAddr fuel : Nat) (f : File)
    (bitsCnt left copied : Nat) (calls : List FbCopy) :
    SameStream f (dirtyFbCopyLoop d fails gpuAddr fuel f bitsCnt left copied calls).file ∧
      ∀ n, (dirtyFbCopyLoop d fails gpuAddr fuel f bitsCnt left copied calls).size = some n →
        n ≤ copied + left := by
  induction fuel generalizing f bitsCnt left copied calls with
  | zero =>
    refine ⟨.refl f, fun n hn => ?_⟩
    rw [← Option.some.inj hn]
    exact Nat.le_add_right _ _
  | succ fuel ih =>
    have hstop : ∀ n, some copied = some n → n ≤ copied + left := by
      intro n hn
      rw [← Option.some.inj hn]
      exact Nat.le_add_right _ _
    rw [dirtyFbCopyLoop]
    split
    · exact ⟨.refl f, hstop⟩
    · simp only
      split
      · exact ⟨endMessage_stream f, hstop⟩
      · generalize hround : roundSize d f bitsCnt left
          (findNextBit f.msg.bitmap d.fbBitmapBits f.msg.bitPos) = round
        obtain ⟨sz, rest⟩ := round
        have hsz : sz ≤ left := by
          unfold roundSize at hround
          simp only [Prod.mk.injEq] at hround
          omega
        have honly := (advance_onlyMsg (d := d) f
          (findNextBit f.msg.bitmap d.fbBitmapBits f.msg.bitPos) sz).stream
        simp only
        split
        · exact ⟨.refl f, fun n hn => absurd hn.symm (Option.some_ne_none n)⟩
        · split
          · refine ⟨honly.trans (endMessage_stream _), fun n hn => ?_⟩
            rw [← Option.some.inj hn]
            omega
          · obtain ⟨hsame, hle⟩ := ih (advance d f
              (findNextBit f.msg.bitmap d.fbBitmapBits f.msg.bitPos) sz) rest (left - sz)
              (copied + sz) _
            refine ⟨honly.trans hsame, fun n hn => ?_⟩
            have := hle n hn
            omega

theorem fbPart_stream (d : Device) (o : Outside) (f : File) (gpuAddr ringOffset : Nat)
    {len sz : Nat} (hsz : sz ≤ len) :
    SameStream f (fbPart d o f gpuAddr ringOffset len sz).file ∧
      ∀ n, (fbPart d o f gpuAddr ringOffset len sz).size = some n → n ≤ len := by
  have hcopy : ∀ r : Copied, SameStream f r.file → (∀ n, r.size = some n → n ≤ len - sz) →
      SameStream f (match r.size with
        | none => (⟨none, r.isDone, r.file, r.calls⟩ : Copied)
        | some n => ⟨some (sz + n), r.isDone, { r.file with
            copiedSizeThread := if r.isDone then 0 else r.file.copiedSizeThread + (sz + n) },
            r.calls⟩).file ∧
        ∀ n, (match r.size with
          | none => (⟨none, r.isDone, r.file, r.calls⟩ : Copied)
          | some n => ⟨some (sz + n), r.isDone, { r.file with
              copiedSizeThread := if r.isDone then 0 else r.file.copiedSizeThread + (sz + n) },
              r.calls⟩).size = some n → n ≤ len := by
    intro r hsame hle
    rcases hsize : r.size with _ | m
    · exact ⟨hsame, fun n hn => absurd hn.symm (Option.some_ne_none n)⟩
    · refine ⟨hsame.trans ⟨⟨rfl, rfl, rfl⟩, rfl, rfl, rfl⟩, fun n hn => ?_⟩
      have := hle m hsize
      rw [← Option.some.inj hn]
      omega
  unfold fbPart
  apply hcopy
  · split
    · exact (dirtyFbCopyLoop_stream ..).1
    · exact .refl f
  · intro n hn
    split at hn
    · have := (dirtyFbCopyLoop_stream ..).2 n hn
      omega
    · rw [← Option.some.inj hn]
      exact Nat.zero_le _

theorem msgCopy_stream (d : Device) (o : Outside) (f : File) (len : Nat) :
    SameStream f (msgCopy d o f len).2 ∧ ∀ n, (msgCopy d o f len).1 = some n → n ≤ len := by
  have hexport : SameStream f (if (!f.isTarget && decide (f.copiedSizeThread = 0)) = true then
      vfDataExport d f o.exports else (0, f)).2 := by
    split
    · exact (vfDataExport_same d f o.exports).stream
    · exact .refl f
  unfold msgCopy
  simp only
  generalize (if (!f.isTarget && decide (f.copiedSizeThread = 0)) = true then
    vfDataExport d f o.exports else (0, f)) = r at hexport
  obtain ⟨ret, g⟩ := r
  have hmin : ∀ n, some (min len (d.msgSize - f.copiedSizeThread)) = some n → n ≤ len := by
    intro n hn
    rw [← Option.some.inj hn]
    exact Nat.min_le_left _ _
  simp only
  split
  · exact ⟨hexport, fun n hn => absurd hn.symm (Option.some_ne_none n)⟩
  · split
    · have himport := (vfDataImport_same d (receive o g) o.imports).stream
      have hreceive : SameStream g (receive o g) := ⟨⟨rfl, rfl, rfl⟩, rfl, rfl, rfl⟩
      generalize vfDataImport d (receive o g) o.imports = r at himport
      obtain ⟨ret', g'⟩ := r
      have hsame := (hexport.trans hreceive).trans himport
      split
      · rename_i heq
        obtain ⟨_, rfl⟩ := Prod.mk.inj heq
        exact ⟨hsame, hmin⟩
      · rename_i heq
        obtain ⟨_, rfl⟩ := Prod.mk.inj heq
        exact ⟨hsame, fun n hn => absurd hn.symm (Option.some_ne_none n)⟩
    · exact ⟨hexport, hmin⟩

theorem ringbufferDataCopy_stream (d : Device) (o : Outside) (f : File)
    (gpuAddr ringOffset len : Nat) :
    SameStream f (ringbufferDataCopy d o f gpuAddr ringOffset len).file ∧
      ∀ n, (ringbufferDataCopy d o f gpuAddr ringOffset len).size = some n → n ≤ len := by
  unfold ringbufferDataCopy
  split
  · obtain ⟨hsame, hle⟩ := msgCopy_stream d o f len
    rcases hcopy : msgCopy d o f len with ⟨_ | sz, g⟩
    · rw [hcopy] at hsame
      exact ⟨hsame, fun n hn => absurd hn.symm (Option.some_ne_none n)⟩
    · rw [hcopy] at hsame hle
      obtain ⟨hsame', hle'⟩ := fbPart_stream d o g gpuAddr ringOffset (hle sz rfl)
      exact ⟨hsame.trans hsame', hle'⟩
  · exact fbPart_stream d o f gpuAddr ringOffset (Nat.zero_le _)

theorem threadRingbufferDataCopy_stream (d : Device) (o : Outside) (f : File)
    (gpuAddr available wptr : Nat) :
    SameStream f (threadRingbufferDataCopy d o f gpuAddr available wptr).file ∧
      ∀ n, (threadRingbufferDataCopy d o f gpuAddr available wptr).size = some n →
        n ≤ beforeEnd available wptr := by
  unfold threadRingbufferDataCopy
  simp only
  split
  · obtain ⟨hsame, hle⟩ := ringbufferDataCopy_stream d o f gpuAddr wptr
      (beforeEnd available wptr / d.fbPageSize * d.fbPageSize)
    refine ⟨hsame, fun n hn => ?_⟩
    exact (hle n hn).trans (Nat.div_mul_le_self _ _)
  · refine ⟨.refl f, fun n hn => ?_⟩
    rw [← Option.some.inj hn]
    exact Nat.zero_le _

end MxGpu.Mig
