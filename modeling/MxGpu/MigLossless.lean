import MxGpu.MigStream

namespace MxGpu.Mig

open List

open RingStream (Flow)
open Transition (Run)

variable {d : Device} {f g : File} {T Q P hand : List UInt8} {s s' : Sys}

@[simp] theorem bytesOf_zero (buf : Nat → UInt8) : bytesOf buf 0 = [] := rfl

@[simp] theorem bytesOf_length (buf : Nat → UInt8) (n : Nat) : (bytesOf buf n).length = n := by
  simp [bytesOf]

theorem bytesOf_getElem (buf : Nat → UInt8) {n j : Nat} (hj : j < (bytesOf buf n).length) :
    (bytesOf buf n)[j] = buf j := by
  simp [bytesOf]

theorem bytesOf_eq_take {buf : Nat → UInt8} {n : Nat} {xs : List UInt8} (hn : n ≤ xs.length)
    (h : ∀ j, (hj : j < n) → buf j = xs[j]) : bytesOf buf n = xs.take n := by
  apply ext_getElem
  · rw [bytesOf_length, length_take, Nat.min_eq_left hn]
  · intro j hj _
    rw [bytesOf_getElem, getElem_take]
    rw [bytesOf_length] at hj
    exact h j hj

theorem bytesOf_prefix (buf : Nat → UInt8) {m n : Nat} (h : m ≤ n) :
    bytesOf buf m <+: bytesOf buf n := by
  refine ⟨bytesOf (fun j => buf (m + j)) (n - m), ?_⟩
  unfold bytesOf
  rw [show (range n) = range (m + (n - m)) by rw [Nat.add_sub_cancel' h],
    range_add, map_append, map_map]
  rfl

/-! ### The source -/

def ReaderAt (f : File) (T Q hand : List UInt8) : UserPc → Prop
  | .idle => T = [] ∧ hand = []
  | .enter q => T = [] ∧ hand = [] ∧ q.done = 0
  | .sleep q => T = [] ∧ hand = [] ∧ q.done = 0
  | .look q rptr copied =>
    q.done = 0 ∧ hand = T ∧ rptr = (f.ring.rptr + T.length) % ringBufSize ∧ copied = T.length ∧
      bytesOf q.buf copied = T
  | .copy q rptr copied available =>
    T = [] ∧ hand = [] ∧ q.done = 0 ∧ rptr = f.ring.rptr ∧ copied = 0 ∧ available ≤ Q.length
  | .leave q rptr copied =>
    q.done = 0 ∧ hand = T ∧ rptr = (f.ring.rptr + T.length) % ringBufSize ∧ copied = T.length ∧
      bytesOf q.buf copied = T
  | .back q ret =>
    T = [] ∧ q.done = 0 ∧
      match ret with
      | none => hand = []
      | some n => bytesOf q.buf n = hand

/-- What the thread's place says about the bytes it has put into the ring. -/
def PutterAt (d : Device) (f : File) (T Q P : List UInt8) : ThreadPc → Prop
  | .wait => P = []
  | .go available wptr =>
    P = [] ∧ wptr = f.ring.wptr ∧
      available + (T.length + Q.length) + d.fbPageSize ≤ ringBufSize
  | .publish n wptr => P.length = n ∧ wptr = f.ring.wptr

structure SourceInv (d : Device) (s : Sys) (T Q P hand : List UInt8) : Prop where
  source : s.file.isTarget = false
  flow : s.file.Flow d T Q P
  reader : ReaderAt s.file T Q hand s.user
  putter : PutterAt d s.file T Q P s.thread
  stream : s.sent = s.received ++ hand ++ Q ++ P
  left : s.file.leftBytesFd = s.loaded - s.received.length

theorem ReaderAt.congr {u : UserPc} (h : ReaderAt f T Q hand u)
    (hptr : g.ring.rptr = f.ring.rptr) : ReaderAt g T Q hand u := by
  cases u <;> simp only [ReaderAt, hptr] at h ⊢ <;> exact h

theorem ReaderAt.more {u : UserPc} {Q' : List UInt8} (h : ReaderAt f T Q hand u)
    (hlen : Q.length ≤ Q'.length) : ReaderAt f T Q' hand u := by
  cases u with
  | copy q rptr copied available =>
    obtain ⟨hT, hhand, hdone, hptr, hcopied, hav⟩ := h
    exact ⟨hT, hhand, hdone, hptr, hcopied, hav.trans hlen⟩
  | _ => exact h

theorem PutterAt.congr {t : ThreadPc} (h : PutterAt d f T Q P t)
    (hptr : g.ring.wptr = f.ring.wptr) : PutterAt d g T Q P t := by
  cases t <;> simp only [PutterAt, hptr] at h ⊢ <;> exact h

theorem PutterAt.less {t : ThreadPc} {T' Q' : List UInt8} (h : PutterAt d f T Q P t)
    (hlen : T'.length + Q'.length ≤ T.length + Q.length) : PutterAt d f T' Q' P t := by
  cases t with
  | go available wptr =>
    obtain ⟨hP, hptr, hroom⟩ := h
    exact ⟨hP, hptr, by omega⟩
  | _ => exact h

theorem SameStream.flow (h : SameStream f g) (hflow : f.Flow d T Q P) : g.Flow d T Q P := by
  unfold File.Flow
  rw [h.mem, h.rptr, h.wptr]
  exact hflow

theorem putChunk (data : Nat → UInt8) {available k : Nat} (h : f.Flow d T Q [])
    (hroom : available + (T.length + Q.length) + d.fbPageSize ≤ ringBufSize)
    (hk : k ≤ beforeEnd available f.ring.wptr) :
    RingStream.Flow ringBufSize d.fbPageSize (memcpy f.ring.mem f.ring.wptr data 0 k) f.ring.rptr
      f.ring.wptr T Q (bytesOf data k) := by
  obtain ⟨_, hend, _⟩ := min_beforeEnd available k h.target_lt
  have hle := beforeEnd_le available f.ring.wptr
  have hplace : ∀ j, j < k →
      ((f.ring.wptr + ([] : List UInt8).length) % ringBufSize + j) % ringBufSize =
        f.ring.wptr + j := by
    intro j hj
    rw [length_nil, Nat.add_zero, Nat.mod_eq_of_lt h.target_lt, Nat.mod_eq_of_lt (by omega)]
  have hput := @RingStream.Flow.put _ _ _ _ _ _ (memcpy f.ring.mem f.ring.wptr data 0 k) _ _ _
    (bytesOf data k) h ?_ ?_ ?_
  · simpa using hput
  · simp only [length_append, length_nil, bytesOf_length]
    omega
  · intro j hj
    rw [bytesOf_getElem]
    rw [bytesOf_length] at hj
    rw [hplace j hj, memcpy_at hj, Nat.zero_add]
  · intro i hi
    apply memcpy_of_not
    by_contra hin
    have := hi (i - f.ring.wptr) (by rw [bytesOf_length]; omega)
    rw [hplace _ (by omega)] at this
    omega

theorem SourceInv.step (h : SourceInv d s T Q P hand) (hcalm : Calm d s) (hstep : Step d s s') :
    ∃ T' Q' P' hand', SourceInv d s' T' Q' P' hand' := by
  obtain ⟨hsource, hflow, hreader, hputter, hstream, hleft⟩ := h
  cases hstep with
  | @other f hsame =>
    exact ⟨T, Q, P, hand, hsame.isTarget.trans hsource, hsame.flow hflow,
      hreader.congr hsame.rptr, hputter.congr hsame.wptr, hstream, hsame.left.trans hleft⟩
  | read buf len hidle _ _ =>
    rw [hidle] at hreader
    obtain ⟨hT, hhand⟩ := hreader
    exact ⟨T, Q, P, hand, hsource, hflow, ⟨hT, hhand, rfl⟩, hputter, hstream, hleft⟩
  | write buf len _ htarget _ =>
    rw [hsource] at htarget
    exact Bool.noConfusion htarget
  | @enter q hat =>
    rw [hat] at hreader
    obtain ⟨hT, hhand, hdone⟩ := hreader
    subst hT hhand
    have hptr : s.file.userPtr = (s.file.ring.rptr + 0) % ringBufSize := by
      rw [File.userPtr, hsource, Nat.add_zero, Nat.mod_eq_of_lt hflow.origin]
      rfl
    exact ⟨[], Q, P, [], hsource, hflow, ⟨hdone, rfl, hptr, rfl, rfl⟩, hputter, hstream, hleft⟩
  | @look q rptr copied hat =>
    rw [hat] at hreader
    obtain ⟨hdone, hhand, hptr, hcopied, hbuf⟩ := hreader
    have hseen : userCheckRingbufferSpace d s.file rptr = Q.length := by
      rw [userCheckRingbufferSpace, if_neg (by rw [hsource]; exact Bool.false_ne_true), hptr]
      exact userData hflow
    refine ⟨T, Q, P, hand, hsource, hflow, ?_, hputter, hstream, hleft⟩
    simp only
    split
    · rename_i hgo
      simp only [Calm, hat, hsource, Bool.false_eq_true, if_false] at hcalm
      have hzero := hcalm hgo.1 hgo.2
      have hT : T = [] := eq_nil_of_length_eq_zero (by omega)
      subst hT
      rw [length_nil, Nat.add_zero, Nat.mod_eq_of_lt hflow.origin] at hptr
      exact ⟨rfl, hhand, hdone, hptr, hzero, hseen.le⟩
    · exact ⟨hdone, hhand, hptr, hcopied, hbuf⟩
  | @copy q rptr copied available fault fault' ret f buf hat hdone =>
    rw [hat] at hreader
    obtain ⟨hT, hhand, hqdone, hptr, hcopied, hav⟩ := hreader
    subst hT hhand hptr hcopied
    have hring : Q.length ≤ ringBufSize := by
      have := hflow.room
      simp only [length_append, length_nil] at this
      omega
    obtain ⟨hsame, hmem, hcopy⟩ :=
      userRingbufferDataCopy_source hsource hflow.origin (hav.trans hring) hdone
    have hflow' : f.Flow d [] Q P := by
      unfold File.Flow
      rw [hmem, hsame.rptr, hsame.wptr]
      exact hflow
    have hleft' : f.leftBytesFd =
        s.loaded + (f.leftBytesFd - s.file.leftBytesFd) - s.received.length := by omega
    cases ret with
    | none =>
      exact ⟨[], Q, P, [], hsame.isTarget.trans hsource, hflow', ⟨rfl, hqdone, rfl⟩,
        hputter.congr hsame.wptr, hstream, hleft'⟩
    | some n =>
      obtain ⟨hn, hbytes⟩ := hcopy n rfl
      have hnQ : n ≤ Q.length := by omega
      have htake : bytesOf buf n = Q.take n := by
        apply bytesOf_eq_take hnQ
        intro j hj
        have hslot := hflow.slot (show j < Q.length by omega)
        rw [length_nil, Nat.add_zero, Nat.mod_eq_of_lt hflow.origin] at hslot
        rw [← hslot, ← hbytes j hj, Nat.zero_add]
      have hlen : (Q.take n).length = n := by rw [length_take, Nat.min_eq_left hnQ]
      refine ⟨Q.take n, Q.drop n, P, Q.take n, hsame.isTarget.trans hsource, hflow'.take n, ?_, ?_,
        ?_, hleft'⟩
      · refine ⟨hqdone, rfl, ?_, hlen.symm, htake⟩
        rw [hlen, hsame.rptr, and_bufMask]
      · apply PutterAt.less (hputter.congr hsame.wptr)
        rw [hlen, length_drop, length_nil]
        omega
      · rw [append_assoc s.received, take_append_drop, hstream, append_nil]
  | @leave q rptr copied hat =>
    rw [hat] at hreader
    obtain ⟨hqdone, hhand, hptr, hcopied, hbuf⟩ := hreader
    refine ⟨[], Q, P, hand, ?_, ?_, ⟨rfl, hqdone, ?_⟩, ?_, hstream, ?_⟩
    · simp only [publishUser, hsource, Bool.false_eq_true, if_false]
    · simp only [publishUser, hsource, Bool.false_eq_true, if_false, hptr]
      exact hflow.release
    · show bytesOf q.buf copied = hand
      rw [hbuf, hhand]
    · simp only [publishUser, hsource, Bool.false_eq_true, if_false]
      exact PutterAt.less (PutterAt.congr hputter rfl) (by simp)
    · simp only [publishUser, hsource, Bool.false_eq_true, if_false]
      exact hleft
  | @readBack q ret hat _ =>
    rw [hat] at hreader
    obtain ⟨hT, hqdone, hret⟩ := hreader
    subst hT
    cases ret with
    | none =>
      obtain rfl : hand = [] := hret
      exact ⟨[], Q, P, [], hsource, hflow, ⟨rfl, rfl⟩, hputter,
        by simpa [saveReadBack] using hstream, by simpa [saveReadBack] using hleft⟩
    | some copied =>
      by_cases hzero : copied = 0
      · subst hzero
        obtain rfl : hand = [] := by
          rw [← hret]
          rfl
        rw [← append_nil s.received] at hstream
        simp only [saveReadBack, if_true]
        split
        · exact ⟨[], Q, P, [], hsource, hflow, ⟨rfl, rfl, hqdone⟩, hputter.congr rfl,
            by simpa using hstream, by simpa using hleft⟩
        · split
          · exact ⟨[], Q, P, [], hsource, hflow, ⟨rfl, rfl, hqdone⟩, hputter,
              by simpa using hstream, by simpa using hleft⟩
          · split
            · exact ⟨[], Q, P, [], hsource, hflow, ⟨rfl, rfl, hqdone⟩, hputter,
                by simpa using hstream, by simpa using hleft⟩
            · exact ⟨[], Q, P, [], hsource, hflow, ⟨rfl, rfl⟩, hputter,
                by simpa using hstream, by simpa using hleft⟩
      · simp only [saveReadBack, if_neg hzero]
        refine ⟨[], Q, P, [], hsource, hflow, ⟨rfl, rfl⟩, hputter.congr rfl, ?_, ?_⟩
        · rw [hstream, ← hret, append_nil]
        · simp only [length_append, bytesOf_length]
          omega
  | writeBack _ htarget =>
    rw [hsource] at htarget
    exact Bool.noConfusion htarget
  | @wake q hat =>
    rw [hat] at hreader
    exact ⟨T, Q, P, hand, hsource, hflow, hreader, hputter, hstream, hleft⟩
  | @timeout q hat =>
    rw [hat] at hreader
    exact ⟨T, Q, P, hand, hsource, hflow, ⟨hreader.1, hreader.2.1⟩, hputter, hstream, hleft⟩
  | @threadLook available wptr hat _ hroom =>
    rw [hat] at hputter
    obtain rfl : P = [] := hputter
    simp only [threadCheckRingbufferSpace, hsource, Bool.false_eq_true, if_false, Prod.mk.injEq,
      File.threadPtr] at hroom
    obtain ⟨_, hav, hptr⟩ := hroom
    refine ⟨T, Q, [], hand, hsource, hflow, hreader, ⟨rfl, hptr.symm, ?_⟩, hstream, hleft⟩
    rw [← hav]
    exact (threadRoom hflow).le
  | @threadCopy available wptr n o gpuAddr data hat hdone =>
    rw [hat] at hputter
    obtain ⟨rfl, rfl, hroom⟩ := hputter
    obtain ⟨hsame, hle⟩ :=
      threadRingbufferDataCopy_stream d o s.file gpuAddr available s.file.ring.wptr
    have hput := putChunk data hflow hroom (hle n hdone)
    simp only [hsource, Bool.false_eq_true, if_false]
    refine ⟨T, Q, bytesOf data n, hand, hsame.isTarget.trans hsource, ?_, hreader.congr hsame.rptr,
      ⟨bytesOf_length _ _, hsame.wptr.symm⟩, ?_, hsame.left.trans hleft⟩
    · unfold File.Flow File.withMem
      rw [hsame.rptr, hsame.wptr]
      exact hput
    · rw [hstream, append_nil]
  | @threadFail available wptr k o gpuAddr data hat hfailed hk =>
    rw [hat] at hputter
    obtain ⟨rfl, rfl, hroom⟩ := hputter
    obtain ⟨hsame, _⟩ :=
      threadRingbufferDataCopy_stream d o s.file gpuAddr available s.file.ring.wptr
    have hput := putChunk data hflow hroom hk
    simp only [hsource, Bool.false_eq_true, if_false]
    refine ⟨T, Q, [], hand, hsame.isTarget.trans hsource, ?_, hreader.congr hsame.rptr, rfl,
      hstream, hsame.left.trans hleft⟩
    unfold File.Flow File.withMem
    rw [hsame.rptr, hsame.wptr]
    exact hput.unput
  | @threadPublish n wptr hat =>
    rw [hat] at hputter
    obtain ⟨hlen, rfl⟩ := hputter
    by_cases hzero : n = 0
    · obtain rfl : P = [] := eq_nil_of_length_eq_zero (by omega)
      simp only [if_pos hzero]
      exact ⟨T, Q, [], hand, hsource, hflow, hreader, rfl, hstream, hleft⟩
    · simp only [if_neg hzero, publishThread, hsource, Bool.false_eq_true, if_false]
      refine ⟨T, Q ++ P, [], hand, rfl, ?_, ?_, rfl, ?_, hleft⟩
      · unfold File.Flow
        simp only [and_bufMask, ← hlen]
        exact hflow.publish
      · exact (hreader.more (by simp)).congr rfl
      · rw [hstream, append_nil, append_assoc _ Q P]

/-! ### The target -/

/-- What a writer's place says about the bytes it has put into the ring. -/
def WriterAt (d : Device) (f : File) (T Q P hand : List UInt8) : UserPc → Prop
  | .idle => P = [] ∧ hand = []
  | .enter q => P = [] ∧ hand = [] ∧ q.done = 0
  | .sleep q => P = [] ∧ hand = [] ∧ q.done = 0
  | .look q wptr copied =>
    q.done = 0 ∧ hand = P ∧ wptr = (f.ring.wptr + P.length) % ringBufSize ∧ copied = P.length ∧
      bytesOf q.buf copied = P ∧ (copied = 0 ∨ copied = q.len)
  | .copy q wptr copied available =>
    P = [] ∧ hand = [] ∧ q.done = 0 ∧ wptr = f.ring.wptr ∧ copied = 0 ∧ q.len ≤ available ∧
      available + (T.length + Q.length) + d.fbPageSize ≤ ringBufSize
  | .leave q wptr copied =>
    q.done = 0 ∧ hand = P ∧ wptr = (f.ring.wptr + P.length) % ringBufSize ∧ copied = P.length ∧
      bytesOf q.buf copied = P ∧ (copied = 0 ∨ copied = q.len)
  | .back q ret =>
    P = [] ∧ q.done = 0 ∧
      match ret with
      | none => hand = []
      | some n => bytesOf q.buf n = hand ∧ (n = 0 ∨ n = q.len)

def TakerAt (f : File) (T Q : List UInt8) : ThreadPc → Prop
  | .wait => T = []
  | .go available rptr => T = [] ∧ rptr = f.ring.rptr ∧ available ≤ Q.length
  | .publish n rptr => T.length = n ∧ rptr = f.ring.rptr

structure TargetInv (d : Device) (s : Sys) (T Q P hand : List UInt8) : Prop where
  target : s.file.isTarget = true
  flow : s.file.Flow d T Q P
  writer : WriterAt d s.file T Q P hand s.user
  taker : TakerAt s.file T Q s.thread
  stream : s.sent ++ hand = s.received ++ Q ++ P
  left : s.file.leftBytesFd = s.loaded - s.sent.length

theorem WriterAt.congr {u : UserPc} (h : WriterAt d f T Q P hand u)
    (hptr : g.ring.wptr = f.ring.wptr) : WriterAt d g T Q P hand u := by
  cases u <;> simp only [WriterAt, hptr] at h ⊢ <;> exact h

theorem WriterAt.less {u : UserPc} {T' Q' : List UInt8} (h : WriterAt d f T Q P hand u)
    (hlen : T'.length + Q'.length ≤ T.length + Q.length) : WriterAt d f T' Q' P hand u := by
  cases u with
  | copy q wptr copied available =>
    obtain ⟨hP, hhand, hdone, hptr, hcopied, hfits, hroom⟩ := h
    exact ⟨hP, hhand, hdone, hptr, hcopied, hfits, by omega⟩
  | _ => exact h

theorem TakerAt.congr {t : ThreadPc} (h : TakerAt f T Q t) (hptr : g.ring.rptr = f.ring.rptr) :
    TakerAt g T Q t := by
  cases t <;> simp only [TakerAt, hptr] at h ⊢ <;> exact h

theorem TakerAt.more {t : ThreadPc} {Q' : List UInt8} (h : TakerAt f T Q t)
    (hlen : Q.length ≤ Q'.length) : TakerAt f T Q' t := by
  cases t with
  | go available rptr =>
    obtain ⟨hT, hptr, hav⟩ := h
    exact ⟨hT, hptr, hav.trans hlen⟩
  | _ => exact h

theorem putRoom {mem : Nat → UInt8} {n : Nat} (h : f.Flow d T Q [])
    (hroom : n + (T.length + Q.length) + d.fbPageSize ≤ ringBufSize)
    (hold : ∀ i, (∀ j, j < n → i ≠ (f.ring.wptr + j) % ringBufSize) → mem i = f.ring.mem i) :
    RingStream.Flow ringBufSize d.fbPageSize mem f.ring.rptr f.ring.wptr T Q
      (bytesOf (fun j => mem ((f.ring.wptr + j) % ringBufSize)) n) := by
  have hplace : (f.ring.wptr + ([] : List UInt8).length) % ringBufSize = f.ring.wptr := by
    rw [length_nil, Nat.add_zero, Nat.mod_eq_of_lt h.target_lt]
  have hput := @RingStream.Flow.put _ _ _ _ _ _ mem _ _ _
    (bytesOf (fun j => mem ((f.ring.wptr + j) % ringBufSize)) n) h ?_ ?_ ?_
  · simpa using hput
  · simp only [length_append, length_nil, bytesOf_length]
    omega
  · intro j hj
    rw [bytesOf_getElem, hplace]
  · intro i hi
    apply hold
    intro j hj
    rw [← hplace]
    exact hi j (by rwa [bytesOf_length])

theorem TargetInv.step (h : TargetInv d s T Q P hand) (hcalm : Calm d s) (hstep : Step d s s') :
    ∃ T' Q' P' hand', TargetInv d s' T' Q' P' hand' := by
  obtain ⟨htarget, hflow, hwriter, htaker, hstream, hleft⟩ := h
  cases hstep with
  | @other f hsame =>
    exact ⟨T, Q, P, hand, hsame.isTarget.trans htarget, hsame.flow hflow,
      hwriter.congr hsame.wptr, htaker.congr hsame.rptr, hstream, hsame.left.trans hleft⟩
  | read buf len _ hsource _ =>
    rw [htarget] at hsource
    exact Bool.noConfusion hsource
  | write buf len hidle _ _ =>
    rw [hidle] at hwriter
    obtain ⟨hP, hhand⟩ := hwriter
    exact ⟨T, Q, P, hand, htarget, hflow, ⟨hP, hhand, rfl⟩, htaker, hstream, hleft⟩
  | @enter q hat =>
    rw [hat] at hwriter
    obtain ⟨hP, hhand, hdone⟩ := hwriter
    subst hP hhand
    have hptr : s.file.userPtr = (s.file.ring.wptr + 0) % ringBufSize := by
      rw [File.userPtr, if_pos htarget, Nat.add_zero, Nat.mod_eq_of_lt hflow.target_lt]
    exact ⟨T, Q, [], [], htarget, hflow, ⟨hdone, rfl, hptr, rfl, rfl, Or.inl rfl⟩, htaker,
      hstream, hleft⟩
  | @look q wptr copied hat =>
    rw [hat] at hwriter
    obtain ⟨hdone, hhand, hptr, hcopied, hbuf, hwhole⟩ := hwriter
    have hseen : userCheckRingbufferSpace d s.file wptr +
        (T.length + Q.length + P.length) + d.fbPageSize = ringBufSize := by
      rw [userCheckRingbufferSpace, if_pos htarget, hptr]
      exact userRoom hflow
    refine ⟨T, Q, P, hand, htarget, hflow, ?_, htaker, hstream, hleft⟩
    simp only
    split
    · rename_i hgo
      simp only [Calm, hat, htarget, if_true] at hcalm
      have hfits := hcalm hgo.1 hgo.2
      -- a request that has been copied whole is not looked at again
      obtain rfl : P = [] := by
        apply eq_nil_of_length_eq_zero
        omega
      rw [length_nil, Nat.add_zero, Nat.mod_eq_of_lt hflow.target_lt] at hptr
      rw [length_nil, Nat.add_zero] at hseen
      exact ⟨rfl, hhand, hdone, hptr, hcopied, hfits, hseen.le⟩
    · exact ⟨hdone, hhand, hptr, hcopied, hbuf, hwhole⟩
  | @copy q wptr copied available fault fault' ret f buf hat hdone =>
    rw [hat] at hwriter
    obtain ⟨rfl, rfl, hqdone, rfl, rfl, hfits, hroom⟩ := hwriter
    obtain ⟨hsame, rfl, hold, hcopy⟩ :=
      userRingbufferDataCopy_target htarget hflow.target_lt (by omega) hdone
    have hmin : min available (q.len - q.done - 0) = q.len := by omega
    rw [hmin] at hold hcopy
    have hput := putRoom hflow (by omega) hold
    have hleft' : f.leftBytesFd =
        s.loaded + (f.leftBytesFd - s.file.leftBytesFd) - s.sent.length := by omega
    cases ret with
    | none =>
      refine ⟨T, Q, [], [], hsame.isTarget.trans htarget, ?_, ⟨rfl, hqdone, rfl⟩,
        htaker.congr hsame.rptr, hstream, hleft'⟩
      unfold File.Flow
      rw [hsame.rptr, hsame.wptr]
      exact hput.unput
    | some n =>
      obtain ⟨rfl, hbytes⟩ := hcopy n rfl
      have hplaced : bytesOf (fun j => f.ring.mem ((s.file.ring.wptr + j) % ringBufSize)) q.len =
          bytesOf q.buf q.len := by
        apply map_congr_left
        intro j hj
        rw [hbytes j (mem_range.mp hj), Nat.zero_add]
      rw [hplaced] at hput
      refine ⟨T, Q, bytesOf q.buf q.len, bytesOf q.buf q.len, hsame.isTarget.trans htarget, ?_,
        ⟨hqdone, rfl, ?_, (bytesOf_length _ _).symm, rfl, Or.inr rfl⟩, htaker.congr hsame.rptr,
        ?_, hleft'⟩
      · unfold File.Flow
        rw [hsame.rptr, hsame.wptr]
        exact hput
      · rw [bytesOf_length, hsame.wptr, and_bufMask]
      · rw [append_nil, append_nil] at hstream
        rw [hstream]
  | @leave q wptr copied hat =>
    rw [hat] at hwriter
    obtain ⟨hqdone, hhand, hptr, hcopied, hbuf, hwhole⟩ := hwriter
    refine ⟨T, Q ++ P, [], hand, ?_, ?_, ⟨rfl, hqdone, ?_, hwhole⟩, ?_, ?_, ?_⟩
    · simp only [publishUser, htarget, if_true]
    · simp only [publishUser, htarget, if_true, hptr]
      exact hflow.publish
    · rw [hbuf, hhand]
    · simp only [publishUser, htarget, if_true]
      exact (htaker.more (by simp)).congr rfl
    · rw [append_nil, ← append_assoc]
      exact hstream
    · simp only [publishUser, htarget, if_true]
      exact hleft
  | readBack _ hsource =>
    rw [htarget] at hsource
    exact Bool.noConfusion hsource
  | @writeBack q ret hat _ =>
    rw [hat] at hwriter
    obtain ⟨hP, hqdone, hret⟩ := hwriter
    subst hP
    cases ret with
    | none =>
      obtain rfl : hand = [] := hret
      exact ⟨T, Q, [], [], htarget, hflow, ⟨rfl, rfl⟩, htaker,
        by simpa [resumeWriteBack] using hstream, by simpa [resumeWriteBack] using hleft⟩
    | some sz =>
      obtain ⟨hhand, hwhole⟩ := hret
      by_cases hzero : sz = 0
      · subst hzero
        obtain rfl : hand = [] := by
          rw [← hhand]
          rfl
        simp only [resumeWriteBack, if_true]
        exact ⟨T, Q, [], [], htarget, hflow, ⟨rfl, rfl, hqdone⟩, htaker,
          by simpa using hstream, by simpa using hleft⟩
      · have hall : ¬ sz < q.len := by omega
        simp only [resumeWriteBack, if_neg hzero, hqdone, Nat.zero_add, if_neg hall]
        refine ⟨T, Q, [], [], htarget, hflow, ⟨rfl, rfl⟩, htaker.congr rfl, ?_, ?_⟩
        · rw [append_nil, ← hstream, ← hhand]
        · simp only [length_append, bytesOf_length]
          omega
  | @wake q hat =>
    rw [hat] at hwriter
    exact ⟨T, Q, P, hand, htarget, hflow, hwriter, htaker, hstream, hleft⟩
  | @timeout q hat =>
    rw [hat] at hwriter
    exact ⟨T, Q, P, hand, htarget, hflow, ⟨hwriter.1, hwriter.2.1⟩, htaker, hstream, hleft⟩
  | @threadLook available rptr hat _ hroom =>
    rw [hat] at htaker
    obtain rfl : T = [] := htaker
    simp only [threadCheckRingbufferSpace, htarget, if_true, Prod.mk.injEq,
      File.threadPtr] at hroom
    obtain ⟨_, hav, hptr⟩ := hroom
    refine ⟨[], Q, P, hand, htarget, hflow, hwriter, ⟨rfl, hptr.symm, ?_⟩, hstream, hleft⟩
    rw [← hav]
    exact (threadData hflow).le
  | @threadCopy available rptr n o gpuAddr data hat hdone =>
    rw [hat] at htaker
    obtain ⟨rfl, rfl, hav⟩ := htaker
    obtain ⟨hsame, hle⟩ :=
      threadRingbufferDataCopy_stream d o s.file gpuAddr available s.file.ring.rptr
    have hn := hle n hdone
    obtain ⟨_, hend, _⟩ := min_beforeEnd available n hflow.origin
    have hnQ : n ≤ Q.length := hn.trans ((beforeEnd_le _ _).trans hav)
    have htake : bytesOf (fun j => s.file.ring.mem (s.file.ring.rptr + j)) n = Q.take n := by
      apply bytesOf_eq_take hnQ
      intro j hj
      have hslot := hflow.slot (show j < Q.length by omega)
      rw [length_nil, Nat.add_zero, Nat.mod_eq_of_lt hflow.origin,
        Nat.mod_eq_of_lt (by omega)] at hslot
      exact hslot
    have hlen : (Q.take n).length = n := by rw [length_take, Nat.min_eq_left hnQ]
    simp only [htarget, if_true, htake]
    refine ⟨Q.take n, Q.drop n, P, hand, hsame.isTarget.trans htarget, ?_, ?_,
      ⟨hlen, hsame.rptr.symm⟩, ?_, hsame.left.trans hleft⟩
    · exact hsame.flow (hflow.take n)
    · apply WriterAt.less (hwriter.congr hsame.wptr)
      rw [hlen, length_drop, length_nil]
      omega
    · rw [append_assoc s.received, take_append_drop, hstream]
  | @threadFail available rptr k o gpuAddr data hat hfailed hk =>
    rw [hat] at htaker
    obtain ⟨rfl, rfl, hav⟩ := htaker
    obtain ⟨hsame, _⟩ :=
      threadRingbufferDataCopy_stream d o s.file gpuAddr available s.file.ring.rptr
    simp only [htarget, if_true]
    exact ⟨[], Q, P, hand, hsame.isTarget.trans htarget, hsame.flow hflow,
      hwriter.congr hsame.wptr, rfl, hstream, hsame.left.trans hleft⟩
  | @threadPublish n rptr hat =>
    rw [hat] at htaker
    obtain ⟨hlen, rfl⟩ := htaker
    by_cases hzero : n = 0
    · obtain rfl : T = [] := eq_nil_of_length_eq_zero (by omega)
      simp only [if_pos hzero]
      exact ⟨[], Q, P, hand, htarget, hflow, hwriter, rfl, hstream, hleft⟩
    · simp only [if_neg hzero, publishThread, htarget, if_true]
      refine ⟨[], Q, P, hand, rfl, ?_, ?_, rfl, hstream, hleft⟩
      · unfold File.Flow
        simp only [and_bufMask, ← hlen]
        exact hflow.release
      · exact (hwriter.less (by simp)).congr rfl

/-! ### Runs -/

theorem File.Flow.start {s : Sys} (d : Device) (h : Starts s) : s.file.Flow d [] [] [] := by
  unfold File.Flow
  rw [h.1, h.2.1]
  exact RingStream.Flow.start d.fbPageSize_pos d.fbPageSize_lt.le _

theorem ringContents_eq (h : f.Flow d [] Q []) : ringContents f = Q := by
  have hwaiting := h.waiting
  rw [length_nil, Nat.add_zero, Nat.mod_eq_of_lt h.origin] at hwaiting
  unfold ringContents
  rw [hwaiting]
  conv_rhs => rw [← take_length (l := Q)]
  apply bytesOf_eq_take le_rfl
  intro j hj
  have hslot := h.slot hj
  rwa [length_nil, Nat.add_zero, Nat.mod_eq_of_lt h.origin] at hslot

def Lossless (s : Sys) : Prop :=
  s.received <+: s.sent ++ s.underWay ∧
    (s.user = .idle → s.thread = .wait → s.sent = s.received ++ ringContents s.file) ∧
    s.file.leftBytesFd =
      s.loaded - (if s.file.isTarget then s.sent.length else s.received.length : Nat)

theorem SourceInv.lossless (h : SourceInv d s T Q P hand) : Lossless s := by
  obtain ⟨hsource, hflow, hreader, hputter, hstream, hleft⟩ := h
  refine ⟨?_, ?_, ?_⟩
  · rw [hstream, append_assoc, append_assoc, append_assoc]
    exact prefix_append _ _
  · intro hidle hwait
    rw [hidle] at hreader
    rw [hwait] at hputter
    obtain ⟨rfl, rfl⟩ := hreader
    obtain rfl : P = [] := hputter
    rw [ringContents_eq hflow, hstream, append_nil, append_nil]
  · rw [hsource, if_neg Bool.false_ne_true]
    exact hleft

theorem WriterAt.hand_prefix (htarget : s.file.isTarget = true)
    (h : WriterAt d s.file T Q P hand s.user) : hand <+: s.underWay := by
  have hbegin : ∀ (q : Request) (n : Nat), (n = 0 ∨ n = q.len) → hand = bytesOf q.buf n →
      hand <+: bytesOf q.buf q.len := by
    intro q n hwhole hhand
    rw [hhand]
    apply bytesOf_prefix
    omega
  rw [Sys.underWay, if_pos htarget]
  cases hat : s.user with
  | idle =>
    rw [hat] at h
    simp only [h.2, nil_prefix]
  | enter q =>
    rw [hat] at h
    simp only [h.2.1, nil_prefix]
  | look q wptr copied =>
    rw [hat] at h
    obtain ⟨_, hhand, _, _, hbuf, hwhole⟩ := h
    exact hbegin q copied hwhole (hhand.trans hbuf.symm)
  | copy q wptr copied available =>
    rw [hat] at h
    simp only [h.2.1, nil_prefix]
  | leave q wptr copied =>
    rw [hat] at h
    obtain ⟨_, hhand, _, _, hbuf, hwhole⟩ := h
    exact hbegin q copied hwhole (hhand.trans hbuf.symm)
  | back q ret =>
    rw [hat] at h
    obtain ⟨_, _, hret⟩ := h
    cases ret with
    | none =>
      have hnil : hand = [] := hret
      simp only [hnil, nil_prefix]
    | some n => exact hbegin q n hret.2 hret.1.symm
  | sleep q =>
    rw [hat] at h
    simp only [h.2.1, nil_prefix]

theorem TargetInv.lossless (h : TargetInv d s T Q P hand) : Lossless s := by
  obtain ⟨htarget, hflow, hwriter, htaker, hstream, hleft⟩ := h
  refine ⟨?_, ?_, ?_⟩
  · obtain ⟨rest, hrest⟩ := hwriter.hand_prefix htarget
    rw [← hrest, ← append_assoc, hstream, append_assoc, append_assoc]
    exact prefix_append _ _
  · intro hidle hwait
    rw [hidle] at hwriter
    rw [hwait] at htaker
    obtain ⟨rfl, rfl⟩ := hwriter
    obtain rfl : T = [] := htaker
    rw [ringContents_eq hflow]
    rwa [append_nil, append_nil] at hstream
  · rw [htarget, if_pos rfl]
    exact hleft

def StreamInv (d : Device) (s : Sys) : Prop :=
  (∃ T Q P hand, SourceInv d s T Q P hand) ∨ ∃ T Q P hand, TargetInv d s T Q P hand

theorem Starts.streamInv (d : Device) (h : Starts s) : StreamInv d s := by
  have hflow := File.Flow.start d h
  obtain ⟨_, _, huser, hthread, hsent, hreceived, hleft, hloaded⟩ := h
  have hstream : s.sent = s.received ++ [] ++ [] ++ [] := by
    rw [hsent, hreceived]
    rfl
  cases htarget : s.file.isTarget with
  | false =>
    refine Or.inl ⟨[], [], [], [], htarget, hflow, ?_, ?_, hstream, ?_⟩
    · rw [huser]
      exact ⟨rfl, rfl⟩
    · rw [hthread]
      rfl
    · rw [hleft, hloaded, hreceived]
      rfl
  | true =>
    refine Or.inr ⟨[], [], [], [], htarget, hflow, ?_, ?_, ?_, ?_⟩
    · rw [huser]
      exact ⟨rfl, rfl⟩
    · rw [hthread]
      rfl
    · rw [hsent, hreceived]
      rfl
    · rw [hleft, hloaded, hsent]
      rfl

/-- In every run in which one look at the ring suffices, the bytes come out in the order they went
in, none is lost or repeated, and `left_bytes_fd` goes down by what is transferred. -/
theorem ring_lossless (d : Device) (s : Sys) (hrun : CalmRun d s) : Lossless s := by
  have hinv : StreamInv d s := by
    apply hrun.invariant (StreamInv d)
    · intro s hstart
      exact hstart.streamInv d
    · intro before _ after hinv hcalm hstep
      rcases hinv with ⟨T, Q, P, hand, hinv⟩ | ⟨T, Q, P, hand, hinv⟩
      · exact Or.inl (hinv.step hcalm hstep)
      · exact Or.inr (hinv.step hcalm hstep)
  rcases hinv with ⟨T, Q, P, hand, hinv⟩ | ⟨T, Q, P, hand, hinv⟩
  · exact hinv.lossless
  · exact hinv.lossless

variable {q : Request} {rptr copied available n : Nat}

/-! ### Single steps of the source -/

theorem Step.lookOn (available : Nat) (hat : s.user = .look q rptr copied)
    (hshort : copied < q.len - q.done)
    (hseen : userCheckRingbufferSpace d s.file rptr = available) (hsome : available ≠ 0) :
    Step d s { s with user := .copy q rptr copied available } := by
  have hstep := Step.look (d := d) hat
  rwa [hseen, if_pos ⟨hshort, hsome⟩] at hstep

theorem Step.lookOff (hat : s.user = .look q rptr copied)
    (hstop : q.len - q.done ≤ copied ∨ userCheckRingbufferSpace d s.file rptr = 0) :
    Step d s { s with user := .leave q rptr copied } := by
  have hstep := Step.look (d := d) hat
  rwa [if_neg (by omega)] at hstep

theorem Step.copyPiece (n : Nat) (hat : s.user = .copy q rptr copied available)
    (hsource : s.file.isTarget = false) (hpiece : available + rptr ≤ ringBufSize)
    (hn : min available (q.len - q.done - copied) = n) :
    Step d s { s with
      file := startMessage (startMessage s.file rptr n) 0 0
      user := .look { q with buf := memcpy q.buf copied s.file.ring.mem rptr n }
        ((rptr + n) &&& bufMask) n
      loaded := s.loaded +
        ((startMessage (startMessage s.file rptr n) 0 0).leftBytesFd - s.file.leftBytesFd) } := by
  apply @Step.copy d s q rptr copied available none none (some n) _ _ hat
  unfold userRingbufferDataCopy
  have hbefore : beforeEnd available rptr = available := by
    unfold beforeEnd
    simp only
    rw [if_neg (by omega), Nat.sub_zero]
  have hsource' := (startMessage_same s.file rptr n).1.isTarget.trans hsource
  simp only [hbefore, hn, Nat.sub_self, Nat.zero_min]
  by_cases hzero : n = 0
  · subst hzero
    simp [userRingbufferDoDataCopy, memcpy_zero]
  · simp [userRingbufferDoDataCopy, hzero, hsource]

theorem Step.put {o : Outside} {wptr : Nat} (gpuAddr : Nat) (data : Nat → UInt8)
    (hat : s.thread = .go available wptr) (hsource : s.file.isTarget = false)
    (hdone : (threadRingbufferDataCopy d o s.file gpuAddr available wptr).size = some n) :
    Step d s { s with
      file := (threadRingbufferDataCopy d o s.file gpuAddr available wptr).file.withMem
        (memcpy s.file.ring.mem wptr data 0 n)
      thread := .publish n wptr
      sent := s.sent ++ bytesOf data n } := by
  have hstep := Step.threadCopy data hat hdone
  rwa [if_neg (by rw [hsource]; exact Bool.false_ne_true),
    if_neg (by rw [hsource]; exact Bool.false_ne_true),
    if_neg (by rw [hsource]; exact Bool.false_ne_true)] at hstep

def sevenPages : Device :=
  ⟨22, 7 * 2 ^ 22, 0, 0, 0, fourPages.pgShift_ge, fourPages.pgShift_lt⟩

def sevenDirtyFile : File :=
  { twoDirtyFile false with shadowBitmap := fun p => decide (p < 7), shadowFbLen := 7 * 2 ^ 22 }

def sevenDirtyStart : Sys := ⟨sevenDirtyFile, .idle, .wait, [], [], 0⟩

def sevenDirtyData (i : Nat) : UInt8 := if i = 11 then 2 else 0

theorem sevenDirtyStart_starts : Starts sevenDirtyStart := ⟨rfl, rfl, rfl, rfl, rfl, rfl, rfl, rfl⟩

set_option maxRecDepth 10000 in
/-- The thread puts seven pages into the ring, and a read takes one of them out. -/
theorem ring_lossless_oneRead :
    ∃ s, CalmRun sevenPages s ∧ Lossless s ∧ s.received.length = 2 ^ 22 := by
  have h0 : CalmRun sevenPages sevenDirtyStart := .start sevenDirtyStart_starts
  have h1 := h0.next () trivial (@Step.threadLook _ _ (7 * 2 ^ 22) 0 rfl rfl (by decide +kernel))
  have h2 := h1.next () trivial
    (.put (n := 7 * 2 ^ 22) (o := allWell) 0 sevenDirtyData rfl rfl (by decide +kernel))
  have h3 := h2.next () trivial (.threadPublish rfl)
  have h4 := h3.next () trivial (.read sevenDirtyData (2 ^ 22) rfl rfl (by decide +kernel))
  have h5 := h4.next () trivial (.enter rfl)
  have h6 := h5.next () (fun _ _ => rfl)
    (.lookOn (7 * 2 ^ 22) rfl (by decide) (by decide +kernel) (by decide))
  have h7 := h6.next () trivial (.copyPiece (2 ^ 22) rfl rfl (by decide +kernel) (by decide))
  have h8 := h7.next () (fun hshort => absurd hshort (by decide))
    (.lookOff rfl (.inl (by decide)))
  have h9 := h8.next () trivial (.leave rfl)
  have h10 := h9.next () trivial (.readBack rfl rfl)
  refine ⟨_, h10, ring_lossless _ _ h10, ?_⟩
  simp only [length_append, bytesOf_length]
  decide +kernel

def StreamRun (d : Device) : Sys → Prop :=
  Run Starts (fun s (_ : Unit) s' => Step d s s') Transition.always

theorem StreamRun.step (h : StreamRun d s) (hstep : Step d s s') : StreamRun d s' :=
  .next () h trivial hstep

set_option maxRecDepth 10000 in
/-- A read of the whole ring takes six pages out; before it looks again the thread puts another
one. The read takes that one out too, and reports one page for the seven. -/
theorem read_miscounts : ¬ ∀ s, StreamRun sevenPages s → Lossless s := by
  intro h
  have h0 : StreamRun sevenPages sevenDirtyStart := .start sevenDirtyStart_starts
  have h1 := h0.step (@Step.threadLook _ _ (7 * 2 ^ 22) 0 rfl rfl (by decide +kernel))
  have h2 := h1.step
    (.put (n := 7 * 2 ^ 22) (o := allWell) 0 sevenDirtyData rfl rfl (by decide +kernel))
  have h3 := h2.step (.threadPublish rfl)
  -- a read of one page gives it back to the thread
  have h4 := h3.step (.read sevenDirtyData (2 ^ 22) rfl rfl (by decide +kernel))
  have h5 := h4.step (.enter rfl)
  have h6 := h5.step (.lookOn (7 * 2 ^ 22) rfl (by decide) (by decide +kernel) (by decide))
  have h7 := h6.step (.copyPiece (2 ^ 22) rfl rfl (by decide +kernel) (by decide))
  have h8 := h7.step (.lookOff rfl (.inl (by decide)))
  have h9 := h8.step (.leave rfl)
  have h10 := h9.step (.readBack rfl rfl)
  -- the first round of the second read
  have h11 := h10.step (.read sevenDirtyData (2 ^ 25) rfl rfl (by decide +kernel))
  have h12 := h11.step (.enter rfl)
  have h13 := h12.step (.lookOn (6 * 2 ^ 22) rfl (by decide) (by decide +kernel) (by decide))
  have h14 := h13.step (.copyPiece (6 * 2 ^ 22) rfl rfl (by decide +kernel) (by decide))
  -- the thread in between
  have h15 := h14.step (@Step.threadLook _ _ (2 ^ 22) (7 * 2 ^ 22) rfl rfl (by decide +kernel))
  have h16 := h15.step
    (.put (n := 2 ^ 22) (o := allWell) 0 sevenDirtyData rfl rfl (by decide +kernel))
  have h17 := h16.step (.threadPublish rfl)
  -- the second round, and the end of the read
  have h18 := h17.step (.lookOn (2 ^ 22) rfl (by decide) (by decide +kernel) (by decide))
  have h19 := h18.step (.copyPiece (2 ^ 22) rfl rfl (by decide +kernel) (by decide))
  have h20 := h19.step (.lookOff rfl (.inr (by decide +kernel)))
  have h21 := h20.step (.leave rfl)
  have h22 := h21.step (.readBack rfl rfl)
  have hlength := congrArg length ((h _ h22).2.1 rfl rfl)
  simp only [length_append, bytesOf_length, ringContents] at hlength
  revert hlength
  decide +kernel

end MxGpu.Mig
