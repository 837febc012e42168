import MxGpu.MigFbStream

/- A whole message through the copy thread: whatever the chunks, the bytes it moves and where the
next message starts. -/
namespace MxGpu.Mig

open DirtyPages

/-! ### What export and import leave alone -/

/-- The fields of a file that say how far its data has come, and its ring. -/
structure SameCursor (f f' : File) : Prop where
  isTarget : f'.isTarget = f.isTarget
  copied : f'.copiedSizeThread = f.copiedSizeThread
  bitPos : f'.msg.bitPos = f.msg.bitPos
  off : f'.msg.off = f.msg.off
  ring : f'.ring = f.ring
  total : f'.totalBytesFd = f.totalBytesFd
  left : f'.leftBytesFd = f.leftBytesFd

namespace SameCursor

theorem refl (f : File) : SameCursor f f := ⟨rfl, rfl, rfl, rfl, rfl, rfl, rfl⟩

theorem trans {f g h : File} (hfg : SameCursor f g) (hgh : SameCursor g h) : SameCursor f h where
  isTarget := hgh.isTarget.trans hfg.isTarget
  copied := hgh.copied.trans hfg.copied
  bitPos := hgh.bitPos.trans hfg.bitPos
  off := hgh.off.trans hfg.off
  ring := hgh.ring.trans hfg.ring
  total := hgh.total.trans hfg.total
  left := hgh.left.trans hfg.left

end SameCursor

theorem exportSection_same (f : File) (c : Content) (length offset : Nat) (fails : Bool) :
    SameCursor f (exportSection f c length offset fails).2 := by
  unfold exportSection
  split
  · simp only
    split
    · exact ⟨rfl, rfl, rfl, rfl, rfl, rfl, rfl⟩
    · exact ⟨rfl, rfl, rfl, rfl, rfl, rfl, rfl⟩
  · exact .refl f

theorem exportSection_bitmap (f : File) (c : Content) (length offset : Nat) (fails : Bool) :
    (exportSection f c length offset fails).2.msg.bitmap = f.msg.bitmap := by
  unfold exportSection
  split
  · simp only
    split <;> rfl
  · rfl

theorem exportSections_induct {d : Device} {calls : ExportCalls} (P : File → Prop) {f : File}
    (hf : P f)
    (hstep : ∀ f c length offset fails, c ≠ .vfFbBitmap → P f →
      P (exportSection f c length offset fails).2) :
    P (exportSections d f calls).2 := by
  unfold exportSections
  simp only
  have h₁ := hstep f .ctx d.ctxSize sizeofMsgHeader calls.ctxFails
    (by decide) hf
  generalize exportSection f .ctx d.ctxSize sizeofMsgHeader calls.ctxFails = r₁ at h₁
  obtain ⟨ok₁, f₁⟩ := r₁
  cases ok₁ with
  | false => exact h₁
  | true =>
    have h₂ := hstep f₁ .vfHwStaticData d.fwSSize (sizeofMsgHeader + d.ctxSize)
      calls.staticFails (by decide) h₁
    simp only
    generalize exportSection f₁ .vfHwStaticData d.fwSSize (sizeofMsgHeader + d.ctxSize)
      calls.staticFails = r₂ at h₂
    obtain ⟨ok₂, f₂⟩ := r₂
    cases ok₂ with
    | false => exact h₂
    | true =>
      have h₃ := hstep f₂ .vfHwDynamicData d.fwDSize (sizeofMsgHeader + d.ctxSize + d.fwSSize)
        calls.dynamicFails (by decide) h₂
      simp only
      generalize exportSection f₂ .vfHwDynamicData d.fwDSize
        (sizeofMsgHeader + d.ctxSize + d.fwSSize) calls.dynamicFails = r₃ at h₃
      obtain ⟨ok₃, f₃⟩ := r₃
      cases ok₃ with
      | false => exact h₃
      | true => exact h₃

theorem exportSections_same (d : Device) (f : File) (calls : ExportCalls) :
    SameCursor f (exportSections d f calls).2 :=
  exportSections_induct (SameCursor f) (.refl f)
    fun g c length offset fails _ h => h.trans (exportSection_same g c length offset fails)

def exportBody (d : Device) (f : File) : File :=
  if f.nextCopyMask .vfFbBitmap then exportBitmap d (exportTake f) else f

theorem vfDataExport_cases (d : Device) (f : File) (calls : ExportCalls) :
    (f.nextCopyMask.isZero = true ∧ vfDataExport d f calls = (0, f)) ∨
      (f.nextCopyMask.isZero = false ∧ (exportSections d f calls).1 = 0 ∧
        vfDataExport d f calls =
          (0, exportFinish d (exportBody d (exportSections d f calls).2))) ∨
      (f.nextCopyMask.isZero = false ∧ (exportSections d f calls).1 ≠ 0 ∧
        vfDataExport d f calls = exportSections d f calls) := by
  unfold vfDataExport
  rcases hzero : f.nextCopyMask.isZero with _ | _
  · right
    rw [if_neg (by simp)]
    generalize exportSections d f calls = r
    obtain ⟨ret, g⟩ := r
    by_cases hret : ret = 0
    · subst hret
      exact .inl ⟨rfl, rfl, rfl⟩
    · refine .inr ⟨rfl, hret, ?_⟩
      split
      · rename_i heq
        exact absurd (Prod.mk.inj heq).1 hret
      · rename_i heq
        exact heq.symm
  · left
    exact ⟨rfl, if_pos rfl⟩

theorem exportBody_same (d : Device) (f : File) : SameCursor f (exportBody d f) := by
  unfold exportBody
  split
  · exact ⟨rfl, rfl, rfl, rfl, rfl, rfl, rfl⟩
  · exact .refl f

theorem vfDataExport_same (d : Device) (f : File) (calls : ExportCalls) :
    SameCursor f (vfDataExport d f calls).2 := by
  have hsections := exportSections_same d f calls
  rcases vfDataExport_cases d f calls with ⟨_, heq⟩ | ⟨_, _, heq⟩ | ⟨_, _, heq⟩
  · rw [heq]
    exact .refl f
  · rw [heq]
    exact (hsections.trans (exportBody_same d _)).trans ⟨rfl, rfl, rfl, rfl, rfl, rfl, rfl⟩
  · rw [heq]
    exact hsections

theorem importSection_same (d : Device) (f : File) (c : Content) (call : Int) :
    SameCursor f (importSection d f c call).2 := by
  unfold importSection
  simp only
  split
  · split
    · exact .refl f
    · split
      · exact .refl f
      · split
        · exact .refl f
        · exact ⟨rfl, rfl, rfl, rfl, rfl, rfl, rfl⟩
  · exact .refl f

theorem importSection_msg (d : Device) (f : File) (c : Content) (call : Int) :
    (importSection d f c call).2.msg = f.msg := by
  unfold importSection
  simp only
  split
  · split
    · rfl
    · split
      · rfl
      · split <;> rfl
  · rfl

theorem vfDataImport_induct {d : Device} {calls : ImportCalls} (P : File → Prop) {f : File}
    (hf : P f) (hstep : ∀ f c call, P f → P (importSection d f c call).2) :
    P (vfDataImport d f calls).2 := by
  unfold vfDataImport
  split
  · exact hf
  · simp only
    have h₁ := hstep f .ctx
      (if calls.ctxDiffers then -EINVAL else if calls.prepareFails then -EFAULT else 0) hf
    generalize importSection d f .ctx
      (if calls.ctxDiffers then -EINVAL else if calls.prepareFails then -EFAULT else 0) = r₁ at h₁
    obtain ⟨ret₁, f₁⟩ := r₁
    split
    · rename_i g₁ heq₁
      obtain ⟨_, rfl⟩ := Prod.mk.inj heq₁
      have h₂ := hstep f₁ .vfHwStaticData (if calls.staticFails then -EFAULT else 0) h₁
      generalize importSection d f₁ .vfHwStaticData
        (if calls.staticFails then -EFAULT else 0) = r₂ at h₂
      obtain ⟨ret₂, f₂⟩ := r₂
      split
      · rename_i g₂ heq₂
        obtain ⟨_, rfl⟩ := Prod.mk.inj heq₂
        have h₃ := hstep f₂ .vfHwDynamicData (if calls.dynamicFails then -EFAULT else 0) h₂
        generalize importSection d f₂ .vfHwDynamicData
          (if calls.dynamicFails then -EFAULT else 0) = r₃ at h₃
        obtain ⟨ret₃, f₃⟩ := r₃
        split
        · rename_i g₃ heq₃
          obtain ⟨_, rfl⟩ := Prod.mk.inj heq₃
          split
          · split
            · exact h₃
            · split <;> exact h₃
          · exact h₃
        · rename_i heq₃
          obtain ⟨_, rfl⟩ := Prod.mk.inj heq₃
          exact h₃
      · rename_i heq₂
        obtain ⟨_, rfl⟩ := Prod.mk.inj heq₂
        exact h₂
    · rename_i heq₁
      obtain ⟨_, rfl⟩ := Prod.mk.inj heq₁
      exact h₁

theorem vfDataImport_same (d : Device) (f : File) (calls : ImportCalls) :
    SameCursor f (vfDataImport d f calls).2 :=
  vfDataImport_induct (SameCursor f) (.refl f)
    fun g c call h => h.trans (importSection_same d g c call)

theorem vfDataImport_msg (d : Device) (f : File) (calls : ImportCalls) :
    (vfDataImport d f calls).2.msg = f.msg :=
  vfDataImport_induct (fun g => g.msg = f.msg) rfl
    fun g c call h => (importSection_msg d g c call).trans h

/-! ### The bitmap of a message -/

theorem exportSection_mask {f : File} {c c' : Content} {length offset : Nat} {fails : Bool}
    (h : f.nextCopyMask c' = false) :
    (exportSection f c length offset fails).2.nextCopyMask c' = false := by
  unfold exportSection
  split
  · simp only
    split
    · exact h
    · by_cases hc : c' = c
      · subst hc
        exact CopyMask.clear_self _ _
      · exact (CopyMask.clear_of_ne _ hc).trans h
  · exact h

theorem vfDataExport_bitmap {d : Device} {f : File} {calls : ExportCalls}
    (h : f.nextCopyMask .vfFbBitmap = false) :
    (vfDataExport d f calls).2.msg.bitmap = f.msg.bitmap := by
  have hsections : (exportSections d f calls).2.msg.bitmap = f.msg.bitmap ∧
      (exportSections d f calls).2.nextCopyMask .vfFbBitmap = false :=
    exportSections_induct
      (fun g => g.msg.bitmap = f.msg.bitmap ∧ g.nextCopyMask .vfFbBitmap = false) ⟨rfl, h⟩
      fun g c length offset fails _ hg =>
        ⟨(exportSection_bitmap g c length offset fails).trans hg.1, exportSection_mask hg.2⟩
  rcases vfDataExport_cases d f calls with ⟨_, heq⟩ | ⟨_, _, heq⟩ | ⟨_, _, heq⟩
  · rw [heq]
  · rw [heq, exportBody, if_neg (by rw [hsections.2]; simp)]
    exact hsections.1
  · rw [heq]
    exact hsections.1

theorem vfDataExport_taken {d : Device} {f : File} {calls : ExportCalls}
    (h : (vfDataExport d f calls).1 = 0) :
    (vfDataExport d f calls).2.nextCopyMask .vfFbBitmap = false := by
  rcases vfDataExport_cases d f calls with ⟨hzero, heq⟩ | ⟨_, _, heq⟩ | ⟨_, hne, heq⟩
  · rw [heq]
    simp only [CopyMask.isZero, Bool.and_eq_true, Bool.not_eq_true'] at hzero
    exact hzero.2
  · rw [heq, exportBody]
    split
    · exact CopyMask.clear_self (exportTake (exportSections d f calls).2).nextCopyMask
        .vfFbBitmap
    · rename_i hbit
      exact Bool.eq_false_iff.mpr hbit
  · rw [heq] at h
    exact absurd h hne

/-! ### The passes over a message -/

structure Chunk where
  ringOffset : Nat
  len : Nat

structure Passes where
  consumed : Nat
  beyond : Bool
  failed : Bool
  file : File
  calls : List FbCopy

section passes

variable (d : Device) (o : Outside) (gpuAddr : Nat)

def copyChunks : File → List Chunk → Passes
  | f, [] => ⟨0, false, false, f, []⟩
  | f, c :: cs =>
    let r := ringbufferDataCopy d o f gpuAddr c.ringOffset c.len
    match r.size with
    | none => ⟨0, false, true, r.file, r.calls⟩
    | some n =>
      if r.isDone then ⟨n, true, false, r.file, r.calls⟩
      else
        let p := copyChunks r.file cs
        { p with consumed := n + p.consumed, calls := r.calls ++ p.calls }

def messageBitmap (f : File) : Nat → Bool :=
  if f.isTarget then o.incomingBitmap else (vfDataExport d f o.exports).2.msg.bitmap

def messageLength (bitmap : Nat → Bool) : Nat := d.msgSize + (dirtyBytes d bitmap).length

def ChunksFit (bitmap : Nat → Bool) : Nat → List Chunk → Prop
  | _, [] => True
  | pos, c :: cs =>
    (d.msgSize ≤ pos → ChunkFits d bitmap (pos - d.msgSize) c.len) ∧
      ChunksFit bitmap (pos + c.len) cs

/-- Where in the ring the chunks put the pages of a message of `total` bytes. -/
def pagePlaces (total : Nat) : Nat → List Chunk → List Nat
  | _, [] => []
  | pos, c :: cs =>
    let sz := min c.len (d.msgSize - pos)
    List.range' (gpuAddr + c.ringOffset + sz) (min (c.len - sz) (total - (pos + sz))) ++
      pagePlaces total (pos + c.len) cs

structure AtStart (f : File) : Prop where
  copied : f.copiedSizeThread = 0
  bitPos : f.msg.bitPos = 0
  off : f.msg.off = 0

/-- What passes over a message have to come to: it is over; the pages its bitmap marks have been
moved, each byte once, in order and in one direction, to and from their places in the ring;
nothing else has been; and the next message starts right behind the last byte. -/
structure MovesMessage (bitmap : Nat → Bool) (isTarget : Bool) (chunks : List Chunk)
    (p : Passes) : Prop where
  beyond : p.beyond = true
  bytes : moved p.calls = dirtyBytes d bitmap
  places : placed p.calls = pagePlaces d gpuAddr (messageLength d bitmap) 0 chunks
  direction : ∀ c ∈ p.calls, c.toFb = isTarget
  consumed : p.consumed = messageLength d bitmap
  next : AtStart p.file

end passes

/-! ### One pass -/

/-- `s` bytes of the message have gone through the copy thread, and its bitmap is at hand as soon
as it is needed. -/
structure Reached (d : Device) (o : Outside) (bitmap : Nat → Bool) (isTarget : Bool) (s : Nat)
    (f : File) : Prop where
  copied : f.copiedSizeThread = s
  isTarget_eq : f.isTarget = isTarget
  head : s < d.msgSize → f.msg.bitPos = 0 ∧ f.msg.off = 0
  incoming : isTarget = true → o.incomingBitmap = bitmap
  exported : isTarget = false → s < d.msgSize →
    if s = 0 then (vfDataExport d f o.exports).2.msg.bitmap = bitmap else f.msg.bitmap = bitmap
  pages : d.msgSize ≤ s → At d bitmap (s - d.msgSize) f

variable {d : Device} {o : Outside} {bitmap : Nat → Bool} {isTarget : Bool} {s gpuAddr : Nat}
  {f : File}

theorem AtStart.reached (h : AtStart f) :
    Reached d o (messageBitmap d o f) f.isTarget 0 f where
  copied := h.copied
  isTarget_eq := rfl
  head := fun _ => ⟨h.bitPos, h.off⟩
  incoming := fun htarget => by rw [messageBitmap, if_pos htarget]
  exported := fun htarget _ => by
    rw [if_pos rfl, messageBitmap, if_neg (by simp [htarget])]
  pages := fun hle => absurd d.msgSize_pos (by omega)

theorem at_zero (hbitmap : f.msg.bitmap = bitmap) (hpos : f.msg.bitPos = 0)
    (hoff : f.msg.off = 0) : At d bitmap 0 f where
  pages := by rw [hbitmap, hpos, Nat.zero_div, List.drop_zero]
  off := by rw [hoff, Nat.zero_mod]
  kept := fun q _ => by rw [hbitmap]

theorem msgCopy_reached (h : Reached d o bitmap isTarget s f) (hs : s < d.msgSize) {len sz : Nat}
    {g : File} (hcopy : msgCopy d o f len = (some sz, g)) :
    sz = min len (d.msgSize - s) ∧ SameCursor f g ∧
      (s + sz = d.msgSize → At d bitmap 0 g) ∧
      (s + sz < d.msgSize → isTarget = false →
        if s + sz = 0 then (vfDataExport d g o.exports).2.msg.bitmap = bitmap
        else g.msg.bitmap = bitmap) := by
  obtain ⟨hpos, hoff⟩ := h.head hs
  unfold msgCopy at hcopy
  rw [h.copied, h.isTarget_eq] at hcopy
  simp only at hcopy
  cases isTarget with
  | true =>
    simp only [Bool.not_true, Bool.false_and, Bool.false_eq_true, if_false, ne_eq,
      not_true_eq_false, h.isTarget_eq, Bool.true_and, decide_eq_true_eq] at hcopy
    split at hcopy
    · rename_i hfull
      have hsame := vfDataImport_same d (receive o f) o.imports
      have hmsg := vfDataImport_msg d (receive o f) o.imports
      generalize vfDataImport d (receive o f) o.imports = r at hcopy hsame hmsg
      obtain ⟨ret, g'⟩ := r
      split at hcopy
      · rename_i heq
        obtain ⟨_, rfl⟩ := Prod.mk.inj heq
        rw [Prod.mk.injEq, Option.some.injEq] at hcopy
        obtain ⟨rfl, rfl⟩ := hcopy
        have hcursor : SameCursor f g' := ⟨hsame.isTarget, hsame.copied, hsame.bitPos, hsame.off,
          hsame.ring, hsame.total, hsame.left⟩
        refine ⟨rfl, hcursor, fun _ => ?_, fun _ hne => Bool.noConfusion hne⟩
        exact at_zero (by rw [hmsg]; exact h.incoming rfl) (hcursor.bitPos.trans hpos)
          (hcursor.off.trans hoff)
      · rw [Prod.mk.injEq] at hcopy
        exact absurd hcopy.1.symm (Option.some_ne_none sz)
    · rename_i hfull
      rw [h.copied] at hfull
      rw [Prod.mk.injEq, Option.some.injEq] at hcopy
      obtain ⟨rfl, rfl⟩ := hcopy
      exact ⟨rfl, .refl f, fun heq => absurd heq hfull, fun _ hne => Bool.noConfusion hne⟩
  | false =>
    have hexported := h.exported rfl hs
    by_cases hzero : s = 0
    · subst hzero
      rw [if_pos rfl] at hexported
      have hsame := vfDataExport_same d f o.exports
      have hagain : (vfDataExport d f o.exports).1 = 0 →
          (vfDataExport d (vfDataExport d f o.exports).2 o.exports).2.msg.bitmap = bitmap := by
        intro hret
        rw [vfDataExport_bitmap (vfDataExport_taken hret), hexported]
      simp only [Bool.not_false, Bool.true_and, decide_true, if_true, ne_eq] at hcopy
      generalize vfDataExport d f o.exports = r at hcopy hexported hsame hagain
      obtain ⟨ret, g'⟩ := r
      simp only at hcopy hexported hsame hagain
      split at hcopy
      · rw [Prod.mk.injEq] at hcopy
        exact absurd hcopy.1.symm (Option.some_ne_none sz)
      · rename_i hret
        have htarget : g'.isTarget = false := hsame.isTarget.trans h.isTarget_eq
        simp only [htarget, Bool.false_and, Bool.false_eq_true, if_false, Prod.mk.injEq,
          Option.some.injEq] at hcopy
        obtain ⟨rfl, rfl⟩ := hcopy
        refine ⟨rfl, hsame, fun _ => ?_, fun _ _ => ?_⟩
        · exact at_zero hexported (hsame.bitPos.trans hpos) (hsame.off.trans hoff)
        · split
          · exact hagain (Decidable.not_not.mp hret)
          · exact hexported
    · rw [if_neg hzero] at hexported
      simp only [Bool.not_false, Bool.true_and, decide_eq_true_eq, hzero, if_false, ne_eq,
        not_true_eq_false, h.isTarget_eq, Bool.false_and, Bool.false_eq_true, Prod.mk.injEq,
        Option.some.injEq] at hcopy
      obtain ⟨rfl, rfl⟩ := hcopy
      refine ⟨rfl, .refl f, fun _ => at_zero hexported hpos hoff, fun _ _ => ?_⟩
      rw [if_neg (by omega)]
      exact hexported

theorem endMessage_msg (f : File) : (endMessage f).msg = ⟨.zero, fun _ => false, 0, 0⟩ := by
  unfold endMessage
  simp only
  split <;> rfl

/-- What a pass has to come to, from `s` bytes into the message. -/
structure PassMoves (d : Device) (o : Outside) (bitmap : Nat → Bool) (isTarget : Bool) (s : Nat)
    (gpuAddr ringOffset len : Nat) (r : Copied) : Prop where
  size : r.size = some (min len (messageLength d bitmap - s))
  done : r.isDone = true ↔
    min len (d.msgSize - s) < len ∧ messageLength d bitmap ≤ s + len
  beyond : r.isDone = true → AtStart r.file
  goes : r.isDone = false → Reached d o bitmap isTarget (s + len) r.file
  bytes : moved r.calls = ((dirtyBytes d bitmap).drop (s - d.msgSize)).take
    (len - min len (d.msgSize - s))
  places : placed r.calls = List.range' (gpuAddr + ringOffset + min len (d.msgSize - s))
    (min (len - min len (d.msgSize - s))
      (messageLength d bitmap - (s + min len (d.msgSize - s))))
  direction : ∀ c ∈ r.calls, c.toFb = isTarget

theorem fbPart_moves {g : File} {ringOffset len sz : Nat} (hat : At d bitmap (s + sz - d.msgSize) g)
    (hfits : ChunkFits d bitmap (s + sz - d.msgSize) (len - sz)) (hlen : len ≤ ringBufSize)
    (hsz : sz = min len (d.msgSize - s)) (hlt : sz < len) (hcopied : g.copiedSizeThread = s)
    (htarget : g.isTarget = isTarget) (hincoming : isTarget = true → o.incomingBitmap = bitmap)
    (hs : s ≤ messageLength d bitmap)
    (hok : (fbPart d o g gpuAddr ringOffset len sz).size ≠ none) :
    PassMoves d o bitmap isTarget s gpuAddr ringOffset len
      (fbPart d o g gpuAddr ringOffset len sz) := by
  have hlength : messageLength d bitmap = d.msgSize + (dirtyBytes d bitmap).length := rfl
  unfold fbPart at hok ⊢
  simp only [if_pos hlt] at hok ⊢
  unfold vfDirtyFbCopy at hok ⊢
  have hring : ringBufSize = 2 ^ 25 := rfl
  have hbits : (len - sz) >>> d.pgShift % 2 ^ 32 = (len - sz) / d.fbPageSize := by
    rw [d.shiftRight_eq]
    have := Nat.div_le_self (len - sz) d.fbPageSize
    exact Nat.mod_eq_of_lt (by omega)
  rw [hbits] at hok ⊢
  have hmoves : (dirtyFbCopyLoop d o.fbCopyFails (gpuAddr + ringOffset + sz) (len - sz + 1) g
      ((len - sz) / d.fbPageSize) (len - sz) 0 []).size ≠ none →
      Moves d bitmap (s + sz - d.msgSize) g (gpuAddr + ringOffset + sz) 0 (len - sz) []
        (dirtyFbCopyLoop d o.fbCopyFails (gpuAddr + ringOffset + sz) (len - sz + 1) g
          ((len - sz) / d.fbPageSize) (len - sz) 0 []) :=
    dirtyFbCopyLoop_moves hat hfits (by omega) (by omega) (fun _ => rfl)
  generalize dirtyFbCopyLoop d o.fbCopyFails (gpuAddr + ringOffset + sz) (len - sz + 1) g
    ((len - sz) / d.fbPageSize) (len - sz) 0 [] = r at hok hmoves ⊢
  have hsome : r.size ≠ none := by
    intro hnone
    simp only [hnone] at hok
    exact hok rfl
  have hmoves := hmoves hsome
  obtain ⟨new, hcalls, hbytes, hplaces, hdir⟩ := hmoves.made
  rw [List.nil_append] at hcalls
  simp only [hmoves.size, Nat.zero_add] at hok ⊢
  have hdrop : s + sz - d.msgSize = s - d.msgSize := by omega
  exact {
    size := by
      simp only [Option.some.injEq]
      omega
    done := by
      simp only
      rw [hmoves.done]
      omega
    beyond := by
      intro hdone
      simp only at hdone
      have hfile := hmoves.beyond hdone
      exact {
        copied := by simp only [hdone, if_true]
        bitPos := by simp only [hfile, endMessage_msg]
        off := by simp only [hfile, endMessage_msg] }
    goes := by
      intro hdone
      simp only at hdone
      obtain ⟨honly, hat'⟩ := hmoves.goes hdone
      have hnot := mt hmoves.done.mpr (by rw [hdone]; exact Bool.false_ne_true)
      obtain ⟨msg, hfile⟩ := honly
      have hmin : sz + min (len - sz) ((dirtyBytes d bitmap).length - (s + sz - d.msgSize)) =
          len := by omega
      exact {
        copied := by simp only [hdone, Bool.false_eq_true, if_false, hfile, hcopied, hmin]
        isTarget_eq := by simp only [hfile, htarget]
        head := fun hhead => by omega
        incoming := hincoming
        exported := fun _ hhead => by omega
        pages := fun _ => by
          rw [show s + len - d.msgSize = s + sz - d.msgSize + (len - sz) by omega]
          exact ⟨hat'.pages, hat'.off, hat'.kept⟩ }
    bytes := by rw [hcalls, hbytes, hdrop, hsz]
    places := by
      rw [hcalls, hplaces, Nat.add_zero, ← hsz]
      congr 1
      omega
    direction := by
      intro c hc
      rw [hcalls] at hc
      exact (hdir c hc).trans htarget }

theorem fbPart_head {g : File} {ringOffset len : Nat} (hle : s + len ≤ d.msgSize ∨ len = 0)
    (hcopied : g.copiedSizeThread = s) (hreached : Reached d o bitmap isTarget (s + len)
      { g with copiedSizeThread := s + len }) (hs : s ≤ messageLength d bitmap) :
    PassMoves d o bitmap isTarget s gpuAddr ringOffset len
      (fbPart d o g gpuAddr ringOffset len len) := by
  have hlength : messageLength d bitmap = d.msgSize + (dirtyBytes d bitmap).length := rfl
  have hsz : min len (d.msgSize - s) = len := by omega
  unfold fbPart
  simp only [Nat.lt_irrefl, if_false, Nat.add_zero, Bool.false_eq_true, hcopied]
  exact {
    size := by
      simp only [Option.some.injEq]
      omega
    done := by
      rw [hsz]
      simp
    beyond := fun h => Bool.noConfusion h
    goes := fun _ => hreached
    bytes := by rw [hsz, Nat.sub_self, List.take_zero, moved_nil]
    places := by rw [hsz, Nat.sub_self, Nat.zero_min, List.range'_zero, placed_nil]
    direction := fun c hc => absurd hc (List.not_mem_nil) }

theorem ringbufferDataCopy_moves {ringOffset len : Nat}
    (h : Reached d o bitmap isTarget s f) (hs : s ≤ messageLength d bitmap)
    (hlen : len ≤ ringBufSize)
    (hfits : d.msgSize ≤ s → ChunkFits d bitmap (s - d.msgSize) len)
    (hok : (ringbufferDataCopy d o f gpuAddr ringOffset len).size ≠ none) :
    PassMoves d o bitmap isTarget s gpuAddr ringOffset len
      (ringbufferDataCopy d o f gpuAddr ringOffset len) := by
  unfold ringbufferDataCopy at hok ⊢
  rw [h.copied] at hok ⊢
  by_cases hhead : s < d.msgSize
  · rw [if_pos hhead] at hok ⊢
    rcases hcopy : msgCopy d o f len with ⟨_ | sz, g⟩
    · rw [hcopy] at hok
      exact absurd rfl hok
    · rw [hcopy] at hok
      obtain ⟨hsz, hsame, hat, hexported⟩ := msgCopy_reached h hhead hcopy
      have hcopied : g.copiedSizeThread = s := hsame.copied.trans h.copied
      have htarget : g.isTarget = isTarget := hsame.isTarget.trans h.isTarget_eq
      simp only at hok ⊢
      rcases Nat.lt_or_ge sz len with hlt | hge
      · have hstart : At d bitmap (s + sz - d.msgSize) g := by
          rw [show s + sz - d.msgSize = 0 by omega]
          exact hat (by omega)
        have hpages : ChunkFits d bitmap (s + sz - d.msgSize) (len - sz) := by
          rw [show s + sz - d.msgSize = 0 by omega]
          intro hoff
          exact absurd (Nat.zero_mod _) hoff
        exact fbPart_moves hstart hpages hlen hsz hlt hcopied htarget h.incoming hs hok
      · have hwhole : sz = len := by omega
        subst hwhole
        apply fbPart_head (.inl (by omega)) hcopied _ hs
        have hset : s + sz = 0 → { g with copiedSizeThread := s + sz } = g := by
          intro hzero
          rw [hzero, show (0 : Nat) = g.copiedSizeThread by omega]
        exact {
          copied := rfl
          isTarget_eq := htarget
          head := fun _ => ⟨hsame.bitPos.trans (h.head hhead).1, hsame.off.trans (h.head hhead).2⟩
          incoming := h.incoming
          exported := fun hsource hmore => by
            have hcarried := hexported hmore hsource
            split
            · rename_i hzero
              rw [hset hzero]
              rwa [if_pos hzero] at hcarried
            · rename_i hzero
              rwa [if_neg hzero] at hcarried
          pages := fun hfull => by
            rw [show s + sz - d.msgSize = 0 by omega]
            have hzero := hat (by omega)
            exact ⟨hzero.pages, hzero.off, hzero.kept⟩ }
  · rw [if_neg hhead] at hok ⊢
    have hsz : 0 = min len (d.msgSize - s) := by omega
    rcases Nat.eq_zero_or_pos len with rfl | hpos
    · apply fbPart_head (.inr rfl) h.copied _ hs
      have hsame : { f with copiedSizeThread := s + 0 } = f := by
        rw [Nat.add_zero, ← h.copied]
      rw [hsame]
      exact h
    · exact fbPart_moves (h.pages (by omega)) (hfits (by omega)) hlen hsz hpos h.copied
        h.isTarget_eq h.incoming hs hok

theorem ringbufferDataCopy_strays {ringOffset len : Nat}
    (h : Reached d o bitmap isTarget s f) (hlen : len ≤ ringBufSize) (hs : d.msgSize ≤ s)
    (hfits : ¬ ChunkFits d bitmap (s - d.msgSize) len)
    (hok : (ringbufferDataCopy d o f gpuAddr ringOffset len).size ≠ none) :
    ∃ a, a ∈ moved (ringbufferDataCopy d o f gpuAddr ringOffset len).calls ∧
      a ∉ dirtyBytes d bitmap := by
  unfold ChunkFits at hfits
  push Not at hfits
  obtain ⟨hoff, hpos, hnot⟩ := hfits
  have hindex : (s - d.msgSize) / d.fbPageSize < (setFrom bitmap d.fbBitmapBits 0).length := by
    rw [dirtyBytes_length] at hpos
    exact (Nat.div_lt_iff_lt_mul d.fbPageSize_pos).mpr hpos
  have hpage := List.getElem?_eq_getElem hindex
  generalize (setFrom bitmap d.fbBitmapBits 0)[(s - d.msgSize) / d.fbPageSize] = p at hpage
  -- the run of marked pages from `p` on
  have hends : ∃ m, ¬ (p + m < d.fbBitmapBits ∧ bitmap (p + m) = true) :=
    ⟨d.fbBitmapBits, fun hbit => by omega⟩
  have hend := Nat.find_spec hends
  have hmarked : Marked bitmap d.fbBitmapBits p (Nat.find hends) :=
    fun k hk => Decidable.not_not.mp (Nat.find_min hends hk)
  generalize Nat.find hends = m at hend hmarked
  have hlong := hnot p m hpage hmarked
  have hcalls : ∀ r : Copied, r.size ≠ none →
      r = vfDirtyFbCopy d o.fbCopyFails (gpuAddr + ringOffset + 0) f (len - 0) →
      (p + m) * d.fbPageSize ∈ moved r.calls := by
    rintro r hr rfl
    have hring : ringBufSize = 2 ^ 25 := rfl
    have hbits : (len - 0) >>> d.pgShift % 2 ^ 32 = (len - 0) / d.fbPageSize := by
      rw [d.shiftRight_eq]
      have := Nat.div_le_self (len - 0) d.fbPageSize
      exact Nat.mod_eq_of_lt (by omega)
    unfold vfDirtyFbCopy at hr ⊢
    rw [hbits] at hr ⊢
    exact dirtyFbCopyLoop_strays (h.pages hs) hpage hmarked hend hoff hlong (by omega) (by omega)
      rfl hr
  refine ⟨(p + m) * d.fbPageSize, ?_, ?_⟩
  · unfold ringbufferDataCopy at hok ⊢
    rw [h.copied, if_neg (by omega)] at hok ⊢
    have hlenPos : 0 < len := by
      rcases Nat.eq_zero_or_pos len with rfl | hpos'
      · have := Nat.mod_lt (s - d.msgSize) d.fbPageSize_pos
        have hm : m = 0 := by
          rcases Nat.eq_zero_or_pos m with hm | hm
          · exact hm
          · have : d.fbPageSize ≤ m * d.fbPageSize := Nat.le_mul_of_pos_left _ hm
            omega
        subst hm
        have hmem := List.mem_of_getElem? hpage
        rw [mem_setFrom] at hmem
        exact absurd ⟨hmem.2.1, hmem.2.2⟩ hend
      · exact hpos'
    unfold fbPart at hok ⊢
    simp only [if_pos hlenPos] at hok ⊢
    generalize hr : vfDirtyFbCopy d o.fbCopyFails (gpuAddr + ringOffset + 0) f (len - 0) = r
      at hok ⊢
    rcases hsize : r.size with _ | n
    · rw [hsize] at hok
      exact absurd rfl hok
    · exact hcalls r (by rw [hsize]; exact Option.some_ne_none n) hr.symm
  · unfold dirtyBytes
    rw [mem_content d.fbPageSize_pos, Nat.mul_div_cancel _ d.fbPageSize_pos, mem_setFrom]
    intro hmem
    exact hend hmem.2

/-! ### A whole message -/

theorem chunksFit_of_le {pos : Nat} {chunks : List Chunk}
    (h : messageLength d bitmap ≤ pos) : ChunksFit d bitmap pos chunks := by
  induction chunks generalizing pos with
  | nil => trivial
  | cons c cs ih =>
    have hlength : messageLength d bitmap = d.msgSize + (dirtyBytes d bitmap).length := rfl
    exact ⟨fun _ _ hpos => by omega, ih (by omega)⟩

theorem pagePlaces_of_le {total pos : Nat} {chunks : List Chunk} (h : total ≤ pos) :
    pagePlaces d gpuAddr total pos chunks = [] := by
  induction chunks generalizing pos with
  | nil => rfl
  | cons c cs ih =>
    unfold pagePlaces
    simp only
    rw [ih (by omega), show total - (pos + min c.len (d.msgSize - pos)) = 0 by omega,
      Nat.min_zero, List.range'_zero, List.append_nil]

theorem copyChunks_moves {chunks : List Chunk} (h : Reached d o bitmap isTarget s f)
    (hs : s ≤ messageLength d bitmap) (hlens : ∀ c ∈ chunks, c.len ≤ ringBufSize)
    (hfits : ChunksFit d bitmap s chunks)
    (hlong : messageLength d bitmap < s + (chunks.map Chunk.len).sum)
    (hok : (copyChunks d o gpuAddr f chunks).failed = false) :
    (copyChunks d o gpuAddr f chunks).beyond = true ∧
      moved (copyChunks d o gpuAddr f chunks).calls =
        (dirtyBytes d bitmap).drop (s - d.msgSize) ∧
      placed (copyChunks d o gpuAddr f chunks).calls =
        pagePlaces d gpuAddr (messageLength d bitmap) s chunks ∧
      (∀ c ∈ (copyChunks d o gpuAddr f chunks).calls, c.toFb = isTarget) ∧
      s + (copyChunks d o gpuAddr f chunks).consumed = messageLength d bitmap ∧
      AtStart (copyChunks d o gpuAddr f chunks).file := by
  induction chunks generalizing f s with
  | nil =>
    simp only [List.map_nil, List.sum_nil] at hlong
    omega
  | cons c cs ih =>
    have hlength : messageLength d bitmap = d.msgSize + (dirtyBytes d bitmap).length := rfl
    have hlen := hlens c List.mem_cons_self
    rw [List.map_cons, List.sum_cons] at hlong
    unfold copyChunks at hok ⊢
    simp only at hok ⊢
    have hpass : (ringbufferDataCopy d o f gpuAddr c.ringOffset c.len).size ≠ none →
        PassMoves d o bitmap isTarget s gpuAddr c.ringOffset c.len
          (ringbufferDataCopy d o f gpuAddr c.ringOffset c.len) :=
      ringbufferDataCopy_moves h hs hlen hfits.1
    generalize ringbufferDataCopy d o f gpuAddr c.ringOffset c.len = r at hok hpass ⊢
    rcases hsize : r.size with _ | n
    · rw [hsize] at hok
      exact Bool.noConfusion hok
    · rw [hsize] at hok
      have hpass := hpass (by rw [hsize]; exact Option.some_ne_none n)
      have hn := hpass.size
      rw [hsize, Option.some.injEq] at hn
      unfold pagePlaces
      simp only at hok ⊢
      by_cases hdone : r.isDone = true
      · obtain ⟨hshort, hend⟩ := hpass.done.mp hdone
        simp only [if_pos hdone]
        refine ⟨trivial, ?_, ?_, hpass.direction, by omega, hpass.beyond hdone⟩
        · rw [hpass.bytes]
          exact List.take_of_length_le (by rw [List.length_drop]; omega)
        · rw [hpass.places, pagePlaces_of_le hend, List.append_nil]
      · have hmore := mt hpass.done.mpr hdone
        rw [if_neg hdone] at hok
        simp only [if_neg hdone]
        have hnext := hpass.goes (Bool.eq_false_iff.mpr hdone)
        obtain ⟨hover, hbytes, hplaces, hdir, hconsumed, hstart⟩ :=
          ih hnext (by omega) (fun c' hc => hlens c' (List.mem_cons_of_mem c hc)) hfits.2
            (by omega) hok
        refine ⟨hover, ?_, ?_, ?_, by omega, hstart⟩
        · rw [moved_append, hpass.bytes, hbytes]
          have hsplit : s + c.len - d.msgSize =
              s - d.msgSize + (c.len - min c.len (d.msgSize - s)) := by omega
          rw [hsplit, ← List.drop_drop, List.take_append_drop]
        · rw [placed_append, hpass.places, hplaces]
        · intro call hcall
          rcases List.mem_append.mp hcall with hcall | hcall
          · exact hpass.direction call hcall
          · exact hdir call hcall

theorem copyChunks_strays {chunks : List Chunk} (h : Reached d o bitmap isTarget s f)
    (hs : s ≤ messageLength d bitmap) (hlens : ∀ c ∈ chunks, c.len ≤ ringBufSize)
    (hfits : ¬ ChunksFit d bitmap s chunks)
    (hok : (copyChunks d o gpuAddr f chunks).failed = false) :
    ∃ a, a ∈ moved (copyChunks d o gpuAddr f chunks).calls ∧ a ∉ dirtyBytes d bitmap := by
  induction chunks generalizing f s with
  | nil => exact absurd trivial hfits
  | cons c cs ih =>
    have hlength : messageLength d bitmap = d.msgSize + (dirtyBytes d bitmap).length := rfl
    have hlen := hlens c List.mem_cons_self
    unfold copyChunks at hok ⊢
    simp only at hok ⊢
    by_cases hfirst : d.msgSize ≤ s → ChunkFits d bitmap (s - d.msgSize) c.len
    · have hpass : (ringbufferDataCopy d o f gpuAddr c.ringOffset c.len).size ≠ none →
          PassMoves d o bitmap isTarget s gpuAddr c.ringOffset c.len
            (ringbufferDataCopy d o f gpuAddr c.ringOffset c.len) :=
        ringbufferDataCopy_moves h hs hlen hfirst
      generalize ringbufferDataCopy d o f gpuAddr c.ringOffset c.len = r at hok hpass ⊢
      have hrest : ¬ ChunksFit d bitmap (s + c.len) cs := fun hrest => hfits ⟨hfirst, hrest⟩
      rcases hsize : r.size with _ | n
      · rw [hsize] at hok
        exact Bool.noConfusion hok
      · rw [hsize] at hok
        have hpass := hpass (by rw [hsize]; exact Option.some_ne_none n)
        simp only at hok ⊢
        by_cases hdone : r.isDone = true
        · exact absurd (chunksFit_of_le (hpass.done.mp hdone).2) hrest
        · have hmore := mt hpass.done.mpr hdone
          rw [if_neg hdone] at hok
          simp only [if_neg hdone]
          obtain ⟨a, hmem, hnot⟩ := ih (hpass.goes (Bool.eq_false_iff.mpr hdone)) (by omega)
            (fun c' hc => hlens c' (List.mem_cons_of_mem c hc)) hrest hok
          exact ⟨a, by rw [moved_append]; exact List.mem_append_right _ hmem, hnot⟩
    · rw [Classical.not_imp] at hfirst
      have hstrays : (ringbufferDataCopy d o f gpuAddr c.ringOffset c.len).size ≠ none →
          ∃ a, a ∈ moved (ringbufferDataCopy d o f gpuAddr c.ringOffset c.len).calls ∧
            a ∉ dirtyBytes d bitmap :=
        ringbufferDataCopy_strays h hlen hfirst.1 hfirst.2
      generalize ringbufferDataCopy d o f gpuAddr c.ringOffset c.len = r at hok hstrays ⊢
      rcases hsize : r.size with _ | n
      · rw [hsize] at hok
        exact Bool.noConfusion hok
      · obtain ⟨a, hmem, hnot⟩ := hstrays (by rw [hsize]; exact Option.some_ne_none n)
        refine ⟨a, ?_, hnot⟩
        simp only
        split
        · exact hmem
        · rw [moved_append]
          exact List.mem_append_left _ hmem

theorem movesMessage_iff {chunks : List Chunk} (hstart : AtStart f)
    (hlens : ∀ c ∈ chunks, c.len ≤ ringBufSize)
    (hlong : messageLength d (messageBitmap d o f) < (chunks.map Chunk.len).sum)
    (hok : (copyChunks d o gpuAddr f chunks).failed = false) :
    MovesMessage d gpuAddr (messageBitmap d o f) f.isTarget chunks
        (copyChunks d o gpuAddr f chunks) ↔
      ChunksFit d (messageBitmap d o f) 0 chunks := by
  have hreached : Reached d o (messageBitmap d o f) f.isTarget 0 f := hstart.reached
  constructor
  · intro hmoves
    by_contra hfits
    obtain ⟨a, hmem, hnot⟩ := copyChunks_strays hreached (Nat.zero_le _) hlens hfits hok
    rw [hmoves.bytes] at hmem
    exact hnot hmem
  · intro hfits
    obtain ⟨hover, hbytes, hplaces, hdir, hconsumed, hnext⟩ :=
      copyChunks_moves hreached (Nat.zero_le _) hlens hfits (by omega) hok
    rw [Nat.zero_sub, List.drop_zero] at hbytes
    exact ⟨hover, hbytes, hplaces, hdir, by omega, hnext⟩

theorem mem_dirtyBytes {a : Nat} :
    a ∈ dirtyBytes d bitmap ↔
      a / d.fbPageSize < d.fbBitmapBits ∧ bitmap (a / d.fbPageSize) = true := by
  unfold dirtyBytes
  rw [mem_content d.fbPageSize_pos, mem_setFrom]
  simp

/-- Source and target copy the pages of a message alike, whatever their chunks, exactly if on both
sides each chunk that starts inside a page stays in the run of marked pages it starts in. -/
theorem dirtyPages_copied (d : Device) (o o' : Outside) (f f' : File) (gpuAddr gpuAddr' : Nat)
    (chunks chunks' : List Chunk) (hsource : f.isTarget = false) (htarget : f'.isTarget = true)
    (hstart : AtStart f) (hstart' : AtStart f')
    (hbitmap : o'.incomingBitmap = messageBitmap d o f)
    (hlens : ∀ c ∈ chunks ++ chunks', c.len ≤ ringBufSize)
    (hlong : messageLength d (messageBitmap d o f) < (chunks.map Chunk.len).sum)
    (hlong' : messageLength d (messageBitmap d o f) < (chunks'.map Chunk.len).sum)
    (hok : (copyChunks d o gpuAddr f chunks).failed = false)
    (hok' : (copyChunks d o' gpuAddr' f' chunks').failed = false) :
    (MovesMessage d gpuAddr (messageBitmap d o f) false chunks
        (copyChunks d o gpuAddr f chunks) ∧
      MovesMessage d gpuAddr' (messageBitmap d o f) true chunks'
        (copyChunks d o' gpuAddr' f' chunks') ∧
      moved (copyChunks d o gpuAddr f chunks).calls =
        moved (copyChunks d o' gpuAddr' f' chunks').calls ∧
      (copyChunks d o gpuAddr f chunks).consumed =
        (copyChunks d o' gpuAddr' f' chunks').consumed) ↔
      ChunksFit d (messageBitmap d o f) 0 chunks ∧
        ChunksFit d (messageBitmap d o f) 0 chunks' := by
  have hsame : messageBitmap d o' f' = messageBitmap d o f := by
    conv_lhs => rw [messageBitmap, if_pos htarget, hbitmap]
  have hiff := movesMessage_iff hstart
    (fun c hc => hlens c (List.mem_append_left _ hc)) hlong hok
  have hiff' : MovesMessage d gpuAddr' (messageBitmap d o' f') f'.isTarget chunks'
        (copyChunks d o' gpuAddr' f' chunks') ↔ ChunksFit d (messageBitmap d o' f') 0 chunks' :=
    movesMessage_iff hstart' (fun c hc => hlens c (List.mem_append_right _ hc))
      (by rwa [hsame]) hok'
  rw [hsource] at hiff
  rw [htarget, hsame] at hiff'
  constructor
  · rintro ⟨hmoves, hmoves', _, _⟩
    exact ⟨hiff.mp hmoves, hiff'.mp hmoves'⟩
  · rintro ⟨hfits, hfits'⟩
    have hmoves := hiff.mpr hfits
    have hmoves' := hiff'.mpr hfits'
    exact ⟨hmoves, hmoves', hmoves.bytes.trans hmoves'.bytes.symm,
      hmoves.consumed.trans hmoves'.consumed.symm⟩

def fourPages : Device := ⟨22, 4 * 2 ^ 22, 0, 0, 0, by decide, by decide⟩

def twoDirty (p : Nat) : Bool := decide (p < 2)

def twoDirtyFile (isTarget : Bool) : File where
  enabled := true
  seq := 0
  isTarget := isTarget
  totalBytesFd := 0
  leftBytesFd := 0
  copiedSizeThread := 0
  nextCopyMask := CopyMask.zero.set .vfFbBitmap
  copiedMask := .zero
  shadowBitmap := twoDirty
  shadowFbLen := 2 * 2 ^ 22
  msg := ⟨.zero, fun _ => false, 0, 0⟩
  ring := ⟨0, 0, .running, fun _ => 0⟩

def allWell : Outside where
  exports := ⟨false, false, false⟩
  imports := ⟨false, false, false, false⟩
  incomingHdr := { MsgHeader.zero with version := 1, checksum := 1 }
  incomingBitmap := twoDirty
  fbCopyFails := fun _ => false

theorem twoDirtyFile_start (isTarget : Bool) : AtStart (twoDirtyFile isTarget) := ⟨rfl, rfl, rfl⟩

theorem twoDirty_pages : setFrom twoDirty fourPages.fbBitmapBits 0 = [0, 1] := by
  decide +kernel

theorem twoDirty_length : messageLength fourPages twoDirty = 3 * 2 ^ 22 := by
  rw [messageLength, dirtyBytes_length, twoDirty_pages]
  decide +kernel

theorem twoDirty_message : messageBitmap fourPages allWell (twoDirtyFile false) = twoDirty := rfl

theorem chunksFit_aligned {chunks : List Chunk} {pos : Nat}
    (h : d.fbPageSize ∣ pos) (hchunks : ∀ c ∈ chunks, d.fbPageSize ∣ c.len) :
    ChunksFit d bitmap pos chunks := by
  induction chunks generalizing pos with
  | nil => trivial
  | cons c cs ih =>
    have hc := hchunks c List.mem_cons_self
    refine ⟨fun _ hoff => ?_, ih (Nat.dvd_add h hc) fun c' hc' =>
      hchunks c' (List.mem_cons_of_mem c hc')⟩
    exact absurd (Nat.mod_eq_zero_of_dvd (Nat.dvd_sub h d.fbPageSize_dvd_msgSize)) hoff

theorem dirtyPages_copied_twoDirty :
    MovesMessage fourPages 0 twoDirty false [⟨0, 2 ^ 24⟩]
        (copyChunks fourPages allWell 0 (twoDirtyFile false) [⟨0, 2 ^ 24⟩]) ∧
      MovesMessage fourPages 0 twoDirty true [⟨0, 2 ^ 23⟩, ⟨2 ^ 23, 2 ^ 23⟩]
        (copyChunks fourPages allWell 0 (twoDirtyFile true)
          [⟨0, 2 ^ 23⟩, ⟨2 ^ 23, 2 ^ 23⟩]) := by
  have hcopied := (dirtyPages_copied fourPages allWell allWell (twoDirtyFile false)
    (twoDirtyFile true) 0 0 [⟨0, 2 ^ 24⟩] [⟨0, 2 ^ 23⟩, ⟨2 ^ 23, 2 ^ 23⟩] rfl rfl
    (twoDirtyFile_start false) (twoDirtyFile_start true) rfl (by decide)
    (by rw [twoDirty_message, twoDirty_length]; decide)
    (by rw [twoDirty_message, twoDirty_length]; decide)
    (by decide +kernel) (by decide +kernel)).mpr
    ⟨chunksFit_aligned (by decide) (by decide), chunksFit_aligned (by decide) (by decide)⟩
  exact ⟨hcopied.1, hcopied.2.1⟩

/-- A chunk of one and a half pages leaves the next one inside page 1, and with a page of bytes it
reaches into the clear page 2. -/
theorem unaligned_chunks_stray :
    ¬ MovesMessage fourPages 0 twoDirty false [⟨0, 5 * 2 ^ 21⟩, ⟨5 * 2 ^ 21, 2 ^ 22⟩]
      (copyChunks fourPages allWell 0 (twoDirtyFile false)
        [⟨0, 5 * 2 ^ 21⟩, ⟨5 * 2 ^ 21, 2 ^ 22⟩]) := by
  intro h
  have hcall : ⟨3 * 2 ^ 21, 2 ^ 22, 5 * 2 ^ 21, false⟩ ∈ (copyChunks fourPages allWell 0
      (twoDirtyFile false) [⟨0, 5 * 2 ^ 21⟩, ⟨5 * 2 ^ 21, 2 ^ 22⟩]).calls := by decide +kernel
  have hmem : 2 ^ 23 ∈ moved (copyChunks fourPages allWell 0 (twoDirtyFile false)
      [⟨0, 5 * 2 ^ 21⟩, ⟨5 * 2 ^ 21, 2 ^ 22⟩]).calls :=
    List.mem_flatMap.mpr ⟨_, hcall, List.mem_range'_1.mpr (by decide)⟩
  rw [h.bytes, mem_dirtyBytes] at hmem
  exact absurd hmem.2 (by decide +kernel)

end MxGpu.Mig
