import MxGpu.MigStream

/- What the target makes of a stream (`gim_mig.c`): the reads of the message buffer and the calls
into the adapter while messages are imported, and when `RESUMING` may be left. -/
namespace MxGpu.Mig

open DirtyPages
open Transition (Run)

variable {d : Device} {f g : File}

/-! ### What an import reads and hands over -/

/-- A use of the message buffer, or pages that go into the frame buffer. -/
inductive ImportCall
  /-- `amdgv_compare_mig_ctx` -/
  | compareCtx (offset : Nat)
  /-- `amdgv_migration_import` -/
  | importData (c : Content) (offset length : Nat)
  /-- `find_next_bit` over `fb_bitmap_bits` -/
  | scanBitmap (offset : Nat)
  /-- `amdgv_vf_fb_copy` -/
  | copyPages (call : FbCopy)
  deriving DecidableEq

def bitmapScan (d : Device) : Nat := (d.fbBitmapBits + 63) / 64 * 8

def handedOver (d : Device) (f : File) (c : Content) : Bool :=
  (f.hdr.sec c).valid && !f.copiedMask c && decide ((f.hdr.sec c).ending ≤ d.msgSize)

/-- The uses that `gim_mig_vf_data_import` makes of one section. -/
def sectionCalls (d : Device) (f : File) (c : Content) (ctxDiffers : Bool) : List ImportCall :=
  let sec := f.hdr.sec c
  let data := ImportCall.importData c sec.offset sec.length
  if handedOver d f c then
    if c = .ctx then .compareCtx sec.offset :: (if ctxDiffers then [] else [data]) else [data]
  else []

/-- The three sections of the adapter, each with the outcome of its call. -/
def ctxImport (d : Device) (f : File) (calls : ImportCalls) : Int × File :=
  importSection d f .ctx
    (if calls.ctxDiffers then -EINVAL else if calls.prepareFails then -EFAULT else 0)

def staticImport (d : Device) (f : File) (calls : ImportCalls) : Int × File :=
  importSection d f .vfHwStaticData (if calls.staticFails then -EFAULT else 0)

def dynamicImport (d : Device) (f : File) (calls : ImportCalls) : Int × File :=
  importSection d f .vfHwDynamicData (if calls.dynamicFails then -EFAULT else 0)

/-- The uses that `gim_mig_vf_data_import` makes of a message. -/
def importCalls (d : Device) (f : File) (calls : ImportCalls) : List ImportCall :=
  if !msgCheck f then []
  else
    let r := ctxImport d f calls
    sectionCalls d f .ctx calls.ctxDiffers ++
      if r.1 = 0 then
        let r' := staticImport d r.2 calls
        sectionCalls d r.2 .vfHwStaticData false ++
          if r'.1 = 0 then sectionCalls d r'.2 .vfHwDynamicData false else []
      else []

/-- The file of the target, the place of `msg.bitmap` in the buffer, all uses so far, the bytes
that the headers announced and those that came through, and whether `RESUMING` has been left. -/
structure ImportSys where
  file : File
  bitmapAt : Nat
  calls : List ImportCall
  announced : Nat
  taken : Nat
  stopped : Bool

def passLen (d : Device) (f : File) : Nat :=
  let (_, available, rptr) := threadCheckRingbufferSpace d f
  beforeEnd available rptr / d.fbPageSize * d.fbPageSize

def completes (d : Device) (f : File) (len : Nat) : Bool :=
  decide (f.copiedSizeThread < d.msgSize) &&
    decide (f.copiedSizeThread + min len (d.msgSize - f.copiedSizeThread) = d.msgSize)

def accepts (d : Device) (o : Outside) (f : File) (len : Nat) : Bool :=
  completes d f len && decide ((vfDataImport d (receive o f) o.imports).1 = 0)

/-- `msg.bitmap` after a message. -/
def bitmapPlace (o : Outside) (old : Nat) : Nat :=
  if (o.incomingHdr.sec .vfFbBitmap).valid then (o.incomingHdr.sec .vfFbBitmap).offset else old

def reachesPages (d : Device) (o : Outside) (f : File) (len : Nat) : Bool :=
  (accepts d o f len || decide (d.msgSize ≤ f.copiedSizeThread)) &&
    decide (min len (d.msgSize - f.copiedSizeThread) < len)

def isRingEmpty (f : File) : Bool := f.ring.rptr &&& bufMask == f.ring.wptr &&& bufMask

def importPass (d : Device) (s : ImportSys) (o : Outside) (gpuAddr : Nat) : ImportSys :=
  let f := s.file
  let (_, available, rptr) := threadCheckRingbufferSpace d f
  let len := passLen d f
  let r := threadRingbufferDataCopy d o f gpuAddr available rptr
  let place := if accepts d o f len then bitmapPlace o s.bitmapAt else s.bitmapAt
  { s with
    file :=
      match r.size with
      | none => { r.file with ring := { r.file.ring with state := .abnormal } }
      | some n => if n = 0 then r.file else publishThread r.file ((rptr + n) &&& bufMask)
    bitmapAt := place
    calls := s.calls ++
      ((if completes d f len then importCalls d (receive o f) o.imports else []) ++
        if reachesPages d o f len then .scanBitmap place :: r.calls.map .copyPages else [])
    announced := s.announced + if accepts d o f len then o.incomingHdr.length else 0
    taken := s.taken + r.size.getD 0 }

inductive ImportEvent
  /-- `gim_migf_resume_write` has put bytes into the ring -/
  | write (n : Nat)
  | pass (o : Outside) (gpuAddr : Nat)
  /-- `gim_mig_load_state` comes back with success -/
  | stop

def importStep (d : Device) (s : ImportSys) (e : ImportEvent) : Option ImportSys :=
  if s.stopped then none
  else
    match e with
    | .write n =>
      if n ≤ userCheckRingbufferSpace d s.file s.file.ring.wptr then
        some { s with file := publishUser s.file ((s.file.ring.wptr + n) &&& bufMask) }
      else none
    | .pass o gpuAddr =>
      if s.file.ring.state = .running ∧ (threadCheckRingbufferSpace d s.file).1 then
        some (importPass d s o gpuAddr)
      else none
    | .stop => if isRingEmpty s.file then some { s with stopped := true } else none

/-! ### What a stream must not bring about -/

def ImportCall.Inside (d : Device) : ImportCall → Prop
  | .compareCtx offset => offset + d.ctxSize ≤ d.msgSize
  | .importData _ offset length => offset + length ≤ d.msgSize
  | .scanBitmap offset => offset + bitmapScan d ≤ d.msgSize
  | .copyPages _ => True

def ImportCall.needsCtx : ImportCall → Bool
  | .importData c _ _ => c != .ctx
  | .copyPages _ => true
  | _ => false

def ImportCall.content? : ImportCall → Option Content
  | .importData c _ _ => some c
  | _ => none

def imported (calls : List ImportCall) : List Content := calls.filterMap ImportCall.content?

def ctxFirst : Bool → List ImportCall → Bool
  | _, [] => true
  | seen, c :: cs => (!c.needsCtx || seen) && ctxFirst (seen || c.content? == some .ctx) cs

def contentOrder : List Content := [.ctx, .vfHwStaticData, .vfHwDynamicData]

/-- The stream was safe and, when `RESUMING` has been left, complete. -/
structure SafeImport (d : Device) (s : ImportSys) : Prop where
  inside : ∀ c ∈ s.calls, c.Inside d
  ctxFirst : ctxFirst false s.calls = true
  order : (imported s.calls).Sublist contentOrder
  complete : s.stopped = true → s.taken = s.announced ∧ s.file.ring.state ≠ .abnormal

/-- A message that the checks of the import are good enough for: the ends of its sections do not
wrap; its context is whole; the bitmap that will be scanned lies in the buffer; hardware data and
pages come with a context or after one; static data does not come after dynamic data; and the
header announces what the bitmap asks for. -/
structure WellFormed (d : Device) (s : ImportSys) (o : Outside) : Prop where
  noWrap : ∀ c ∈ contentOrder, (o.incomingHdr.sec c).valid = true →
    (o.incomingHdr.sec c).offset + (o.incomingHdr.sec c).length < 2 ^ 64
  wholeCtx : (o.incomingHdr.sec .ctx).valid = true →
    d.ctxSize ≤ (o.incomingHdr.sec .ctx).length
  bitmap : bitmapPlace o s.bitmapAt + bitmapScan d ≤ d.msgSize
  withCtx : (o.incomingHdr.sec .vfHwStaticData).valid = true ∨
      (o.incomingHdr.sec .vfHwDynamicData).valid = true ∨
      dirtyBytes d o.incomingBitmap ≠ [] →
    (o.incomingHdr.sec .ctx).valid = true ∨ s.file.copiedMask .ctx = true
  inOrder : (o.incomingHdr.sec .vfHwStaticData).valid = true →
    s.file.copiedMask .vfHwDynamicData = false
  length : o.incomingHdr.length = messageLength d o.incomingBitmap

def BetweenMessages (d : Device) (f : File) : Prop :=
  f.copiedSizeThread = 0 ∨
    d.msgSize ≤ f.copiedSizeThread ∧
      d.fbBitmapBits ≤ findNextBit f.msg.bitmap d.fbBitmapBits f.msg.bitPos

/-- Messages are well formed, and `RESUMING` is left between two of them. -/
def Proper (d : Device) (s : ImportSys) : ImportEvent → Prop
  | .write _ => True
  | .pass o _ => completes d s.file (passLen d s.file) = true → WellFormed d s o
  | .stop => BetweenMessages d s.file

/-- A target right after `gim_mig_setup_copy`. -/
def ImportStart (d : Device) (s : ImportSys) : Prop :=
  s.file.isTarget = true ∧ s.file.copiedMask = .zero ∧ s.file.copiedSizeThread = 0 ∧
    s.file.msg.bitPos = 0 ∧ s.file.msg.off = 0 ∧ s.file.ring.rptr = 0 ∧ s.file.ring.wptr = 0 ∧
    s.file.ring.state = .running ∧ s.bitmapAt = d.bitmapOffset ∧ s.calls = [] ∧
    s.announced = 0 ∧ s.taken = 0 ∧ s.stopped = false

def ProperRun (d : Device) : ImportSys → Prop :=
  Run (ImportStart d) (fun s e s' => importStep d s e = some s') (Proper d)

/-! ### One message -/

theorem imported_append (xs ys : List ImportCall) :
    imported (xs ++ ys) = imported xs ++ imported ys := List.filterMap_append

theorem ctxFirst_append (seen : Bool) (xs ys : List ImportCall) :
    ctxFirst seen (xs ++ ys) =
      (ctxFirst seen xs && ctxFirst (seen || (imported xs).contains .ctx) ys) := by
  induction xs generalizing seen with
  | nil => simp [ctxFirst, imported]
  | cons c cs ih =>
    rw [List.cons_append, ctxFirst, ctxFirst, ih, Bool.and_assoc]
    cases c with
    | importData c offset length =>
      have hhead : imported (.importData c offset length :: cs) = c :: imported cs := rfl
      rw [hhead, List.contains_cons, Bool.or_assoc]
      cases c <;> rfl
    | _ => simp [imported, ImportCall.content?]

def copiedList (mask : CopyMask) : List Content := contentOrder.filter mask

theorem copiedList_sublist (mask : CopyMask) : (copiedList mask).Sublist contentOrder :=
  List.filter_sublist

theorem copiedList_set {mask : CopyMask} {c : Content} (hc : c ∈ contentOrder)
    (hnew : mask c = false)
    (hlater : c = .ctx → mask .vfHwStaticData = false ∧ mask .vfHwDynamicData = false)
    (hlater' : c = .vfHwStaticData → mask .vfHwDynamicData = false) :
    copiedList (mask.set c) = copiedList mask ++ [c] := by
  have hself : ∀ c' : Content, (mask.set c) c' = if c' = c then true else mask c' := by
    intro c'
    by_cases h : c' = c
    · rw [h, CopyMask.set_self, if_pos rfl]
    · rw [CopyMask.set_of_ne _ h, if_neg h]
  simp only [contentOrder, List.mem_cons, List.not_mem_nil, or_false] at hc
  rcases hc with rfl | rfl | rfl
  · obtain ⟨hstatic, hdynamic⟩ := hlater rfl
    simp [copiedList, contentOrder, hself, hnew, hstatic, hdynamic]
  · have hdynamic := hlater' rfl
    cases hctx : mask .ctx <;>
      simp [copiedList, contentOrder, hself, hnew, hdynamic, hctx]
  · cases hctx : mask .ctx <;> cases hstatic : mask .vfHwStaticData <;>
      simp [copiedList, contentOrder, hself, hnew, hctx, hstatic]

/-- The uses so far are fine, and the file knows what was handed over. -/
structure Kept (d : Device) (f : File) (calls : List ImportCall) : Prop where
  inside : ∀ c ∈ calls, c.Inside d
  first : ctxFirst false calls = true
  masks : imported calls = copiedList f.copiedMask

structure Fine (d : Device) (calls : List ImportCall) : Prop where
  inside : ∀ c ∈ calls, c.Inside d
  first : ctxFirst false calls = true
  order : (imported calls).Sublist contentOrder

theorem Kept.fine {calls : List ImportCall} (h : Kept d f calls) : Fine d calls :=
  ⟨h.inside, h.first, by rw [h.masks]; exact copiedList_sublist _⟩

theorem Kept.seen {calls : List ImportCall} (h : Kept d f calls) :
    (imported calls).contains .ctx = f.copiedMask .ctx := by
  rw [h.masks, copiedList, contentOrder]
  cases hctx : f.copiedMask .ctx <;> simp [hctx]

theorem Kept.handOver {calls : List ImportCall} {c : Content} {offset length : Nat}
    (h : Kept d f calls) (hc : c ∈ contentOrder) (hnew : f.copiedMask c = false)
    (hinside : offset + length ≤ d.msgSize)
    (hctx : c ≠ .ctx → f.copiedMask .ctx = true)
    (hlater : c = .ctx →
      f.copiedMask .vfHwStaticData = false ∧ f.copiedMask .vfHwDynamicData = false)
    (hlater' : c = .vfHwStaticData → f.copiedMask .vfHwDynamicData = false) :
    Kept d { f with copiedMask := f.copiedMask.set c }
      (calls ++ [.importData c offset length]) where
  inside := by
    intro x hx
    rcases List.mem_append.mp hx with hx | hx
    · exact h.inside x hx
    · rw [List.mem_singleton.mp hx]
      exact hinside
  first := by
    rw [ctxFirst_append, h.first, Bool.true_and, Bool.false_or, h.seen]
    by_cases hne : c = .ctx
    · subst hne
      rfl
    · rw [hctx hne]
      simp [ctxFirst]
  masks := by
    rw [imported_append, h.masks]
    exact (copiedList_set hc hnew hlater hlater').symm

theorem handedOver_iff {c : Content} :
    handedOver d f c = true ↔ (f.hdr.sec c).valid = true ∧ f.copiedMask c = false ∧
      (f.hdr.sec c).ending ≤ d.msgSize := by
  simp [handedOver, and_assoc]

theorem importSection_cases (d : Device) (f : File) (c : Content) (call : Int) :
    (importSection d f c call = (0, f) ∧ (f.hdr.sec c).valid = false ∧
        handedOver d f c = false) ∨
      (importSection d f c call = (-EINVAL, f) ∧ handedOver d f c = false) ∨
      (handedOver d f c = true ∧ importSection d f c call =
        if call ≠ 0 then (call, f) else (0, { f with copiedMask := f.copiedMask.set c })) := by
  unfold importSection handedOver
  simp only
  cases hvalid : (f.hdr.sec c).valid with
  | false => exact .inl ⟨rfl, rfl, rfl⟩
  | true =>
    right
    cases hcopied : f.copiedMask c with
    | true => exact .inl ⟨rfl, rfl⟩
    | false =>
      by_cases hend : d.msgSize < (f.hdr.sec c).ending
      · exact .inl ⟨if_pos hend, by simp; omega⟩
      · refine .inr ⟨by simp; omega, ?_⟩
        simp only [if_true, Bool.false_eq_true, if_false, if_neg hend]

theorem Kept.fine_append {calls more : List ImportCall} (h : Kept d f calls)
    (hinside : ∀ c ∈ more, c.Inside d) (hnone : ∀ c ∈ more, c.needsCtx = false)
    (hempty : imported more = []) : Kept d f (calls ++ more) where
  inside := by
    intro x hx
    rcases List.mem_append.mp hx with hx | hx
    · exact h.inside x hx
    · exact hinside x hx
  first := by
    rw [ctxFirst_append, h.first, Bool.true_and]
    clear hinside hempty
    generalize (false || (imported calls).contains Content.ctx) = seen
    induction more generalizing seen with
    | nil => rfl
    | cons c cs ih =>
      rw [ctxFirst, hnone c List.mem_cons_self]
      exact ih (fun x hx => hnone x (List.mem_cons_of_mem c hx)) _
  masks := by rw [imported_append, hempty, List.append_nil, h.masks]

/-- What a section needs to be handed over safely. -/
structure Admissible (d : Device) (f : File) (c : Content) : Prop where
  inside : (f.hdr.sec c).offset + (f.hdr.sec c).length ≤ d.msgSize
  whole : c = .ctx → (f.hdr.sec c).offset + d.ctxSize ≤ d.msgSize
  withCtx : c ≠ .ctx → f.copiedMask .ctx = true
  later : c = .ctx →
    f.copiedMask .vfHwStaticData = false ∧ f.copiedMask .vfHwDynamicData = false
  later' : c = .vfHwStaticData → f.copiedMask .vfHwDynamicData = false

theorem Kept.importSection {calls : List ImportCall} (h : Kept d f calls) (c : Content)
    (call : Int) (differs : Bool) (hc : c ∈ contentOrder)
    (hgood : handedOver d f c = true → Admissible d f c)
    (hdiffers : differs = true → c = .ctx ∧ call ≠ 0) :
    Fine d (calls ++ sectionCalls d f c differs) ∧
      ((importSection d f c call).1 = 0 →
        Kept d (importSection d f c call).2 (calls ++ sectionCalls d f c differs)) := by
  rcases importSection_cases d f c call with ⟨heq, _, hnot⟩ | ⟨heq, hnot⟩ | ⟨hover, heq⟩
  · rw [sectionCalls, hnot, if_neg Bool.false_ne_true, List.append_nil, heq]
    exact ⟨h.fine, fun _ => h⟩
  · rw [sectionCalls, hnot, if_neg Bool.false_ne_true, List.append_nil, heq]
    exact ⟨h.fine, fun hzero => absurd (show -EINVAL = 0 from hzero) (by decide)⟩
  · obtain ⟨_, hnew, _⟩ := handedOver_iff.mp hover
    obtain ⟨hinside, hwhole, hctx, hlater, hlater'⟩ := hgood hover
    simp only [sectionCalls, hover, if_true]
    by_cases hisCtx : c = .ctx
    · subst hisCtx
      have hcompared : Kept d f (calls ++ [.compareCtx (f.hdr.sec .ctx).offset]) := by
        apply h.fine_append
        · intro x hx
          rw [List.mem_singleton.mp hx]
          exact hwhole rfl
        · intro x hx
          rw [List.mem_singleton.mp hx]
          rfl
        · rfl
      rw [if_pos rfl]
      cases differs with
      | true =>
        rw [heq, if_pos (hdiffers rfl).2]
        exact ⟨hcompared.fine, fun hzero => absurd hzero (hdiffers rfl).2⟩
      | false =>
        have hdone := hcompared.handOver hc hnew hinside hctx hlater hlater'
        rw [List.append_assoc, List.singleton_append] at hdone
        refine ⟨hdone.fine, fun hzero => ?_⟩
        rw [heq] at hzero ⊢
        split at hzero
        · rename_i hcall
          exact absurd hzero hcall
        · rename_i hcall
          rw [if_neg hcall]
          exact hdone
    · have hdone := h.handOver hc hnew hinside hctx hlater hlater'
      rw [if_neg hisCtx]
      refine ⟨hdone.fine, fun hzero => ?_⟩
      rw [heq] at hzero ⊢
      split at hzero
      · rename_i hcall
        exact absurd hzero hcall
      · rename_i hcall
        rw [if_neg hcall]
        exact hdone

theorem importSection_mask {c c' : Content} {call : Int} (hok : (importSection d f c call).1 = 0) :
    (importSection d f c call).2.copiedMask c' =
      if c' = c then f.copiedMask c || (f.hdr.sec c).valid else f.copiedMask c' := by
  rcases importSection_cases d f c call with ⟨heq, hvalid, _⟩ | ⟨heq, _⟩ | ⟨hover, heq⟩
  · rw [heq, hvalid, Bool.or_false]
    by_cases hc : c' = c
    · rw [hc, if_pos rfl]
    · rw [if_neg hc]
  · rw [heq] at hok
    exact absurd (show -EINVAL = 0 from hok) (by decide)
  · rw [heq] at hok ⊢
    split at hok
    · rename_i hcall
      exact absurd hok hcall
    · rename_i hcall
      obtain ⟨hvalid, _, _⟩ := handedOver_iff.mp hover
      rw [if_neg hcall, hvalid, Bool.or_true]
      by_cases hc : c' = c
      · rw [hc, if_pos rfl]
        exact CopyMask.set_self _ _
      · rw [if_neg hc]
        exact CopyMask.set_of_ne _ hc

def CtxKnown (f : File) : Prop :=
  f.copiedMask .vfHwStaticData = true ∨ f.copiedMask .vfHwDynamicData = true →
    f.copiedMask .ctx = true

theorem vfDataImport_accepted {calls : ImportCalls} (hok : vfDataImport d f calls = (0, g)) :
    ∃ f₁ f₂, msgCheck f = true ∧ ctxImport d f calls = (0, f₁) ∧
      staticImport d f₁ calls = (0, f₂) ∧ dynamicImport d f₂ calls = (0, g) := by
  unfold vfDataImport at hok
  split at hok
  · exact absurd (Prod.mk.inj hok).1 (by decide)
  · rename_i hcheck
    simp only at hok
    generalize hr₁ : importSection d f .ctx
      (if calls.ctxDiffers then -EINVAL else if calls.prepareFails then -EFAULT else 0) = r₁ at hok
    obtain ⟨ret₁, f₁⟩ := r₁
    split at hok
    · rename_i f₁' heq
      obtain ⟨rfl, rfl⟩ := Prod.mk.inj heq
      generalize hr₂ : importSection d f₁ .vfHwStaticData
        (if calls.staticFails then -EFAULT else 0) = r₂ at hok
      obtain ⟨ret₂, f₂⟩ := r₂
      split at hok
      · rename_i f₂' heq
        obtain ⟨rfl, rfl⟩ := Prod.mk.inj heq
        generalize hr₃ : importSection d f₂ .vfHwDynamicData
          (if calls.dynamicFails then -EFAULT else 0) = r₃ at hok
        obtain ⟨ret₃, f₃⟩ := r₃
        split at hok
        · rename_i f₃' heq
          obtain ⟨rfl, rfl⟩ := Prod.mk.inj heq
          have hlast : f₃ = g := by
            split at hok
            · split at hok
              · exact absurd (Prod.mk.inj hok).1 (by decide)
              · split at hok
                · exact absurd (Prod.mk.inj hok).1 (by decide)
                · exact (Prod.mk.inj hok).2
            · exact (Prod.mk.inj hok).2
          subst hlast
          exact ⟨f₁, f₂, by simpa using hcheck, hr₁, hr₂, hr₃⟩
        · rename_i hne heq
          exact (hne (Prod.mk.inj hok).1).elim
      · rename_i hne heq
        exact (hne (Prod.mk.inj hok).1).elim
    · rename_i hne heq
      exact (hne (Prod.mk.inj hok).1).elim

theorem WellFormed.admissible {s : ImportSys} {o : Outside} (h : WellFormed d s o) {c : Content}
    (hhdr : f.hdr = o.incomingHdr) (hc : c ∈ contentOrder) (hknown : CtxKnown f)
    (hctx : c ≠ .ctx → (f.hdr.sec c).valid = true → f.copiedMask .ctx = true)
    (horder : c = .vfHwStaticData → f.copiedMask .vfHwDynamicData = s.file.copiedMask .vfHwDynamicData)
    (hover : handedOver d f c = true) : Admissible d f c := by
  obtain ⟨hvalid, hnew, hle⟩ := handedOver_iff.mp hover
  rw [hhdr] at hvalid hle hctx
  have hinside : (o.incomingHdr.sec c).offset + (o.incomingHdr.sec c).length ≤ d.msgSize := by
    rwa [Section.ending, Nat.mod_eq_of_lt (h.noWrap c hc hvalid)] at hle
  have hnone : c = .ctx → ∀ c', c' = .vfHwStaticData ∨ c' = .vfHwDynamicData →
      f.copiedMask c' = false := by
    intro hisCtx c' hc'
    subst hisCtx
    cases hmask : f.copiedMask c' with
    | false => rfl
    | true =>
      have hseen := hknown (by rcases hc' with rfl | rfl <;> simp [hmask])
      rw [hnew] at hseen
      exact absurd hseen Bool.false_ne_true
  exact {
    inside := by rw [hhdr]; exact hinside
    whole := by
      intro hisCtx
      subst hisCtx
      rw [hhdr]
      have := h.wholeCtx hvalid
      omega
    withCtx := fun hne => hctx hne hvalid
    later := fun hisCtx => ⟨hnone hisCtx _ (.inl rfl), hnone hisCtx _ (.inr rfl)⟩
    later' := by
      intro hisStatic
      rw [horder hisStatic]
      subst hisStatic
      exact h.inOrder hvalid }

theorem WellFormed.imports {s : ImportSys} {o : Outside} (h : WellFormed d s o)
    (hkept : Kept d s.file s.calls) (hknown : CtxKnown s.file) :
    Fine d (s.calls ++ importCalls d (receive o s.file) o.imports) ∧
      ∀ g, vfDataImport d (receive o s.file) o.imports = (0, g) →
        Kept d g (s.calls ++ importCalls d (receive o s.file) o.imports) ∧ CtxKnown g ∧
          (dirtyBytes d o.incomingBitmap ≠ [] → g.copiedMask .ctx = true) := by
  have hkept₀ : Kept d (receive o s.file) s.calls := ⟨hkept.inside, hkept.first, hkept.masks⟩
  unfold importCalls
  by_cases hcheck : msgCheck (receive o s.file) = true
  · rw [if_neg (by rw [hcheck]; decide)]
    simp only
    -- the context
    obtain ⟨hfine₁, hgood₁⟩ := hkept₀.importSection .ctx
      (if o.imports.ctxDiffers then -EINVAL else if o.imports.prepareFails then -EFAULT else 0)
      o.imports.ctxDiffers (by decide)
      (h.admissible rfl (by decide) hknown (fun hne => absurd rfl hne) (fun _ => rfl))
      (fun hdiffers => ⟨rfl, by rw [if_pos hdiffers]; decide⟩)
    have hmask₁ : (ctxImport d (receive o s.file) o.imports).1 = 0 → ∀ c,
        (ctxImport d (receive o s.file) o.imports).2.copiedMask c =
          if c = .ctx then s.file.copiedMask .ctx || (o.incomingHdr.sec .ctx).valid
          else s.file.copiedMask c := fun hok _ => importSection_mask hok
    have hmsg₁ : (ctxImport d (receive o s.file) o.imports).2.hdr = o.incomingHdr := by
      unfold File.hdr ctxImport
      rw [importSection_msg]
      rfl
    rw [← ctxImport] at hgood₁
    generalize hr₁ : ctxImport d (receive o s.file) o.imports = r₁ at hgood₁ hmask₁ hmsg₁
    obtain ⟨ret₁, f₁⟩ := r₁
    by_cases hret₁ : ret₁ = 0
    · subst hret₁
      have hkept₁ := hgood₁ rfl
      have hmask₁ := hmask₁ rfl
      have hwith : (o.incomingHdr.sec .ctx).valid = true ∨ s.file.copiedMask .ctx = true →
          f₁.copiedMask .ctx = true := by
        intro hctx
        rw [hmask₁, if_pos rfl, Bool.or_eq_true]
        exact hctx.symm
      have hknown₁ : CtxKnown f₁ := by
        intro hhw
        rw [hmask₁, hmask₁, if_neg (by decide), if_neg (by decide)] at hhw
        exact hwith (.inr (hknown hhw))
      simp only [if_true]
      -- the static data
      obtain ⟨hfine₂, hgood₂⟩ := hkept₁.importSection .vfHwStaticData
        (if o.imports.staticFails then -EFAULT else 0) false (by decide)
        (h.admissible hmsg₁ (by decide) hknown₁
          (fun _ hvalid => hwith (h.withCtx (.inl (hmsg₁ ▸ hvalid))))
          (fun _ => by rw [hmask₁, if_neg (by decide)]))
        (fun hne => absurd hne Bool.false_ne_true)
      have hmask₂ : (staticImport d f₁ o.imports).1 = 0 → ∀ c,
          (staticImport d f₁ o.imports).2.copiedMask c =
            if c = .vfHwStaticData then
              f₁.copiedMask .vfHwStaticData || (f₁.hdr.sec .vfHwStaticData).valid
            else f₁.copiedMask c := fun hok _ => importSection_mask hok
      have hmsg₂ : (staticImport d f₁ o.imports).2.hdr = o.incomingHdr := by
        rw [← hmsg₁]
        unfold File.hdr staticImport
        rw [importSection_msg]
      rw [← staticImport] at hgood₂
      generalize hr₂ : staticImport d f₁ o.imports = r₂ at hgood₂ hmask₂ hmsg₂
      obtain ⟨ret₂, f₂⟩ := r₂
      by_cases hret₂ : ret₂ = 0
      · subst hret₂
        have hkept₂ := hgood₂ rfl
        have hmask₂ := hmask₂ rfl
        have hctx₂ : f₂.copiedMask .ctx = f₁.copiedMask .ctx := by rw [hmask₂, if_neg (by decide)]
        have hknown₂ : CtxKnown f₂ := by
          intro hhw
          rw [hctx₂]
          rw [hmask₂, hmask₂, if_pos rfl, if_neg (by decide), Bool.or_eq_true] at hhw
          rcases hhw with (hmark | hvalid) | hdynamic
          · exact hknown₁ (.inl hmark)
          · exact hwith (h.withCtx (.inl (hmsg₁ ▸ hvalid)))
          · exact hknown₁ (.inr hdynamic)
        simp only [if_true]
        -- the dynamic data
        obtain ⟨hfine₃, hgood₃⟩ := hkept₂.importSection .vfHwDynamicData
          (if o.imports.dynamicFails then -EFAULT else 0) false (by decide)
          (h.admissible hmsg₂ (by decide) hknown₂
            (fun _ hvalid => hctx₂ ▸ hwith (h.withCtx (.inr (.inl (hmsg₂ ▸ hvalid)))))
            (fun hne => Content.noConfusion hne))
          (fun hne => absurd hne Bool.false_ne_true)
        rw [List.append_assoc, List.append_assoc] at hfine₃ hgood₃
        refine ⟨hfine₃, fun g haccept => ?_⟩
        obtain ⟨f₁', f₂', _, hr₁', hr₂', hr₃⟩ := vfDataImport_accepted haccept
        rw [hr₁, Prod.mk.injEq] at hr₁'
        obtain ⟨_, rfl⟩ := hr₁'
        rw [hr₂, Prod.mk.injEq] at hr₂'
        obtain ⟨_, rfl⟩ := hr₂'
        have hok₃ : (dynamicImport d f₂ o.imports).1 = 0 := by rw [hr₃]
        have hmask₃ : ∀ c, g.copiedMask c =
            if c = .vfHwDynamicData then
              f₂.copiedMask .vfHwDynamicData || (f₂.hdr.sec .vfHwDynamicData).valid
            else f₂.copiedMask c := by
          intro c
          have := (@importSection_mask _ _ _ c) hok₃
          rwa [← dynamicImport, hr₃] at this
        have hctx₃ : g.copiedMask .ctx = f₁.copiedMask .ctx := by
          rw [hmask₃, if_neg (by decide), hctx₂]
        rw [← dynamicImport, hr₃] at hgood₃
        refine ⟨hgood₃ rfl, ?_, fun hpages => ?_⟩
        · intro hhw
          rw [hctx₃]
          rw [hmask₃, hmask₃, if_pos rfl, if_neg (by decide), Bool.or_eq_true] at hhw
          rcases hhw with hstatic | hmark | hvalid
          · exact hctx₂ ▸ hknown₂ (.inl hstatic)
          · exact hctx₂ ▸ hknown₂ (.inr hmark)
          · exact hwith (h.withCtx (.inr (.inl (hmsg₂ ▸ hvalid))))
        · rw [hctx₃]
          exact hwith (h.withCtx (.inr (.inr hpages)))
      · rw [if_neg hret₂, List.append_nil]
        rw [List.append_assoc] at hfine₂
        refine ⟨hfine₂, fun g haccept => ?_⟩
        obtain ⟨f₁', f₂', _, hr₁', hr₂', _⟩ := vfDataImport_accepted haccept
        rw [hr₁, Prod.mk.injEq] at hr₁'
        obtain ⟨_, rfl⟩ := hr₁'
        rw [hr₂, Prod.mk.injEq] at hr₂'
        exact absurd hr₂'.1 hret₂
    · rw [if_neg hret₁, List.append_nil]
      refine ⟨hfine₁, fun g haccept => ?_⟩
      obtain ⟨f₁', _, _, hr₁', _⟩ := vfDataImport_accepted haccept
      rw [hr₁, Prod.mk.injEq] at hr₁'
      exact absurd hr₁'.1 hret₁
  · rw [if_pos (by simpa using hcheck), List.append_nil]
    refine ⟨hkept.fine, fun g haccept => ?_⟩
    obtain ⟨_, _, hchecked, _⟩ := vfDataImport_accepted haccept
    exact absurd hchecked hcheck

/-! ### One pass -/

theorem Kept.congr {calls : List ImportCall} (h : Kept d f calls)
    (hmask : g.copiedMask = f.copiedMask) : Kept d g calls :=
  ⟨h.inside, h.first, by rw [h.masks, hmask]⟩

theorem Kept.copies {calls : List ImportCall} {place : Nat} {copies : List FbCopy}
    (h : Kept d f calls) (hplace : place + bitmapScan d ≤ d.msgSize)
    (hctx : copies ≠ [] → f.copiedMask .ctx = true) :
    Kept d f (calls ++ .scanBitmap place :: copies.map .copyPages) := by
  have hscan : Kept d f (calls ++ [.scanBitmap place]) := by
    apply h.fine_append
    · intro x hx
      rw [List.mem_singleton.mp hx]
      exact hplace
    · intro x hx
      rw [List.mem_singleton.mp hx]
      rfl
    · rfl
  have hnone : imported (copies.map .copyPages) = [] := by
    clear hctx
    induction copies with
    | nil => rfl
    | cons c cs ih => exact ih
  rw [← List.singleton_append, ← List.append_assoc]
  refine ⟨?_, ?_, ?_⟩
  · intro x hx
    rcases List.mem_append.mp hx with hx | hx
    · exact hscan.inside x hx
    · obtain ⟨c, _, rfl⟩ := List.mem_map.mp hx
      trivial
  · rw [ctxFirst_append, hscan.first, Bool.true_and, Bool.false_or, hscan.seen]
    rcases copies with _ | ⟨c, cs⟩
    · rfl
    · rw [hctx (List.cons_ne_nil c cs)]
      clear hctx hnone
      generalize c :: cs = copies
      induction copies with
      | nil => rfl
      | cons c cs ih => simpa [ctxFirst] using ih
  · rw [imported_append, hnone, List.append_nil, hscan.masks]

theorem dirtyFbCopyLoop_none {fails : FbCopy → Bool} {gpuAddr fuel bitsCnt left copied : Nat}
    {calls : List FbCopy}
    (h : d.fbBitmapBits ≤ findNextBit f.msg.bitmap d.fbBitmapBits f.msg.bitPos) :
    (dirtyFbCopyLoop d fails gpuAddr fuel f bitsCnt left copied calls).calls = calls := by
  cases fuel with
  | zero => rfl
  | succ fuel =>
    rw [dirtyFbCopyLoop]
    split
    · rfl
    · simp only [if_pos h]

theorem fbPart_calls {o : Outside} {gpuAddr ringOffset len sz : Nat}
    (h : (fbPart d o f gpuAddr ringOffset len sz).calls ≠ []) :
    sz < len ∧ ¬ d.fbBitmapBits ≤ findNextBit f.msg.bitmap d.fbBitmapBits f.msg.bitPos := by
  have hcalls : (fbPart d o f gpuAddr ringOffset len sz).calls =
      if sz < len then
        (vfDirtyFbCopy d o.fbCopyFails (gpuAddr + ringOffset + sz) f (len - sz)).calls
      else [] := by
    unfold fbPart
    split
    · simp only
      split <;> rfl
    · rfl
  rw [hcalls] at h
  split at h
  · rename_i hlt
    refine ⟨hlt, fun hover => h ?_⟩
    exact dirtyFbCopyLoop_none hover
  · exact absurd rfl h

theorem fbPart_keeps (d : Device) (o : Outside) (f : File) (gpuAddr ringOffset len sz : Nat) :
    (fbPart d o f gpuAddr ringOffset len sz).file.copiedMask = f.copiedMask ∧
      (f.isTarget = true →
        (fbPart d o f gpuAddr ringOffset len sz).file.ring.state = f.ring.state) := by
  have hkeeps : ∀ r : Copied, (OnlyMsg f r.file ∨ r.file = endMessage f) →
      r.file.copiedMask = f.copiedMask ∧ (f.isTarget = true → r.file.ring.state = f.ring.state) := by
    rintro r (⟨msg, hfile⟩ | hfile)
    · rw [hfile]
      exact ⟨rfl, fun _ => rfl⟩
    · rw [hfile]
      unfold endMessage clearThreadCopyInfo
      simp only
      refine ⟨?_, fun htarget => ?_⟩
      · split <;> rfl
      · rw [if_neg (by simp [htarget])]
  have hpart : ∀ r : Copied, (OnlyMsg f r.file ∨ r.file = endMessage f) →
      (match r.size with
        | none => (⟨none, r.isDone, r.file, r.calls⟩ : Copied)
        | some n => ⟨some (sz + n), r.isDone, { r.file with
            copiedSizeThread := if r.isDone then 0 else r.file.copiedSizeThread + (sz + n) },
            r.calls⟩).file.copiedMask = f.copiedMask ∧
      (f.isTarget = true → (match r.size with
        | none => (⟨none, r.isDone, r.file, r.calls⟩ : Copied)
        | some n => ⟨some (sz + n), r.isDone, { r.file with
            copiedSizeThread := if r.isDone then 0 else r.file.copiedSizeThread + (sz + n) },
            r.calls⟩).file.ring.state = f.ring.state) := by
    intro r hr
    cases r.size with
    | none => exact hkeeps r hr
    | some n => exact hkeeps r hr
  unfold fbPart
  apply hpart
  split
  · exact dirtyFbCopyLoop_file ..
  · exact .inl (.refl f)

/-- What the target has made of the stream so far, while its copy thread is well. -/
structure Receiving (d : Device) (f : File) (calls : List ImportCall)
    (bitmapAt announced taken : Nat) : Prop where
  kept : Kept d f calls
  known : CtxKnown f
  aligned : d.fbPageSize ∣ f.copiedSizeThread
  head : f.copiedSizeThread < d.msgSize →
    f.msg.bitPos = 0 ∧ f.msg.off = 0 ∧ taken = announced + f.copiedSizeThread
  pages : d.msgSize ≤ f.copiedSizeThread → bitmapAt + bitmapScan d ≤ d.msgSize ∧
    ∃ bitmap, At d bitmap (f.copiedSizeThread - d.msgSize) f ∧
      (dirtyBytes d bitmap ≠ [] → f.copiedMask .ctx = true) ∧
      f.copiedSizeThread ≤ messageLength d bitmap ∧
      taken + (messageLength d bitmap - f.copiedSizeThread) = announced

theorem Receiving.congr {calls : List ImportCall} {bitmapAt announced taken : Nat}
    (h : Receiving d f calls bitmapAt announced taken) (hmask : g.copiedMask = f.copiedMask)
    (hcopied : g.copiedSizeThread = f.copiedSizeThread) (hmsg : g.msg = f.msg) :
    Receiving d g calls bitmapAt announced taken where
  kept := h.kept.congr hmask
  known := by
    unfold CtxKnown
    rw [hmask]
    exact h.known
  aligned := by
    rw [hcopied]
    exact h.aligned
  head := by
    rw [hcopied, hmsg]
    exact h.head
  pages := by
    rw [hcopied]
    intro hle
    obtain ⟨hplace, bitmap, hat, hctx, hlong, hcount⟩ := h.pages hle
    refine ⟨hplace, bitmap, ⟨?_, ?_, ?_⟩, by rw [hmask]; exact hctx, hlong, hcount⟩
    · rw [hmsg]
      exact hat.pages
    · rw [hmsg]
      exact hat.off
    · rw [hmsg]
      exact hat.kept

section pass

variable {o : Outside} {s : ImportSys} {gpuAddr ringOffset len : Nat}

theorem ringbufferDataCopy_head (o : Outside) (gpuAddr ringOffset : Nat) (htarget : f.isTarget = true)
    (hhead : f.copiedSizeThread < d.msgSize) (hnot : completes d f len = false) :
    f.copiedSizeThread + len < d.msgSize ∧
      ringbufferDataCopy d o f gpuAddr ringOffset len =
        ⟨some len, false, { f with copiedSizeThread := f.copiedSizeThread + len }, []⟩ := by
  simp only [completes, hhead, decide_true, Bool.true_and, decide_eq_false_iff_not] at hnot
  have hshort : f.copiedSizeThread + len < d.msgSize := by omega
  have hmin : min len (d.msgSize - f.copiedSizeThread) = len := by omega
  have hcopy : msgCopy d o f len = (some len, f) := by
    unfold msgCopy
    simp only [htarget, hmin, Bool.not_true, Bool.false_and, Bool.false_eq_true, if_false, ne_eq,
      not_true_eq_false, Bool.true_and]
    rw [if_neg (by simp; omega)]
  refine ⟨hshort, ?_⟩
  unfold ringbufferDataCopy
  rw [if_pos hhead, hcopy]
  simp [fbPart]

theorem ringbufferDataCopy_completes (o : Outside) (gpuAddr ringOffset : Nat)
    (htarget : f.isTarget = true) (hdone : completes d f len = true) :
    (accepts d o f len = false ∧ (ringbufferDataCopy d o f gpuAddr ringOffset len).size = none ∧
        (ringbufferDataCopy d o f gpuAddr ringOffset len).calls = []) ∨
      ∃ g, accepts d o f len = true ∧ vfDataImport d (receive o f) o.imports = (0, g) ∧
        ringbufferDataCopy d o f gpuAddr ringOffset len =
          fbPart d o g gpuAddr ringOffset len (min len (d.msgSize - f.copiedSizeThread)) := by
  have hfull := hdone
  simp only [completes, Bool.and_eq_true, decide_eq_true_eq] at hfull
  obtain ⟨hhead, hfull⟩ := hfull
  unfold accepts
  rw [hdone, Bool.true_and]
  unfold ringbufferDataCopy
  rw [if_pos hhead]
  rcases himport : vfDataImport d (receive o f) o.imports with ⟨ret, g⟩
  by_cases hret : ret = 0
  · subst hret
    have hcopy : msgCopy d o f len = (some (min len (d.msgSize - f.copiedSizeThread)), g) := by
      unfold msgCopy
      simp only [htarget, himport, Bool.not_true, Bool.false_and, Bool.false_eq_true, if_false,
        ne_eq, not_true_eq_false, Bool.true_and]
      exact if_pos (by simpa using hfull)
    rw [hcopy]
    exact .inr ⟨g, rfl, rfl, rfl⟩
  · have hcopy : msgCopy d o f len = (none, g) := by
      unfold msgCopy
      simp only [htarget, himport, Bool.not_true, Bool.false_and, Bool.false_eq_true, if_false,
        ne_eq, not_true_eq_false, Bool.true_and]
      exact if_pos (by simpa using hfull)
    rw [hcopy]
    exact .inl ⟨by simpa using hret, rfl, rfl⟩

theorem PassMoves.receiving {r : Copied} {bitmap : Nat → Bool} {c place announced taken : Nat}
    {calls : List ImportCall} (h : PassMoves d o bitmap true c gpuAddr ringOffset len r)
    (hkept : Kept d r.file calls) (hknown : CtxKnown r.file)
    (hctx : dirtyBytes d bitmap ≠ [] → r.file.copiedMask .ctx = true)
    (hplace : place + bitmapScan d ≤ d.msgSize) (haligned : d.fbPageSize ∣ c)
    (hlen : d.fbPageSize ∣ len) (hfull : d.msgSize ≤ c + len) (hlong : c ≤ messageLength d bitmap)
    (hcount : taken + (messageLength d bitmap - c) = announced) :
    Receiving d r.file calls place announced (taken + min len (messageLength d bitmap - c)) := by
  have hlength : messageLength d bitmap = d.msgSize + (dirtyBytes d bitmap).length := rfl
  have hpositive := d.msgSize_pos
  by_cases hdone : r.isDone = true
  · obtain ⟨_, hend⟩ := h.done.mp hdone
    obtain ⟨hcopied, hpos, hoff⟩ := h.beyond hdone
    exact {
      kept := hkept
      known := hknown
      aligned := by
        rw [hcopied]
        exact Nat.dvd_zero _
      head := fun _ => ⟨hpos, hoff, by omega⟩
      pages := fun hle => by omega }
  · have hmore := mt h.done.mpr hdone
    have hreached := h.goes (Bool.eq_false_iff.mpr hdone)
    have hcopied := hreached.copied
    exact {
      kept := hkept
      known := hknown
      aligned := by
        rw [hcopied]
        exact Nat.dvd_add haligned hlen
      head := fun hlt => by omega
      pages := fun _ => by
        refine ⟨hplace, bitmap, ?_, hctx, by omega, by omega⟩
        rw [hcopied]
        exact hreached.pages hfull }

def passCalls (d : Device) (o : Outside) (s : ImportSys) (len : Nat) (copies : List FbCopy) :
    List ImportCall :=
  s.calls ++
    ((if completes d s.file len then importCalls d (receive o s.file) o.imports else []) ++
      if reachesPages d o s.file len then
        .scanBitmap (if accepts d o s.file len then bitmapPlace o s.bitmapAt else s.bitmapAt) ::
          copies.map .copyPages
      else [])

theorem passCalls_eq {copies : List FbCopy} (hnone : reachesPages d o s.file len = false) :
    passCalls d o s len copies = s.calls ++
      if completes d s.file len then importCalls d (receive o s.file) o.imports else [] := by
  rw [passCalls, hnone, if_neg Bool.false_ne_true, List.append_nil]

theorem Kept.fbPart {bitmap : Nat → Bool} {pos place : Nat} {calls : List ImportCall}
    (h : Kept d f calls) (o : Outside) (gpuAddr ringOffset len sz : Nat) (hat : At d bitmap pos f)
    (hctx : dirtyBytes d bitmap ≠ [] → f.copiedMask .ctx = true)
    (hplace : place + bitmapScan d ≤ d.msgSize) :
    Kept d (fbPart d o f gpuAddr ringOffset len sz).file (calls ++
      if decide (sz < len) then
        .scanBitmap place :: (fbPart d o f gpuAddr ringOffset len sz).calls.map .copyPages
      else []) := by
  apply Kept.congr _ (fbPart_keeps d o f gpuAddr ringOffset len sz).1
  by_cases hlt : sz < len
  · rw [if_pos (decide_eq_true hlt)]
    apply h.copies hplace
    intro hcalls
    obtain ⟨_, hnot⟩ := fbPart_calls hcalls
    apply hctx
    intro hnone
    rw [hat.over_iff, hnone] at hnot
    exact hnot (Nat.zero_le _)
  · rw [if_neg (by simpa using hlt), List.append_nil]
    exact h

theorem Receiving.pass (h : Receiving d s.file s.calls s.bitmapAt s.announced s.taken)
    (htarget : s.file.isTarget = true)
    (hwell : completes d s.file len = true → WellFormed d s o) (haligned : d.fbPageSize ∣ len)
    (hlen : len ≤ ringBufSize) :
    ((ringbufferDataCopy d o s.file gpuAddr ringOffset len).size = none ∧
        Fine d (passCalls d o s len (ringbufferDataCopy d o s.file gpuAddr ringOffset len).calls)) ∨
      ∃ n, (ringbufferDataCopy d o s.file gpuAddr ringOffset len).size = some n ∧
        (ringbufferDataCopy d o s.file gpuAddr ringOffset len).file.ring.state =
          s.file.ring.state ∧
        Receiving d (ringbufferDataCopy d o s.file gpuAddr ringOffset len).file
          (passCalls d o s len (ringbufferDataCopy d o s.file gpuAddr ringOffset len).calls)
          (if accepts d o s.file len then bitmapPlace o s.bitmapAt else s.bitmapAt)
          (s.announced + if accepts d o s.file len then o.incomingHdr.length else 0)
          (s.taken + n) := by
  have hwhole := d.fbPageSize_dvd_msgSize
  rcases Nat.lt_or_ge s.file.copiedSizeThread d.msgSize with hhead | hpages
  · obtain ⟨hpos, hoff, hcount⟩ := h.head hhead
    cases hcompletes : completes d s.file len with
    | false =>
      obtain ⟨hshort, heq⟩ := ringbufferDataCopy_head o gpuAddr ringOffset htarget hhead hcompletes
      have haccepts : accepts d o s.file len = false := by
        rw [accepts, hcompletes, Bool.false_and]
      have hnone : reachesPages d o s.file len = false := by
        rw [reachesPages, haccepts]
        simp
        omega
      rw [heq, passCalls_eq hnone, hcompletes, haccepts]
      simp only [Bool.false_eq_true, if_false, List.append_nil, Nat.add_zero]
      refine .inr ⟨len, rfl, trivial, ?_⟩
      exact {
        kept := h.kept.congr rfl
        known := h.known
        aligned := Nat.dvd_add h.aligned haligned
        head := fun _ => ⟨hpos, hoff, by simp only; omega⟩
        pages := fun hle => by
          simp only at hle
          omega }
    | true =>
      have hwell := hwell hcompletes
      obtain ⟨hfine, himports⟩ := hwell.imports h.kept h.known
      have hfull := hcompletes
      simp only [completes, Bool.and_eq_true, decide_eq_true_eq] at hfull
      rcases ringbufferDataCopy_completes o gpuAddr ringOffset
        htarget hcompletes with ⟨haccepts, hsize, _⟩ | ⟨g, haccepts, himport, heq⟩
      · left
        have hnone : reachesPages d o s.file len = false := by
          rw [reachesPages, haccepts]
          simp
          omega
        rw [passCalls_eq hnone, hcompletes, if_pos rfl]
        exact ⟨hsize, hfine⟩
      · obtain ⟨hkept, hknown, hctx⟩ := himports g himport
        have hmsg : g.msg = (receive o s.file).msg := by
          rw [← vfDataImport_msg d (receive o s.file) o.imports, himport]
        have hat : At d o.incomingBitmap 0 g :=
          at_zero (by rw [hmsg]; rfl) (by rw [hmsg]; exact hpos) (by rw [hmsg]; exact hoff)
        have hreaches : reachesPages d o s.file len =
            decide (min len (d.msgSize - s.file.copiedSizeThread) < len) := by
          rw [reachesPages, haccepts, Bool.true_or, Bool.true_and]
        have hcalls : passCalls d o s len
            (ringbufferDataCopy d o s.file gpuAddr ringOffset len).calls =
            s.calls ++ importCalls d (receive o s.file) o.imports ++
              if decide (min len (d.msgSize - s.file.copiedSizeThread) < len) then
                .scanBitmap (bitmapPlace o s.bitmapAt) :: (fbPart d o g gpuAddr ringOffset len
                  (min len (d.msgSize - s.file.copiedSizeThread))).calls.map .copyPages
              else [] := by
          rw [passCalls, hcompletes, hreaches, haccepts, if_pos rfl, if_pos rfl, heq,
            List.append_assoc]
        have hkept' := hkept.fbPart o gpuAddr ringOffset len
          (min len (d.msgSize - s.file.copiedSizeThread)) hat hctx hwell.bitmap
        obtain ⟨hkeeps, hstate⟩ := fbPart_keeps d o g gpuAddr ringOffset len
          (min len (d.msgSize - s.file.copiedSizeThread))
        have hcursor := vfDataImport_same d (receive o s.file) o.imports
        rw [himport] at hcursor
        have hstate := (hstate (hcursor.isTarget.trans htarget)).trans
          (congrArg Ring.state hcursor.ring)
        have hmoves : (ringbufferDataCopy d o s.file gpuAddr ringOffset len).size ≠ none →
            PassMoves d o o.incomingBitmap true s.file.copiedSizeThread gpuAddr ringOffset len
              (ringbufferDataCopy d o s.file gpuAddr ringOffset len) := ringbufferDataCopy_moves
          ⟨rfl, htarget, fun _ => ⟨hpos, hoff⟩, fun _ => rfl, fun hne => Bool.noConfusion hne,
            fun hle => by omega⟩ (by unfold messageLength; omega) hlen (fun hle => by omega)
        rw [hcalls, haccepts, if_pos rfl, if_pos rfl]
        rw [heq] at hmoves ⊢
        generalize fbPart d o g gpuAddr ringOffset len
          (min len (d.msgSize - s.file.copiedSizeThread)) = r at hmoves hkept' hkeeps hstate ⊢
        rcases hsize : r.size with _ | n
        · exact .inl ⟨rfl, hkept'.fine⟩
        · right
          have hpass := hmoves (by rw [hsize]; exact Option.some_ne_none n)
          have hn := hpass.size
          rw [hsize, Option.some.injEq] at hn
          refine ⟨n, rfl, hstate, ?_⟩
          rw [hn, hwell.length]
          have hlong : d.msgSize ≤ messageLength d o.incomingBitmap := Nat.le_add_right _ _
          apply hpass.receiving hkept' _ _ hwell.bitmap h.aligned haligned (by omega) (by omega)
            (by omega)
          · unfold CtxKnown
            rw [hkeeps]
            exact hknown
          · rw [hkeeps]
            exact hctx
  · obtain ⟨hplace, bitmap, hat, hctx, hlong, hcount⟩ := h.pages hpages
    have hcompletes : completes d s.file len = false := by
      rw [completes]
      simp
      omega
    have haccepts : accepts d o s.file len = false := by
      rw [accepts, hcompletes, Bool.false_and]
    have hzero : min len (d.msgSize - s.file.copiedSizeThread) = 0 := by omega
    have hreaches : reachesPages d o s.file len = decide (0 < len) := by
      rw [reachesPages, haccepts, hzero, decide_eq_true hpages, Bool.false_or, Bool.true_and]
    have heq : ringbufferDataCopy d o s.file gpuAddr ringOffset len =
        fbPart d o s.file gpuAddr ringOffset len 0 := by
      unfold ringbufferDataCopy
      rw [if_neg (by omega)]
    -- what comes in a message does not count any more
    have hmoves : (ringbufferDataCopy d { o with incomingBitmap := bitmap } s.file gpuAddr
          ringOffset len).size ≠ none →
        PassMoves d { o with incomingBitmap := bitmap } bitmap true s.file.copiedSizeThread gpuAddr
          ringOffset len (ringbufferDataCopy d { o with incomingBitmap := bitmap } s.file gpuAddr
            ringOffset len) := ringbufferDataCopy_moves
      ⟨rfl, htarget, fun hlt => by omega, fun _ => rfl, fun hne => Bool.noConfusion hne,
        fun _ => hat⟩ hlong hlen
      (fun _ hoff => absurd (Nat.mod_eq_zero_of_dvd (Nat.dvd_sub h.aligned hwhole)) hoff)
    have hsame : ringbufferDataCopy d { o with incomingBitmap := bitmap } s.file gpuAddr ringOffset
        len = fbPart d o s.file gpuAddr ringOffset len 0 := by
      unfold ringbufferDataCopy
      rw [if_neg (by omega)]
      rfl
    have hcalls : passCalls d o s len
        (ringbufferDataCopy d o s.file gpuAddr ringOffset len).calls =
        s.calls ++ if decide (0 < len) then
            .scanBitmap s.bitmapAt ::
              (fbPart d o s.file gpuAddr ringOffset len 0).calls.map .copyPages
          else [] := by
      rw [passCalls, hcompletes, hreaches, haccepts, heq]
      simp only [Bool.false_eq_true, if_false, List.nil_append]
    have hkept' := h.kept.fbPart o gpuAddr ringOffset len 0 hat hctx hplace
    obtain ⟨hkeeps, hstate⟩ := fbPart_keeps d o s.file gpuAddr ringOffset len 0
    have hstate := hstate htarget
    rw [hcalls, haccepts]
    rw [hsame] at hmoves
    rw [heq]
    simp only [Bool.false_eq_true, if_false, Nat.add_zero]
    generalize fbPart d o s.file gpuAddr ringOffset len 0 = r at hmoves hkept' hkeeps hstate ⊢
    rcases hsize : r.size with _ | n
    · exact .inl ⟨rfl, hkept'.fine⟩
    · right
      have hpass := hmoves (by rw [hsize]; exact Option.some_ne_none n)
      have hn := hpass.size
      rw [hsize, Option.some.injEq] at hn
      refine ⟨n, rfl, hstate, ?_⟩
      rw [hn]
      apply hpass.receiving hkept' _ _ hplace h.aligned haligned (by omega) hlong hcount
      · unfold CtxKnown
        rw [hkeeps]
        exact h.known
      · rw [hkeeps]
        exact hctx

end pass

/-! ### Runs -/

/-- The pointers of the ring, with the page that stays free. -/
def RingOk (d : Device) (f : File) : Prop :=
  f.ring.rptr < 33554432 ∧ f.ring.wptr < 33554432 ∧
    (f.ring.wptr + 33554432 - f.ring.rptr) % 33554432 + d.fbPageSize ≤ 33554432

theorem fbPageSize_bounds (d : Device) : 0 < d.fbPageSize ∧ d.fbPageSize < 33554432 :=
  ⟨d.fbPageSize_pos, ringBufSize_eq ▸ d.fbPageSize_lt⟩

theorem RingOk.write {n : Nat} (h : RingOk d f) (htarget : f.isTarget = true)
    (hn : n ≤ userCheckRingbufferSpace d f f.ring.wptr) :
    RingOk d (publishUser f ((f.ring.wptr + n) &&& bufMask)) ∧
      (f.ring.rptr ≠ f.ring.wptr → f.ring.rptr ≠ (f.ring.wptr + n) &&& bufMask) := by
  obtain ⟨hr, hw, hroom⟩ := h
  obtain ⟨hpos, hlt⟩ := fbPageSize_bounds d
  rw [userCheckRingbufferSpace, if_pos htarget, and_bufMask, ringBufSize_eq, subSize, subSize]
    at hn
  unfold RingOk publishUser
  rw [if_pos htarget]
  simp only [and_bufMask, ringBufSize_eq]
  omega

theorem RingOk.pass {n : Nat} (h : RingOk d f) (htarget : f.isTarget = true)
    (hn : n ≤ (f.ring.wptr + ringBufSize - f.ring.rptr) &&& bufMask) :
    RingOk d (publishThread f ((f.ring.rptr + n) &&& bufMask)) := by
  obtain ⟨hr, hw, hroom⟩ := h
  rw [and_bufMask, ringBufSize_eq] at hn
  unfold RingOk publishThread
  rw [if_pos htarget]
  simp only [and_bufMask, ringBufSize_eq]
  omega

theorem isRingEmpty_iff (h : RingOk d f) : isRingEmpty f = true ↔ f.ring.rptr = f.ring.wptr := by
  obtain ⟨hr, hw, _⟩ := h
  rw [isRingEmpty, beq_iff_eq, and_bufMask, and_bufMask, ringBufSize_eq, Nat.mod_eq_of_lt hr,
    Nat.mod_eq_of_lt hw]

/-- The target between two steps: it is well and knows what it has made of the stream, or it has
broken off, and then the ring never runs empty. -/
structure ImportInv (d : Device) (s : ImportSys) : Prop where
  target : s.file.isTarget = true
  ring : RingOk d s.file
  state : s.file.ring.state = .running ∧
      Receiving d s.file s.calls s.bitmapAt s.announced s.taken ∨
    s.file.ring.state = .abnormal ∧ Fine d s.calls ∧ s.file.ring.rptr ≠ s.file.ring.wptr
  complete : s.stopped = true → s.taken = s.announced ∧ s.file.ring.state ≠ .abnormal

theorem ImportInv.safe {s : ImportSys} (h : ImportInv d s) : SafeImport d s := by
  have hfine : Fine d s.calls := by
    rcases h.state with ⟨_, hreceiving⟩ | ⟨_, hfine, _⟩
    · exact hreceiving.kept.fine
    · exact hfine
  exact ⟨hfine.inside, hfine.first, hfine.order, h.complete⟩

theorem ImportStart.inv {s : ImportSys} (h : ImportStart d s) : ImportInv d s := by
  obtain ⟨htarget, hmask, hcopied, hpos, hoff, hr, hw, hstate, _, hcalls, hannounced, htaken,
    hstopped⟩ := h
  obtain ⟨_, hlt⟩ := fbPageSize_bounds d
  have hpositive := d.msgSize_pos
  refine ⟨htarget, ?_, .inl ⟨hstate, ?_⟩, ?_⟩
  · unfold RingOk
    rw [hr, hw]
    omega
  · exact {
      kept := by
        rw [hcalls]
        exact ⟨fun c hc => absurd hc List.not_mem_nil, rfl, by rw [hmask]; rfl⟩
      known := by
        unfold CtxKnown
        rw [hmask]
        simp
      aligned := by
        rw [hcopied]
        exact Nat.dvd_zero _
      head := fun _ => ⟨hpos, hoff, by omega⟩
      pages := fun hle => by omega }
  · intro hstop
    rw [hstopped] at hstop
    exact absurd hstop Bool.false_ne_true

theorem threadCheck_target (htarget : f.isTarget = true)
    (hready : (threadCheckRingbufferSpace d f).1 = true) :
    threadCheckRingbufferSpace d f =
        (true, (f.ring.wptr + ringBufSize - f.ring.rptr) &&& bufMask, f.ring.rptr) ∧
      d.fbPageSize ≤ (f.ring.wptr + ringBufSize - f.ring.rptr) &&& bufMask := by
  unfold threadCheckRingbufferSpace File.threadPtr at hready ⊢
  simp only [if_pos htarget, decide_eq_true_eq] at hready ⊢
  rw [decide_eq_true hready]
  exact ⟨rfl, hready⟩

theorem rptr_ne_wptr {rptr wptr : Nat} (h : 0 < (wptr + ringBufSize - rptr) &&& bufMask) :
    rptr ≠ wptr := by
  intro heq
  rw [heq, and_bufMask, Nat.add_sub_cancel_left, Nat.mod_self] at h
  omega

theorem ImportInv.failed {s : ImportSys} (htarget : f.isTarget = true) (hring : RingOk d f)
    (hfine : Fine d s.calls) (hne : f.ring.rptr ≠ f.ring.wptr)
    (hfile : s.file = { f with ring := { f.ring with state := .abnormal } })
    (hgoes : s.stopped = false) : ImportInv d s := by
  refine ⟨?_, ?_, .inr ⟨?_, hfine, ?_⟩, fun hstop => ?_⟩
  · rw [hfile]
    exact htarget
  · rw [hfile]
    exact hring
  · rw [hfile]
  · rw [hfile]
    exact hne
  · rw [hgoes] at hstop
    exact absurd hstop Bool.false_ne_true

theorem ImportInv.passed {s : ImportSys} {n : Nat} (htarget : f.isTarget = true)
    (hring : RingOk d f) (hstate : f.ring.state = .running)
    (hreceiving : Receiving d f s.calls s.bitmapAt s.announced s.taken)
    (hn : n ≤ (f.ring.wptr + ringBufSize - f.ring.rptr) &&& bufMask)
    (hfile : s.file = if n = 0 then f else publishThread f ((f.ring.rptr + n) &&& bufMask))
    (hgoes : s.stopped = false) : ImportInv d s := by
  have hstopped : s.stopped = true → s.taken = s.announced ∧ s.file.ring.state ≠ .abnormal := by
    intro hstop
    rw [hgoes] at hstop
    exact absurd hstop Bool.false_ne_true
  by_cases hzero : n = 0
  · rw [if_pos hzero] at hfile
    exact ⟨hfile ▸ htarget, hfile ▸ hring, .inl ⟨hfile ▸ hstate, hfile ▸ hreceiving⟩, hstopped⟩
  · rw [if_neg hzero] at hfile
    have hgiven := hring.pass htarget hn
    rw [← hfile] at hgiven
    unfold publishThread at hfile
    rw [if_pos htarget] at hfile
    refine ⟨?_, hgiven, .inl ⟨?_, ?_⟩, hstopped⟩
    · rw [hfile]
      exact htarget
    · rw [hfile]
      exact hstate
    · rw [hfile]
      exact hreceiving.congr rfl rfl rfl

theorem importPass_spec {s : ImportSys} {o : Outside} {gpuAddr : Nat} (h : ImportInv d s)
    (hreceiving : Receiving d s.file s.calls s.bitmapAt s.announced s.taken)
    (hwell : completes d s.file (passLen d s.file) = true → WellFormed d s o)
    (hrunning : s.file.ring.state = .running)
    (hready : (threadCheckRingbufferSpace d s.file).1 = true) (hgoes : s.stopped = false) :
    ImportInv d (importPass d s o gpuAddr) := by
  have htarget := h.target
  have hring := h.ring
  obtain ⟨hpos, hlt⟩ := fbPageSize_bounds d
  obtain ⟨hcheck, havailable⟩ := threadCheck_target htarget hready
  have hsmall : (s.file.ring.wptr + ringBufSize - s.file.ring.rptr) &&& bufMask ≤ ringBufSize := by
    rw [and_bufMask]
    exact (Nat.mod_lt _ (by rw [ringBufSize_eq]; omega)).le
  unfold importPass passLen
  unfold passLen at hwell
  simp only [hcheck] at hwell ⊢
  generalize hw : (s.file.ring.wptr + ringBufSize - s.file.ring.rptr) &&& bufMask = waiting
    at hwell havailable hsmall ⊢
  have hbefore := beforeEnd_le waiting s.file.ring.rptr
  generalize hlen : beforeEnd waiting s.file.ring.rptr / d.fbPageSize * d.fbPageSize = len
    at hwell ⊢
  have hle : len ≤ beforeEnd waiting s.file.ring.rptr := hlen ▸ Nat.div_mul_le_self _ _
  -- the copy of the thread is that of its pass
  have hcopy : (threadRingbufferDataCopy d o s.file gpuAddr waiting s.file.ring.rptr).size =
        none ∧
      Fine d (passCalls d o s len
        (threadRingbufferDataCopy d o s.file gpuAddr waiting s.file.ring.rptr).calls) ∨
      ∃ n, (threadRingbufferDataCopy d o s.file gpuAddr waiting s.file.ring.rptr).size = some n ∧
        (threadRingbufferDataCopy d o s.file gpuAddr waiting
          s.file.ring.rptr).file.ring.state = s.file.ring.state ∧
        Receiving d (threadRingbufferDataCopy d o s.file gpuAddr waiting s.file.ring.rptr).file
          (passCalls d o s len
            (threadRingbufferDataCopy d o s.file gpuAddr waiting s.file.ring.rptr).calls)
          (if accepts d o s.file len then bitmapPlace o s.bitmapAt else s.bitmapAt)
          (s.announced + if accepts d o s.file len then o.incomingHdr.length else 0)
          (s.taken + n) := by
    unfold threadRingbufferDataCopy
    simp only [hlen]
    by_cases hsome : 0 < beforeEnd waiting s.file.ring.rptr
    · rw [if_pos hsome]
      apply hreceiving.pass htarget hwell
      · rw [← hlen]
        exact Nat.dvd_mul_left _ _
      · omega
    · rw [if_neg hsome]
      obtain rfl : len = 0 := by omega
      have hcompletes : completes d s.file 0 = false := by
        rw [completes]
        simp
        omega
      have haccepts : accepts d o s.file 0 = false := by
        rw [accepts, hcompletes, Bool.false_and]
      have hnone : reachesPages d o s.file 0 = false := by
        rw [reachesPages]
        simp
      right
      refine ⟨0, rfl, rfl, ?_⟩
      rw [passCalls_eq hnone, hcompletes, haccepts]
      simpa using hreceiving
  obtain ⟨hsame, hmost⟩ :=
    threadRingbufferDataCopy_stream d o s.file gpuAddr waiting s.file.ring.rptr
  generalize threadRingbufferDataCopy d o s.file gpuAddr waiting s.file.ring.rptr = r
    at hcopy hsame hmost ⊢
  have hring' : RingOk d r.file := by
    unfold RingOk
    rw [hsame.rptr, hsame.wptr]
    exact hring
  rcases hcopy with ⟨hsize, hfine⟩ | ⟨n, hsize, hstate, hpass⟩
  · simp only [hsize]
    refine ImportInv.failed (f := r.file) (hsame.isTarget.trans htarget) hring' hfine ?_ rfl hgoes
    rw [hsame.rptr, hsame.wptr]
    apply rptr_ne_wptr
    rw [hw]
    omega
  · have hn := hmost n hsize
    simp only [hsize, Option.getD_some]
    rw [← hsame.rptr]
    refine ImportInv.passed (f := r.file) (n := n) (hsame.isTarget.trans htarget) hring'
      (hstate.trans hrunning) hpass ?_ rfl hgoes
    rw [hsame.rptr, hsame.wptr, hw]
    omega

theorem ImportInv.step {s s' : ImportSys} (h : ImportInv d s) (e : ImportEvent)
    (hproper : Proper d s e) (hstep : importStep d s e = some s') : ImportInv d s' := by
  unfold importStep at hstep
  split at hstep
  · exact absurd hstep.symm (Option.some_ne_none s')
  · rename_i hgoes
    have hgoes : s.stopped = false := by simpa using hgoes
    cases e with
    | write n =>
      simp only at hstep
      split at hstep
      · rename_i hn
        rw [Option.some.injEq] at hstep
        subst hstep
        obtain ⟨hring, hkeeps⟩ := h.ring.write h.target hn
        have hpublish : publishUser s.file ((s.file.ring.wptr + n) &&& bufMask) =
            { s.file with ring := { s.file.ring with
              wptr := (s.file.ring.wptr + n) &&& bufMask } } := if_pos h.target
        refine ⟨?_, hring, ?_, fun hstop => ?_⟩
        · simp only [hpublish]
          exact h.target
        · simp only [hpublish]
          rcases h.state with ⟨hrunning, hreceiving⟩ | ⟨hfailed, hfine, hne⟩
          · exact .inl ⟨hrunning, hreceiving.congr rfl rfl rfl⟩
          · exact .inr ⟨hfailed, hfine, hkeeps hne⟩
        · rw [show s.stopped = true from hstop] at hgoes
          exact Bool.noConfusion hgoes
      · exact absurd hstep.symm (Option.some_ne_none s')
    | pass o gpuAddr =>
      simp only at hstep
      split at hstep
      · rename_i hready
        rw [Option.some.injEq] at hstep
        subst hstep
        rcases h.state with ⟨hrunning, hreceiving⟩ | ⟨hfailed, _, _⟩
        · exact importPass_spec h hreceiving hproper hrunning hready.2 hgoes
        · rw [hfailed] at hready
          exact absurd hready.1 (by decide)
      · exact absurd hstep.symm (Option.some_ne_none s')
    | stop =>
      simp only at hstep
      split at hstep
      · rename_i hempty
        rw [Option.some.injEq] at hstep
        subst hstep
        rw [isRingEmpty_iff h.ring] at hempty
        rcases h.state with ⟨hrunning, hreceiving⟩ | ⟨_, _, hne⟩
        · refine ⟨h.target, h.ring, .inl ⟨hrunning, hreceiving⟩, fun _ => ⟨?_, ?_⟩⟩
          · show s.taken = s.announced
            have hpositive := d.msgSize_pos
            rcases hproper with hcopied | ⟨hcopied, hover⟩
            · have := (hreceiving.head (by omega)).2.2
              omega
            · obtain ⟨_, bitmap, hat, _, hlong, hcount⟩ := hreceiving.pages hcopied
              have hlength : messageLength d bitmap = d.msgSize + (dirtyBytes d bitmap).length := rfl
              have := hat.over_iff.mp hover
              omega
          · show s.file.ring.state ≠ .abnormal
            rw [hrunning]
            decide
        · exact absurd hempty hne
      · exact absurd hstep.symm (Option.some_ne_none s')

/-- In every run whose messages are well formed, and in which `RESUMING` is left between two of
them, the import is safe, and complete when `RESUMING` has been left. -/
theorem import_safe (d : Device) (s : ImportSys) (hrun : ProperRun d s) : SafeImport d s := by
  apply ImportInv.safe
  apply hrun.invariant (ImportInv d)
  · intro s hstart
    exact hstart.inv
  · intro before e after hinv hproper hstep
    exact hinv.step e hproper hstep

theorem smallPage_ge : 12 ≤ 22 := by decide

theorem smallPage_lt : 22 < 25 := by decide

def smallDevice : Device := ⟨22, 4 * 2 ^ 22, 1704, 0, 0, smallPage_ge, smallPage_lt⟩

def freshTarget : ImportSys where
  file := { twoDirtyFile true with nextCopyMask := .zero }
  bitmapAt := smallDevice.bitmapOffset
  calls := []
  announced := 0
  taken := 0
  stopped := false

theorem freshTarget_start : ImportStart smallDevice freshTarget :=
  ⟨rfl, rfl, rfl, rfl, rfl, rfl, rfl, rfl, rfl, rfl, rfl, rfl, rfl⟩

def headerWith (ctxOffset : Nat) : MsgHeader :=
  let hdr : MsgHeader := { MsgHeader.zero with
    version := migVersion
    length := 3 * 2 ^ 22
    sec := fun c =>
      match c with
      | .ctx => ⟨true, 0, 1704, ctxOffset⟩
      | .vfFbBitmap => ⟨true, 10, 8, 1816⟩
      | _ => ⟨false, 0, 0, 0⟩ }
  { hdr with checksum := msgChecksum hdr }

def incoming (ctxOffset : Nat) : Outside := { allWell with incomingHdr := headerWith ctxOffset }

theorem incoming_wellFormed {s : ImportSys} : WellFormed smallDevice s (incoming 112) where
  noWrap := by
    intro c hc _
    revert hc
    cases c <;> decide
  wholeCtx := fun _ => (by decide : 1704 ≤ 1704)
  bitmap := (by decide +kernel : 1816 + bitmapScan smallDevice ≤ smallDevice.msgSize)
  withCtx := fun _ => .inl rfl
  inOrder := fun hvalid => Bool.noConfusion (show false = true from hvalid)
  length := by
    rw [messageLength, dirtyBytes_length]
    decide +kernel

theorem ProperRun.step {s s' : ImportSys} (h : ProperRun d s) (e : ImportEvent)
    (hproper : Proper d s e) (hstep : importStep d s e = some s') : ProperRun d s' :=
  .next e h hproper hstep

/-- A message and its pages come in, and `RESUMING` is left. -/
theorem import_safe_once : ∃ s, ProperRun smallDevice s ∧ SafeImport smallDevice s ∧
    s.stopped = true ∧ s.taken = 3 * 2 ^ 22 := by
  have h0 : ProperRun smallDevice freshTarget := .start freshTarget_start
  have h1 := h0.step (.write (3 * 2 ^ 22)) trivial rfl
  have h2 := h1.step (.pass (incoming 112) 0) (fun _ => incoming_wellFormed) rfl
  have h3 := h2.step .stop (.inl (by decide +kernel)) rfl
  exact ⟨_, h3, import_safe _ _ h3, rfl, by decide +kernel⟩

def ImportRun (d : Device) : ImportSys → Prop :=
  Run (ImportStart d) (fun s e s' => importStep d s e = some s') Transition.always

/-- The end of the context section wraps to 1688, and passes the check: the context is read from 16
bytes below the message buffer. -/
theorem ctx_outside : ¬ ∀ s, ImportRun smallDevice s → SafeImport smallDevice s := by
  intro h
  have h0 : ImportRun smallDevice freshTarget := .start freshTarget_start
  have h1 : ImportRun smallDevice _ := .next (.write (3 * 2 ^ 22)) h0 trivial rfl
  have h2 : ImportRun smallDevice _ :=
    .next (.pass (incoming (2 ^ 64 - 16)) 0) h1 trivial rfl
  have hinside : 2 ^ 64 - 16 + 1704 ≤ smallDevice.msgSize :=
    (h _ h2).inside (.compareCtx (2 ^ 64 - 16)) (by decide +kernel)
  exact absurd hinside (by decide +kernel)

end MxGpu.Mig
