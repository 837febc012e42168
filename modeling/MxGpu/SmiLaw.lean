import MxGpu.SmiIoctl

/- What the ioctls on one descriptor promise each other and their callers. -/
namespace MxGpu.Smi

open Transition Function

/-- How the handler of a call was run: for a privileged context that has seen a successful
handshake, as the command of the call, and with its input. -/
structure Own (call : Call) (ran : Ran) : Prop where
  privileged : ran.privileged = true
  shaken : ran.shaken = true
  entry : ran.entry.cmd = call.reqHdr.code
  input : ran.input = firstBytes (min call.reqHdr.inLen ran.entry.inBufferLen) call.reqPayload
  inLen : ran.inLen = call.reqHdr.inLen
  outLen : ran.outLen = call.reqHdr.outLen

/-- What a caller gets: the status of its own handler; its payload, no more of it than there is room
for, exactly when that status delivers it, and `-EIO` otherwise, unless a copy to the user fails.
The mutex is released once. -/
structure Lawful (call : Call) : Prop where
  own : ∀ ran, call.ran = some ran → Own call ran
  statusOut : ∀ status, call.statusOut = some status → status = call.status ∧
    ∀ ran, call.ran = some ran → status = ran.status
  copied : ∀ ran count bytes, call.ran = some ran → call.copied = some (count, bytes) →
    Delivers ran.status ∧ count = min call.reqHdr.outLen ran.entry.outBufferLen ∧
      bytes = ran.output
  delivers : ∀ ran, call.ran = some ran → call.pc = .done → Delivers ran.status →
    call.ret = 0 ∧ call.copied ≠ none ∨ call.ret = -smiEfault ∧ call.faulted = true
  refused : ∀ ran, call.ran = some ran → call.pc = .done → ¬ Delivers ran.status →
    call.ret = -smiEio ∧ call.copied = none
  told : ∀ ran, call.ran = some ran → call.pc = .done → call.faulted = false →
    call.statusOut = some ran.status
  unlocks : call.unlocks ≤ 1 ∧ (call.pc = .done → call.unlocks = 1)

def Call.Holding (call : Call) : Prop :=
  match call.pc with
  | .lock | .done => False
  | .header | .snapshot | .earlyUnlock => True
  | _ => call.earlyUnlocked = false

section Invariant

variable (table : List CmdEntry)

def Ctx.Full (ctx : Ctx) : Prop :=
  ctx.tblCmd = some (fullTable table) ∧ ctx.maxCmd = table.length

/-- The table is complete or has no entries, and after a successful handshake its status stays. -/
structure CtxFits (ctx : Ctx) : Prop where
  entries : ctx.maxCmd = 0 ∨ ctx.Full table
  shaken : ctx.shaken = true → ctx.Full table ∧ ctx.outStatus = smiStatusSuccess

structure Fresh (call : Call) : Prop where
  ran : call.ran = none
  copied : call.copied = none
  statusOut : call.statusOut = none
  ret : call.ret = 0

/-- The call is in a handshake, in a context that has not had a successful one. -/
structure Shaking (ctx : Ctx) (call : Call) : Prop where
  fresh : Fresh call
  hdr : call.hdr = call.reqHdr
  held : call.earlyUnlocked = false
  shaken : ctx.shaken = false

structure Found (ctx : Ctx) (call : Call) (i : Nat) : Prop where
  fresh : Fresh call
  hdr : call.hdr = call.reqHdr
  privileged : ctx.privileged = true
  full : ctx.Full table
  listed : i < table.length
  cmd : (fullTable table i).cmd = call.hdr.code

/-- The handler of the call has been run, in a context with a successful handshake. -/
structure After (ctx : Ctx) (call : Call) (i : Nat) (ran : Ran) : Prop where
  wasRun : call.ran = some ran
  own : Own call ran
  entry : ran.entry = fullTable table i
  hdr : call.hdr = call.reqHdr
  full : ctx.Full table
  shaken : ctx.shaken = true
  status : call.status = ran.status
  outBuf : call.outBuf = ran.output
  delivers : Delivers ran.status
  copied : call.copied = none
  statusOut : call.statusOut = none
  ret : call.ret = 0

structure Delivered (call : Call) (ran : Ran) : Prop where
  wasRun : call.ran = some ran
  own : Own call ran
  delivers : Delivers ran.status
  status : call.status = ran.status
  copied : call.copied = some (min call.reqHdr.outLen ran.entry.outBufferLen, ran.output)
  ret : call.ret = 0

structure Ended (call : Call) : Prop where
  own : ∀ ran, call.ran = some ran → Own call ran ∧ Delivers ran.status
  statusOut : ∀ status, call.statusOut = some status → status = call.status ∧
    ∀ ran, call.ran = some ran → status = ran.status
  copied : ∀ ran count bytes, call.ran = some ran → call.copied = some (count, bytes) →
    count = min call.reqHdr.outLen ran.entry.outBufferLen ∧ bytes = ran.output
  ret : ∀ ran, call.ran = some ran →
    call.ret = 0 ∧ call.copied ≠ none ∨ call.ret = -smiEfault ∧ call.faulted = true
  told : ∀ ran, call.ran = some ran → call.faulted = false → call.statusOut = some ran.status

def Knows (ctx : Ctx) (call : Call) : Pc → Prop
  | .lock | .header => Fresh call ∧ call.earlyUnlocked = false
  | .snapshot => Fresh call ∧ call.earlyUnlocked = false ∧ ctx.inHdr = call.reqHdr
  | .earlyUnlock => Fresh call ∧ call.earlyUnlocked = false ∧ call.hdr = call.reqHdr ∧
      IsEvent call.hdr.code
  | .check => Fresh call ∧ call.hdr = call.reqHdr ∧
      (call.earlyUnlocked = true → IsEvent call.hdr.code)
  | .hsPayload | .hsTable => Shaking ctx call ∧ ctx.tblCmd = none ∧ ctx.maxCmd = 0
  | .hsFill => Shaking ctx call
  | .hsStore status => Shaking ctx call ∧
      (if status = smiStatusSuccess then ctx.Full table else ctx.maxCmd = 0)
  | .hsTest | .hsCopy => Fresh call ∧ call.earlyUnlocked = false ∧ ctx.outStatus = call.status
  | .hsStatus => call.ran = none ∧ call.statusOut = none ∧ call.earlyUnlocked = false ∧
      ctx.outStatus = call.status
  | .lookup _ | .lookupEnd _ => Fresh call ∧ call.hdr = call.reqHdr ∧ ctx.privileged = true
  | .alloc i | .payload i => Found table ctx call i
  | .run i => Found table ctx call i ∧
      call.inBuf = firstBytes (min call.hdr.inLen (fullTable table i).inBufferLen) call.reqPayload
  | .test i | .copyOut i => ∃ ran, After table ctx call i ran
  | .putStatus => ∃ ran, Delivered call ran ∧ call.statusOut = none
  | .unlock | .done => Ended call

def Call.Unlocked (call : Call) : Prop :=
  call.unlocks = if call.earlyUnlocked = true ∨ call.pc = .done then 1 else 0

structure CallFits (id : Nat) (ctx : Ctx) (call : Call) : Prop where
  knows : Knows table ctx call call.pc
  holds : call.Holding → ctx.ioctlMutex = some id
  unlocked : call.Unlocked

/-- The call that has the mutex is a handshake that has filled the table and not yet stored its
status. -/
def System.storing (s : System) : Bool :=
  s.ctx.ioctlMutex.any fun id =>
    (s.calls id).any fun call => call.pc == .hsStore smiStatusSuccess

structure Fits (s : System) : Prop where
  ctx : CtxFits table s.ctx
  calls : ∀ id call, s.calls id = some call → CallFits table id s.ctx call
  filled : s.ctx.maxCmd ≠ 0 → s.ctx.shaken = true ∨ s.storing = true

/-- The steps that keep the law: a handler returns a status that delivers the payload, it does not
run between the two steps of a handshake that fill the table and store the status, and no table
appears between the end of a call's search for its entry and the test of what the search has
found. -/
def Pc.meets (outcome : Outcome) (s : System) : Pc → Bool
  | .run _ => decide (Delivers outcome.status) && !s.storing
  | .lookupEnd i => i == s.ctx.maxCmd
  | _ => true

def Meets (s : System) : Label → Prop
  | .start _ _ _ => True
  | .call id outcome => ∀ call ∈ s.calls id, call.pc.meets outcome s = true

instance (s : System) : (label : Label) → Decidable (Meets s label)
  | .start _ _ _ => isTrue trivial
  | .call id outcome =>
    inferInstanceAs (Decidable (∀ call ∈ s.calls id, call.pc.meets outcome s = true))

end Invariant

section Steps

variable {table : List CmdEntry} {id : Nat} {outcome : Outcome} {ctx ctx' : Ctx}
  {call call' : Call}

def Ctx.Same (ctx ctx' : Ctx) : Prop :=
  ctx' = { ctx with ioctlMutex := ctx'.ioctlMutex, mutexFlag := ctx'.mutexFlag }

/-- What calls without the mutex know of the context stays true. -/
structure Ctx.Grows (table : List CmdEntry) (ctx ctx' : Ctx) : Prop where
  privileged : ctx'.privileged = ctx.privileged
  full : ctx.Full table → ctx'.Full table
  shaken : ctx.shaken = true → ctx'.shaken = true

theorem Found.grows {i : Nat} (h : Found table ctx call i) (hgrows : ctx.Grows table ctx') :
    Found table ctx' call i :=
  ⟨h.fresh, h.hdr, hgrows.privileged.trans h.privileged, hgrows.full h.full, h.listed, h.cmd⟩

theorem After.grows {i : Nat} {ran : Ran} (h : After table ctx call i ran)
    (hgrows : ctx.Grows table ctx') : After table ctx' call i ran :=
  ⟨h.wasRun, h.own, h.entry, h.hdr, hgrows.full h.full, hgrows.shaken h.shaken, h.status, h.outBuf,
    h.delivers, h.copied, h.statusOut, h.ret⟩

theorem Knows.grows (h : Knows table ctx call call.pc) (hnot : ¬ call.Holding)
    (hgrows : ctx.Grows table ctx') : Knows table ctx' call call.pc := by
  rw [Call.Holding] at hnot
  cases hpc : call.pc <;> rw [hpc] at h hnot
  case lock => exact h
  case header => exact (hnot trivial).elim
  case snapshot => exact (hnot trivial).elim
  case earlyUnlock => exact (hnot trivial).elim
  case check => exact h
  case hsPayload => exact (hnot h.1.held).elim
  case hsTable => exact (hnot h.1.held).elim
  case hsFill => exact (hnot h.held).elim
  case hsStore => exact (hnot h.1.held).elim
  case hsTest => exact (hnot h.2.1).elim
  case hsCopy => exact (hnot h.2.1).elim
  case hsStatus => exact (hnot h.2.2.1).elim
  case lookup => exact ⟨h.1, h.2.1, hgrows.privileged.trans h.2.2⟩
  case lookupEnd => exact ⟨h.1, h.2.1, hgrows.privileged.trans h.2.2⟩
  case alloc => exact Found.grows h hgrows
  case payload => exact Found.grows h hgrows
  case run => exact ⟨h.1.grows hgrows, h.2⟩
  case test =>
    obtain ⟨ran, hafter⟩ := h
    exact ⟨ran, hafter.grows hgrows⟩
  case copyOut =>
    obtain ⟨ran, hafter⟩ := h
    exact ⟨ran, hafter.grows hgrows⟩
  case putStatus => exact h
  case unlock => exact h
  case done => exact h

/-- What a step of one call does for it, for the context and for the other calls: either it leaves
the context and the mutex as they are, or it had or took the mutex. -/
structure StepFits (table : List CmdEntry) (id : Nat) (ctx ctx' : Ctx) (call' : Call) : Prop where
  ctxFits : CtxFits table ctx'
  fits : CallFits table id ctx' call'
  others : ctx' = ctx ∨
    (ctx.ioctlMutex = none ∨ ctx.ioctlMutex = some id) ∧ ctx.Grows table ctx'

theorem Own.same {ran : Ran} (h : Own call ran) (hhdr : call'.reqHdr = call.reqHdr)
    (hpayload : call'.reqPayload = call.reqPayload) : Own call' ran := by
  constructor
  · exact h.privileged
  · exact h.shaken
  · rw [hhdr]
    exact h.entry
  · rw [hhdr, hpayload]
    exact h.input
  · rw [hhdr]
    exact h.inLen
  · rw [hhdr]
    exact h.outLen

theorem Ended.handshake (hran : call.ran = none)
    (hstatus : ∀ status, call.statusOut = some status → status = call.status) : Ended call := by
  have hnone : ∀ ran, call.ran ≠ some ran := fun ran hsome =>
    Option.some_ne_none ran (hsome.symm.trans hran)
  exact ⟨fun ran hsome => absurd hsome (hnone ran),
    fun status hout => ⟨hstatus status hout, fun ran hsome => absurd hsome (hnone ran)⟩,
    fun ran _ _ hsome => absurd hsome (hnone ran), fun ran hsome => absurd hsome (hnone ran),
    fun ran hsome => absurd hsome (hnone ran)⟩

def Call.results (call : Call) : Option Ran × Option (Int × Bytes) × Option Int × Int :=
  (call.ran, call.copied, call.statusOut, call.ret)

theorem Fresh.same (h : Fresh call) (hsame : call'.results = call.results) : Fresh call' := by
  simp only [Call.results, h.ran, h.copied, h.statusOut, h.ret, Prod.mk.injEq] at hsame
  exact ⟨hsame.1, hsame.2.1, hsame.2.2.1, hsame.2.2.2⟩

def Call.mutexSide (call : Call) : Bool × Nat × Bool :=
  (call.earlyUnlocked, call.unlocks, decide (call.pc = .done))

theorem Call.Unlocked.same (h : call.Unlocked) (hside : call'.mutexSide = call.mutexSide) :
    call'.Unlocked := by
  simp only [Call.mutexSide, Prod.mk.injEq, decide_eq_decide] at hside
  obtain ⟨hearly, hunlocks, hdone⟩ := hside
  simp only [Call.Unlocked, hearly, hunlocks, hdone]
  exact h

theorem CallFits.move (h : CallFits table id ctx call) (hctx : CtxFits table ctx')
    (hside : call'.mutexSide = call.mutexSide) (hknows : Knows table ctx' call' call'.pc)
    (hholds : call'.Holding → ctx'.ioctlMutex = some id)
    (hothers : ctx' = ctx ∨
      (ctx.ioctlMutex = none ∨ ctx.ioctlMutex = some id) ∧ ctx.Grows table ctx') :
    StepFits table id ctx ctx' call' :=
  ⟨hctx, ⟨hknows, hholds, h.unlocked.same hside⟩, hothers⟩

theorem CallFits.stay (h : CallFits table id ctx call) (hctx : CtxFits table ctx)
    (hside : call'.mutexSide = call.mutexSide) (hknows : Knows table ctx call' call'.pc)
    (hholds : call'.Holding → call.Holding) : StepFits table id ctx ctx call' :=
  h.move hctx hside hknows (fun hheld => h.holds (hholds hheld)) (.inl rfl)

theorem CallFits.held (h : CallFits table id ctx call) (hctx : CtxFits table ctx')
    (hside : call'.mutexSide = call.mutexSide) (hheld : call.Holding)
    (hmutex : ctx'.ioctlMutex = ctx.ioctlMutex) (hgrows : ctx.Grows table ctx')
    (hknows : Knows table ctx' call' call'.pc) : StepFits table id ctx ctx' call' :=
  h.move hctx hside hknows (fun _ => hmutex.trans (h.holds hheld))
    (.inr ⟨.inr (h.holds hheld), hgrows⟩)

theorem CallFits.leave (h : CallFits table id ctx call) (hctx : CtxFits table ctx)
    (hpc : call.pc ≠ .done) (hfresh : Fresh call)
    (hholds : call.earlyUnlocked = false → call.Holding) (ret : Int) (faulted : Bool) :
    StepFits table id ctx ctx { call with ret, faulted, pc := .unlock } := by
  apply h.stay hctx (by simp [Call.mutexSide, hpc])
  · apply Ended.handshake
    · exact hfresh.ran
    · intro status hstatus
      exact absurd (hstatus.symm.trans hfresh.statusOut) (Option.some_ne_none status)
  · exact hholds

theorem Ctx.Same.fits (hsame : ctx.Same ctx') (h : CtxFits table ctx) : CtxFits table ctx' := by
  rw [hsame]
  exact ⟨h.entries, h.shaken⟩

theorem Ctx.Same.grows (hsame : ctx.Same ctx') : ctx.Grows table ctx' := by
  rw [hsame]
  exact ⟨rfl, fun hfull => hfull, fun hshaken => hshaken⟩

def Kept (table : List CmdEntry) (id : Nat) (ctx : Ctx) : Option (Ctx × Call) → Prop
  | none => True
  | some (ctx', call') => StepFits table id ctx ctx' call'

theorem CallFits.knowsAt (h : CallFits table id ctx call) {pc : Pc} (hpc : call.pc = pc) :
    Knows table ctx call pc :=
  hpc ▸ h.knows

section Kept

variable (h : CallFits table id ctx call)

include h

theorem CallFits.hsTable (hpc : call.pc = .hsTable) :
    Kept table id ctx (ioctlStep table id outcome ctx call) := by
  obtain ⟨hshaking, htbl, hmax⟩ := h.knowsAt hpc
  have hheld : call.Holding := by simp [Call.Holding, hpc, hshaking.held]
  have hside (pc : Pc) (hpc' : pc ≠ .done) :
      Call.mutexSide { call with pc } = call.mutexSide := by
    simp [Call.mutexSide, hpc, hpc']
  have hnotShaken : ctx.shaken ≠ true := by simp [hshaking.shaken]
  have hnotFull : ¬ ctx.Full table := fun hfull =>
    absurd (hfull.1.symm.trans htbl) (Option.some_ne_none _)
  have hfits (ctx' : Ctx) (hshaken : ctx'.shaken = ctx.shaken)
      (hmax' : ctx'.maxCmd = ctx.maxCmd) : CtxFits table ctx' :=
    ⟨.inl (hmax'.trans hmax), fun hsome => absurd (hshaken.symm.trans hsome) hnotShaken⟩
  have hgrows (ctx' : Ctx) (hprivileged : ctx'.privileged = ctx.privileged) :
      ctx.Grows table ctx' :=
    ⟨hprivileged, fun hfull => absurd hfull hnotFull, fun hsome => absurd hsome hnotShaken⟩
  -- a handshake that fails here has not filled the table
  have hfail (ctx' : Ctx) (status : Int) (hshaken : ctx'.shaken = ctx.shaken)
      (hmax' : ctx'.maxCmd = ctx.maxCmd) (hprivileged : ctx'.privileged = ctx.privileged)
      (hmutex : ctx'.ioctlMutex = ctx.ioctlMutex) (hstatus : status ≠ smiStatusSuccess) :
      StepFits table id ctx ctx' { call with pc := .hsStore status } := by
    apply h.held (hfits ctx' hshaken hmax') (hside _ (by simp)) hheld hmutex
    · exact hgrows ctx' hprivileged
    · refine ⟨⟨hshaking.fresh.same rfl, hshaking.hdr, hshaking.held,
        hshaken.trans hshaking.shaken⟩, ?_⟩
      rw [if_neg hstatus]
      exact hmax'.trans hmax
  simp only [ioctlStep, hpc, Smi.hsTable]
  split
  case isTrue => exact hfail ctx smiStatusInval rfl rfl rfl rfl (by decide)
  case isFalse =>
    split
    case isTrue =>
      split
      case isTrue =>
        apply h.held
        · exact hfits _ rfl rfl
        · exact hside .hsFill (by simp)
        · exact hheld
        · rfl
        · exact hgrows _ rfl
        · exact ⟨hshaking.fresh.same rfl, hshaking.hdr, hshaking.held, hshaking.shaken⟩
      case isFalse => exact hfail _ smiStatusOutOfResources rfl rfl rfl rfl (by decide)
    case isFalse => exact hfail _ smiStatusNotSupported rfl rfl rfl rfl (by decide)

theorem CallFits.hsFill (hpc : call.pc = .hsFill) :
    Kept table id ctx (ioctlStep table id outcome ctx call) := by
  have hknows := h.knowsAt hpc
  have hnotShaken : ctx.shaken ≠ true := by simp [hknows.shaken]
  simp only [ioctlStep, hpc]
  apply h.held
  · exact ⟨.inr ⟨rfl, rfl⟩, fun hsome => absurd hsome hnotShaken⟩
  · simp [Call.mutexSide, hpc]
  · simp [Call.Holding, hpc, hknows.held]
  · rfl
  · exact ⟨rfl, fun _ => ⟨rfl, rfl⟩, fun hsome => absurd hsome hnotShaken⟩
  · refine ⟨⟨hknows.fresh.same rfl, hknows.hdr, hknows.held, hknows.shaken⟩, ?_⟩
    rw [if_pos rfl]
    exact ⟨rfl, rfl⟩

variable (hctx : CtxFits table ctx)

include hctx

theorem CallFits.lock (hpc : call.pc = .lock) :
    Kept table id ctx (ioctlStep table id outcome ctx call) := by
  obtain ⟨hfresh, hearly⟩ := h.knowsAt hpc
  simp only [ioctlStep, hpc]
  cases hmutex : ctx.ioctlMutex with
  | some other => trivial
  | none =>
    have hsame : ctx.Same { ctx with ioctlMutex := some id } := rfl
    apply h.move (hsame.fits hctx)
    · simp [Call.mutexSide, hpc]
    · exact ⟨hfresh.same rfl, hearly⟩
    · intro _
      rfl
    · exact .inr ⟨.inl hmutex, hsame.grows⟩

theorem CallFits.header (hpc : call.pc = .header) :
    Kept table id ctx (ioctlStep table id outcome ctx call) := by
  obtain ⟨hfresh, hearly⟩ := h.knowsAt hpc
  have hheld : call.Holding := by simp [Call.Holding, hpc]
  simp only [ioctlStep, hpc]
  split
  case isTrue => exact h.leave hctx (by simp [hpc]) hfresh (fun _ => hheld) _ _
  case isFalse =>
    apply h.held
    · exact ⟨hctx.entries, hctx.shaken⟩
    · simp [Call.mutexSide, hpc]
    · exact hheld
    · rfl
    · exact ⟨rfl, fun hfull => hfull, fun hshaken => hshaken⟩
    · exact ⟨hfresh.same rfl, hearly, rfl⟩

theorem CallFits.snapshot (hpc : call.pc = .snapshot) :
    Kept table id ctx (ioctlStep table id outcome ctx call) := by
  obtain ⟨hfresh, hearly, hhdr⟩ := h.knowsAt hpc
  have hheld : call.Holding := by simp [Call.Holding, hpc]
  simp only [ioctlStep, hpc]
  split
  case isTrue hevent =>
    have hsame : ctx.Same { ctx with mutexFlag := false } := rfl
    apply h.held (hsame.fits hctx) (by simp [Call.mutexSide, hpc]) hheld rfl hsame.grows
    exact ⟨hfresh.same rfl, hearly, hhdr, hevent⟩
  case isFalse =>
    have hsame : ctx.Same { ctx with mutexFlag := true } := rfl
    apply h.held (hsame.fits hctx) (by simp [Call.mutexSide, hpc]) hheld rfl hsame.grows
    exact ⟨hfresh.same rfl, hhdr,
      fun hunlocked => absurd (hearly.symm.trans hunlocked) Bool.false_ne_true⟩

theorem CallFits.earlyUnlock (hpc : call.pc = .earlyUnlock) :
    Kept table id ctx (ioctlStep table id outcome ctx call) := by
  obtain ⟨hfresh, hearly, hhdr, hevent⟩ := h.knowsAt hpc
  have hheld : call.Holding := by simp [Call.Holding, hpc]
  have hunlocked := h.unlocked
  simp only [Call.Unlocked, hpc, hearly, Bool.false_eq_true, reduceCtorEq, or_self, if_false]
    at hunlocked
  simp only [ioctlStep, hpc]
  have hsame : ctx.Same { ctx with ioctlMutex := none } := rfl
  refine ⟨hsame.fits hctx, ⟨?_, ?_, ?_⟩, .inr ⟨.inr (h.holds hheld), hsame.grows⟩⟩
  · exact ⟨hfresh.same rfl, hhdr, fun _ => hevent⟩
  · intro hholding
    simp [Call.Holding] at hholding
  · simp [Call.Unlocked, hunlocked]

theorem CallFits.check (hpc : call.pc = .check) :
    Kept table id ctx (ioctlStep table id outcome ctx call) := by
  obtain ⟨hfresh, hhdr, hevents⟩ := h.knowsAt hpc
  have hholds : call.earlyUnlocked = false → call.Holding := by simp [Call.Holding, hpc]
  have hnot : call.pc ≠ .done := by simp [hpc]
  simp only [ioctlStep, hpc]
  split
  case isTrue => exact h.leave hctx hnot hfresh hholds _ _
  case isFalse =>
    split
    case isTrue => exact h.leave hctx hnot hfresh hholds _ _
    case isFalse hprivileged =>
      have hprivileged : ctx.privileged = true := by simpa using hprivileged
      cases htbl : ctx.tblCmd with
      | some tbl =>
        apply h.stay hctx (by simp [Call.mutexSide, hpc])
        · exact ⟨hfresh.same rfl, hhdr, hprivileged⟩
        · exact hholds
      | none =>
        simp only
        split
        case isTrue => exact h.leave hctx hnot hfresh hholds _ _
        case isFalse hcode =>
          have hnotFull : ¬ ctx.Full table := fun hfull =>
            absurd (hfull.1.symm.trans htbl) (Option.some_ne_none _)
          have hshaken : ctx.shaken = false :=
            Bool.eq_false_iff.mpr fun hshaken => hnotFull (hctx.shaken hshaken).1
          have hearly : call.earlyUnlocked = false := by
            apply Bool.eq_false_iff.mpr
            intro hearly
            have hevent := hevents hearly
            rw [not_not.mp hcode] at hevent
            exact absurd hevent (by decide)
          apply h.stay hctx (by simp [Call.mutexSide, hpc])
          · exact ⟨⟨hfresh.same rfl, hhdr, hearly, hshaken⟩, htbl,
              hctx.entries.resolve_right hnotFull⟩
          · exact hholds

theorem CallFits.hsPayload (hpc : call.pc = .hsPayload) :
    Kept table id ctx (ioctlStep table id outcome ctx call) := by
  obtain ⟨hshaking, htbl⟩ := h.knowsAt hpc
  have hheld : call.Holding := by simp [Call.Holding, hpc, hshaking.held]
  simp only [ioctlStep, hpc]
  split
  case isTrue => exact h.leave hctx (by simp [hpc]) hshaking.fresh (fun _ => hheld) _ _
  case isFalse =>
    apply h.held
    · exact ⟨hctx.entries, hctx.shaken⟩
    · simp [Call.mutexSide, hpc]
    · exact hheld
    · rfl
    · exact ⟨rfl, fun hfull => hfull, fun hshaken => hshaken⟩
    · exact ⟨⟨hshaking.fresh.same rfl, hshaking.hdr, hshaking.held, hshaking.shaken⟩, htbl⟩

theorem CallFits.hsStore {status : Int} (hpc : call.pc = .hsStore status) :
    Kept table id ctx (ioctlStep table id outcome ctx call) := by
  obtain ⟨hshaking, hstatus⟩ := h.knowsAt hpc
  have hnotShaken : ctx.shaken ≠ true := by simp [hshaking.shaken]
  simp only [ioctlStep, hpc]
  apply h.held
  · refine ⟨hctx.entries, ?_⟩
    intro hsome
    have hsuccess : status = smiStatusSuccess := by
      simpa [hshaking.shaken] using hsome
    rw [if_pos hsuccess] at hstatus
    exact ⟨hstatus, hsuccess⟩
  · simp [Call.mutexSide, hpc]
  · simp [Call.Holding, hpc, hshaking.held]
  · rfl
  · exact ⟨rfl, fun hfull => hfull, fun hsome => absurd hsome hnotShaken⟩
  · exact ⟨hshaking.fresh.same rfl, hshaking.held, rfl⟩

theorem CallFits.hsTest (hpc : call.pc = .hsTest) :
    Kept table id ctx (ioctlStep table id outcome ctx call) := by
  obtain ⟨hfresh, hearly, hstatus⟩ := h.knowsAt hpc
  have hheld : call.Holding := by simp [Call.Holding, hpc, hearly]
  simp only [ioctlStep, hpc]
  split
  case isTrue =>
    apply h.stay hctx (by simp [Call.mutexSide, hpc])
    · exact ⟨hfresh.ran, hfresh.statusOut, hearly, hstatus⟩
    · exact fun _ => hheld
  case isFalse =>
    apply h.stay hctx (by simp [Call.mutexSide, hpc])
    · exact ⟨hfresh.same rfl, hearly, hstatus⟩
    · exact fun _ => hheld

theorem CallFits.hsCopy (hpc : call.pc = .hsCopy) :
    Kept table id ctx (ioctlStep table id outcome ctx call) := by
  obtain ⟨hfresh, hearly, hstatus⟩ := h.knowsAt hpc
  have hheld : call.Holding := by simp [Call.Holding, hpc, hearly]
  simp only [ioctlStep, hpc]
  split
  case isTrue => exact h.leave hctx (by simp [hpc]) hfresh (fun _ => hheld) _ _
  case isFalse =>
    apply h.stay hctx (by simp [Call.mutexSide, hpc])
    · exact ⟨hfresh.ran, hfresh.statusOut, hearly, hstatus⟩
    · exact fun _ => hheld

theorem CallFits.hsStatus (hpc : call.pc = .hsStatus) :
    Kept table id ctx (ioctlStep table id outcome ctx call) := by
  obtain ⟨hran, hout, hearly, hstatus⟩ := h.knowsAt hpc
  have hheld : call.Holding := by simp [Call.Holding, hpc, hearly]
  simp only [ioctlStep, hpc]
  split
  case isTrue =>
    apply h.stay hctx (by simp [Call.mutexSide, hpc])
    · apply Ended.handshake
      · exact hran
      · intro status hsome
        exact absurd (hsome.symm.trans hout) (Option.some_ne_none status)
    · exact fun _ => hheld
  case isFalse =>
    apply h.stay hctx (by simp [Call.mutexSide, hpc])
    · apply Ended.handshake
      · exact hran
      · intro status hsome
        exact (Option.some.inj hsome).symm.trans hstatus
    · exact fun _ => hheld

theorem CallFits.lookup {i : Nat} (hpc : call.pc = .lookup i) :
    Kept table id ctx (ioctlStep table id outcome ctx call) := by
  obtain ⟨hfresh, hhdr, hprivileged⟩ := h.knowsAt hpc
  have hholds : call.earlyUnlocked = false → call.Holding := by simp [Call.Holding, hpc]
  have hon (pc : Pc) (hpc' : pc ≠ .done) (hknows : Knows table ctx { call with pc } pc)
      (hholding : Call.Holding { call with pc } → call.earlyUnlocked = false) :
      StepFits table id ctx ctx { call with pc } :=
    h.stay hctx (by simp [Call.mutexSide, hpc, hpc']) hknows fun hheld => hholds (hholding hheld)
  simp only [ioctlStep, hpc]
  split
  case isTrue hlt =>
    -- a table that has an entry has all of them
    have hfull : ctx.Full table := hctx.entries.resolve_left (by omega)
    simp only [hfull.1]
    split
    case isTrue hcmd =>
      exact hon _ (by simp) ⟨hfresh.same rfl, hhdr, hprivileged, hfull, hfull.2 ▸ hlt, hcmd⟩
        fun hearly => hearly
    case isFalse => exact hon _ (by simp) ⟨hfresh.same rfl, hhdr, hprivileged⟩ fun hearly => hearly
  case isFalse => exact hon _ (by simp) ⟨hfresh.same rfl, hhdr, hprivileged⟩ fun hearly => hearly

theorem CallFits.lookupEnd {i : Nat} (hpc : call.pc = .lookupEnd i) (hmeets : i = ctx.maxCmd) :
    Kept table id ctx (ioctlStep table id outcome ctx call) := by
  have hholds : call.earlyUnlocked = false → call.Holding := by simp [Call.Holding, hpc]
  simp only [ioctlStep, hpc]
  rw [if_pos hmeets]
  exact h.leave hctx (by simp [hpc]) (h.knowsAt hpc).1 hholds _ _

theorem CallFits.alloc {i : Nat} (hpc : call.pc = .alloc i) :
    Kept table id ctx (ioctlStep table id outcome ctx call) := by
  have hfound := h.knowsAt hpc
  have hholds : call.earlyUnlocked = false → call.Holding := by simp [Call.Holding, hpc]
  simp only [ioctlStep, hpc]
  split
  case isTrue => exact h.leave hctx (by simp [hpc]) hfound.fresh hholds _ _
  case isFalse =>
    apply h.stay hctx (by simp [Call.mutexSide, hpc])
    · exact ⟨hfound.fresh.same rfl, hfound.hdr, hfound.privileged, hfound.full, hfound.listed,
        hfound.cmd⟩
    · exact hholds

theorem CallFits.payload {i : Nat} (hpc : call.pc = .payload i) :
    Kept table id ctx (ioctlStep table id outcome ctx call) := by
  have hfound := h.knowsAt hpc
  have hholds : call.earlyUnlocked = false → call.Holding := by simp [Call.Holding, hpc]
  simp only [ioctlStep, hpc, hfound.full.1]
  split
  case isTrue => exact h.leave hctx (by simp [hpc]) hfound.fresh hholds _ _
  case isFalse =>
    apply h.stay hctx (by simp [Call.mutexSide, hpc])
    · exact ⟨⟨hfound.fresh.same rfl, hfound.hdr, hfound.privileged, hfound.full, hfound.listed,
        hfound.cmd⟩, rfl⟩
    · exact hholds

theorem CallFits.run {i : Nat} (hpc : call.pc = .run i) (hdelivers : Delivers outcome.status)
    (hshaken : ctx.shaken = true) :
    Kept table id ctx (ioctlStep table id outcome ctx call) := by
  obtain ⟨hfound, hinput⟩ := h.knowsAt hpc
  simp only [ioctlStep, hpc, hfound.full.1]
  apply h.stay hctx (by simp [Call.mutexSide, hpc])
  · refine ⟨_, rfl, ?_, rfl, hfound.hdr, hfound.full, hshaken, rfl, rfl, hdelivers,
      hfound.fresh.copied, hfound.fresh.statusOut, hfound.fresh.ret⟩
    constructor
    · exact hfound.privileged
    · exact hshaken
    · exact hfound.cmd.trans (congrArg InHdr.code hfound.hdr)
    · exact hinput.trans (by rw [hfound.hdr])
    · exact congrArg InHdr.inLen hfound.hdr
    · exact congrArg InHdr.outLen hfound.hdr
  · simp [Call.Holding, hpc]

theorem CallFits.test {i : Nat} (hpc : call.pc = .test i) :
    Kept table id ctx (ioctlStep table id outcome ctx call) := by
  obtain ⟨ran, hafter⟩ := h.knowsAt hpc
  have hsuccess : ctx.outStatus = smiStatusSuccess := (hctx.shaken hafter.shaken).2
  simp only [ioctlStep, hpc]
  rw [if_pos (.inl hsuccess)]
  apply h.stay hctx (by simp [Call.mutexSide, hpc])
  · exact ⟨ran, hafter.wasRun, hafter.own.same rfl rfl, hafter.entry, hafter.hdr, hafter.full,
      hafter.shaken, hafter.status, hafter.outBuf, hafter.delivers, hafter.copied,
      hafter.statusOut, hafter.ret⟩
  · simp [Call.Holding, hpc]

theorem CallFits.copyOut {i : Nat} (hpc : call.pc = .copyOut i) :
    Kept table id ctx (ioctlStep table id outcome ctx call) := by
  obtain ⟨ran, hafter⟩ := h.knowsAt hpc
  have hholds : call.earlyUnlocked = false → call.Holding := by simp [Call.Holding, hpc]
  simp only [ioctlStep, hpc, hafter.full.1]
  split
  case isTrue =>
    apply h.stay hctx (by simp [Call.mutexSide, hpc])
    · constructor
      · intro ran' hsome
        cases hsome.symm.trans hafter.wasRun
        exact ⟨hafter.own.same rfl rfl, hafter.delivers⟩
      · intro status hsome
        exact absurd (hsome.symm.trans hafter.statusOut) (Option.some_ne_none status)
      · intro _ count bytes _ hsome
        exact absurd (hsome.symm.trans hafter.copied) (Option.some_ne_none _)
      · intro _ _
        exact .inr ⟨rfl, rfl⟩
      · intro _ _ hfault
        exact absurd hfault.symm Bool.false_ne_true
    · exact hholds
  case isFalse =>
    apply h.stay hctx (by simp [Call.mutexSide, hpc])
    · refine ⟨ran, ⟨hafter.wasRun, hafter.own.same rfl rfl, hafter.delivers, hafter.status, ?_,
        hafter.ret⟩, hafter.statusOut⟩
      rw [hafter.hdr, hafter.outBuf, ← hafter.entry]
    · exact hholds

theorem CallFits.putStatus (hpc : call.pc = .putStatus) :
    Kept table id ctx (ioctlStep table id outcome ctx call) := by
  obtain ⟨ran, hdelivered, hout⟩ := h.knowsAt hpc
  have hholds : call.earlyUnlocked = false → call.Holding := by simp [Call.Holding, hpc]
  -- the call with its answer, however the copy of the status ends
  have hended (statusOut : Option Int) (faulted : Bool)
      (hstatus : ∀ status, statusOut = some status → status = call.status)
      (htold : faulted = false → statusOut = some call.status) :
      Ended { call with statusOut, faulted, pc := .unlock } := by
    have hret : call.ret = 0 ∧ call.copied ≠ none :=
      ⟨hdelivered.ret, by simp [hdelivered.copied]⟩
    constructor
    · intro ran' hsome
      cases hsome.symm.trans hdelivered.wasRun
      exact ⟨hdelivered.own.same rfl rfl, hdelivered.delivers⟩
    · intro status hsome
      refine ⟨hstatus status hsome, fun ran' hsome' => ?_⟩
      cases hsome'.symm.trans hdelivered.wasRun
      exact (hstatus status hsome).trans hdelivered.status
    · intro ran' count bytes hsome hbytes
      cases hsome.symm.trans hdelivered.wasRun
      exact Prod.mk.inj (Option.some.inj (hbytes.symm.trans hdelivered.copied))
    · intro _ _
      exact .inl hret
    · intro ran' hsome hfault
      cases hsome.symm.trans hdelivered.wasRun
      exact (htold hfault).trans (congrArg some hdelivered.status)
  simp only [ioctlStep, hpc]
  split
  case isTrue =>
    apply h.stay hctx (by simp [Call.mutexSide, hpc])
    · apply hended call.statusOut true
      · intro status hsome
        exact absurd (hsome.symm.trans hout) (Option.some_ne_none status)
      · intro hfault
        exact absurd hfault.symm Bool.false_ne_true
    · exact hholds
  case isFalse =>
    apply h.stay hctx (by simp [Call.mutexSide, hpc])
    · exact hended _ call.faulted (fun status hsome => (Option.some.inj hsome).symm) fun _ => rfl
    · exact hholds

theorem CallFits.unlock (hpc : call.pc = .unlock) :
    Kept table id ctx (ioctlStep table id outcome ctx call) := by
  have hknows := h.knowsAt hpc
  have hunlocked := h.unlocked
  simp only [Call.Unlocked, hpc, reduceCtorEq, or_false] at hunlocked
  have hended (unlocks : Nat) : Ended { call with unlocks, pc := .done } := by
    constructor
    · intro ran hsome
      exact ⟨(hknows.own ran hsome).1.same rfl rfl, (hknows.own ran hsome).2⟩
    · exact hknows.statusOut
    · exact hknows.copied
    · exact hknows.ret
    · exact hknows.told
  simp only [ioctlStep, hpc]
  split
  case isTrue hearly =>
    refine ⟨hctx, ⟨hended call.unlocks, ?_, ?_⟩, .inl rfl⟩
    · intro hholding
      simp [Call.Holding] at hholding
    · rw [if_pos hearly] at hunlocked
      simp [Call.Unlocked, hunlocked]
  case isFalse hearly =>
    have hmutex := h.holds (by simpa [Call.Holding, hpc] using hearly)
    have hsame : ctx.Same { ctx with ioctlMutex := none } := rfl
    refine ⟨hsame.fits hctx, ⟨hended _, ?_, ?_⟩, .inr ⟨.inr hmutex, hsame.grows⟩⟩
    · intro hholding
      simp [Call.Holding] at hholding
    · rw [if_neg hearly] at hunlocked
      simp [Call.Unlocked, hunlocked]

theorem CallFits.kept {calls : Nat → Option Call}
    (hmeets : call.pc.meets outcome ⟨ctx, calls⟩ = true)
    (hfilled : ctx.maxCmd ≠ 0 → ctx.shaken = true ∨ (System.mk ctx calls).storing = true) :
    Kept table id ctx (ioctlStep table id outcome ctx call) := by
  cases hpc : call.pc with
  | lock => exact h.lock hctx hpc
  | header => exact h.header hctx hpc
  | snapshot => exact h.snapshot hctx hpc
  | earlyUnlock => exact h.earlyUnlock hctx hpc
  | check => exact h.check hctx hpc
  | hsPayload => exact h.hsPayload hctx hpc
  | hsTable => exact h.hsTable hpc
  | hsFill => exact h.hsFill hpc
  | hsStore status => exact h.hsStore hctx hpc
  | hsTest => exact h.hsTest hctx hpc
  | hsCopy => exact h.hsCopy hctx hpc
  | hsStatus => exact h.hsStatus hctx hpc
  | lookup i => exact h.lookup hctx hpc
  | lookupEnd i =>
    have hend : i = ctx.maxCmd := by simpa [hpc, Pc.meets] using hmeets
    exact h.lookupEnd hctx hpc hend
  | alloc i => exact h.alloc hctx hpc
  | payload i => exact h.payload hctx hpc
  | run i =>
    have hmet : Delivers outcome.status ∧ (System.mk ctx calls).storing = false := by
      simpa [hpc, Pc.meets] using hmeets
    have hfound := (h.knowsAt hpc).1
    have hlisted := hfound.listed
    have hsome : ctx.maxCmd ≠ 0 := by
      rw [hfound.full.2]
      omega
    have hshaken := (hfilled hsome).resolve_right (by simp [hmet.2])
    exact h.run hctx hpc hmet.1 hshaken
  | test i => exact h.test hctx hpc
  | copyOut i => exact h.copyOut hctx hpc
  | putStatus => exact h.putStatus hctx hpc
  | unlock => exact h.unlock hctx hpc
  | done =>
    simp only [ioctlStep, hpc]
    trivial

end Kept

theorem CallFits.step {calls : Nat → Option Call} (h : CallFits table id ctx call)
    (hctx : CtxFits table ctx) (hmeets : call.pc.meets outcome ⟨ctx, calls⟩ = true)
    (hfilled : ctx.maxCmd ≠ 0 → ctx.shaken = true ∨ (System.mk ctx calls).storing = true)
    (hstep : ioctlStep table id outcome ctx call = some (ctx', call')) :
    StepFits table id ctx ctx' call' := by
  have hkept := h.kept hctx hmeets hfilled
  rw [hstep] at hkept
  exact hkept

theorem ioctlStep_maxCmd (hnot : call.pc ≠ .hsFill)
    (hstep : ioctlStep table id outcome ctx call = some (ctx', call')) :
    ctx'.maxCmd = ctx.maxCmd := by
  grind [ioctlStep, Smi.hsTable]

theorem System.storing_iff {s : System} : s.storing = true ↔
    ∃ id call, s.ctx.ioctlMutex = some id ∧ s.calls id = some call ∧
      call.pc = .hsStore smiStatusSuccess := by
  simp only [System.storing, Option.any_eq_true, beq_iff_eq]
  constructor
  · rintro ⟨id, hid, call, hcall, hpc⟩
    exact ⟨id, call, hid, hcall, hpc⟩
  · rintro ⟨id, call, hid, hcall, hpc⟩
    exact ⟨id, hid, call, hcall, hpc⟩

/-- Entries without a success are those of the handshake that has the mutex. -/
theorem StepFits.filled {calls : Nat → Option Call} (h : CallFits table id ctx call)
    (hcall : calls id = some call) (hstep : StepFits table id ctx ctx' call')
    (hnext : ioctlStep table id outcome ctx call = some (ctx', call'))
    (hfilled : ctx.maxCmd ≠ 0 → ctx.shaken = true ∨ (System.mk ctx calls).storing = true)
    (hsome : ctx'.maxCmd ≠ 0) :
    ctx'.shaken = true ∨
      (System.mk ctx' (update calls id (some call'))).storing = true := by
  by_cases hfill : call.pc = .hsFill
  · have hheld : call.Holding := by
      simp [Call.Holding, hfill, (show Shaking ctx call from h.knowsAt hfill).held]
    simp only [ioctlStep, hfill, Option.some.injEq, Prod.mk.injEq] at hnext
    obtain ⟨rfl, rfl⟩ := hnext
    exact .inr (System.storing_iff.mpr
      ⟨id, _, h.holds hheld, update_self .., rfl⟩)
  · rw [ioctlStep_maxCmd hfill hnext] at hsome
    rcases hfilled hsome with hshaken | hstoring
    · left
      rcases hstep.others with rfl | ⟨_, hgrows⟩
      · exact hshaken
      · exact hgrows.shaken hshaken
    · obtain ⟨holder, stores, hmutex, hstores, hpc⟩ := System.storing_iff.mp hstoring
      by_cases hid : holder = id
      · left
        subst hid
        cases hcall.symm.trans hstores
        simp only [ioctlStep, hpc, Option.some.injEq, Prod.mk.injEq] at hnext
        obtain ⟨rfl, rfl⟩ := hnext
        simp
      · right
        have hsame : ctx' = ctx := by
          rcases hstep.others with hsame | ⟨hfree | hmine, _⟩
          · exact hsame
          · exact absurd (hmutex.symm.trans hfree) (Option.some_ne_none _)
          · exact absurd (Option.some.inj (hmutex.symm.trans hmine)) hid
        rw [hsame]
        exact System.storing_iff.mpr
          ⟨holder, stores, hmutex, (update_of_ne hid ..).trans hstores, hpc⟩

theorem CallFits.other {other : Nat} {call₁ : Call} (h : CallFits table other ctx call₁)
    (hne : other ≠ id) (hstep : StepFits table id ctx ctx' call') :
    CallFits table other ctx' call₁ := by
  rcases hstep.others with rfl | ⟨hmutex, hgrows⟩
  case inl => exact h
  case inr =>
    have hnot : ¬ call₁.Holding := by
      intro hheld
      have hother := h.holds hheld
      rcases hmutex with hnone | hid
      case inl => exact Option.some_ne_none _ (hother.symm.trans hnone)
      case inr => exact hne (Option.some.inj (hother.symm.trans hid))
    exact ⟨h.knows.grows hnot hgrows, fun hheld => absurd hheld hnot, h.unlocked⟩

theorem CallFits.unlocks (h : CallFits table id ctx call) :
    call.unlocks ≤ 1 ∧ (call.pc = .done → call.unlocks = 1) := by
  have hunlocked := h.unlocked
  rw [Call.Unlocked] at hunlocked
  constructor
  · rw [hunlocked]
    split
    · exact Nat.le_refl 1
    · exact Nat.zero_le 1
  · intro hdone
    rw [hunlocked, if_pos (.inr hdone)]

theorem lawful_idle (hran : call.ran = none) (hout : call.statusOut = none)
    (hunlocks : call.unlocks ≤ 1 ∧ (call.pc = .done → call.unlocks = 1)) : Lawful call := by
  have hnone {ran : Ran} : call.ran ≠ some ran := fun hsome =>
    Option.some_ne_none ran (hsome.symm.trans hran)
  constructor
  · intro ran hsome
    exact absurd hsome hnone
  · intro status hsome
    exact absurd (hsome.symm.trans hout) (Option.some_ne_none status)
  · intro ran _ _ hsome
    exact absurd hsome hnone
  · intro ran hsome
    exact absurd hsome hnone
  · intro ran hsome
    exact absurd hsome hnone
  · intro ran hsome
    exact absurd hsome hnone
  · exact hunlocks

theorem lawful_ran {ran : Ran} (hran : call.ran = some ran) (hown : Own call ran)
    (hcopied : ∀ count bytes, call.copied = some (count, bytes) → Delivers ran.status ∧
      count = min call.reqHdr.outLen ran.entry.outBufferLen ∧ bytes = ran.output)
    (hout : call.statusOut = none) (hpc : call.pc ≠ .done)
    (hunlocks : call.unlocks ≤ 1 ∧ (call.pc = .done → call.unlocks = 1)) : Lawful call := by
  have hsame {ran' : Ran} (hsome : call.ran = some ran') : ran' = ran :=
    Option.some.inj (hsome.symm.trans hran)
  constructor
  · intro ran' hsome
    exact hsame hsome ▸ hown
  · intro status hsome
    exact absurd (hsome.symm.trans hout) (Option.some_ne_none status)
  · intro ran' count bytes hsome
    exact hsame hsome ▸ hcopied count bytes
  · intro _ _ hdone
    exact absurd hdone hpc
  · intro _ _ hdone
    exact absurd hdone hpc
  · intro _ _ hdone
    exact absurd hdone hpc
  · exact hunlocks

theorem Ended.lawful (h : Ended call)
    (hunlocks : call.unlocks ≤ 1 ∧ (call.pc = .done → call.unlocks = 1)) : Lawful call := by
  constructor
  · intro ran hsome
    exact (h.own ran hsome).1
  · exact h.statusOut
  · intro ran count bytes hsome hcopied
    exact ⟨(h.own ran hsome).2, h.copied ran count bytes hsome hcopied⟩
  · intro ran hsome _ _
    exact h.ret ran hsome
  · intro ran hsome _ hnot
    exact absurd (h.own ran hsome).2 hnot
  · intro ran hsome _ hfault
    exact h.told ran hsome hfault
  · exact hunlocks

theorem After.lawful {i : Nat} {ran : Ran} (h : After table ctx call i ran) (hpc : call.pc ≠ .done)
    (hunlocks : call.unlocks ≤ 1 ∧ (call.pc = .done → call.unlocks = 1)) : Lawful call := by
  apply lawful_ran h.wasRun h.own
  · intro count bytes hsome
    exact absurd (hsome.symm.trans h.copied) (Option.some_ne_none _)
  · exact h.statusOut
  · exact hpc
  · exact hunlocks

theorem Delivered.lawful {ran : Ran} (h : Delivered call ran) (hout : call.statusOut = none)
    (hpc : call.pc ≠ .done)
    (hunlocks : call.unlocks ≤ 1 ∧ (call.pc = .done → call.unlocks = 1)) : Lawful call := by
  apply lawful_ran h.wasRun h.own
  · intro count bytes hsome
    exact ⟨h.delivers, Prod.mk.inj (Option.some.inj (hsome.symm.trans h.copied))⟩
  · exact hout
  · exact hpc
  · exact hunlocks

theorem CallFits.lawful (h : CallFits table id ctx call) : Lawful call := by
  have hunlocks := h.unlocks
  have hknows := h.knows
  cases hpc : call.pc <;> rw [hpc] at hknows
  case lock => exact lawful_idle hknows.1.ran hknows.1.statusOut hunlocks
  case header => exact lawful_idle hknows.1.ran hknows.1.statusOut hunlocks
  case snapshot => exact lawful_idle hknows.1.ran hknows.1.statusOut hunlocks
  case earlyUnlock => exact lawful_idle hknows.1.ran hknows.1.statusOut hunlocks
  case check => exact lawful_idle hknows.1.ran hknows.1.statusOut hunlocks
  case hsPayload => exact lawful_idle hknows.1.fresh.ran hknows.1.fresh.statusOut hunlocks
  case hsTable => exact lawful_idle hknows.1.fresh.ran hknows.1.fresh.statusOut hunlocks
  case hsFill => exact lawful_idle hknows.fresh.ran hknows.fresh.statusOut hunlocks
  case hsStore => exact lawful_idle hknows.1.fresh.ran hknows.1.fresh.statusOut hunlocks
  case hsTest => exact lawful_idle hknows.1.ran hknows.1.statusOut hunlocks
  case hsCopy => exact lawful_idle hknows.1.ran hknows.1.statusOut hunlocks
  case hsStatus => exact lawful_idle hknows.1 hknows.2.1 hunlocks
  case lookup => exact lawful_idle hknows.1.ran hknows.1.statusOut hunlocks
  case lookupEnd => exact lawful_idle hknows.1.ran hknows.1.statusOut hunlocks
  case alloc => exact lawful_idle hknows.fresh.ran hknows.fresh.statusOut hunlocks
  case payload => exact lawful_idle hknows.fresh.ran hknows.fresh.statusOut hunlocks
  case run => exact lawful_idle hknows.1.fresh.ran hknows.1.fresh.statusOut hunlocks
  case test =>
    obtain ⟨ran, hafter⟩ := hknows
    exact hafter.lawful (by simp [hpc]) hunlocks
  case copyOut =>
    obtain ⟨ran, hafter⟩ := hknows
    exact hafter.lawful (by simp [hpc]) hunlocks
  case putStatus =>
    obtain ⟨ran, hdelivered, hout⟩ := hknows
    exact hdelivered.lawful hout (by simp [hpc]) hunlocks
  case unlock => exact Ended.lawful hknows hunlocks
  case done => exact Ended.lawful hknows hunlocks

end Steps

section Runs

variable (table : List CmdEntry) {s t : System}

theorem fits_initial (hs : Initial s) : Fits table s := by
  obtain ⟨privileged, rfl⟩ := hs
  constructor
  · exact ⟨.inl rfl, fun hshaken => absurd hshaken Bool.false_ne_true⟩
  · intro id call hcall
    exact absurd hcall.symm (Option.some_ne_none call)
  · intro hsome
    exact absurd rfl hsome

theorem callFits_newCall (id : Nat) (ctx : Ctx) (reqHdr : InHdr) (reqPayload : Bytes) :
    CallFits table id ctx (newCall reqHdr reqPayload) := by
  constructor
  · exact ⟨⟨rfl, rfl, rfl, rfl⟩, rfl⟩
  · intro hheld
    simp [Call.Holding, newCall] at hheld
  · simp [Call.Unlocked, newCall]

theorem Fits.step (h : Fits table s) {label : Label} (hmeets : Meets s label)
    (hstep : Step table s label t) : Fits table t := by
  cases label with
  | start id reqHdr reqPayload =>
    cases hcall : s.calls id with
    | some call =>
      simp only [Step, System.step, hcall] at hstep
      exact absurd hstep.symm (Option.some_ne_none t)
    | none =>
      simp only [Step, System.step, hcall, Option.some.injEq] at hstep
      subst hstep
      refine ⟨h.ctx, ?_, ?_⟩
      · intro other call hother
        by_cases hid : other = id
        case pos =>
          simp only [hid, update_self, Option.some.injEq] at hother
          subst hother
          exact callFits_newCall table other s.ctx reqHdr reqPayload
        case neg =>
          simp only [update_of_ne hid] at hother
          exact h.calls other call hother
      · intro hsome
        refine (h.filled hsome).imp_right fun hstoring => ?_
        obtain ⟨holder, stores, hmutex, hstores, hpc⟩ := System.storing_iff.mp hstoring
        have hid : holder ≠ id := by
          rintro rfl
          exact absurd (hstores.symm.trans hcall) (Option.some_ne_none _)
        exact System.storing_iff.mpr
          ⟨holder, stores, hmutex, (update_of_ne hid ..).trans hstores, hpc⟩
  | call id outcome =>
    cases hcall : s.calls id with
    | none =>
      simp only [Step, System.step, hcall] at hstep
      exact absurd hstep.symm (Option.some_ne_none t)
    | some call =>
      cases hnext : ioctlStep table id outcome s.ctx call with
      | none =>
        simp only [Step, System.step, hcall, hnext] at hstep
        exact absurd hstep.symm (Option.some_ne_none t)
      | some next =>
        simp only [Step, System.step, hcall, hnext, Option.some.injEq] at hstep
        subst hstep
        have hcalled := h.calls id call hcall
        have hfits := hcalled.step h.ctx (hmeets call hcall) h.filled hnext
        refine ⟨hfits.ctxFits, ?_, hfits.filled hcalled hcall hnext h.filled⟩
        intro other call₁ hother
        by_cases hid : other = id
        case pos =>
          simp only [hid, update_self, Option.some.injEq] at hother
          subst hother
          exact hid ▸ hfits.fits
        case neg =>
          simp only [update_of_ne hid] at hother
          exact (h.calls other call₁ hother).other hid hfits

/-- The ioctls on one descriptor, in any order and any interleaving. -/
theorem ioctls_lawful (run : Run Initial (Step table) Meets s) (id : Nat) (call : Call)
    (hcall : s.calls id = some call) :
    Lawful call ∧ (call.Holding → s.ctx.ioctlMutex = some id) := by
  have hfits : Fits table s := run.invariant (Fits table) (fun _ hs => fits_initial table hs)
    (fun _ _ _ h hmeets hstep => h.step table hmeets hstep)
  have h := hfits.calls id call hcall
  exact ⟨h.lawful, h.holds⟩

end Runs

section Examples

def oneCommand : List CmdEntry := [⟨0x1000002, 4, 8⟩]

def versionPayload : Bytes := putVersion smiVersionMax fun _ => 0

def oneCallLabels (status : Int) : List Label :=
  let outcome : Outcome := ⟨false, true, status, fun _ => 1⟩
  .start 0 ⟨smiCmdCodeHandshake, 4, 4⟩ versionPayload :: List.replicate 12 (.call 0 outcome) ++
    .start 1 ⟨0x1000002, 4, 8⟩ versionPayload :: List.replicate 12 (.call 1 outcome)

def freshSystem : System := ⟨openCtx true, fun _ => none⟩

def secondEnds (status : Int) (s : System) : Bool :=
  (s.calls 1).any fun call =>
    call.pc = .done ∧ call.ret = 0 ∧ call.ran.map Ran.status = some status

theorem secondEnds_call {status : Int} {s : System} (h : secondEnds status s = true) :
    ∃ call ran, s.calls 1 = some call ∧ call.pc = .done ∧ call.ret = 0 ∧ call.ran = some ran ∧
      ran.status = status := by
  obtain ⟨call, hcall, hends⟩ := (Option.any_eq_true _ _).mp h
  obtain ⟨hdone, hret, hran⟩ := of_decide_eq_true hends
  obtain ⟨ran, hsome, hstatus⟩ := Option.map_eq_some_iff.mp hran
  exact ⟨call, ran, hcall, hdone, hret, hsome, hstatus⟩

theorem oneCallLabels_noData : ((oneCallLabels smiStatusNoData).foldlM (fun s label =>
    if Meets s label then s.step oneCommand label else none) freshSystem).any
      (secondEnds smiStatusNoData) = true := by
  decide +kernel

/-- A handler that has no data. -/
theorem ioctls_lawful_noData : ∃ (s : System) (call : Call) (ran : Ran),
    s.calls 1 = some call ∧ call.pc = .done ∧ call.ran = some ran ∧
    ran.status = smiStatusNoData ∧ Lawful call := by
  obtain ⟨s, hs, hends⟩ := (Option.any_eq_true _ _).mp oneCallLabels_noData
  obtain ⟨call, ran, hcall, hdone, -, hran, hstatus⟩ := secondEnds_call hends
  have run : Run Initial (Step oneCommand) Meets s :=
    Run.followMet (oneCallLabels smiStatusNoData) (.start ⟨true, rfl⟩) hs
  exact ⟨s, call, ran, hcall, hdone, hran, hstatus, (ioctls_lawful oneCommand run 1 call hcall).1⟩

theorem oneCallLabels_inval : ((oneCallLabels smiStatusInval).foldlM (System.step oneCommand)
    freshSystem).any (secondEnds smiStatusInval) = true := by
  decide +kernel

/-- A handler refuses its input, after a handshake: the caller gets its payload, and success. -/
theorem ioctls_inval : ¬ ∀ (table : List CmdEntry) (s : System),
    Run Initial (Step table) always s → ∀ id call, s.calls id = some call → Lawful call := by
  intro hall
  obtain ⟨s, hs, hends⟩ := (Option.any_eq_true _ _).mp oneCallLabels_inval
  obtain ⟨call, ran, hcall, hdone, hret, hran, hstatus⟩ := secondEnds_call hends
  have run : Run Initial (Step oneCommand) always s :=
    Run.follow (oneCallLabels smiStatusInval) (.start ⟨true, rfl⟩) hs
  have hlawful := hall oneCommand s run 1 call hcall
  have hrefused := (hlawful.refused ran hran hdone (by rw [hstatus]; decide)).1
  rw [hret] at hrefused
  exact absurd hrefused (by decide)

end Examples

end MxGpu.Smi
