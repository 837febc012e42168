import MxGpu.RasEvents

/- The event thread of the RAS core and the requests that it handles (`ras_process.c`). -/
namespace MxGpu.RasProcess

open Kfifo Transition

/-- What has become of a request that was accepted. -/
inductive Fate where
  | processed
  | discarded
  deriving DecidableEq

/-- The fates of the requests of one kind, in the order in which the requests were accepted, and
how many had been accepted when the GPU was last reset. -/
structure Ledger where
  fates : List Fate
  resetAt : Nat

/-- Where `ras_process_thread` is: in its wait, past it, or past the store to `ras_interrupt_req`. -/
inductive ThreadPc where
  | waiting
  | woken
  | gates
  deriving DecidableEq

/-- Where `ras_process_handle_ras_event` is. -/
inductive HandlerPc where
  | idle
  | begin
  | counting
  | umc (eventCount : BitVec 32)
  | subtract (eventCount : BitVec 32)
  | testing
  | fifoLen
  | nonUmc (left : Nat) (resetFlags : BitVec 32)
  | clearing
  | zeroing
  | ending
  deriving DecidableEq

/-- `struct ras_process`, the threads that work on it, and what has become of the requests.
`raising` counts the callers that have stored their request and not yet raised
`ras_interrupt_req`, `rasEvents` the queued `AMDGV_EVENT_SCHED_RAS_EVENT`s. -/
structure Process where
  queue : EventQueue
  umcInterruptCount : BitVec 32
  rasInterruptReq : BitVec 32
  raising : Nat
  thread : ThreadPc
  rasEvents : Nat
  handler : HandlerPc
  umcAccepted : Nat
  umc : Ledger
  nonUmc : Ledger

/-- How `ras_process_umc_event` returns. -/
inductive UmcResult where
  | ok (rma : Bool)
  | failed
  | inMode1Reset

def gpuResetCauseRma : BitVec 32 := 0x10004

/-- The `reset` field of a request. -/
def resetOf (req : List UInt8) : BitVec 32 :=
  (req.getD 23 0).toBitVec ++ (req.getD 22 0).toBitVec ++ (req.getD 21 0).toBitVec ++
    (req.getD 20 0).toBitVec

/-- The request of `ras_process_add_reset_gpu_event`: zero but for `reset`. -/
def resetGpuEvent : RasEventReq where
  bytes := List.replicate 20 0 ++ [4, 0, 1, 0] ++ List.replicate 16 0
  sized := rfl

inductive Label where
  | addInterruptReq (isInitialized : Bool) (req : RasEventReq) (isUmc : Bool)
  | raise
  | wake
  | consume
  | gates (isInitialized inReset queued : Bool)
  | dropEvent
  | dispatch (ready : Bool)
  | begin (ok rma : Bool)
  | readCount
  | umcEvent (result : UmcResult)
  | subtract
  | test
  | readLen
  | getEvent
  | notifyReset (ok : Bool)
  | clearEvent
  | zero
  | ending

section Steps

variable (p : Process)

def Process.reset : Process :=
  { p with
    umc := { p.umc with resetAt := p.umcAccepted }
    nonUmc := { p.nonUmc with resetAt := p.queue.accepted.length } }

def addUmcInterruptReq : Process :=
  { p with
    umcInterruptCount := p.umcInterruptCount + 1
    umcAccepted := p.umcAccepted + 1
    raising := p.raising + 1 }

def addNonUmcInterruptReq (req : RasEventReq) : Process :=
  let (queue, ok) := p.queue.putEvent req
  if ok then { p with queue, raising := p.raising + 1 } else { p with queue }

/-- `ras_process_add_interrupt_req` up to the increment of `ras_interrupt_req`. -/
def addInterruptReq (isInitialized : Bool) (req : RasEventReq) (isUmc : Bool) : Process :=
  if !isInitialized then p
  else if isUmc then addUmcInterruptReq p
  else addNonUmcInterruptReq p req

/-- The rest of `ras_process_thread` once it has cleared `ras_interrupt_req`; `queued` tells
whether `amdgv_sched_queue_event` succeeds, which the code does not look at. -/
def passGates (isInitialized inReset queued : Bool) : Process :=
  if !isInitialized then { p with thread := .waiting }
  else if inReset then { p with thread := .waiting }
  else if queued then { p with thread := .waiting, rasEvents := p.rasEvents + 1 }
  else { p with thread := .waiting }

/-- `ras_process_handle_ras_event` before its loop. -/
def beginRasEvent (ok rma : Bool) : Process :=
  if !ok then { p with handler := .idle }
  else if rma then { p.reset with handler := .idle }
  else { p with handler := .counting }

/-- The return of `ras_process_umc_event`, after its request for a reset. -/
def endUmcEvent (eventCount : BitVec 32) : UmcResult → Process
  | .ok true => { p with queue := (p.queue.putEvent resetGpuEvent).1, handler := .subtract eventCount }
  | .ok false => { p with handler := .subtract eventCount }
  | .failed => { p with handler := .subtract eventCount }
  | .inMode1Reset => { p.reset with handler := .clearing }

def subtractUmcCount (eventCount : BitVec 32) : Process :=
  { p with
    umcInterruptCount := p.umcInterruptCount - eventCount
    umc := { p.umc with fates := p.umc.fates ++ List.replicate eventCount.toNat .processed }
    handler := .testing }

/-- One turn of the loop in `ras_process_non_umc_event`. -/
def nonUmcEvent (left : Nat) (resetFlags : BitVec 32) : Process :=
  match p.queue.getEvent with
  | (queue, none) => { p with queue, handler := .nonUmc left resetFlags }
  | (queue, some req) =>
    { p with
      queue
      nonUmc := { p.nonUmc with fates := p.nonUmc.fates ++ [.processed] }
      handler := .nonUmc left (resetFlags ||| resetOf req) }

/-- What `ras_process_non_umc_event` does after its loop. -/
def endNonUmcEvent (resetFlags : BitVec 32) (ok : Bool) : Process :=
  if resetFlags = 0 then { p with handler := .ending }
  else if ok && resetFlags &&& gpuResetCauseRma ≠ 0 then { p.reset with handler := .clearing }
  else { p with handler := .ending }

/-- One turn of the loop in `ras_process_clear_event_fifo`. -/
def clearEventFifo : Process :=
  match p.queue.getEvent with
  | (queue, none) => { p with queue, handler := .zeroing }
  | (queue, some _) =>
    { p with queue, nonUmc := { p.nonUmc with fates := p.nonUmc.fates ++ [.discarded] } }

def zeroUmcCount : Process :=
  { p with
    umcInterruptCount := 0
    umc := { p.umc with
      fates := p.umc.fates ++ List.replicate p.umcInterruptCount.toNat .discarded }
    handler := .ending }

def Process.next : Label → Option Process
  | .addInterruptReq isInitialized req isUmc => some (addInterruptReq p isInitialized req isUmc)
  | .raise => if p.raising = 0 then none else
      some { p with raising := p.raising - 1, rasInterruptReq := p.rasInterruptReq + 1 }
  | .wake => if p.thread = .waiting then some { p with thread := .woken } else none
  | .consume =>
    if p.thread = .woken then some { p with rasInterruptReq := 0, thread := .gates } else none
  | .gates isInitialized inReset queued =>
    if p.thread = .gates then some (passGates p isInitialized inReset queued) else none
  | .dropEvent => if p.rasEvents = 0 then none else some { p with rasEvents := p.rasEvents - 1 }
  | .dispatch ready =>
    if p.handler = .idle ∧ p.rasEvents ≠ 0 then
      some { p with rasEvents := p.rasEvents - 1, handler := if ready then .begin else .idle }
    else none
  | .begin ok rma => if p.handler = .begin then some (beginRasEvent p ok rma) else none
  | .readCount =>
    if p.handler = .counting then some { p with handler := .umc p.umcInterruptCount } else none
  | .umcEvent result =>
    match p.handler with
    | .umc eventCount => some (endUmcEvent p eventCount result)
    | _ => none
  | .subtract =>
    match p.handler with
    | .subtract eventCount => some (subtractUmcCount p eventCount)
    | _ => none
  | .test =>
    if p.handler = .testing then
      some { p with handler := if p.umcInterruptCount = 0 then .fifoLen else .counting }
    else none
  | .readLen =>
    if p.handler = .fifoLen then
      let eventCount := (getUsedSpace p.queue.eventFifo).toNat
      some { p with handler := if eventCount = 0 then .ending else .nonUmc eventCount 0 }
    else none
  | .getEvent =>
    match p.handler with
    | .nonUmc (left + 1) resetFlags => some (nonUmcEvent p left resetFlags)
    | _ => none
  | .notifyReset ok =>
    match p.handler with
    | .nonUmc 0 resetFlags => some (endNonUmcEvent p resetFlags ok)
    | _ => none
  | .clearEvent => if p.handler = .clearing then some (clearEventFifo p) else none
  | .zero => if p.handler = .zeroing then some (zeroUmcCount p) else none
  | .ending => if p.handler = .ending then some { p with handler := .idle } else none

end Steps

/-- `ras_process_init`. -/
def Initial (p : Process) : Prop :=
  EventStart p.queue ∧ p.umcInterruptCount = 0 ∧ p.rasInterruptReq = 0 ∧ p.raising = 0 ∧
    p.thread = .waiting ∧ p.rasEvents = 0 ∧ p.handler = .idle ∧ p.umcAccepted = 0 ∧
    p.umc = ⟨[], 0⟩ ∧ p.nonUmc = ⟨[], 0⟩

def Step (p : Process) (label : Label) (p' : Process) : Prop := p.next label = some p'

structure Process.Idle (p : Process) : Prop where
  thread : p.thread = .waiting
  lowered : p.rasInterruptReq = 0
  raised : p.raising = 0
  events : p.rasEvents = 0
  handler : p.handler = .idle

/-- Nothing that was accepted waits. -/
structure Process.Quiet (p : Process) : Prop where
  umc : p.umcInterruptCount = 0
  nonUmc : contents p.queue.eventFifo = []

/-- Only requests that were accepted before a reset are discarded. -/
def Ledger.BeforeReset (ledger : Ledger) : Prop :=
  ∀ k, ledger.fates[k]? = some .discarded → k < ledger.resetAt

/-- Every accepted request is processed or discarded once, in the order of acceptance. -/
structure NoneLost (p : Process) : Prop where
  umc : p.umc.fates.length + p.umcInterruptCount.toNat = p.umcAccepted
  nonUmc : Delivered p.queue ∧ p.nonUmc.fates.length = p.queue.received.length
  umcDiscarded : p.umc.BeforeReset
  nonUmcDiscarded : p.nonUmc.BeforeReset
  idle : p.Idle → p.Quiet

def Process.Alert (p : Process) : Prop :=
  p.rasInterruptReq ≠ 0 ∨ 0 < p.raising ∨ p.thread ≠ .waiting ∨ 0 < p.rasEvents

def HandlerPc.Counts : HandlerPc → Prop
  | .begin | .counting | .umc _ | .subtract _ | .testing | .clearing | .zeroing => True
  | _ => False

/-- The handler is going to take `n` requests out of the FIFO. -/
def HandlerPc.Drains (n : Nat) : HandlerPc → Prop
  | .begin | .counting | .umc _ | .subtract _ | .testing | .fifoLen | .clearing => True
  | .nonUmc left _ => n ≤ left
  | _ => False

def Process.waits (p : Process) : Nat := p.queue.accepted.length - p.queue.received.length

/-- The handler, where it is, is going to take what waits. -/
structure Process.Covered (p : Process) : Prop where
  umc : p.umcInterruptCount ≠ 0 → p.handler.Counts
  nonUmc : p.waits ≠ 0 → p.handler.Drains p.waits

/-- The conditions on the steps: the FIFO has room for the request and the counters for one more,
nothing is accepted while the handler discards; and what queues, starts and stops the handling does
not fail as long as requests wait that no other wake-up, no other event and no handler will meet. -/
def Meets (p : Process) : Label → Prop
  | .addInterruptReq isInitialized _ isUmc => isInitialized = true →
      (if isUmc then p.umcInterruptCount.toNat + 1 < 2 ^ 32 else p.queue.HasRoom) ∧
        p.handler ≠ .clearing ∧ p.handler ≠ .zeroing
  | .raise => p.rasInterruptReq.toNat + 1 < 2 ^ 32
  | .gates isInitialized inReset queued =>
      (isInitialized = true ∧ inReset = false ∧ queued = true) ∨
        Process.Alert { p with thread := .waiting } ∨ p.Covered
  | .dropEvent => Process.Alert { p with rasEvents := p.rasEvents - 1 } ∨ p.Covered
  | .dispatch ready =>
      ready = true ∨ Process.Alert { p with rasEvents := p.rasEvents - 1 } ∨ p.Quiet
  | .begin ok rma => (ok = true ∧ rma = false) ∨ p.Alert ∨ p.Quiet
  | .umcEvent (.ok rma) => rma = true → p.queue.HasRoom
  | _ => True

/-- Requests were accepted before they were reset, and were reset before they were discarded. -/
structure Ledger.Sound (ledger : Ledger) (accepted : Nat) : Prop where
  before : ledger.BeforeReset
  reset : ledger.resetAt ≤ accepted

section Ledgers

variable {ledger : Ledger} {accepted : Nat}

theorem Ledger.Sound.accept (h : ledger.Sound accepted) : ledger.Sound (accepted + 1) :=
  ⟨h.before, Nat.le_succ_of_le h.reset⟩

theorem Ledger.Sound.mark (h : ledger.Sound accepted) :
    Ledger.Sound { ledger with resetAt := accepted } accepted := by
  refine ⟨fun k hk => ?_, Nat.le_refl _⟩
  exact Nat.lt_of_lt_of_le (h.before k hk) h.reset

theorem Ledger.Sound.process (h : ledger.Sound accepted) (n : Nat) :
    Ledger.Sound { ledger with fates := ledger.fates ++ List.replicate n .processed } accepted := by
  refine ⟨fun k hk => ?_, h.reset⟩
  apply h.before k
  rw [List.getElem?_append] at hk
  split at hk
  · exact hk
  · have hfate := List.eq_of_mem_replicate (List.mem_of_getElem? hk)
    exact Fate.noConfusion hfate

theorem Ledger.Sound.discard {n : Nat} (h : ledger.Sound accepted)
    (hn : ledger.fates.length + n ≤ ledger.resetAt) :
    Ledger.Sound { ledger with fates := ledger.fates ++ List.replicate n .discarded } accepted := by
  refine ⟨fun k hk => ?_, h.reset⟩
  have hlt := (List.getElem?_eq_some_iff.mp hk).choose
  rw [List.length_append, List.length_replicate] at hlt
  exact Nat.lt_of_lt_of_le hlt hn

end Ledgers

structure Books (p : Process) : Prop where
  events : EventInv p.queue
  umcCount : p.umc.fates.length + p.umcInterruptCount.toNat = p.umcAccepted
  nonUmcCount : p.nonUmc.fates.length = p.queue.received.length
  umcSound : p.umc.Sound p.umcAccepted
  nonUmcSound : p.nonUmc.Sound p.queue.accepted.length

/-- The handler is going to take what it has read or everything out. -/
def HandlerPc.Removes : HandlerPc → Prop
  | .umc _ | .subtract _ | .clearing | .zeroing => True
  | _ => False

/-- The handler subtracts what it has read, and discards what was there before the reset. -/
structure HandlerSound (p : Process) : Prop where
  subtracts : ∀ eventCount, p.handler = .umc eventCount ∨ p.handler = .subtract eventCount →
    eventCount.toNat ≤ p.umcInterruptCount.toNat
  discards : p.handler = .clearing ∨ p.handler = .zeroing →
    p.umc.resetAt = p.umcAccepted ∧ p.nonUmc.resetAt = p.queue.accepted.length

/-- Where requests wait, the handler will take them or be started. -/
structure Pending (p : Process) : Prop where
  umc : p.umcInterruptCount ≠ 0 → p.Alert ∨ p.handler.Counts
  nonUmc : p.waits ≠ 0 → p.Alert ∨ p.handler.Drains p.waits

structure ProcessInv (p : Process) : Prop where
  books : Books p
  handler : HandlerSound p
  pending : Pending p

section Invariant

variable {p p' : Process} {label : Label}

theorem Pending.alert (h : p.Alert) : Pending p := ⟨fun _ => .inl h, fun _ => .inl h⟩

theorem Books.quiet (h : Books p) (hquiet : p.Quiet) : p.waits = 0 := by
  have hlength := h.events.delivered.length
  rw [hquiet.nonUmc, List.length_nil] at hlength
  unfold Process.waits
  omega

theorem Books.contents_nil (h : Books p) (hwaits : p.waits = 0) :
    contents p.queue.eventFifo = [] := by
  have hlength := h.events.delivered.length
  unfold Process.waits at hwaits
  rw [hwaits, Nat.zero_mul] at hlength
  exact List.eq_nil_of_length_eq_zero hlength

theorem ProcessInv.quietPending (h : ProcessInv p) (hquiet : p.Quiet)
    (hcount : p'.umcInterruptCount = p.umcInterruptCount) (hqueue : p'.queue = p.queue) :
    Pending p' := by
  refine ⟨fun hne => ?_, fun hne => ?_⟩
  · exact absurd (hcount.trans hquiet.umc) hne
  · unfold Process.waits at hne
    rw [hqueue] at hne
    exact absurd (h.books.quiet hquiet) hne

theorem ProcessInv.nothingLost (h : ProcessInv p) : NoneLost p where
  umc := h.books.umcCount
  nonUmc := ⟨h.books.events.delivered, h.books.nonUmcCount⟩
  umcDiscarded := h.books.umcSound.before
  nonUmcDiscarded := h.books.nonUmcSound.before
  idle hidle := by
    have hcalm : ¬p.Alert := by
      rintro (hflag | hraising | hthread | hevents)
      · exact hflag hidle.lowered
      · rw [hidle.raised] at hraising
        exact Nat.lt_irrefl 0 hraising
      · exact hthread hidle.thread
      · rw [hidle.events] at hevents
        exact Nat.lt_irrefl 0 hevents
    refine ⟨?_, h.books.contents_nil ?_⟩
    · by_contra hne
      rcases h.pending.umc hne with halert | hcounts
      · exact hcalm halert
      · rw [hidle.handler] at hcounts
        exact hcounts
    · by_contra hne
      rcases h.pending.nonUmc hne with halert | hdrains
      · exact hcalm halert
      · rw [hidle.handler] at hdrains
        exact hdrains

theorem ProcessInv.frame (h : ProcessInv p) (hqueue : p'.queue = p.queue)
    (hcount : p'.umcInterruptCount = p.umcInterruptCount) (haccepted : p'.umcAccepted = p.umcAccepted)
    (humc : p'.umc = p.umc) (hnonUmc : p'.nonUmc = p.nonUmc) (hhandler : p'.handler = p.handler)
    (halert : p'.Alert ∨ p.Covered) : ProcessInv p' := by
  refine ⟨⟨?_, ?_, ?_, ?_, ?_⟩, ⟨?_, ?_⟩, ?_⟩
  · rw [hqueue]
    exact h.books.events
  · rw [hcount, haccepted, humc]
    exact h.books.umcCount
  · rw [hqueue, hnonUmc]
    exact h.books.nonUmcCount
  · rw [haccepted, humc]
    exact h.books.umcSound
  · rw [hqueue, hnonUmc]
    exact h.books.nonUmcSound
  · rw [hhandler, hcount]
    exact h.handler.subtracts
  · rw [hhandler, humc, haccepted, hnonUmc, hqueue]
    exact h.handler.discards
  · rcases halert with halert | hcovered
    · exact .alert halert
    · have hwaits : p'.waits = p.waits := by rw [Process.waits, hqueue, Process.waits]
      refine ⟨fun hne => .inr ?_, fun hne => .inr ?_⟩
      · rw [hhandler]
        exact hcovered.umc (hcount ▸ hne)
      · rw [hhandler, hwaits]
        exact hcovered.nonUmc (hwaits ▸ hne)

theorem HandlerSound.of_pc (h : ¬p.handler.Removes) : HandlerSound p where
  subtracts eventCount hpc := by
    rcases hpc with hpc | hpc
    · rw [hpc] at h
      exact absurd trivial h
    · rw [hpc] at h
      exact absurd trivial h
  discards hpc := by
    rcases hpc with hpc | hpc
    · rw [hpc] at h
      exact absurd trivial h
    · rw [hpc] at h
      exact absurd trivial h

theorem Books.accepted_put (h : Books p) (hroom : p.queue.HasRoom) (req : RasEventReq) :
    EventInv (p.queue.putEvent req).1 ∧
      (p.queue.putEvent req).1.received = p.queue.received ∧
        p.nonUmc.Sound (p.queue.putEvent req).1.accepted.length := by
  obtain ⟨hevents, hreceived, hyes, hno⟩ := h.events.putEvent hroom req
  refine ⟨hevents, hreceived, ?_⟩
  cases hok : (p.queue.putEvent req).2 with
  | true =>
    rw [hyes hok, List.length_append]
    exact h.nonUmcSound.accept
  | false =>
    rw [hno hok]
    exact h.nonUmcSound

theorem ProcessInv.addUmc (h : ProcessInv p) (hwrap : p.umcInterruptCount.toNat + 1 < 2 ^ 32)
    (hclearing : p.handler ≠ .clearing) (hzeroing : p.handler ≠ .zeroing) :
    ProcessInv (addUmcInterruptReq p) := by
  have hcount : (p.umcInterruptCount + 1).toNat = p.umcInterruptCount.toNat + 1 := by
    rw [BitVec.toNat_add]
    exact Nat.mod_eq_of_lt hwrap
  refine ⟨⟨h.books.events, ?_, h.books.nonUmcCount, h.books.umcSound.accept,
    h.books.nonUmcSound⟩, ⟨?_, ?_⟩, .alert (.inr (.inl (Nat.succ_pos _)))⟩
  · show p.umc.fates.length + (p.umcInterruptCount + 1).toNat = p.umcAccepted + 1
    rw [hcount, ← h.books.umcCount, Nat.add_assoc]
  · intro eventCount hpc
    show eventCount.toNat ≤ (p.umcInterruptCount + 1).toNat
    rw [hcount]
    exact Nat.le_succ_of_le (h.handler.subtracts eventCount hpc)
  · rintro (hpc | hpc)
    · exact absurd hpc hclearing
    · exact absurd hpc hzeroing

theorem ProcessInv.addNonUmc (h : ProcessInv p) (hroom : p.queue.HasRoom) (req : RasEventReq)
    (hclearing : p.handler ≠ .clearing) (hzeroing : p.handler ≠ .zeroing) :
    ProcessInv (addNonUmcInterruptReq p req) := by
  obtain ⟨hevents, hreceived, hsound⟩ := h.books.accepted_put hroom req
  obtain ⟨_, _, _, hno⟩ := h.books.events.putEvent hroom req
  unfold addNonUmcInterruptReq
  dsimp only
  split
  · refine ⟨⟨hevents, h.books.umcCount, ?_, h.books.umcSound, hsound⟩,
      ⟨h.handler.subtracts, ?_⟩, .alert (.inr (.inl (Nat.succ_pos _)))⟩
    · show _ = (p.queue.putEvent req).1.received.length
      rw [hreceived]
      exact h.books.nonUmcCount
    · rintro (hpc | hpc)
      · exact absurd hpc hclearing
      · exact absurd hpc hzeroing
  · rename_i hrefused
    have haccepted := hno (Bool.eq_false_iff.mpr hrefused)
    refine ⟨⟨hevents, h.books.umcCount, ?_, h.books.umcSound, hsound⟩,
      ⟨h.handler.subtracts, ?_⟩, ⟨h.pending.umc, ?_⟩⟩
    · show _ = (p.queue.putEvent req).1.received.length
      rw [hreceived]
      exact h.books.nonUmcCount
    · rintro (hpc | hpc)
      · exact absurd hpc hclearing
      · exact absurd hpc hzeroing
    · have hpending := h.pending.nonUmc
      unfold Process.waits at hpending ⊢
      dsimp only
      rw [haccepted, hreceived]
      exact hpending

theorem ProcessInv.add (h : ProcessInv p) (isInitialized isUmc : Bool) (req : RasEventReq)
    (hmeets : Meets p (.addInterruptReq isInitialized req isUmc)) :
    ProcessInv (addInterruptReq p isInitialized req isUmc) := by
  cases isInitialized with
  | false => exact h
  | true =>
    obtain ⟨hroom, hclearing, hzeroing⟩ := hmeets rfl
    cases isUmc with
    | false => exact h.addNonUmc hroom req hclearing hzeroing
    | true => exact h.addUmc hroom hclearing hzeroing

theorem ProcessInv.raise (h : ProcessInv p) (hwrap : p.rasInterruptReq.toNat + 1 < 2 ^ 32) :
    ProcessInv { p with
      raising := p.raising - 1, rasInterruptReq := p.rasInterruptReq + 1 } := by
  refine h.frame rfl rfl rfl rfl rfl rfl (.inl (.inl fun hzero => ?_))
  have hflag : (p.rasInterruptReq + 1).toNat = 0 := congrArg BitVec.toNat hzero
  rw [BitVec.toNat_add] at hflag
  have hnext : (p.rasInterruptReq.toNat + 1) % 2 ^ 32 = 0 := hflag
  omega

theorem ProcessInv.gates (h : ProcessInv p) (isInitialized inReset queued : Bool)
    (hmeets : Meets p (.gates isInitialized inReset queued)) :
    ProcessInv (passGates p isInitialized inReset queued) := by
  have hqueues : ProcessInv { p with thread := .waiting, rasEvents := p.rasEvents + 1 } :=
    h.frame rfl rfl rfl rfl rfl rfl (.inl (.inr (.inr (.inr (Nat.succ_pos _)))))
  rcases hmeets with ⟨hinit, hreset, hqueued⟩ | hserved
  · rw [hinit, hreset, hqueued]
    exact hqueues
  · have hwaiting : ProcessInv { p with thread := .waiting } :=
      h.frame rfl rfl rfl rfl rfl rfl hserved
    unfold passGates
    split
    · exact hwaiting
    · split
      · exact hwaiting
      · split
        · exact hqueues
        · exact hwaiting

theorem ProcessInv.goto (h : ProcessInv p) {pc : HandlerPc}
    (hsound : HandlerSound { p with handler := pc })
    (hcounts : p.umcInterruptCount ≠ 0 → p.handler.Counts → pc.Counts)
    (hdrains : p.waits ≠ 0 → p.handler.Drains p.waits → pc.Drains p.waits) :
    ProcessInv { p with handler := pc } :=
  ⟨⟨h.books.events, h.books.umcCount, h.books.nonUmcCount, h.books.umcSound, h.books.nonUmcSound⟩,
    hsound, fun hne => (h.pending.umc hne).imp id (hcounts hne),
    fun hne => (h.pending.nonUmc hne).imp id (hdrains hne)⟩

theorem ProcessInv.dispatch (h : ProcessInv p) (ready : Bool)
    (hmeets : Meets p (.dispatch ready)) : ProcessInv { p with
      rasEvents := p.rasEvents - 1, handler := if ready then .begin else .idle } := by
  refine ⟨⟨h.books.events, h.books.umcCount, h.books.nonUmcCount, h.books.umcSound,
    h.books.nonUmcSound⟩, ?_, ?_⟩
  · cases ready
    · exact .of_pc id
    · exact .of_pc id
  · rcases hmeets with hready | halert | hquiet
    · rw [hready]
      exact ⟨fun _ => .inr trivial, fun _ => .inr trivial⟩
    · exact .alert halert
    · exact h.quietPending hquiet rfl rfl

theorem ProcessInv.reset (h : ProcessInv p) : Books p.reset :=
  ⟨h.books.events, h.books.umcCount, h.books.nonUmcCount, h.books.umcSound.mark,
    h.books.nonUmcSound.mark⟩

theorem ProcessInv.resetClearing (h : ProcessInv p) :
    ProcessInv { p.reset with handler := .clearing } := by
  obtain ⟨hevents, humc, hnonUmc, humcSound, hnonUmcSound⟩ := h.reset
  refine ⟨⟨hevents, humc, hnonUmc, humcSound, hnonUmcSound⟩, ⟨?_, fun _ => ⟨rfl, rfl⟩⟩,
    ⟨fun _ => .inr trivial, fun _ => .inr trivial⟩⟩
  rintro eventCount (hpc | hpc)
  · exact HandlerPc.noConfusion hpc
  · exact HandlerPc.noConfusion hpc

theorem ProcessInv.begin (h : ProcessInv p) (ok rma : Bool)
    (hmeets : Meets p (.begin ok rma)) : ProcessInv (beginRasEvent p ok rma) := by
  have hcounting : ProcessInv { p with handler := .counting } :=
    h.goto (.of_pc id) (fun _ _ => trivial) fun _ _ => trivial
  rcases hmeets with ⟨hok, hrma⟩ | hserved
  · rw [hok, hrma]
    exact hcounting
  · have hpending : Pending { p with handler := .idle } := by
      rcases hserved with halert | hquiet
      · exact .alert halert
      · exact h.quietPending hquiet rfl rfl
    obtain ⟨hevents, humc, hnonUmc, humcSound, hnonUmcSound⟩ := h.books
    unfold beginRasEvent
    split
    · exact ⟨⟨hevents, humc, hnonUmc, humcSound, hnonUmcSound⟩, .of_pc id, hpending⟩
    · split
      · exact ⟨⟨hevents, humc, hnonUmc, humcSound.mark, hnonUmcSound.mark⟩, .of_pc id,
          hpending.umc, hpending.nonUmc⟩
      · exact hcounting

theorem ProcessInv.readCount (h : ProcessInv p) :
    ProcessInv { p with handler := .umc p.umcInterruptCount } := by
  refine h.goto ⟨?_, ?_⟩ (fun _ _ => trivial) fun _ _ => trivial
  · rintro eventCount (hpc | hpc)
    · cases hpc
      exact Nat.le_refl _
    · exact HandlerPc.noConfusion hpc
  · rintro (hpc | hpc)
    · exact HandlerPc.noConfusion hpc
    · exact HandlerPc.noConfusion hpc

theorem HandlerSound.to_subtract (h : HandlerSound p) {eventCount : BitVec 32}
    (hpc : p.handler = .umc eventCount) (queue : EventQueue) :
    HandlerSound { p with queue, handler := .subtract eventCount } := by
  refine ⟨?_, ?_⟩
  · rintro c (hc | hc)
    · exact HandlerPc.noConfusion hc
    · cases hc
      exact h.subtracts eventCount (.inl hpc)
  · rintro (hc | hc)
    · exact HandlerPc.noConfusion hc
    · exact HandlerPc.noConfusion hc

theorem ProcessInv.umcEvent (h : ProcessInv p) {eventCount : BitVec 32}
    (hpc : p.handler = .umc eventCount) (result : UmcResult)
    (hmeets : Meets p (.umcEvent result)) : ProcessInv (endUmcEvent p eventCount result) := by
  have hgoto : ProcessInv { p with handler := .subtract eventCount } :=
    h.goto (h.handler.to_subtract hpc p.queue) (fun _ _ => trivial) fun _ _ => trivial
  cases result with
  | ok rma =>
    cases rma with
    | false => exact hgoto
    | true =>
      obtain ⟨hevents, hreceived, hsound⟩ := h.books.accepted_put (hmeets rfl) resetGpuEvent
      refine ⟨⟨hevents, h.books.umcCount, ?_, h.books.umcSound, hsound⟩,
        h.handler.to_subtract hpc _, ⟨fun _ => .inr trivial, fun _ => .inr trivial⟩⟩
      show _ = (p.queue.putEvent resetGpuEvent).1.received.length
      rw [hreceived]
      exact h.books.nonUmcCount
  | failed => exact hgoto
  | inMode1Reset => exact h.resetClearing

theorem ProcessInv.subtract (h : ProcessInv p) {eventCount : BitVec 32}
    (hpc : p.handler = .subtract eventCount) : ProcessInv (subtractUmcCount p eventCount) := by
  have hle := h.handler.subtracts eventCount (.inr hpc)
  have hcount : (p.umcInterruptCount - eventCount).toNat =
      p.umcInterruptCount.toNat - eventCount.toNat := BitVec.toNat_sub_of_le hle
  refine ⟨⟨h.books.events, ?_, h.books.nonUmcCount, h.books.umcSound.process _,
    h.books.nonUmcSound⟩, .of_pc id,
    ⟨fun _ => .inr trivial, fun _ => .inr trivial⟩⟩
  show (p.umc.fates ++ List.replicate eventCount.toNat Fate.processed).length +
    (p.umcInterruptCount - eventCount).toNat = p.umcAccepted
  rw [hcount, List.length_append, List.length_replicate, ← h.books.umcCount]
  omega

theorem ProcessInv.test (h : ProcessInv p) :
    ProcessInv { p with
      handler := if p.umcInterruptCount = 0 then .fifoLen else .counting } := by
  split
  · rename_i hzero
    exact h.goto (.of_pc id) (fun hne => absurd hzero hne)
      fun _ _ => trivial
  · exact h.goto (.of_pc id) (fun _ _ => trivial)
      fun _ _ => trivial

theorem Books.waits_le (h : Books p) : p.waits ≤ (getUsedSpace p.queue.eventFifo).toNat := by
  have hlength := h.events.delivered.length
  rw [contents_length] at hlength
  unfold Process.waits
  omega

theorem ProcessInv.readLen (h : ProcessInv p) (hpc : p.handler = .fifoLen) :
    ProcessInv { p with
      handler := if (getUsedSpace p.queue.eventFifo).toNat = 0 then .ending
        else .nonUmc (getUsedSpace p.queue.eventFifo).toNat 0 } := by
  have hwaits := h.books.waits_le
  have hcounts : ¬p.handler.Counts := by
    rw [hpc]
    exact id
  split
  · rename_i hzero
    exact h.goto (.of_pc id)
      (fun _ hcount => absurd hcount hcounts) fun hne => absurd (by omega) hne
  · exact h.goto (.of_pc id)
      (fun _ hcount => absurd hcount hcounts) fun _ _ => hwaits

theorem Books.getEvent (h : Books p) :
    EventInv p.queue.getEvent.1 ∧ p.queue.getEvent.1.accepted = p.queue.accepted ∧
      (p.queue.getEvent.2 = none ∧ p.queue.getEvent.1.received = p.queue.received ∧ p.waits = 0 ∨
        ∃ bytes, p.queue.getEvent.2 = some bytes ∧
          p.queue.getEvent.1.received.length = p.queue.received.length + 1 ∧ p.waits ≠ 0) := by
  obtain ⟨hevents, haccepted, hgiven⟩ := h.events.getEvent
  refine ⟨hevents, haccepted, ?_⟩
  rcases hgiven with ⟨hnone, hreceived, hempty⟩ | ⟨bytes, hsome, hreceived, hwaiting⟩
  · refine .inl ⟨hnone, hreceived, ?_⟩
    unfold Process.waits
    omega
  · refine .inr ⟨bytes, hsome, ?_, ?_⟩
    · rw [hreceived, List.length_append]
      rfl
    · unfold Process.waits
      omega

theorem ProcessInv.getEvent (h : ProcessInv p) {left : Nat} {resetFlags : BitVec 32}
    (hpc : p.handler = .nonUmc (left + 1) resetFlags) :
    ProcessInv (nonUmcEvent p left resetFlags) := by
  have humc := h.pending.umc
  have hnonUmc := h.pending.nonUmc
  rw [hpc] at humc hnonUmc
  obtain ⟨hevents, haccepted, hgiven⟩ := h.books.getEvent
  rcases hgiven with ⟨hnone, hreceived, hempty⟩ | ⟨bytes, hsome, hreceived, hwaiting⟩
  · have hturn : nonUmcEvent p left resetFlags =
        { p with queue := p.queue.getEvent.1, handler := .nonUmc left resetFlags } := by
      unfold nonUmcEvent
      rw [show p.queue.getEvent = (p.queue.getEvent.1, none) from Prod.ext rfl hnone]
    rw [hturn]
    refine ⟨⟨hevents, h.books.umcCount, ?_, h.books.umcSound, ?_⟩,
      .of_pc id, ⟨fun hne => (humc hne).imp id False.elim, ?_⟩⟩
    · rw [hreceived]
      exact h.books.nonUmcCount
    · rw [haccepted]
      exact h.books.nonUmcSound
    · intro hne
      unfold Process.waits at hne hempty
      dsimp only at hne
      rw [haccepted, hreceived] at hne
      exact absurd hempty hne
  · have hturn : nonUmcEvent p left resetFlags =
        { p with
          queue := p.queue.getEvent.1
          nonUmc := { p.nonUmc with fates := p.nonUmc.fates ++ [.processed] }
          handler := .nonUmc left (resetFlags ||| resetOf bytes) } := by
      unfold nonUmcEvent
      rw [show p.queue.getEvent = (p.queue.getEvent.1, some bytes) from Prod.ext rfl hsome]
    rw [hturn]
    refine ⟨⟨hevents, h.books.umcCount, ?_, h.books.umcSound, ?_⟩,
      .of_pc id, ⟨fun hne => (humc hne).imp id False.elim, ?_⟩⟩
    · rw [hreceived, List.length_append, h.books.nonUmcCount]
      rfl
    · rw [haccepted]
      exact h.books.nonUmcSound.process 1
    · intro _
      refine (hnonUmc hwaiting).imp id fun hle => ?_
      have hbefore : p.waits ≤ left + 1 := hle
      unfold Process.waits at hbefore
      show p.queue.getEvent.1.accepted.length - p.queue.getEvent.1.received.length ≤ left
      rw [haccepted, hreceived]
      omega

theorem ProcessInv.ended (h : ProcessInv p) (hcounts : ¬p.handler.Counts)
    (hdrains : p.waits ≠ 0 → ¬p.handler.Drains p.waits) {pc : HandlerPc}
    (hpc : pc = .ending ∨ pc = .idle) :
    ProcessInv { p with handler := pc } := by
  refine h.goto ?_ (fun _ hcount => absurd hcount hcounts)
    fun hne hdrain => absurd hdrain (hdrains hne)
  rcases hpc with rfl | rfl
  · exact .of_pc id
  · exact .of_pc id

theorem ProcessInv.notifyReset (h : ProcessInv p) {resetFlags : BitVec 32}
    (hpc : p.handler = .nonUmc 0 resetFlags) (ok : Bool) :
    ProcessInv (endNonUmcEvent p resetFlags ok) := by
  have hended : ProcessInv { p with handler := .ending } := by
    refine h.ended ?_ (fun hne => ?_) (.inl rfl)
    · rw [hpc]
      exact id
    · rw [hpc]
      exact fun hle => hne (Nat.le_zero.mp hle)
  unfold endNonUmcEvent
  split
  · exact hended
  · split
    · exact h.resetClearing
    · exact hended

theorem ProcessInv.clear (h : ProcessInv p) (hpc : p.handler = .clearing) :
    ProcessInv (clearEventFifo p) := by
  obtain ⟨humcReset, hnonUmcReset⟩ := h.handler.discards (.inl hpc)
  obtain ⟨hevents, haccepted, hgiven⟩ := h.books.getEvent
  rcases hgiven with ⟨hnone, hreceived, hempty⟩ | ⟨bytes, hsome, hreceived, hwaiting⟩
  · have hturn : clearEventFifo p =
        { p with queue := p.queue.getEvent.1, handler := .zeroing } := by
      unfold clearEventFifo
      rw [show p.queue.getEvent = (p.queue.getEvent.1, none) from Prod.ext rfl hnone]
    rw [hturn]
    refine ⟨⟨hevents, h.books.umcCount, ?_, h.books.umcSound, ?_⟩, ⟨?_, ?_⟩,
      ⟨fun _ => .inr trivial, ?_⟩⟩
    · rw [hreceived]
      exact h.books.nonUmcCount
    · rw [haccepted]
      exact h.books.nonUmcSound
    · rintro eventCount (hzeroing | hzeroing)
      · exact HandlerPc.noConfusion hzeroing
      · exact HandlerPc.noConfusion hzeroing
    · intro _
      rw [haccepted]
      exact ⟨humcReset, hnonUmcReset⟩
    · intro hne
      unfold Process.waits at hne hempty
      dsimp only at hne
      rw [haccepted, hreceived] at hne
      exact absurd hempty hne
  · have hturn : clearEventFifo p =
        { p with
          queue := p.queue.getEvent.1
          nonUmc := { p.nonUmc with fates := p.nonUmc.fates ++ [.discarded] } } := by
      unfold clearEventFifo
      rw [show p.queue.getEvent = (p.queue.getEvent.1, some bytes) from Prod.ext rfl hsome]
    rw [hturn]
    refine ⟨⟨hevents, h.books.umcCount, ?_, h.books.umcSound, ?_⟩, ⟨?_, ?_⟩, ⟨?_, ?_⟩⟩
    · rw [hreceived, List.length_append, h.books.nonUmcCount]
      rfl
    · rw [haccepted]
      apply @Ledger.Sound.discard _ _ 1 h.books.nonUmcSound
      rw [h.books.nonUmcCount, hnonUmcReset]
      unfold Process.waits at hwaiting
      omega
    · exact h.handler.subtracts
    · intro _
      rw [haccepted]
      exact ⟨humcReset, hnonUmcReset⟩
    · intro _
      rw [hpc]
      exact .inr trivial
    · intro _
      rw [hpc]
      exact .inr trivial

theorem ProcessInv.zero (h : ProcessInv p) (hpc : p.handler = .zeroing) :
    ProcessInv (zeroUmcCount p) := by
  obtain ⟨humcReset, _⟩ := h.handler.discards (.inr hpc)
  have hnonUmc := h.pending.nonUmc
  rw [hpc] at hnonUmc
  refine ⟨⟨h.books.events, ?_, h.books.nonUmcCount, h.books.umcSound.discard ?_,
    h.books.nonUmcSound⟩, .of_pc id,
    ⟨fun hne => absurd rfl hne, fun hne => (hnonUmc hne).imp id False.elim⟩⟩
  · show (p.umc.fates ++ List.replicate p.umcInterruptCount.toNat Fate.discarded).length +
      (0#32).toNat = p.umcAccepted
    rw [List.length_append, List.length_replicate]
    exact h.books.umcCount
  · rw [humcReset]
    exact Nat.le_of_eq h.books.umcCount

theorem ProcessInv.step (h : ProcessInv p) (hmeets : Meets p label) (hstep : Step p label p') :
    ProcessInv p' := by
  unfold Step at hstep
  cases label with
  | addInterruptReq isInitialized req isUmc =>
    cases hstep
    exact h.add isInitialized isUmc req hmeets
  | raise =>
    simp only [Process.next, Option.ite_none_left_eq_some, Option.some.injEq] at hstep
    exact hstep.2 ▸ h.raise hmeets
  | wake =>
    simp only [Process.next, Option.ite_none_right_eq_some, Option.some.injEq] at hstep
    exact hstep.2 ▸ h.frame rfl rfl rfl rfl rfl rfl (.inl (.inr (.inr (.inl nofun))))
  | consume =>
    simp only [Process.next, Option.ite_none_right_eq_some, Option.some.injEq] at hstep
    exact hstep.2 ▸ h.frame rfl rfl rfl rfl rfl rfl (.inl (.inr (.inr (.inl nofun))))
  | gates isInitialized inReset queued =>
    simp only [Process.next, Option.ite_none_right_eq_some, Option.some.injEq] at hstep
    exact hstep.2 ▸ h.gates isInitialized inReset queued hmeets
  | dropEvent =>
    simp only [Process.next, Option.ite_none_left_eq_some, Option.some.injEq] at hstep
    exact hstep.2 ▸ h.frame rfl rfl rfl rfl rfl rfl hmeets
  | dispatch ready =>
    simp only [Process.next, Option.ite_none_right_eq_some, Option.some.injEq] at hstep
    exact hstep.2 ▸ h.dispatch ready hmeets
  | begin ok rma =>
    simp only [Process.next, Option.ite_none_right_eq_some, Option.some.injEq] at hstep
    exact hstep.2 ▸ h.begin ok rma hmeets
  | readCount =>
    simp only [Process.next, Option.ite_none_right_eq_some, Option.some.injEq] at hstep
    exact hstep.2 ▸ h.readCount
  | umcEvent result =>
    simp only [Process.next] at hstep
    split at hstep
    · rename_i eventCount hpc
      cases hstep
      exact h.umcEvent hpc result hmeets
    · cases hstep
  | subtract =>
    simp only [Process.next] at hstep
    split at hstep
    · rename_i eventCount hpc
      cases hstep
      exact h.subtract hpc
    · cases hstep
  | test =>
    simp only [Process.next, Option.ite_none_right_eq_some, Option.some.injEq] at hstep
    exact hstep.2 ▸ h.test
  | readLen =>
    simp only [Process.next, Option.ite_none_right_eq_some, Option.some.injEq] at hstep
    exact hstep.2 ▸ h.readLen hstep.1
  | getEvent =>
    simp only [Process.next] at hstep
    split at hstep
    · rename_i left resetFlags hpc
      cases hstep
      exact h.getEvent hpc
    · cases hstep
  | notifyReset ok =>
    simp only [Process.next] at hstep
    split at hstep
    · rename_i resetFlags hpc
      cases hstep
      exact h.notifyReset hpc ok
    · cases hstep
  | clearEvent =>
    simp only [Process.next, Option.ite_none_right_eq_some, Option.some.injEq] at hstep
    exact hstep.2 ▸ h.clear hstep.1
  | zero =>
    simp only [Process.next, Option.ite_none_right_eq_some, Option.some.injEq] at hstep
    exact hstep.2 ▸ h.zero hstep.1
  | ending =>
    simp only [Process.next, Option.ite_none_right_eq_some, Option.some.injEq] at hstep
    refine hstep.2 ▸ h.ended ?_ (fun _ => ?_) (.inr rfl)
    · rw [hstep.1]
      exact id
    · rw [hstep.1]
      exact id

theorem Initial.inv (h : Initial p) : ProcessInv p := by
  obtain ⟨hqueue, hcount, _, _, _, _, hhandler, haccepted, humc, hnonUmc⟩ := h
  have hevents := hqueue.inv
  obtain ⟨_, _, hnone, hreceived⟩ := hqueue
  have hfresh : ∀ accepted, (Ledger.mk [] 0).Sound accepted := by
    intro accepted
    refine ⟨fun k hk => ?_, Nat.zero_le _⟩
    have hnil : ([] : List Fate)[k]? = some .discarded := hk
    rw [List.getElem?_nil] at hnil
    cases hnil
  refine ⟨⟨hevents, ?_, ?_, humc ▸ hfresh _, hnonUmc ▸ hfresh _⟩, .of_pc ?_, ⟨?_, ?_⟩⟩
  · rw [humc, hcount, haccepted]
    rfl
  · rw [hnonUmc, hreceived]
    rfl
  · rw [hhandler]
    exact id
  · exact fun hne => absurd hcount hne
  · intro hne
    unfold Process.waits at hne
    rw [hnone] at hne
    exact absurd (Nat.zero_sub _) hne

theorem processRun_inv (run : Run Initial Step Meets p) : ProcessInv p := by
  apply run.invariant ProcessInv
  · exact fun p hinitial => hinitial.inv
  · intro before label after h hmeets hstep
    exact h.step hmeets hstep

/-- However the callers, the thread, the scheduler and the handler take turns, every accepted
request is processed once, or discarded once by a reset that came after it; and nothing waits when
all have finished. -/
theorem noneLost : ∀ p, Run Initial Step Meets p → NoneLost p :=
  fun _ run => (processRun_inv run).nothingLost

def freshProcess : Process :=
  ⟨emptyEvents, 0, 0, 0, .waiting, 0, .idle, 0, ⟨[], 0⟩, ⟨[], 0⟩⟩

theorem freshProcess_initial : Initial freshProcess :=
  ⟨emptyEvents_start, rfl, rfl, rfl, rfl, rfl, rfl, rfl, rfl, rfl⟩

/-- A UMC request that is handled. -/
theorem noneLost_umc : ∃ p, NoneLost p ∧ p.umc.fates = [.processed] := by
  have hwrap : (0#32).toNat + 1 < 2 ^ 32 := by decide
  have accepted : Run Initial Step Meets (addUmcInterruptReq freshProcess) :=
    .next (.addInterruptReq true plainRequest true) (.start freshProcess_initial)
      (fun _ => ⟨hwrap, nofun, nofun⟩) rfl
  have raised := Run.next Label.raise accepted hwrap rfl
  have woken := Run.next Label.wake raised trivial rfl
  have consumed := Run.next Label.consume woken trivial rfl
  have queued := Run.next (Label.gates true false true) consumed (.inl ⟨rfl, rfl, rfl⟩) rfl
  have dispatched := Run.next (Label.dispatch true) queued (.inl rfl) rfl
  have begun := Run.next (Label.begin true false) dispatched (.inl ⟨rfl, rfl⟩) rfl
  have counted := Run.next Label.readCount begun trivial rfl
  have handled := Run.next (Label.umcEvent .failed) counted trivial rfl
  exact ⟨_, noneLost _ (.next .subtract handled trivial rfl), rfl⟩

def fillingLabels : List Label := List.replicate 205 (.addInterruptReq true plainRequest false)

theorem fillingLabels_cut : (fillingLabels.foldlM Process.next freshProcess).any
    (fun p => p.queue.accepted.length = 205 ∧ p.queue.received = [] ∧
      (getUsedSpace p.queue.eventFifo).toNat = 8192) = true := by
  decide +kernel

/-- 204 requests leave 32 bytes of the FIFO; the next one is accepted, and its end is lost. -/
theorem noneLost_cut : ¬ ∀ p, Run Initial Step always p → NoneLost p := by
  intro hall
  have hcut := fillingLabels_cut
  cases hlast : fillingLabels.foldlM Process.next freshProcess with
  | none =>
    rw [hlast] at hcut
    cases hcut
  | some p =>
    rw [hlast] at hcut
    obtain ⟨haccepted, hreceived, hused⟩ := of_decide_eq_true hcut
    have hlost := hall p (Run.follow fillingLabels (.start freshProcess_initial) hlast)
    have hlength := hlost.nonUmc.1.length
    rw [contents_length, hused, haccepted, hreceived] at hlength
    exact absurd hlength (by decide)

end Invariant

end MxGpu.RasProcess
