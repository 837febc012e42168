import MxGpu.RasKfifo

/- Bytes and event requests that go through a FIFO of the RAS manager. -/
namespace MxGpu.Kfifo

open ByteStore Transition

section Bytes

/-- A FIFO with all bytes that writes have accepted and reads have given out. -/
structure ByteSys where
  fifo : AmdgvFifo
  written : List UInt8
  taken : List UInt8

inductive ByteOp where
  | write (src : Store) (len : BitVec 32)
  | read (len : BitVec 32)
  | peek (len offset : BitVec 32)

/-- What was accepted is what the operation says that it has written. -/
def ByteSys.step (s : ByteSys) : ByteOp → ByteSys
  | .write src len =>
    let (fifo, n) := fifoWrite s.fifo src len
    { s with fifo, written := s.written ++ ByteStore.read src 0 n.toNat }
  | .read len =>
    let (fifo, bytes, _) := fifoRead s.fifo len
    { s with fifo, taken := s.taken ++ bytes }
  | .peek _ _ => s

def Allocated (s : ByteSys) : Prop :=
  ∃ allocated size, fifoAlloc allocated size = .ok s.fifo ∧ s.written = [] ∧ s.taken = []

def ByteStep (s : ByteSys) (op : ByteOp) (s' : ByteSys) : Prop := s' = s.step op

structure ByteQueue (s : ByteSys) : Prop where
  order : s.written = s.taken ++ contents s.fifo
  bounded : (contents s.fifo).length ≤ s.fifo.size.toNat
  writes : ∀ src len, (fifoWrite s.fifo src len).2.toNat =
    min len.toNat (s.fifo.size.toNat - (contents s.fifo).length)
  reads : ∀ len, (fifoRead s.fifo len).2.1 = (contents s.fifo).take len.toNat ∧
    (fifoRead s.fifo len).2.2.toNat = min len.toNat (contents s.fifo).length
  peeks : ∀ len offset, (fifoPeek s.fifo len offset).1 =
    ((contents s.fifo).drop offset.toNat).take len.toNat

structure ByteInv (s : ByteSys) : Prop where
  sized : Sized s.fifo
  order : s.written = s.taken ++ contents s.fifo

variable {s s' : ByteSys} {op : ByteOp}

theorem ByteInv.step (h : ByteInv s) (hstep : ByteStep s op s') : ByteInv s' := by
  rw [hstep]
  cases op with
  | write src len =>
    obtain ⟨hsized, _, _, hcontents⟩ := fifoWrite_spec h.sized src len
    refine ⟨hsized, ?_⟩
    show s.written ++ ByteStore.read src 0 (fifoWrite s.fifo src len).2.toNat =
      s.taken ++ contents (fifoWrite s.fifo src len).1
    rw [hcontents, h.order, List.append_assoc]
  | read len =>
    obtain ⟨hsized, _, hbytes, _, hcontents⟩ := fifoRead_spec h.sized len
    refine ⟨hsized, ?_⟩
    show s.written = (s.taken ++ (fifoRead s.fifo len).2.1) ++ contents (fifoRead s.fifo len).1
    rw [hbytes, hcontents, h.order, List.append_assoc, List.take_append_drop]
  | peek len offset => exact h

theorem ByteInv.queue (h : ByteInv s) : ByteQueue s where
  order := h.order
  bounded := by
    rw [contents_length]
    exact h.sized.used
  writes src len := (fifoWrite_spec h.sized src len).2.2.1
  reads len := ⟨(fifoRead_spec h.sized len).2.2.1, (fifoRead_spec h.sized len).2.2.2.1⟩
  peeks len offset := (fifoPeek_spec h.sized len offset).1

theorem byteRun_inv (run : Run Allocated ByteStep always s) : ByteInv s := by
  apply run.invariant ByteInv
  · rintro s ⟨allocated, size, halloc, hwritten, htaken⟩
    obtain ⟨hsized, hcontents⟩ := fifoAlloc_sized halloc
    exact ⟨hsized, by rw [hwritten, htaken, hcontents]; rfl⟩
  · intro before op after h _ hstep
    exact h.step hstep

end Bytes

/-- The bytes of a `struct ras_event_req`. -/
structure RasEventReq where
  bytes : List UInt8
  sized : bytes.length = 40

def rasEventFifoSize : BitVec 32 := 128 * 40

/-- The FIFO of events, with the requests that `ras_process_put_event` has accepted and the bytes
that `ras_process_get_event` has given out. -/
structure EventQueue where
  eventFifo : AmdgvFifo
  accepted : List RasEventReq
  received : List (List UInt8)

inductive EventOp where
  | putEvent (req : RasEventReq)
  | getEvent

def RasEventReq.memory (req : RasEventReq) : Store := fun i => req.bytes[i]?.getD 0

/-- `ras_process_put_event`, and whether it returns 0. -/
def EventQueue.putEvent (q : EventQueue) (req : RasEventReq) : EventQueue × Bool :=
  let (eventFifo, ret) := fifoWrite q.eventFifo req.memory 40
  if ret = 0 then ({ q with eventFifo }, false)
  else ({ q with eventFifo, accepted := q.accepted ++ [req] }, true)

/-- `ras_process_get_event`, with what it gives out. -/
def EventQueue.getEvent (q : EventQueue) : EventQueue × Option (List UInt8) :=
  let (eventFifo, req, ret) := fifoRead q.eventFifo 40
  if ret = 0 then ({ q with eventFifo }, none)
  else ({ q with eventFifo, received := q.received ++ [req] }, some req)

def EventQueue.step (q : EventQueue) : EventOp → EventQueue
  | .putEvent req => (q.putEvent req).1
  | .getEvent => q.getEvent.1

def EventStart (q : EventQueue) : Prop :=
  ∃ allocated, fifoAlloc allocated rasEventFifoSize = .ok q.eventFifo ∧ q.accepted = [] ∧
    q.received = []

def EventStep (q : EventQueue) (op : EventOp) (q' : EventQueue) : Prop := q' = q.step op

/-- What waits is the accepted requests that have not been given out, each of them whole, and the
requests come out as they were accepted. -/
structure Delivered (q : EventQueue) : Prop where
  order : q.received = (q.accepted.take q.received.length).map RasEventReq.bytes
  whole : contents q.eventFifo =
    ((q.accepted.drop q.received.length).map RasEventReq.bytes).flatten

def EventQueue.HasRoom (q : EventQueue) : Prop :=
  getFreeSpace q.eventFifo = 0 ∨ 40 ≤ (getFreeSpace q.eventFifo).toNat

def RoomMet (q : EventQueue) : EventOp → Prop
  | .putEvent _ => q.HasRoom
  | .getEvent => True

section Events

variable {q q' : EventQueue} {req : RasEventReq} {op : EventOp}

def EventQueue.waiting (q : EventQueue) : List (List UInt8) :=
  (q.accepted.drop q.received.length).map RasEventReq.bytes

theorem EventQueue.waiting_sized (q : EventQueue) : ∀ bytes ∈ q.waiting, bytes.length = 40 := by
  intro bytes hbytes
  obtain ⟨req, _, rfl⟩ := List.mem_map.mp hbytes
  exact req.sized

theorem RasEventReq.read_memory (req : RasEventReq) : ByteStore.read req.memory 0 40 = req.bytes := by
  apply List.ext_getElem
  · rw [read_length, req.sized]
  · intro i _ hi
    rw [read_getElem]
    unfold RasEventReq.memory
    rw [Nat.zero_add, List.getElem?_eq_getElem hi]
    rfl

structure EventInv (q : EventQueue) : Prop where
  sized : Sized q.eventFifo
  delivered : Delivered q

theorem Delivered.received_le (h : Delivered q) : q.received.length ≤ q.accepted.length := by
  have hlength := congrArg List.length h.order
  rw [List.length_map, List.length_take] at hlength
  omega

theorem Delivered.length (h : Delivered q) :
    (contents q.eventFifo).length = (q.accepted.length - q.received.length) * 40 := by
  rw [h.whole]
  have hlength := flatten_length q.waiting_sized
  rwa [EventQueue.waiting, List.length_map, List.length_drop] at hlength

theorem EventInv.free (h : EventInv q) :
    (getFreeSpace q.eventFifo).toNat =
      q.eventFifo.size.toNat - (contents q.eventFifo).length := by
  have hfree := h.sized.free
  rw [contents_length]
  omega

theorem EventInv.putEvent (h : EventInv q) (hroom : q.HasRoom) (req : RasEventReq) :
    EventInv (q.putEvent req).1 ∧ (q.putEvent req).1.received = q.received ∧
      ((q.putEvent req).2 = true → (q.putEvent req).1.accepted = q.accepted ++ [req]) ∧
      ((q.putEvent req).2 = false → (q.putEvent req).1.accepted = q.accepted) := by
  obtain ⟨hsized, hsize, hret, hcontents⟩ := fifoWrite_spec h.sized req.memory 40
  have hfree := h.free
  rw [← hfree] at hret
  have hle := h.delivered.received_le
  unfold EventQueue.putEvent
  dsimp only
  split
  · rename_i hzero
    rw [hzero] at hcontents
    refine ⟨⟨hsized, ⟨h.delivered.order, ?_⟩⟩, rfl, nofun, fun _ => rfl⟩
    show contents (fifoWrite q.eventFifo req.memory 40).1 = _
    rw [hcontents, ← h.delivered.whole]
    exact List.append_nil _
  · rename_i hwritten
    have hall : (fifoWrite q.eventFifo req.memory 40).2.toNat = 40 := by
      rcases hroom with hnone | hroom
      · rw [hnone] at hret
        exact absurd (BitVec.eq_of_toNat_eq hret) hwritten
      · rw [hret]
        exact Nat.min_eq_left hroom
    rw [hall, req.read_memory] at hcontents
    refine ⟨⟨hsized, ⟨?_, ?_⟩⟩, rfl, fun _ => rfl, nofun⟩
    · show q.received = ((q.accepted ++ [req]).take q.received.length).map _
      rw [List.take_append_of_le_length hle]
      exact h.delivered.order
    · show contents (fifoWrite q.eventFifo req.memory 40).1 =
        (((q.accepted ++ [req]).drop q.received.length).map _).flatten
      rw [hcontents, h.delivered.whole, List.drop_append_of_le_length hle, List.map_append,
        List.flatten_append]
      simp

theorem EventInv.getEvent (h : EventInv q) :
    EventInv q.getEvent.1 ∧ q.getEvent.1.accepted = q.accepted ∧
      (q.getEvent.2 = none ∧ q.getEvent.1.received = q.received ∧
          q.accepted.length = q.received.length ∨
        ∃ bytes, q.getEvent.2 = some bytes ∧ q.getEvent.1.received = q.received ++ [bytes] ∧
          q.received.length < q.accepted.length) := by
  obtain ⟨hsized, hsize, hbytes, hret, hcontents⟩ := fifoRead_spec h.sized 40
  have hlength := h.delivered.length
  have hle := h.delivered.received_le
  unfold EventQueue.getEvent
  dsimp only
  split
  · rename_i hzero
    rw [hzero] at hret
    have hempty : q.accepted.length = q.received.length := by
      have hmin : 0 = min 40 (contents q.eventFifo).length := hret
      omega
    refine ⟨⟨hsized, ⟨h.delivered.order, ?_⟩⟩, rfl, .inl ⟨rfl, rfl, hempty⟩⟩
    show contents (fifoRead q.eventFifo 40).1 = _
    rw [hcontents, ← h.delivered.whole]
    have hnone : contents q.eventFifo = [] := List.eq_nil_of_length_eq_zero (by omega)
    rw [hnone]
    rfl
  · rename_i hread
    have hsome : q.received.length < q.accepted.length := by
      by_contra hnot
      have hnone : (contents q.eventFifo).length = 0 := by omega
      rw [hnone] at hret
      exact hread (BitVec.eq_of_toNat_eq hret)
    have hfirst : (fifoRead q.eventFifo 40).2.1 = (q.accepted[q.received.length]).bytes := by
      have htake := @take_flatten 40 q.waiting q.waiting_sized 1
      rw [Nat.one_mul] at htake
      rw [hbytes, h.delivered.whole]
      show q.waiting.flatten.take 40 = _
      have hwaiting : q.waiting = (q.accepted[q.received.length]).bytes ::
          (q.accepted.drop (q.received.length + 1)).map RasEventReq.bytes := by
        unfold EventQueue.waiting
        rw [List.drop_eq_getElem_cons hsome, List.map_cons]
      rw [htake, hwaiting]
      simp
    have hrest : contents (fifoRead q.eventFifo 40).1 =
        ((q.accepted.drop (q.received.length + 1)).map RasEventReq.bytes).flatten := by
      have hdrop := @drop_flatten 40 q.waiting q.waiting_sized 1
      rw [Nat.one_mul] at hdrop
      rw [hcontents, h.delivered.whole]
      show q.waiting.flatten.drop 40 = _
      rw [hdrop, EventQueue.waiting, ← List.map_drop, List.drop_drop]
    refine ⟨⟨hsized, ⟨?_, ?_⟩⟩, rfl, .inr ⟨_, rfl, rfl, hsome⟩⟩
    · show q.received ++ [_] = (q.accepted.take (q.received ++ [_]).length).map _
      rw [List.length_append, List.length_singleton, List.take_add_one, List.map_append,
        ← h.delivered.order, hfirst, List.getElem?_eq_getElem hsome]
      rfl
    · show contents _ = ((q.accepted.drop (q.received ++ [_]).length).map _).flatten
      rw [List.length_append, List.length_singleton]
      exact hrest

theorem EventInv.step (h : EventInv q) (hroom : RoomMet q op) (hstep : EventStep q op q') :
    EventInv q' := by
  rw [hstep]
  cases op with
  | putEvent req => exact (h.putEvent hroom req).1
  | getEvent => exact h.getEvent.1

theorem EventStart.inv (h : EventStart q) : EventInv q := by
  obtain ⟨allocated, halloc, haccepted, hreceived⟩ := h
  obtain ⟨hsized, hcontents⟩ := fifoAlloc_sized halloc
  refine ⟨hsized, ⟨?_, ?_⟩⟩
  · rw [haccepted, hreceived]
    rfl
  · rw [haccepted, hreceived, hcontents]
    rfl

theorem eventRun_inv (run : Run EventStart EventStep RoomMet q) : EventInv q := by
  apply run.invariant EventInv
  · exact fun q hstart => hstart.inv
  · intro before op after h hroom hstep
    exact h.step hroom hstep

theorem EventInv.cut (h : EventInv q) (hcut : ¬q.HasRoom) (req : RasEventReq) :
    (q.putEvent req).2 = true ∧ ¬Delivered (q.putEvent req).1 := by
  obtain ⟨hsized, hsize, hret, hcontents⟩ := fifoWrite_spec h.sized req.memory 40
  have hfree := h.free
  rw [← hfree] at hret
  have hpart : 0 < (getFreeSpace q.eventFifo).toNat ∧ (getFreeSpace q.eventFifo).toNat < 40 := by
    unfold EventQueue.HasRoom at hcut
    rw [not_or, Nat.not_le] at hcut
    refine ⟨Nat.pos_of_ne_zero fun hzero => ?_, hcut.2⟩
    exact hcut.1 (BitVec.eq_of_toNat_eq hzero)
  have hwritten : (fifoWrite q.eventFifo req.memory 40).2.toNat =
      (getFreeSpace q.eventFifo).toNat := by
    rw [hret]
    exact Nat.min_eq_right (Nat.le_of_lt hpart.2)
  have hne : (fifoWrite q.eventFifo req.memory 40).2 ≠ 0 := by
    intro hzero
    rw [hzero] at hwritten
    exact absurd hwritten (Nat.ne_of_lt hpart.1)
  have hput : q.putEvent req = ({ q with
      eventFifo := (fifoWrite q.eventFifo req.memory 40).1
      accepted := q.accepted ++ [req] }, true) := by
    unfold EventQueue.putEvent
    dsimp only
    rw [if_neg hne]
  rw [hput]
  refine ⟨rfl, fun hdelivered => ?_⟩
  have hafter := hdelivered.length
  have hbefore := h.delivered.length
  rw [hcontents, List.length_append, read_length, List.length_append] at hafter
  simp only [List.length_singleton] at hafter
  omega

/-- The FIFO gives out the accepted bytes in their order. Requests come out whole, each once, in
the order in which they were accepted, as long as none is put where there is room for a part of
it; and the first that is put so is accepted and not stored. -/
theorem events_delivered (s : ByteSys) (q : EventQueue) :
    (Run Allocated ByteStep always s → ByteQueue s) ∧
      (Run EventStart EventStep RoomMet q → Delivered q ∧ ∀ req, ¬q.HasRoom →
        ¬Delivered (q.step (.putEvent req))) := by
  constructor
  · intro run
    exact (byteRun_inv run).queue
  · intro run
    have hinv := eventRun_inv run
    exact ⟨hinv.delivered, fun req hcut => (hinv.cut hcut req).2⟩

/-- The FIFO of `ras_process_init`: 5120 bytes become 8192. -/
def emptyEvents : EventQueue := ⟨fifoInit (fun _ => 0) 0x2000, [], []⟩

theorem emptyEvents_start : EventStart emptyEvents := ⟨true, rfl, rfl, rfl⟩

def plainRequest : RasEventReq := ⟨List.replicate 40 7, List.length_replicate⟩

/-- A request goes in and comes out. -/
theorem events_delivered_one :
    ByteQueue ⟨fifoInit (fun _ => 0) 0x2000, [], []⟩ ∧
      Delivered ((emptyEvents.step (.putEvent plainRequest)).step .getEvent) := by
  have hroom : emptyEvents.HasRoom := .inr (by decide)
  have run : Run EventStart EventStep RoomMet
      ((emptyEvents.step (.putEvent plainRequest)).step .getEvent) :=
    .next .getEvent (.next (.putEvent plainRequest) (.start emptyEvents_start) hroom rfl) trivial
      rfl
  exact ⟨(events_delivered _ emptyEvents).1 (.start ⟨true, rasEventFifoSize, rfl, rfl, rfl⟩),
    ((events_delivered ⟨emptyEvents.eventFifo, [], []⟩ _).2 run).1⟩

theorem emptyEvents_fill {k : Nat} (hk : k ≤ 204) : ∃ q, Run EventStart EventStep RoomMet q ∧
    q.accepted.length = k ∧ q.received = [] ∧ q.eventFifo.size = 0x2000 := by
  induction k with
  | zero => exact ⟨emptyEvents, .start emptyEvents_start, rfl, rfl, rfl⟩
  | succ k ih =>
    obtain ⟨q, run, haccepted, hreceived, hsize⟩ := ih (by omega)
    have hinv := eventRun_inv run
    have hlength := hinv.delivered.length
    rw [haccepted, hreceived, List.length_nil] at hlength
    have hfree : (getFreeSpace q.eventFifo).toNat = 0x2000 - k * 40 := by
      rw [hinv.free, hlength, hsize]
      rfl
    have hroom : q.HasRoom := .inr (by omega)
    obtain ⟨_, hreceived', hyes, hno⟩ := hinv.putEvent hroom plainRequest
    have hwritten := (fifoWrite_spec hinv.sized plainRequest.memory 40).2.2.1
    have hput : (q.putEvent plainRequest).2 = true ∧
        (q.putEvent plainRequest).1.eventFifo.size = q.eventFifo.size := by
      have hne : (fifoWrite q.eventFifo plainRequest.memory 40).2 ≠ 0 := by
        intro hzero
        rw [hzero, ← hinv.free, hfree] at hwritten
        have hmin : 0 = min 40 (0x2000 - k * 40) := hwritten
        omega
      unfold EventQueue.putEvent
      dsimp only
      rw [if_neg hne]
      exact ⟨rfl, (fifoWrite_spec hinv.sized plainRequest.memory 40).2.1⟩
    refine ⟨_, .next (.putEvent plainRequest) run hroom rfl, ?_, ?_, ?_⟩
    · show (q.putEvent plainRequest).1.accepted.length = k + 1
      rw [hyes hput.1, List.length_append, haccepted]
      rfl
    · exact hreceived'.trans hreceived
    · exact hput.2.trans hsize

/-- 204 requests leave 32 bytes; the next one is accepted, and only these of it are stored. -/
theorem events_cut : ¬ ∀ q, Run EventStart EventStep always q → Delivered q := by
  intro hall
  obtain ⟨q, run, haccepted, hreceived, hsize⟩ := emptyEvents_fill (Nat.le_refl 204)
  have hinv := eventRun_inv run
  have hlength := hinv.delivered.length
  rw [haccepted, hreceived, List.length_nil] at hlength
  have hfree : (getFreeSpace q.eventFifo).toNat = 32 := by
    rw [hinv.free, hlength, hsize]
    rfl
  have hcut : ¬q.HasRoom := by
    rintro (hnone | hroom)
    · rw [hnone] at hfree
      exact absurd hfree (by decide)
    · omega
  have full : Run EventStart EventStep always q := run.weaken fun _ _ _ => trivial
  exact (hinv.cut hcut plainRequest).2 (hall _ (.next (.putEvent plainRequest) full trivial rfl))

end Events

end MxGpu.Kfifo
