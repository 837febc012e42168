import MxGpu.Transition
import MxGpu.KeyScan
import Mathlib.Algebra.GroupWithZero.Nat

/- The log ring of the RAS core (`ras_log_ring.c`): a pool of records, a tree of the logged ones, and
the batches they are logged under. -/
namespace MxGpu.RasLog

open Transition Function

def rasLogMaxQuerySize : Nat := 0xC000

def rasLogMemTempSize : Nat := 0x200

def rasLogMempoolSize : Nat := rasLogMaxQuerySize + rasLogMemTempSize

def maxRecordPerBatch : Nat := 32

def mempoolFreedSignature : Nat := 0xFEEDDEAD

/-- `BATCH_IDX_TO_TREE_IDX`, in 64 bits. -/
def batchIdxToTreeIdx (batchIdx sn : Nat) : Nat := (batchIdx <<< 8) % 2 ^ 64 ||| sn

inductive RasLogEvent where
  | none
  | ue
  | de
  | ce
  | poisonCreation
  | poisonConsumption
  | rma
  | mce
  | boot
  | cpuRas
  deriving DecidableEq

/-- `struct ras_log_info`; the body is its bytes. -/
structure RasLogInfo where
  seqno : Nat
  timestamp : Nat
  event : RasLogEvent
  body : List (BitVec 8)

structure BatchTag where
  batchId : Nat
  timestamp : Nat
  subSeqno : Nat

/-- A record in the tree: its key, the pool element it is in, and the batch it was logged under. -/
structure Entry where
  key : Nat
  elem : Nat
  batch : Nat
  log : RasLogInfo

/-- `struct ras_log_ring`. The pool is its stack of free elements; the tree is the list of its
entries in the order in which they were put in. -/
structure LogRing where
  mempool : List Nat
  tree : List Entry
  monoUpwardBatchId : Nat
  lastDelBatchId : Nat
  loggedEccCount : Int

/-- `sizeof(union ras_log_body)`. -/
def bodySize : Nat := 128

def rasRmaAcaReg : List (BitVec 64) :=
  [0x1, 0xB000000000000137, 0x0, 0x0, 0x1ff00000002, 0x9600000000, 0x0, 0, 0, 0, 0, 0, 0, 0, 0, 0]

def regBytes (reg : BitVec 64) : List (BitVec 8) :=
  (List.range 8).map fun i => reg.extractLsb' (8 * i) 8

/-- The registers of an RMA record: the socket goes into the register `ACA_REG_IDX__IPID`. -/
def rmaAcaReg (socketId : BitVec 32) : List (BitVec 64) :=
  rasRmaAcaReg.modify 5 fun reg =>
    reg ||| ((socketId / 4).zeroExtend 64 &&& 1) ||| (((socketId % 4).zeroExtend 64 &&& 3) <<< 44)

/-- What `ras_log_ring_add_log_event` puts into the body; `data` are the `size` bytes it is given. -/
def logBody (event : RasLogEvent) (data : List (BitVec 8)) (socketId : BitVec 32) :
    List (BitVec 8) :=
  if event = .rma then (rmaAcaReg socketId).flatMap regBytes
  else if data.length ≤ bodySize then data ++ List.replicate (bodySize - data.length) 0
  else List.replicate bodySize 0

section Pool

variable (r : LogRing)

def LogRing.mempoolAlloc : LogRing × Option Nat :=
  match r.mempool with
  | [] => (r, none)
  | elem :: rest => ({ r with mempool := rest }, some elem)

/-- `mempool_free_elem`: the first word of an element that has been freed is a signature, and of one
in use it is the low half of the record's `seqno`. -/
def mempoolFreeElem (mempool : List Nat) (elem : Nat) (log : RasLogInfo) : List Nat :=
  if log.seqno % 2 ^ 32 = mempoolFreedSignature then mempool
  else if mempool.length < rasLogMempoolSize then elem :: mempool
  else mempool

def LogRing.getLoggedEccCount : Nat := r.loggedEccCount.toNat

/-- What `ras_log_ring_add_data` does with the tree: the element goes back when the insertion
fails. -/
def LogRing.insertLog (entry : Entry) (insertOk : Bool) : LogRing :=
  if insertOk && !r.tree.any (fun e => e.key = entry.key) then
    { r with tree := r.tree ++ [entry], loggedEccCount := r.loggedEccCount + 1 }
  else { r with mempool := mempoolFreeElem r.mempool entry.elem entry.log }

def LogRing.addData (elem : Nat) (log : RasLogInfo) (batchTag : Option BatchTag)
    (insertOk : Bool) : LogRing × Option BatchTag :=
  match batchTag with
  | some tag =>
    if maxRecordPerBatch ≤ tag.subSeqno then (r, some tag)
    else
      let seqno := batchIdxToTreeIdx tag.batchId tag.subSeqno
      (r.insertLog ⟨seqno, elem, tag.batchId, { log with seqno }⟩ insertOk,
        some { tag with subSeqno := tag.subSeqno + 1 })
  | none =>
    let seqno := batchIdxToTreeIdx r.monoUpwardBatchId 0
    let next := { r with monoUpwardBatchId := (r.monoUpwardBatchId + 1) % 2 ^ 64 }
    (next.insertLog ⟨seqno, elem, r.monoUpwardBatchId, { log with seqno }⟩ insertOk, none)

/-- The body of the inner loop of `ras_log_ring_delete_data`. -/
def LogRing.deleteKey (idx : Nat) : LogRing × Nat :=
  match r.tree.find? (fun e => e.key = idx) with
  | none => (r, 0)
  | some entry =>
    ({ r with
      tree := r.tree.eraseP fun e => e.key = idx
      mempool := mempoolFreeElem r.mempool entry.elem entry.log
      loggedEccCount := r.loggedEccCount - 1 }, 1)

/-- The inner loop: the keys of a batch from `j` up. -/
def LogRing.deleteKeys (batchId : Nat) : List Nat → LogRing → LogRing × Nat
  | [], r => (r, 0)
  | j :: rest, r =>
    let deleted := r.deleteKey (batchIdxToTreeIdx batchId j)
    let others := deleteKeys batchId rest deleted.1
    (others.1, deleted.2 + others.2)

/-- The outer loop, with the number of batches that it may still go through; `i` records are gone
by now. -/
def LogRing.deleteLoop (count : Nat) : Nat → Nat → LogRing → LogRing
  | 0, _, r => r
  | batches + 1, i, r =>
    if r.lastDelBatchId < r.monoUpwardBatchId then
      let deleted := LogRing.deleteKeys r.lastDelBatchId (List.range maxRecordPerBatch) r
      let next := { deleted.1 with lastDelBatchId := r.lastDelBatchId + 1 }
      if count ≤ i + deleted.2 then next else deleteLoop count batches (i + deleted.2) next
    else r

def LogRing.deleteData (count : Nat) : LogRing :=
  if r.getLoggedEccCount < count then r
  else LogRing.deleteLoop count (r.monoUpwardBatchId - r.lastDelBatchId) 0 r

/-- How `ras_log_ring_add_log_event` gets its element. -/
def LogRing.takeElement : LogRing × Option Nat :=
  let (taken, obj) := r.mempoolAlloc
  match obj with
  | none => (taken.deleteData rasLogMemTempSize).mempoolAlloc
  | some elem =>
    if rasLogMempoolSize ≤ taken.getLoggedEccCount then
      (taken.deleteData rasLogMemTempSize, some elem)
    else (taken, some elem)

def LogRing.lookupData (idx : Nat) : Option RasLogInfo :=
  (r.tree.find? fun e => e.key = idx).map Entry.log

/-- The loop of `ras_log_ring_get_batch_records`; `idx` has 32 bits. -/
def LogRing.getBatchLoop (batchId arrNum : Nat) : List Nat → List RasLogInfo → List RasLogInfo
  | [], logArr => logArr
  | i :: rest, logArr =>
    if logArr.length < arrNum then
      let idx := batchIdxToTreeIdx batchId i % 2 ^ 32
      match r.lookupData idx with
      | some log => getBatchLoop batchId arrNum rest (logArr ++ [log])
      | none => getBatchLoop batchId arrNum rest logArr
    else logArr

/-- `ras_log_ring_get_batch_records`; nothing for `-RAS_CORE_EINVAL`. -/
def LogRing.getBatchRecords (batchId arrNum : Nat) : Option (List RasLogInfo) :=
  if arrNum = 0 || r.monoUpwardBatchId ≤ batchId || batchId < r.lastDelBatchId then none
  else some (r.getBatchLoop batchId arrNum (List.range maxRecordPerBatch) [])

end Pool

/-- What a caller of `ras_log_ring_add_log_event` gives, the time, the socket of the device, and
whether the allocations of the tree succeed. -/
structure LogEvent where
  event : RasLogEvent
  data : List (BitVec 8)
  utc : Nat
  socketId : BitVec 32
  insertOk : Bool

/-- The record before it has a `seqno`. -/
def LogEvent.log (ev : LogEvent) (batchTag : Option BatchTag) : RasLogInfo :=
  { seqno := 0
    timestamp := (batchTag.map BatchTag.timestamp).getD ev.utc
    event := ev.event
    body := logBody ev.event ev.data ev.socketId }

def LogRing.addLogEvent (r : LogRing) (ev : LogEvent) (batchTag : Option BatchTag) :
    LogRing × Option BatchTag :=
  match r.takeElement with
  | (ring, none) => (ring, batchTag)
  | (ring, some elem) => ring.addData elem (ev.log batchTag) batchTag ev.insertOk

structure System where
  ring : LogRing
  tags : Nat → Option BatchTag

inductive Label where
  | createBatchTag (id : Nat) (timestamp : Nat)
  | stampBatchTag (id : Nat) (timestamp : Nat)
  | destroyBatchTag (id : Nat)
  | addLogEvent (ev : LogEvent)
  | addToBatch (ev : LogEvent) (id : Nat)

def System.step (s : System) : Label → Option System
  | .createBatchTag id timestamp =>
    match s.tags id with
    | some _ => none
    | none =>
      some
        { ring := { s.ring with monoUpwardBatchId := (s.ring.monoUpwardBatchId + 1) % 2 ^ 64 }
          tags := update s.tags id (some ⟨s.ring.monoUpwardBatchId, timestamp, 0⟩) }
  | .stampBatchTag id timestamp =>
    some { s with tags := update s.tags id ((s.tags id).map ({ · with timestamp })) }
  | .destroyBatchTag id => some { s with tags := update s.tags id none }
  | .addLogEvent ev => some { s with ring := (s.ring.addLogEvent ev none).1 }
  | .addToBatch ev id =>
    match s.tags id with
    | none => none
    | some tag =>
      let added := s.ring.addLogEvent ev (some tag)
      some { ring := added.1, tags := update s.tags id added.2 }

def swInit : LogRing := ⟨List.range rasLogMempoolSize, [], 0, 0, 0⟩

def Initial (s : System) : Prop := s = ⟨swInit, fun _ => none⟩

def Step (s : System) (label : Label) (t : System) : Prop := s.step label = some t

end MxGpu.RasLog
