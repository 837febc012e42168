import Mathlib.Algebra.Group.Nat.Defs
import Mathlib.Logic.Function.Basic
import MxGpu.Transition

/- The rings that the driver writes commands into (`core/amdgv_ring.c`): space is reserved, words are
written one at a time or in bulk, and a commit pads to the size that is fetched. -/
namespace MxGpu.CommandRing

abbrev Word := BitVec 32

/-- What is used of `struct amdgv_ring_funcs`; `insertedNop` is the word that `insert_nop` writes. -/
structure RingFuncs where
  alignMask : Word
  aqlAlignMask : Word
  insertedNop : Word
  support64bitPtrs : Bool

/-- What is used of `struct amdgv_ring`. `ring` is the memory from the ring on, also behind its end,
and `countDw` is an `int`. -/
structure AmdgvRing where
  funcs : RingFuncs
  aqlEnable : Bool
  ring : Nat → Word
  wptr : BitVec 64
  wptrOld : BitVec 64
  ringSize : Word
  bufMask : Word
  ptrMask : BitVec 64
  maxDw : Word
  countDw : Word

def log2Loop (size : Word) : Nat → Word → Nat → Nat
  | 0, _, log2RingSize => log2RingSize
  | rounds + 1, mask, log2RingSize =>
    if size &&& mask ≠ 0 then log2RingSize
    else log2Loop size rounds (mask >>> 1) (log2RingSize - 1)

/-- `log2_ring_size` of `amdgv_ring_init` -/
def log2RingSize (size : Word) : Nat :=
  if 0x1000000 ≤ size then 24
  else log2Loop size 32 0x800000 (if size &&& (size - 1) ≠ 0 then 24 else 23)

/-- `amdgv_ring_init`, when what it asks for is to be had, or nothing if the product of its sizes is
zero: then no bit is found and the shift is undefined. -/
def amdgvRingInit (funcs : RingFuncs) (aqlEnable : Bool) (memory : Nat → Word) (maxDw frames : Word) :
    Option AmdgvRing :=
  let frameDwordSize := if maxDw = 0 then 1024 else maxDw
  let size := frameDwordSize * (if frames < 2 then 2 else frames)
  if size = 0 then none
  else
    let ringSize := (1 : Word) <<< log2RingSize size
    some {
      funcs := funcs
      aqlEnable := aqlEnable
      ring := memory
      wptr := 0
      wptrOld := 0
      ringSize := ringSize
      bufMask := ringSize - 1
      ptrMask := if funcs.support64bitPtrs then BitVec.allOnes 64 else (ringSize - 1).setWidth 64
      maxDw := frameDwordSize
      countDw := 0 }

namespace AmdgvRing

variable (r : AmdgvRing)

def fetchMask : Word := if r.aqlEnable then r.funcs.aqlAlignMask else r.funcs.alignMask

/-- `amdgv_ring_write` -/
def write (v : Word) : AmdgvRing :=
  { r with
    ring := Function.update r.ring (r.wptr &&& r.bufMask.setWidth 64).toNat v
    wptr := (r.wptr + 1) &&& r.ptrMask
    countDw := r.countDw - 1 }

/-- `oss_memcpy` of words -/
def memcpy (mem : Nat → Word) (dst : Nat) (src : List Word) : Nat → Word := fun at_ =>
  if dst ≤ at_ then src.getD (at_ - dst) (mem at_) else mem at_

def writeMultiple (src : List Word) : AmdgvRing :=
  let countDw : Word := BitVec.ofNat 32 src.length
  let occupied : Word := (r.wptr &&& r.bufMask.setWidth 64).setWidth 32
  let chunk1 := r.bufMask + 1 - occupied
  let chunk1 := if chunk1 ≥ countDw then countDw else chunk1
  let chunk2 := countDw - chunk1
  let ring := if chunk1 ≠ 0 then memcpy r.ring occupied.toNat (src.take chunk1.toNat) else r.ring
  let ring :=
    if chunk2 ≠ 0 then memcpy ring 0 ((src.drop chunk1.toNat).take chunk2.toNat) else ring
  { r with
    ring := ring
    wptr := (r.wptr + countDw.setWidth 64) &&& r.ptrMask
    countDw := r.countDw - countDw }

/-- `amdgv_ring_alloc`, or nothing with a failure -/
def alloc (ndw : Word) : Option AmdgvRing :=
  let ndw := (ndw + r.fetchMask) &&& ~~~r.fetchMask
  if r.maxDw < ndw then none else some { r with countDw := ndw, wptrOld := r.wptr }

def insertNop (count : Nat) : AmdgvRing :=
  (List.replicate count r.funcs.insertedNop).foldl write r

/-- `amdgv_ring_commit` -/
def commit : AmdgvRing :=
  let alignMask := r.fetchMask
  let count : Word :=
    ((alignMask + 1).setWidth 64 - (r.wptr &&& alignMask.setWidth 64)).setWidth 32
  r.insertNop (count % (alignMask + 1)).toNat

/-- `amdgv_ring_undo` -/
def undo : AmdgvRing := { r with wptr := r.wptrOld }

end AmdgvRing

inductive Call
  | alloc (ndw : Word)
  | write (v : Word)
  | writeMultiple (src : List Word)
  | commit
  | undo

/-- A ring and its caller: `left` is how many more words the caller may write, if it has reserved
space, `start` the pointer from before, and `kept` whether the last call did what it is to do. -/
structure Sys where
  ring : AmdgvRing
  left : Option Nat
  start : BitVec 64
  kept : Prop

def Sys.next (s : Sys) : Call → Option Sys
  | .alloc ndw =>
    match s.left, s.ring.alloc ndw with
    | none, some ring => some ⟨ring, some ndw.toNat, s.ring.wptr, True⟩
    | none, none => some ⟨s.ring, none, s.start, True⟩
    | some _, _ => none
  | .write v =>
    match s.left with
    | some (left + 1) => some ⟨s.ring.write v, some left, s.start, True⟩
    | _ => none
  | .writeMultiple src =>
    match s.left with
    | some left =>
      if src.length ≤ left then
        some ⟨s.ring.writeMultiple src, some (left - src.length), s.start,
          s.ring.writeMultiple src = src.foldl AmdgvRing.write s.ring⟩
      else none
    | none => none
  | .commit =>
    match s.left with
    | some _ =>
      let ring := s.ring.commit
      some ⟨ring, none, s.start, ring.wptr &&& ring.fetchMask.setWidth 64 = 0⟩
    | none => none
  | .undo =>
    match s.left with
    | some _ => some ⟨s.ring.undo, none, s.start, s.ring.undo.wptr = s.start⟩
    | none => none

/-- The last call did what it is to do, and no more is taken than was reserved. -/
structure Sys.Lawful (s : Sys) : Prop where
  kept : s.kept
  reserved : 0 ≤ s.ring.countDw.toInt

def Sys.Meets (s : Sys) : Call → Prop
  | .alloc ndw => ndw.toNat + s.ring.fetchMask.toNat < 2 ^ 32
  | .writeMultiple src => src.length ≤ s.ring.bufMask.toNat + 1
  | _ => True

instance (s : Sys) (call : Call) : Decidable (s.Meets call) := by
  cases call <;> unfold Sys.Meets <;> infer_instance

/-- A ring before its first use: a power of two of words, and a fetch is a power of two of words no
longer than the ring. -/
structure AmdgvRing.Fit (r : AmdgvRing) : Prop where
  size : ∃ k ≤ 31, r.ringSize.toNat = 2 ^ k
  bufMask : r.bufMask.toNat + 1 = r.ringSize.toNat
  ptrMask : r.ptrMask = BitVec.allOnes 64 ∨ r.ptrMask = r.bufMask.setWidth 64
  fetch : ∃ a ≤ 31, r.fetchMask.toNat + 1 = 2 ^ a
  within : r.fetchMask < r.ringSize
  positive : r.maxDw.toNat < 2 ^ 31
  wptr : r.wptr &&& r.ptrMask = r.wptr
  aligned : r.wptr &&& r.fetchMask.setWidth 64 = 0
  unused : 0 ≤ r.countDw.toInt

def Sys.Initial (s : Sys) : Prop :=
  s.ring.Fit ∧ s.left = none ∧ s.kept

end MxGpu.CommandRing
