import Mathlib.Algebra.Group.Nat.Defs
import Mathlib.Logic.Function.Basic

/- The frame-buffer memory manager: the allocations of one manager, in the order
of its list, and the numbering of the allocations of a whole adapter. -/
namespace MxGpu.Fb

/-- Offsets, lengths and alignments are `uint64_t` bytes. -/
abbrev Addr := BitVec 64

/-- The values of `enum amdgv_mem_id`; an id of an allocation keeps 16 bits of it. -/
abbrev MemId := BitVec 16

def memEccBadPage : MemId := 0x400

def memEccBadPageNpsCandidate : MemId := 0x401

def memIdCountMax : Nat := 256

def maxMemCount : Nat := 256

def memAllocsMax : Nat := 128

def defaultSize : Addr := 1 <<< 36

def defaultAlignShift : BitVec 32 := 12

/-- `AMDGV_MEMMGR_ALIGN` of an alignment that is a `uint64_t`. -/
def align64 (addr align : Addr) : Addr := (addr + align - 1) &&& ~~~(align - 1)

/-- `AMDGV_MEMMGR_ALIGN` of an alignment that is a `uint32_t`: its complement is taken
in 32 bits before it meets the address. -/
def align32 (addr : Addr) (align : BitVec 32) : Addr :=
  (addr + align.setWidth 64 - 1) &&& (~~~(align - 1)).setWidth 64

/-- The id of an allocation, `[31:16]index[15:0]mem_id`: what `MEM_ID_GET_ID` and
`MEM_ID_GET_INDEX` take from it. -/
structure MemTag where
  id : MemId
  index : Nat
  deriving DecidableEq, Repr

/-- `struct amdgv_memmgr_mem`; `handle` is the address of the node. -/
structure Mem where
  handle : Nat
  allocOff : Addr
  len : Addr
  align : Addr
  tag : MemTag
  deriving DecidableEq, Repr

/-- `struct amdgv_mem_with_bitmap`, the four words of the bitmap as one. -/
structure MemWithBitmap where
  memId : MemId
  bitmaps : Nat → Bool

/-- `struct amdgv_memmgr`; the lists are without their heads, which have the
`alloc_off` that `amdgv_memmgr_init` gave them. -/
structure Memmgr where
  offset : Addr
  size : Addr
  align : Addr
  allocs : List Mem
  reserves : List Mem
  headOff : Addr
  reserveCount : Int
  tom : Addr
  down : Bool
  isInit : Bool

structure Adapt where
  mems : List MemWithBitmap
  memmgr : Memmgr
  nextMem : Nat

structure Env where
  /-- `adapt->asic_type` is `CHIP_MI350X`. -/
  mi350x : Bool
  /-- `adapt->status` is `AMDGV_STATUS_INVALID`. -/
  statusInvalid : Bool
  /-- `adapt->opt.skip_hw_init`, which is `amdgv_in_live_update_seq`. -/
  skipHwInit : Bool
  /-- `oss_malloc` returns nothing. -/
  noMemory : Bool
  deriving DecidableEq, Repr

def alwaysAllocNew (id : MemId) : Bool := id = memEccBadPage || id = memEccBadPageNpsCandidate

/-- The first index whose bit is clear, from `index` on. -/
def firstClear (bitmaps : Nat → Bool) : Nat → Nat → Option Nat
  | _, 0 => none
  | index, count + 1 =>
    if bitmaps index then firstClear bitmaps (index + 1) count else some index

def bitmapsOf (id : MemId) : List MemWithBitmap → Option (Nat → Bool)
  | [] => none
  | mem :: rest => if id = mem.memId then some mem.bitmaps else bitmapsOf id rest

def writeBit (id : MemId) (index : Nat) (value : Bool) : List MemWithBitmap → List MemWithBitmap
  | [] => []
  | mem :: rest =>
    if id = mem.memId then
      { mem with bitmaps := Function.update mem.bitmaps index value } :: rest
    else mem :: writeBit id index value rest

def memIdListAdd (mems : List MemWithBitmap) (id : MemId) : Option (List MemWithBitmap) :=
  if mems.length < memIdCountMax then
    some (mems ++ [{ memId := id, bitmaps := fun _ => false }])
  else none

/-- `amdgv_memmgr_mem_id_add`; none is `MEM_ID_NOT_AVAILABLE`. -/
def memIdAdd (mems : List MemWithBitmap) (id : MemId) : List MemWithBitmap × Option MemTag :=
  let listed := if (bitmapsOf id mems).isSome then some mems else memIdListAdd mems id
  match listed with
  | none => (mems, none)
  | some mems =>
    match (bitmapsOf id mems).bind (firstClear · 0 maxMemCount) with
    | none => (mems, none)
    | some index => (writeBit id index true mems, some { id, index })

def memIdRemove (mems : List MemWithBitmap) (tag : MemTag) : List MemWithBitmap :=
  if maxMemCount ≤ tag.index then mems else writeBit tag.id tag.index false mems

def findMemId (allocs : List Mem) (tag : MemTag) : Option Mem :=
  allocs.find? fun alloc => alloc.tag = tag

/-- The `alloc_off` of the last entry, or of the head when there is none. -/
def endOf (headOff : Addr) : List Mem → Addr
  | [] => headOff
  | alloc :: rest => endOf alloc.allocOff rest

def passed (alloc : Mem) (split : List Mem × List Mem) : List Mem × List Mem :=
  (alloc :: split.1, split.2)

/-- The loop of `amdgv_memmgr_find_size`: the entries up to the one returned, and
the others. -/
def findSizeFrom (size align tom : Addr) : List Mem → List Mem × List Mem
  | [] => ([], [])
  | alloc :: rest =>
    if tom > alloc.allocOff then passed alloc (findSizeFrom size align tom rest)
    else if alloc.allocOff - alloc.len > tom + size then ([], alloc :: rest)
    else passed alloc (findSizeFrom size align (align64 alloc.allocOff align) rest)

/-- The loop of `amdgv_memmgr_find_size_at`; none when the range is taken. -/
def findSizeAtFrom (size tom : Addr) : List Mem → Option (List Mem × List Mem)
  | [] => some ([], [])
  | alloc :: rest =>
    if tom > alloc.allocOff then (findSizeAtFrom size tom rest).map (passed alloc)
    else if alloc.allocOff > tom ∧ alloc.allocOff - alloc.len < tom + size then none
    else if alloc.allocOff - alloc.len ≥ tom + size then some ([], alloc :: rest)
    else (findSizeAtFrom size tom rest).map (passed alloc)

namespace Memmgr

variable (memmgr : Memmgr)

def findSize (size align : Addr) : List Mem × List Mem :=
  findSizeFrom size align (align64 memmgr.offset align) memmgr.allocs

def findSizeAt (offset size align : Addr) : Option (List Mem × List Mem) :=
  findSizeAtFrom size (align64 offset align) memmgr.allocs

/-- Whether a block of `len` bytes ends behind the manager's range. -/
def exceeds (addr len : Addr) : Bool := addr + len > memmgr.offset + memmgr.size

/-- `amdgv_list_add` behind `before`, and the new top of memory. -/
def insert (before : List Mem) (new : Mem) (after : List Mem) : Memmgr :=
  { memmgr with
    allocs := before ++ new :: after
    tom := if endOf memmgr.headOff before = memmgr.tom then new.allocOff else memmgr.tom }

/-- Where `amdgv_memmgr_alloc_unify_align` and `amdgv_memmgr_assign_reserved_region` put
a block: the address, between the entries before and after it. `align` is what they
search with, `aligned` their own `AMDGV_MEMMGR_ALIGN`. -/
def place (len align : Addr) (aligned : Addr → Addr) : Option (List Mem × Addr × List Mem) :=
  let (before, after) := memmgr.findSize len align
  let prevOff := endOf memmgr.headOff before
  if prevOff = memmgr.tom && memmgr.exceeds (aligned memmgr.tom) len then none
  else
    let addr := if memmgr.down then aligned (prevOff + len) - len else aligned prevOff
    some (before, addr, after)

end Memmgr

/-- The place of an entry in the list of deferred ones, which is sorted by length. -/
def insertReserve (new : Mem) : List Mem → List Mem
  | [] => [new]
  | iter :: rest =>
    if new.len ≥ iter.len then new :: iter :: rest else iter :: insertReserve new rest

/-- `amdgv_list_swap_entries` of two nodes whose `alloc_off` was swapped: each takes
the place of the other. -/
def exchange (memOld memNew entry : Mem) : Mem :=
  if entry.handle = memOld.handle then { memNew with allocOff := memOld.allocOff }
  else if entry.handle = memNew.handle then { memOld with allocOff := memNew.allocOff }
  else entry

end MxGpu.Fb
