import MxGpu.RingList
import Mathlib.Algebra.Group.Nat.Defs

/- The FFBM page table: physical memory cut into blocks, some of them mapped into
the guest address space of a virtual function. -/
namespace MxGpu.Ffbm

open RingList Function

/-- Addresses and sizes are `uint64_t` bytes. -/
abbrev Addr := BitVec 64

def invalidAddr : Addr := BitVec.allOnes 64

def pfIdx : Nat := 31

def memoryAllocationCount : Nat := 256

/-- `MBYTES_TO_BYTES`; its argument is widened before any arithmetic in it. -/
def mbytesToBytes (x : BitVec 64) : Addr := x <<< 20

/-- `AMDGV_FFBM_FB_TMR_OFFSET`, in megabytes. -/
def fbTmrOffset : BitVec 64 := 2

def vfMinMapSize : Addr := mbytesToBytes 16

/-- `AMDGV_FFBM_PAGE_SIZE`: `2 ^ fragment` pages of 4 kB. -/
def pageSize (fragment : Nat) : Addr := (1 : Addr) <<< (fragment + 12)

def pageAlign (val : Addr) (fragment : Nat) : Addr := val &&& ~~~(pageSize fragment - 1)

def pageAlignCeil (val : Addr) (fragment : Nat) : Addr :=
  pageAlign (val + pageSize fragment - 1) fragment

def addrInRange (rangeStart rangeSize addr : Addr) : Bool :=
  rangeStart ≤ addr && addr < rangeStart + rangeSize

/-- `AMDGV_FFBM_ADDR_SIZE_IN_RANGE`: the first and the last byte are in the range. -/
def addrSizeInRange (rangeStart rangeSize addr size : Addr) : Bool :=
  addrInRange rangeStart rangeSize addr && addrInRange rangeStart rangeSize (addr + size - 1)

/-- `AMDGV_FFBM_MAP_SIZE_VALID`: what a size has left over whole pages. -/
def mapSizeValid (size : Addr) (fragment : Nat) : Addr := size &&& (pageSize fragment - 1)

def tmrAddrValid (gpa spa size : Addr) (tmrSize : BitVec 32) : Bool :=
  gpa = mbytesToBytes fbTmrOffset && spa = mbytesToBytes fbTmrOffset &&
    size = mbytesToBytes (tmrSize.setWidth 64)

/-- `enum amdgv_ffbm_resp`; `failure` is `AMDGV_FAILURE` of a hardware hook. -/
inductive Resp
  | success | errorOverlap | errorBadAddr | errorNoMem | badPageInRange | errorInvaldSize
  | errorGeneric | failure
  deriving DecidableEq, Repr

inductive MemType
  | invalid | pf | vf | reserved | badPage | notAssigned | tmr
  deriving DecidableEq, Repr

/-- `enum amdgv_ffbm_permission`. -/
def permRw : BitVec 8 := 3

/-- `struct amdgv_ffbm_pte_block` without its two list nodes. -/
structure PteBlock where
  gpa : Addr
  spa : Addr
  size : Addr
  fragment : Nat
  permission : BitVec 8
  vfIdx : Nat
  type : MemType
  applied : Bool
  deriving DecidableEq, Repr

/-- What `oss_memset` leaves of a block. -/
def zeroBlock : PteBlock := ⟨0, 0, 0, 0, 0, 0, .invalid, false⟩

inductive Node
  | head (list : Nat)
  | block (i : Nat)
  deriving DecidableEq, Repr

/-- `struct amdgv_ffbm`, with what it uses of the adapter: `tmr_size`, the function
counts and the two frame buffer sizes of `gpuiov`. A block is known by its place in
`memory_block`; the guest lists are headed by the functions, the physical list by one
head of its own. `access` tells which of the coming requests for access to the
translation hardware are granted. -/
structure Table where
  block : Nat → PteBlock
  used : Nat → Bool
  gpaLinks : Links Node
  spaLinks : Links Node
  badBlockCount : BitVec 8
  reservedBlockCount : BitVec 8
  totalPhysicalSize : Addr
  enabled : Bool
  defaultFragment : Nat
  maxReservedBlock : Nat
  shareTmr : Bool
  tmrSize : BitVec 32
  numVf : Nat
  maxNumVf : Nat
  totalFbAvail : BitVec 32
  totalFbUsable : BitVec 32
  access : Nat → Bool

/-- The head of `spa_list`. -/
def spaHead : Node := .head 0

namespace Table

def invalidIdxVf (s : Table) : Nat := s.maxNumVf + 1

/-- The first unused block from `i` on. -/
def firstFree (used : Nat → Bool) : Nat → Nat → Option Nat
  | 0, _ => none
  | count + 1, i => if used i then firstFree used count (i + 1) else some i

def allocateBlock (s : Table) : Option (Table × Nat) :=
  match firstFree s.used memoryAllocationCount 0 with
  | none => none
  | some i => some ({ s with
      used := update s.used i true
      block := update s.block i zeroBlock }, i)

def freeBlock (s : Table) (i : Nat) : Table := { s with used := update s.used i false }

/-- `amdgv_ffbm_free_all_block`: everything in the pool is zero. -/
def freeAllBlock (s : Table) : Table :=
  { s with used := fun _ => false, block := fun _ => zeroBlock }

def ptebUpdate (s : Table) (i : Nat) (pteb : PteBlock) : Table :=
  { s with block := update s.block i pteb }

def ptebInit (s : Table) (i : Nat) (pteb : PteBlock) : Table :=
  { s.ptebUpdate i pteb with
    gpaLinks := s.gpaLinks.init (.block i)
    spaLinks := s.spaLinks.init (.block i) }

def walkFuel : Nat := memoryAllocationCount + 1

def stopAt (stop : Nat → Bool) : Node → Bool
  | .head _ => true
  | .block i => stop i

/-- Where a walk along a list stops: at the first block with the property or back at
the head. Nothing is returned when the walk does not end, or when stale links lead it
to the head of another list. -/
def walkList (links : Links Node) (head : Node) (stop : Nat → Bool) : Option Node :=
  match links.walk (stopAt stop) head walkFuel (links.next head) with
  | some (.block i) => some (.block i)
  | some (.head list) => if .head list = head then some head else none
  | none => none

/-- The block a walk stops at, `none` inside for the end of the list. -/
def findBlock (links : Links Node) (head : Node) (stop : Nat → Bool) : Option (Option Nat) :=
  match walkList links head stop with
  | some (.block i) => some (some i)
  | some (.head _) => some none
  | none => none

def collect (links : Links Node) (head : Node) : Nat → Node → Option (List Nat)
  | 0, _ => none
  | fuel + 1, node =>
    if node = head then some []
    else
      match node with
      | .head _ => none
      | .block i => (collect links head fuel (links.next node)).map (i :: ·)

/-- The blocks of a list, as `amdgv_list_for_each_entry` visits them. -/
def entries (links : Links Node) (head : Node) : Option (List Nat) :=
  collect links head walkFuel (links.next head)

end Table

end MxGpu.Ffbm
