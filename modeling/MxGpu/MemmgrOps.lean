import MxGpu.MemmgrTypes

/- What the callers of a memory manager of frame buffer can do to it. -/
namespace MxGpu.Fb

def nodeIn (handle : Nat) : List Mem → Option (List Mem × Mem × List Mem)
  | [] => none
  | alloc :: rest =>
    if alloc.handle = handle then some ([], alloc, rest)
    else (nodeIn handle rest).map fun (before, mem, after) => (alloc :: before, mem, after)

/-- `amdgv_memmgr_init`, on an adapter that has numbered `mems` so far. -/
def init (mems : List MemWithBitmap) (nextMem : Nat) (offset size : Addr) (align : BitVec 32)
    (down : Bool) : Adapt where
  mems
  nextMem
  memmgr :=
    { offset
      size := if size = 0 then defaultSize else size
      align := (if align = 0 then defaultAlignShift else align).setWidth 64
      allocs := []
      reserves := []
      headOff := offset
      reserveCount := 0
      tom := offset
      down
      isInit := true }

namespace Adapt

variable (s : Adapt)

/-- The part of `amdgv_memmgr_alloc_unify_align` from `alloc_new` on. -/
def allocNew (env : Env) (len align : Addr) (tag : MemTag) : Adapt × Option Mem :=
  if env.noMemory then (s, none)
  else match s.memmgr.place len align (align64 · align) with
    | none => (s, none)
    | some (before, addr, after) =>
      let new : Mem := { handle := s.nextMem, allocOff := addr + len, len, align, tag }
      ({ s with memmgr := s.memmgr.insert before new after, nextMem := s.nextMem + 1 }, some new)

/-- `amdgv_memmgr_alloc_unify_align` of a manager that is not of system memory. -/
def allocUnifyAlign (env : Env) (len align : Addr) (id : MemId) : Adapt × Option Mem :=
  if !s.memmgr.isInit then (s, none)
  else match memIdAdd s.mems id with
    | (mems, none) => ({ s with mems }, none)
    | (mems, some tag) =>
      let sameIdMem :=
        if env.skipHwInit && !alwaysAllocNew id then findMemId s.memmgr.allocs tag else none
      match sameIdMem with
      | some sameIdMem => ({ s with mems }, some sameIdMem)
      | none => { s with mems }.allocNew env len align tag

def reserveAttrs (env : Env) (len align : Addr) (id : MemId) : Adapt × Option Mem :=
  if !s.memmgr.isInit then (s, none)
  else match memIdAdd s.mems id with
    | (mems, none) => ({ s with mems }, none)
    | (mems, some tag) =>
      if env.noMemory then ({ s with mems := memIdRemove mems tag }, none)
      else
        let new : Mem := { handle := s.nextMem, allocOff := 0, len, align, tag }
        let memmgr := { s.memmgr with
          reserves := insertReserve new s.memmgr.reserves
          reserveCount := s.memmgr.reserveCount + 1 }
        ({ mems, memmgr, nextMem := s.nextMem + 1 }, some new)

def allocAlign (env : Env) (len align : Addr) (id : MemId) : Adapt × Option Mem :=
  if env.mi350x && env.statusInvalid && !env.skipHwInit then s.reserveAttrs env len align id
  else s.allocUnifyAlign env len align id

def allocAlignAt (env : Env) (offset len : Addr) (id : MemId) : Adapt × Option Mem :=
  if env.noMemory then (s, none)
  else
    let align : BitVec 32 := ((1 : Addr) <<< s.memmgr.align).setWidth 32
    match memIdAdd s.mems id with
    | (mems, none) => ({ s with mems }, none)
    | (mems, some tag) =>
      if s.memmgr.exceeds (align32 offset align) len then ({ s with mems }, none)
      else match s.memmgr.findSizeAt offset len (align.setWidth 64) with
        | none => ({ s with mems }, none)
        | some (before, after) =>
          let addr :=
            if s.memmgr.down then align32 (offset + len) align - len else align32 offset align
          let new : Mem :=
            { handle := s.nextMem, allocOff := addr + len, len, align := align.setWidth 64, tag }
          ({ mems, memmgr := s.memmgr.insert before new after, nextMem := s.nextMem + 1 }, some new)

/-- `amdgv_memmgr_assign_reserved_region`, with whether it succeeds. -/
def assignReservedRegion (reserved : Mem) : Adapt × Bool :=
  let align : BitVec 32 := reserved.align.setWidth 32
  match s.memmgr.place reserved.len (align.setWidth 64) (align32 · align) with
  | none => (s, false)
  | some (before, addr, after) =>
    let memmgr := { s.memmgr with
      reserves := s.memmgr.reserves.filter fun mem => mem.handle ≠ reserved.handle }
    let reserved := { reserved with allocOff := addr + reserved.len }
    ({ s with memmgr := memmgr.insert before reserved after }, true)

/-- One turn of the loop of `amdgv_memmgr_alloc_deferred_region`. -/
def deferredTurn (first : Mem) : Adapt × Bool :=
  match s.assignReservedRegion first with
  | (s, false) => (s, false)
  | (s, true) =>
    ({ s with memmgr := { s.memmgr with reserveCount := s.memmgr.reserveCount - 1 } }, true)

def mem? (handle : Nat) : Option Mem :=
  (s.memmgr.allocs ++ s.memmgr.reserves).find? fun mem => mem.handle = handle

def allocAndReplace (env : Env) (handle : Nat) (replaceType : MemId) : Adapt × Option Mem :=
  match s.mem? handle with
  | none => (s, none)
  | some memOld =>
    match s.allocAlign env memOld.len memOld.align replaceType with
    | (s, none) => (s, none)
    | (s, some memNew) =>
      let memmgr := { s.memmgr with
        allocs := s.memmgr.allocs.map (exchange memOld memNew)
        reserves := s.memmgr.reserves.map (exchange memOld memNew) }
      ({ s with memmgr }, some { memNew with allocOff := memOld.allocOff })

/-- The rest of `amdgv_memmgr_free` once the node is off its list. -/
def afterDel (memmgr : Memmgr) (mem : Mem) (prevOff : Addr) : Adapt :=
  { s with
    mems := memIdRemove s.mems mem.tag
    memmgr := { memmgr with
      reserveCount :=
        if mem.allocOff = 0 ∧ memmgr.reserveCount ≠ 0 then memmgr.reserveCount - 1
        else memmgr.reserveCount
      tom := if mem.allocOff ≥ memmgr.tom then prevOff else memmgr.tom } }

/-- `amdgv_memmgr_free`. -/
def free (handle : Nat) : Adapt :=
  match nodeIn handle s.memmgr.allocs with
  | some (before, mem, after) =>
    s.afterDel { s.memmgr with allocs := before ++ after } mem (endOf s.memmgr.headOff before)
  | none =>
    match nodeIn handle s.memmgr.reserves with
    | some (before, mem, after) =>
      s.afterDel { s.memmgr with reserves := before ++ after } mem
        (endOf s.memmgr.headOff before)
    | none => s

end Adapt

inductive Op
  | allocAlign (env : Env) (len align : Addr) (id : MemId)
  | allocAlignAt (env : Env) (offset len : Addr) (id : MemId)
  /-- One turn of the loop of `amdgv_memmgr_alloc_deferred_region`. -/
  | deferredTurn
  | allocAndReplace (env : Env) (handle : Nat) (replaceType : MemId)
  | free (handle : Nat)

def Adapt.step (s : Adapt) : Op → Adapt
  | .allocAlign env len align id => (s.allocAlign env len align id).1
  | .allocAlignAt env offset len id => (s.allocAlignAt env offset len id).1
  | .deferredTurn =>
    match s.memmgr.reserves with
    | [] => s
    | first :: _ => (s.deferredTurn first).1
  | .allocAndReplace env handle replaceType => (s.allocAndReplace env handle replaceType).1
  | .free handle => s.free handle

end MxGpu.Fb
