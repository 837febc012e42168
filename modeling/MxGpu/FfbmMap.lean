import MxGpu.FfbmTypes

/- Finding, cutting and mapping blocks. -/
namespace MxGpu.Ffbm

open RingList

/-- A request to `amdgv_ffbm_manual_map`. -/
structure MapRequest where
  vfIdx : Nat
  size : Addr
  gpa : Addr
  spa : Addr
  permission : BitVec 8
  type : MemType

namespace Table

def findPtebByPhy (s : Table) (spa : Addr) : Option (Option Nat) :=
  findBlock s.spaLinks spaHead fun i => addrInRange (s.block i).spa (s.block i).size spa

def findPtebByFfbm (s : Table) (gpa : Addr) (vfIdx : Nat) : Option (Option Nat) :=
  findBlock s.gpaLinks (.head vfIdx) fun i => addrInRange (s.block i).gpa (s.block i).size gpa

def findEmptyPteb (s : Table) (minSize : Addr) : Option (Option Nat) :=
  findBlock s.spaLinks spaHead fun i =>
    (s.block i).type = .notAssigned && minSize ≤ (s.block i).size

/-- The part of a block after its first `size` bytes. -/
def rightPart (pteb : PteBlock) (size : Addr) : PteBlock :=
  { pteb with
    gpa := if pteb.gpa ≠ invalidAddr then pteb.gpa + size else invalidAddr
    spa := pteb.spa + size
    size := pteb.size - size }

/-- `amdgv_ffbm_pteb_divide_size` once it has its new block `n`: the block `i` keeps
`size` bytes, the rest goes to `n`, which follows it in the lists. -/
def divideInto (s : Table) (i n : Nat) (size : Addr) : Table :=
  let s := s.ptebInit n (rightPart (s.block i) size)
  let s := s.ptebUpdate i { s.block i with size := size }
  { s with
    spaLinks := s.spaLinks.add (.block n) (.block i)
    gpaLinks :=
      if (s.block i).gpa ≠ invalidAddr then s.gpaLinks.add (.block n) (.block i)
      else s.gpaLinks }

def ptebDivideSize (s : Table) (i : Nat) (size : Addr) : Table × Option Nat :=
  if mapSizeValid size (s.block i).fragment ≠ 0 then (s, none)
  else
    let size := pageAlignCeil size (s.block i).fragment
    if (s.block i).size ≤ size then (s, some i)
    else
      match s.allocateBlock with
      | none => (s, none)
      | some (s, n) => (s.divideInto i n size, some n)

/-- `amdgv_ffbm_pteb_hole_by_phy`. What the right cut returns is not looked at. -/
def ptebHoleByPhy (s : Table) (i : Nat) (spa size : Addr) : Table × Option Nat :=
  let size := pageAlignCeil size (s.block i).fragment
  if !addrSizeInRange (s.block i).spa (s.block i).size spa size then (s, none)
  else
    let (s, pteb) :=
      if (s.block i).spa < spa then s.ptebDivideSize i (spa - (s.block i).spa) else (s, some i)
    match pteb with
    | none => (s, none)
    | some pteb =>
      if size < (s.block pteb).size then ((s.ptebDivideSize pteb size).1, some pteb)
      else (s, some pteb)

/-- The loop of `is_gpaess_valid`, from the end of the block before on. -/
def gpaessValidFrom (s : Table) (size gpa : Addr) (vfIdx : Nat) :
    Nat → Node → Addr → Option Bool
  | 0, _, _ => none
  | fuel + 1, node, previousEnd =>
    if node = .head vfIdx then
      some (addrSizeInRange previousEnd (s.totalPhysicalSize - previousEnd) gpa size)
    else
      match node with
      | .head _ => none
      | .block i =>
        let currentStart := (s.block i).gpa
        if addrSizeInRange previousEnd (currentStart - previousEnd) gpa size then some true
        else
          let previousEnd := (s.block i).gpa + (s.block i).size
          if gpa < previousEnd && currentStart ≤ gpa then some false
          else gpaessValidFrom s size gpa vfIdx fuel (s.gpaLinks.next node) previousEnd

def isGpaessValid (s : Table) (size gpa : Addr) (vfIdx : Nat) : Option Bool :=
  let tmrStart := mbytesToBytes fbTmrOffset
  let tmrEnd := mbytesToBytes (s.tmrSize.setWidth 64 + fbTmrOffset)
  if size = 0 || gpa + size < gpa then some false
  else if (tmrStart ≤ gpa && gpa < tmrEnd) ||
      (tmrStart < gpa + size && gpa + size ≤ tmrEnd) then some false
  else gpaessValidFrom s size gpa vfIdx walkFuel (s.gpaLinks.next (.head vfIdx)) 0

/-- `amdgv_ffbm_insert_new_ffbm_node`: after the first block with a larger address, or
after the head if there is none. -/
def insertNewFfbmNode (s : Table) (i : Nat) : Option Table :=
  match walkList s.gpaLinks (.head (s.block i).vfIdx) fun tmp =>
      (s.block i).gpa < (s.block tmp).gpa with
  | none => none
  | some tmp => some { s with gpaLinks := s.gpaLinks.add (.block i) tmp }

def enlist (s : Table) (listed : Bool) (i : Nat) : Option Table :=
  if listed then s.insertNewFfbmNode i else some s

/-- `amdgv_ffbm_create_new_pteb`; the fragment is that of the block `i`. -/
def createNewPteb (s : Table) (i : Nat) (pteb : PteBlock) : Option (Table × Nat) :=
  match s.allocateBlock with
  | none => none
  | some (s, n) => some (s.ptebInit n { pteb with fragment := (s.block i).fragment }, n)

def tmrBlock (s : Table) (request : MapRequest) : PteBlock where
  gpa := mbytesToBytes fbTmrOffset
  spa := mbytesToBytes fbTmrOffset
  size := mbytesToBytes (s.tmrSize.setWidth 64)
  fragment := 0
  permission := request.permission
  vfIdx := request.vfIdx
  type := .tmr
  applied := false

def mappedBlock (s : Table) (request : MapRequest) : PteBlock where
  gpa := request.gpa
  spa := request.spa
  size := request.size
  fragment := s.defaultFragment
  permission := request.permission
  vfIdx := request.vfIdx
  type := request.type
  applied := false

/-- `amdgv_ffbm_manual_map` with the block found for it. Without a descriptor for the
shared TMR the call reads through a null pointer and does not return. -/
def manualMapAt (s : Table) (request : MapRequest) (i : Nat) : Option (Table × Resp) :=
  if (s.block i).type = .tmr then
    if !tmrAddrValid request.gpa request.spa request.size s.tmrSize then some (s, .errorBadAddr)
    else
      match s.createNewPteb i (s.tmrBlock request) with
      | none => none
      | some (s, n) =>
        (s.enlist (request.type = .vf || request.vfIdx ≠ pfIdx) n).map (·, .success)
  else
    match s.ptebHoleByPhy i request.spa request.size with
    | (s, none) => some (s, .errorNoMem)
    | (s, some pteb) =>
      ((s.ptebUpdate pteb (s.mappedBlock request)).enlist
        (request.type = .vf || request.type = .tmr && request.vfIdx ≠ pfIdx) pteb).map
          (·, .success)

def suits (s : Table) (request : MapRequest) (i : Nat) : Bool :=
  ((s.block i).type = .notAssigned || request.type = .tmr) &&
    addrSizeInRange (s.block i).spa (s.block i).size request.spa request.size

/-- Only a mapping for a virtual function is checked against its guest addresses. -/
def guestValid (s : Table) (request : MapRequest) : Option Bool :=
  if request.type = .vf then s.isGpaessValid request.size request.gpa request.vfIdx
  else some true

def manualMap (s : Table) (request : MapRequest) : Option (Table × Resp) :=
  if mapSizeValid request.size s.defaultFragment ≠ 0 then some (s, .errorInvaldSize)
  else
    match s.guestValid request with
    | none => none
    | some false => some (s, .errorBadAddr)
    | some true =>
      match s.findPtebByPhy request.spa with
      | none => none
      | some none => some (s, .errorBadAddr)
      | some (some i) =>
        if s.suits request i then s.manualMapAt request i else some (s, .errorBadAddr)

/-- One round of the loop of `amdgv_ffbm_map`: the first unassigned block, cut to what
is left if it is larger, goes to the function. The size it had after the cut is
returned; what the cut returns is not looked at. -/
def mapEmpty (s : Table) (vfIdx : Nat) (gpaStart sizeLeft : Addr) (permission : BitVec 8) :
    Option (Table × Option Addr) :=
  match s.findEmptyPteb 0 with
  | none => none
  | some none => some (s, none)
  | some (some i) =>
    let s := if sizeLeft < (s.block i).size then (s.ptebDivideSize i sizeLeft).1 else s
    let pteb := s.block i
    let s := s.ptebUpdate i
      { pteb with
        gpa := gpaStart
        vfIdx := vfIdx
        permission := permission
        type := .vf
        applied := false }
    (s.insertNewFfbmNode i).map (·, some pteb.size)

end Table

end MxGpu.Ffbm
