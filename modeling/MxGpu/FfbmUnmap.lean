import MxGpu.FfbmMap

/- Taking mappings away, and swapping a bad page for a reserved one. -/
namespace MxGpu.Ffbm.Table

open RingList

def accessed (s : Table) : Table := { s with access := fun request => s.access (request + 1) }

/-- The `apply_pteb` hook: without access to the hardware it fails and changes nothing. -/
def applyPteb (s : Table) (i : Nat) (valid : Bool) : Table × Resp :=
  if s.access 0 then
    (s.accessed.ptebUpdate i { s.block i with applied := valid }, .success)
  else (s.accessed, .failure)

def gpaListEmpty (s : Table) (i : Nat) : Bool := s.gpaLinks.isEmpty (.block i)

def invalidateAndUnapplyPteb (s : Table) (i : Nat) : Table :=
  if (s.block i).type = .notAssigned then s
  else if s.gpaListEmpty i then s
  else if !(s.block i).applied then s
  else if (s.block i).type = .vf ∨ (s.block i).type = .tmr then (s.applyPteb i false).1
  else s

/-- The unassigned block next to a node, if it is one. The head of the list, read as a
block, is never unassigned. -/
def unassignedAt (s : Table) : Node → Option Nat
  | .head _ => none
  | .block i => if (s.block i).type = .notAssigned then some i else none

/-- The block `j` goes into the block `i` next to it: off the list and back to the pool. -/
def absorb (s : Table) (i j : Nat) : Table :=
  let s := s.ptebUpdate i { s.block i with size := (s.block i).size + (s.block j).size }
  { s with
    spaLinks := s.spaLinks.unlink (s.spaLinks.prev (.block j)) (s.spaLinks.next (.block j))
    used := Function.update s.used j false }

/-- The front merge of `amdgv_ffbm_unmap_pteb`, with the block that is left. -/
def mergeFront (s : Table) (i : Nat) : Table × Nat :=
  match s.unassignedAt (s.spaLinks.prev (.block i)) with
  | some tmp => (s.absorb tmp i, tmp)
  | none => (s, i)

/-- The back merge of `amdgv_ffbm_unmap_pteb`. -/
def mergeBack (s : Table) (i : Nat) : Table :=
  match s.unassignedAt (s.spaLinks.next (.block i)) with
  | some tmp => s.absorb i tmp
  | none => s

def unassigned (s : Table) (pteb : PteBlock) : PteBlock :=
  { pteb with
    gpa := invalidAddr
    fragment := s.defaultFragment
    vfIdx := s.invalidIdxVf
    permission := 0
    type := .notAssigned }

def leaveGpaList (s : Table) (i : Nat) : Table :=
  if s.gpaListEmpty i then s else { s with gpaLinks := s.gpaLinks.delInit (.block i) }

/-- Step 2 of `amdgv_ffbm_unmap_pteb`: a TMR block is freed, a VF block is unassigned and
merged with its neighbours. -/
def returnBack (s : Table) (i : Nat) : Table :=
  match (s.block i).type with
  | .tmr => s.freeBlock i
  | .vf =>
    let (s, left) := (s.ptebUpdate i (s.unassigned (s.block i))).mergeFront i
    s.mergeBack left
  | _ => s

def unmapPteb (s : Table) (i : Nat) : Table :=
  if (s.block i).type = .notAssigned then s
  else ((s.invalidateAndUnapplyPteb i).leaveGpaList i).returnBack i

def unmapBySpa (s : Table) (spa : Addr) : Option Table :=
  (s.findPtebByPhy spa).map fun
    | some i => s.unmapPteb i
    | none => s

/-- The first block of `spa_list` held back for bad pages. -/
def findReserved (s : Table) : Option (Option Nat) :=
  findBlock s.spaLinks spaHead fun i => (s.block i).type = .reserved

/-- The reserved block `new` takes the place of `pteb` in its guest list. -/
def takePlace (s : Table) (new pteb : Nat) (size : Addr) : Table :=
  let s := s.ptebUpdate new { s.block pteb with
    spa := (s.block new).spa
    size := size
    applied := false }
  { s with
    reservedBlockCount := s.reservedBlockCount - 1
    gpaLinks := s.gpaLinks.addTail (.block new) (.block pteb) }

def markBad (s : Table) (pteb : Nat) (size : Addr) : Table :=
  { s.ptebUpdate pteb { s.block pteb with
      gpa := invalidAddr
      size := size
      vfIdx := s.invalidIdxVf
      permission := 0
      type := .badPage } with
    badBlockCount := s.badBlockCount + 1 }

/-- The swap at the end of `amdgv_ffbm_replace_page`. -/
def swapPages (s : Table) (pteb new : Nat) (size : Addr) : Table :=
  ((s.takePlace new pteb size).unmapPteb pteb).markBad pteb size

def replacePage (s : Table) (spa : Addr) : Option (Table × Resp) :=
  match s.findPtebByPhy spa with
  | none => none
  | some none => some (s, .errorBadAddr)
  | some (some i) =>
    if (s.block i).type ≠ .vf then some (s, .success)
    else
      let fragment := (s.block i).fragment
      match s.ptebHoleByPhy i (pageAlign spa fragment) (pageSize fragment) with
      | (s, none) => some (s, .errorNoMem)
      | (s, some pteb) =>
        match s.findReserved with
        | none => none
        | some none => some (s, .errorNoMem)
        | some (some new) => some (s.swapPages pteb new (pageSize fragment), .success)

def gpaToSpa (s : Table) (gpa : Addr) (vfIdx : Nat) : Option Addr :=
  (s.findPtebByFfbm gpa vfIdx).map fun
    | some i => (s.block i).spa + (gpa - (s.block i).gpa)
    | none => invalidAddr

end MxGpu.Ffbm.Table
