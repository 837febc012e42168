import MxGpu.FfbmUnmap
import MxGpu.Script

/- The calls on the page table, as programs over the operations that change it. -/
namespace MxGpu.Ffbm

open RingList Scripts Function

namespace Table

/-- One list of `amdgv_ffbm_page_table_destroy`. The node after the one taken out is
remembered before. -/
def destroyList (s : Table) (next : Table → Node → Node) (free : Table → Nat → Table)
    (head : Node) : Nat → Node → Option Table
  | 0, _ => none
  | fuel + 1, node =>
    if node = head then some s
    else
      match node with
      | .head _ => none
      | .block i => destroyList (free s i) next free head fuel (next s node)

def destroyGpaBlock (s : Table) (i : Nat) : Table :=
  { s with
    gpaLinks := s.gpaLinks.unlink (s.gpaLinks.prev (.block i)) (s.gpaLinks.next (.block i))
    spaLinks := s.spaLinks.unlink (s.spaLinks.prev (.block i)) (s.spaLinks.next (.block i))
    used := update s.used i false }

def destroySpaBlock (s : Table) (i : Nat) : Table :=
  { s with
    spaLinks := s.spaLinks.unlink (s.spaLinks.prev (.block i)) (s.spaLinks.next (.block i))
    used := update s.used i false }

/-- The guest lists of the first `count` functions. -/
def destroyGpaLists (s : Table) : Nat → Option Table
  | 0 => some s
  | count + 1 =>
    match s.destroyGpaLists count with
    | none => none
    | some s =>
      (s.destroyList (fun s => s.gpaLinks.next) destroyGpaBlock (.head count) walkFuel
        (s.gpaLinks.next (.head count))).map fun s =>
          { s with gpaLinks := s.gpaLinks.init (.head count) }

def pageTableDestroy (s : Table) : Option Table :=
  match s.destroyGpaLists s.numVf with
  | none => none
  | some s =>
    (s.destroyList (fun s => s.spaLinks.next) destroySpaBlock spaHead walkFuel
      (s.spaLinks.next spaHead)).map fun s => { s with spaLinks := s.spaLinks.init spaHead }

/-- The memory the page table manages: `total_fb_avail` in whole pages. -/
def alignedSize (s : Table) : Addr :=
  pageAlign (mbytesToBytes (s.totalFbAvail.setWidth 64)) s.defaultFragment

/-- Step 1 of `amdgv_ffbm_page_table_init`: the old table goes and one unassigned block
covers the memory. The pool is all free, so its first block is there. -/
def setup (s : Table) : Option Table :=
  s.pageTableDestroy.map fun s =>
    let s := { s.freeAllBlock with
      used := update s.freeAllBlock.used 0 true
      totalPhysicalSize := s.alignedSize }
    let s := s.ptebInit 0
      { gpa := 0
        spa := 0
        size := s.totalPhysicalSize
        fragment := s.defaultFragment
        permission := 0
        vfIdx := s.invalidIdxVf
        type := .notAssigned
        applied := false }
    { s with spaLinks := s.spaLinks.add (.block 0) spaHead }

/-- `amdgv_ffbm_sw_init`; the fragment is the one the device sets for pages of 2 MB. -/
def swInit (s : Table) : Table :=
  { s with
    gpaLinks :=
      { next := fun node => match node with | .head _ => node | .block _ => s.gpaLinks.next node
        prev := fun node => match node with | .head _ => node | .block _ => s.gpaLinks.prev node }
    spaLinks := s.spaLinks.init spaHead
    badBlockCount := 0
    enabled := true
    defaultFragment := 9 }

end Table

inductive Op
  | setup
  | manualMap (request : MapRequest)
  | mapEmpty (vfIdx : Nat) (gpaStart sizeLeft : Addr) (permission : BitVec 8)
  | unmapPteb (i : Nat)
  | unmapBySpa (spa : Addr)
  | invalidateAndUnapplyPteb (i : Nat)
  | applyPteb (i : Nat)
  | replacePage (spa : Addr)
  | takeUsable (megabytes : BitVec 32)

inductive Reply
  | code (resp : Resp)
  | mapped (size : Option Addr)

namespace Table

def step (s : Table) : Op → Option (Table × Reply)
  | .setup => s.setup.map (·, .code .success)
  | .manualMap request => (s.manualMap request).map fun (s, resp) => (s, .code resp)
  | .mapEmpty vfIdx gpaStart sizeLeft permission =>
    (s.mapEmpty vfIdx gpaStart sizeLeft permission).map fun (s, size) => (s, .mapped size)
  | .unmapPteb i => some (s.unmapPteb i, .code .success)
  | .unmapBySpa spa => (s.unmapBySpa spa).map (·, .code .success)
  | .invalidateAndUnapplyPteb i => some (s.invalidateAndUnapplyPteb i, .code .success)
  | .applyPteb i => some ((s.applyPteb i true).1, .code (s.applyPteb i true).2)
  | .replacePage spa => (s.replacePage spa).map fun (s, resp) => (s, .code resp)
  | .takeUsable megabytes =>
    some ({ s with totalFbUsable := s.totalFbUsable - megabytes }, .code .success)

end Table

abbrev Prog (Result : Type) : Type := Script Table Op Reply Result

def call (op : Op) : Prog Resp :=
  .act op fun
    | .code resp => .done resp
    | .mapped _ => .done .success

/-- The loop of `amdgv_ffbm_unmap_by_fcn`, with the rounds it takes. -/
def unmapLoop (vfIdx : Nat) (reserve : Bool) : Nat → Prog Unit
  | 0 => .stuck
  | rounds + 1 => do
    let s ← Script.get
    let found ← Script.ofOption <| Table.findBlock s.gpaLinks (.head vfIdx) fun i =>
      (s.block i).vfIdx = vfIdx && (s.block i).applied
    match found with
    | none => return ()
    | some i =>
      let _ ← call (if reserve then .invalidateAndUnapplyPteb i else .unmapPteb i)
      unmapLoop vfIdx reserve rounds

def unmapByFcn (vfIdx : Nat) (reserve : Bool) (rounds : Nat) : Prog Unit := do
  let s ← Script.get
  if !s.enabled then return ()
  unmapLoop vfIdx reserve rounds

/-- Apply the blocks of one list that are mapped and not applied; the last answer of
the hook is the result. -/
def applyEntries : List Nat → Resp → Prog Resp
  | [], ret => .done ret
  | i :: rest, ret => do
    let s ← Script.get
    if ((s.block i).type = .vf || (s.block i).type = .tmr) && !(s.block i).applied then
      let ret ← call (.applyPteb i)
      applyEntries rest ret
    else applyEntries rest ret

/-- The guest lists from the function `vfIdx` on. -/
def applyGpaLists : Nat → Nat → Resp → Prog Resp
  | 0, _, ret => .done ret
  | count + 1, vfIdx, ret => do
    let s ← Script.get
    let list ← Script.ofOption (Table.entries s.gpaLinks (.head vfIdx))
    let ret ← applyEntries list ret
    applyGpaLists count (vfIdx + 1) ret

def applyPageTable : Prog Resp := do
  let s ← Script.get
  if !s.enabled then return .success
  let list ← Script.ofOption (Table.entries s.spaLinks spaHead)
  let ret ← applyEntries list .success
  applyGpaLists s.numVf 0 ret

/-- The loop of `amdgv_ffbm_map`; `size_left` is signed. -/
def mapLoop (vfIdx : Nat) (permission : BitVec 8) : Nat → Addr → Addr → Prog Resp
  | 0, _, _ => .stuck
  | rounds + 1, gpaStart, sizeLeft =>
    if sizeLeft.toInt ≤ 0 then .done .success
    else .act (.mapEmpty vfIdx gpaStart sizeLeft permission) fun
      | .mapped (some size) =>
        mapLoop vfIdx permission rounds (gpaStart + size) (sizeLeft - size)
      | .mapped none => .done .errorNoMem
      | .code resp => .done resp

/-- `amdgv_ffbm_map`. -/
def map (vfIdx : Nat) (gpa size : Addr) (permission : BitVec 8) (type : MemType)
    (rounds : Nat) : Prog Resp := do
  let s ← Script.get
  if size < pageSize s.defaultFragment then return .errorBadAddr
  if type = .vf && size < vfMinMapSize && gpa ≠ 0 then return .errorBadAddr
  if type ≠ .vf then return .errorBadAddr
  mapLoop vfIdx permission rounds gpa size

/-- The loop of `amdgv_ffbm_replace_bad_pages`; it ends at the first failure. -/
def replacePages : List Addr → Prog Resp
  | [] => .done .success
  | spa :: rest => do
    let ret ← call (.replacePage spa)
    if ret ≠ .success then return ret
    replacePages rest

/-- `amdgv_ffbm_replace_bad_pages`, given the addresses of the retired pages. -/
def replaceBadPages (pages : List Addr) : Prog Resp := do
  let ret ← replacePages pages
  if ret ≠ .success then return ret
  applyPageTable

structure FbSettings where
  fbOffset : BitVec 32
  fbSize : BitVec 32
  fbSizeTmr : BitVec 32

/-- The physical function's part of `amdgv_ffbm_page_table_update_by_fcn`. -/
def updatePf (fb : FbSettings) : Prog Resp := do
  let s ← Script.get
  let offset := fb.fbOffset.setWidth 64
  let tmrSize := s.tmrSize.setWidth 64
  let _ ← call (.unmapBySpa (mbytesToBytes offset))
  let _ ← call (.unmapBySpa (mbytesToBytes (fbTmrOffset + tmrSize)))
  let _ ← call (.manualMap
    { vfIdx := pfIdx
      size := mbytesToBytes (fbTmrOffset - offset)
      gpa := mbytesToBytes offset
      spa := mbytesToBytes offset
      permission := 0
      type := .pf })
  call (.manualMap
    { vfIdx := pfIdx
      size := mbytesToBytes (fb.fbSize.setWidth 64 - tmrSize - fbTmrOffset + offset)
      gpa := mbytesToBytes (fbTmrOffset + tmrSize)
      spa := mbytesToBytes (fbTmrOffset + tmrSize)
      permission := 0
      type := .pf })

/-- A virtual function's part of `amdgv_ffbm_page_table_update_by_fcn`. -/
def updateVf (fb : FbSettings) (vfIdx rounds : Nat) : Prog Resp := do
  let s ← Script.get
  let fbSize := if s.shareTmr then fb.fbSizeTmr else fb.fbSize
  let tmrSize := s.tmrSize.setWidth 64
  if 0 < fbSize then
    let _ ← call (.manualMap
      { vfIdx := vfIdx
        size := mbytesToBytes tmrSize
        gpa := mbytesToBytes fbTmrOffset
        spa := mbytesToBytes fbTmrOffset
        permission := permRw
        type := .tmr })
    let _ ← map vfIdx 0 (mbytesToBytes fbTmrOffset) permRw .vf rounds
    let ret ← map vfIdx (mbytesToBytes (fbTmrOffset + tmrSize))
      (mbytesToBytes (fb.fbSize.setWidth 64 - fbTmrOffset)) permRw .vf rounds
    let _ ← applyPageTable
    return ret
  else
    let _ ← applyPageTable
    return .success

def pageTableUpdateByFcn (fb : FbSettings) (vfIdx rounds : Nat) : Prog Resp := do
  let s ← Script.get
  if !s.enabled then return .success
  if vfIdx = pfIdx then updatePf fb else updateVf fb vfIdx rounds

/-- Step 3 of `amdgv_ffbm_page_table_init`: `count` more pages are held back below the
ones held back before. -/
def reservePages (topSize : Addr) : Nat → Nat → Prog Unit
  | 0, _ => .done ()
  | count + 1, i => do
    let s ← Script.get
    let page := pageSize s.defaultFragment
    let resvTopOffset := topSize + page * (BitVec.ofNat 64 (i + 1))
    let _ ← call (.manualMap
      { vfIdx := s.invalidIdxVf
        size := page
        gpa := invalidAddr
        spa := s.totalPhysicalSize - resvTopOffset
        permission := 0
        type := .reserved })
    let _ ← call (.takeUsable ((page >>> 20).setWidth 32))
    reservePages topSize count (i + 1)

/-- Steps 2 to 4 of `amdgv_ffbm_page_table_init`. -/
def initialMaps (allocatedTmrSize : BitVec 32) : Prog Resp := do
  let s ← Script.get
  let topSize := s.totalPhysicalSize - mbytesToBytes (s.totalFbUsable.setWidth 64)
  let _ ← call (.manualMap
    { vfIdx := s.invalidIdxVf
      size := topSize
      gpa := invalidAddr
      spa := s.totalPhysicalSize - topSize
      permission := 0
      type := .pf })
  reservePages topSize s.maxReservedBlock 0
  let _ ← call (.manualMap
    { vfIdx := pfIdx
      size := allocatedTmrSize.setWidth 64
      gpa := mbytesToBytes fbTmrOffset
      spa := mbytesToBytes fbTmrOffset
      permission := 0
      type := .tmr })
  return .success

def pageTableInit (allocatedTmrSize : BitVec 32) : Prog Resp :=
  .act .setup fun _ => initialMaps allocatedTmrSize

/-- The calls on a page table that is set up. A call whose loop ends is described by
the rounds it takes. -/
inductive Call
  | manualMap (request : MapRequest)
  | map (vfIdx : Nat) (gpa size : Addr) (permission : BitVec 8) (type : MemType) (rounds : Nat)
  | pageTableUpdateByFcn (fb : FbSettings) (vfIdx rounds : Nat)
  | unmapBySpa (spa : Addr)
  | unmapByFcn (vfIdx : Nat) (reserve : Bool) (rounds : Nat)
  | replaceBadPages (pages : List Addr)
  | applyPageTable

def Call.prog : Call → Prog Resp
  | .manualMap request => call (.manualMap request)
  | .map vfIdx gpa size permission type rounds => Ffbm.map vfIdx gpa size permission type rounds
  | .pageTableUpdateByFcn fb vfIdx rounds => Ffbm.pageTableUpdateByFcn fb vfIdx rounds
  | .unmapBySpa spa => call (.unmapBySpa spa)
  | .unmapByFcn vfIdx reserve rounds =>
    (Ffbm.unmapByFcn vfIdx reserve rounds).bind fun _ => .done .success
  | .replaceBadPages pages => Ffbm.replaceBadPages pages
  | .applyPageTable => Ffbm.applyPageTable

def Call.Returns (s : Table) (call : Call) (s' : Table) : Prop :=
  ∃ resp, call.prog.exec Table.step s = some (s', resp)

/-- Every operation of a call meets a condition where it is performed. -/
def Call.Meets (ok : Table → Op → Prop) (s : Table) (call : Call) : Prop :=
  call.prog.Meets Table.step ok s

/-- A page table that `page_table_init` made after `sw_init`, every operation of it
under a condition. -/
def Initialised (ok : Table → Op → Prop) (s : Table) : Prop :=
  ∃ (s₀ : Table) (allocatedTmrSize : BitVec 32) (resp : Resp),
    (pageTableInit allocatedTmrSize).exec Table.step s₀.swInit = some (s, resp) ∧
    (pageTableInit allocatedTmrSize).Meets Table.step ok s₀.swInit

end MxGpu.Ffbm
