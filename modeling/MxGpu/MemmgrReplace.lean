import MxGpu.MemmgrUp
import MxGpu.PageRange

/- Bad pages in the frame buffer of the host that are in use: `amdgv_umc_replace_bad_pages`
reserves them and gives their owners other memory. -/
namespace MxGpu.Fb

open AlignUp Tiling Transition

/-- An allocation that `amdgv_memmgr_find_mem_at_offset` looks for. -/
def Overlaps (mem : Mem) (offset size : Addr) : Prop :=
  mem.len ≠ 0 ∧ offset < mem.allocOff ∧ mem.allocOff - mem.len < offset + size

instance (mem : Mem) (offset size : Addr) : Decidable (Overlaps mem offset size) :=
  inferInstanceAs (Decidable (_ ∧ _))

/-- `amdgv_memmgr_find_mem_at_offset`, between the entries before and after it. -/
def findMemAtOffset (offset size : Addr) : List Mem → Option (List Mem × Mem × List Mem)
  | [] => none
  | alloc :: rest =>
    if Overlaps alloc offset size then some ([], alloc, rest)
    else
      (findMemAtOffset offset size rest).map fun (before, mem, after) =>
        (alloc :: before, mem, after)

/-- An entry is moved out of the list, and the top of memory with the last one. -/
def Memmgr.moveOut (memmgr : Memmgr) (before after : List Mem) : Memmgr :=
  { memmgr with
    allocs := before ++ after
    tom := if after = [] then endOf memmgr.headOff before else memmgr.tom }

/-- The loop of `amdgv_umc_replace_bad_pages` over the entries that overlap a bad page:
`list_tmp` in front of `moved`, and the bad-page entry that ends it. Every turn but the last
one takes an entry from the list. -/
def moveOverlapping (errAddr : Addr) :
    Nat → Memmgr → List Mem → Memmgr × List Mem × Option Mem
  | 0, memmgr, moved => (memmgr, moved, none)
  | turns + 1, memmgr, moved =>
    match findMemAtOffset errAddr gpuPageSize memmgr.allocs with
    | none => (memmgr, moved, none)
    | some (before, old, after) =>
      if old.tag.id = memEccBadPage then (memmgr, moved, some old)
      else moveOverlapping errAddr turns (memmgr.moveOut before after) (old :: moved)

/-- `data->bps[i].retired_page` and `data->bps_mem[i]`, and what reserving the page meets. -/
structure BadPage where
  retiredPage : Addr
  mem : Option Nat
  env : Env

def BadPage.errAddr (bad : BadPage) : Addr := bad.retiredPage <<< 12

def BadPage.InRange (bad : BadPage) (memmgr : Memmgr) : Prop :=
  isBpInRange bad.errAddr memmgr.offset memmgr.size

instance (bad : BadPage) (memmgr : Memmgr) : Decidable (bad.InRange memmgr) :=
  inferInstanceAs (Decidable (isBpInRange _ _ _))

/-- One turn over the bad pages: the manager, `list_tmp` and the page with its entry. -/
def reserveTurn (s : Adapt) (moved : List Mem) (bad : BadPage) : Adapt × List Mem × BadPage :=
  if bad.InRange s.memmgr ∧ bad.mem = none then
    match moveOverlapping bad.errAddr (s.memmgr.allocs.length + 1) s.memmgr moved with
    | (memmgr, moved, some old) => ({ s with memmgr }, moved, { bad with mem := some old.handle })
    | (memmgr, moved, none) =>
      let (s, new) :=
        { s with memmgr }.allocAlignAt bad.env bad.errAddr gpuPageSize memEccBadPage
      (s, moved, { bad with mem := new.map Mem.handle })
  else (s, moved, bad)

def reserveTurns : List BadPage → Adapt → List Mem → Adapt × List Mem × List BadPage
  | [], s, moved => (s, moved, [])
  | bad :: rest, s, moved =>
    let (s, moved, bad) := reserveTurn s moved bad
    let (s, moved, rest) := reserveTurns rest s moved
    (s, moved, bad :: rest)

/-- `amdgv_memmgr_alloc_and_replace` of an entry of `list_tmp`. The new entry goes to the list
in its place and is freed there. -/
def Adapt.replaceMoved (s : Adapt) (env : Env) (memOld : Mem) : Adapt × Bool :=
  match s.allocAlign env memOld.len memOld.align memEccBadPage with
  | (s, none) => (s, false)
  | (s, some memNew) =>
    let memmgr := { s.memmgr with
      allocs := s.memmgr.allocs.map (exchange memOld memNew)
      reserves := s.memmgr.reserves.map (exchange memOld memNew) }
    ({ s with memmgr }, true)

/-- The loop over `list_tmp`; `env` is what replacing an entry meets. What is left in the list
is freed. -/
def replaceTurns (env : Nat → Env) : List Mem → Adapt → Adapt × Bool
  | [], s => (s, true)
  | alloc :: rest, s =>
    if alloc.len = 0 then replaceTurns env rest s
    else match s.replaceMoved (env alloc.handle) alloc with
      | (s, false) => (s, false)
      | (s, true) => replaceTurns env rest s

/-- What `amdgv_umc_replace_bad_pages` finds: whether the GPU is bad, how many records there
can be (`BAD_PAGE_RECORD_THRESHOLD`), and the bad pages. -/
structure Replacing where
  gpuBad : Bool
  recordThreshold : Nat
  pages : List BadPage
  env : Nat → Env

/-- The pages that are looked at: `resv_count` of them. -/
def Replacing.reserved (call : Replacing) : List BadPage :=
  if call.gpuBad then [] else call.pages.take call.recordThreshold

/-- `amdgv_umc_replace_bad_pages`: what it leaves, and whether it returns 0. -/
def Adapt.replaceBadPages (s : Adapt) (call : Replacing) : Adapt × Bool :=
  let (s, moved, _) := reserveTurns call.reserved s []
  replaceTurns call.env moved s

def Mem.HasPage (mem : Mem) (errAddr : Addr) : Prop :=
  mem.start ≤ errAddr.toNat ∧ errAddr.toNat + gpuPageSize.toNat ≤ mem.allocOff.toNat

def Reserved (memmgr : Memmgr) (errAddr : Addr) : Prop :=
  ∃ mem ∈ memmgr.allocs, mem.tag.id = memEccBadPage ∧ mem.HasPage errAddr

structure Replaced (s : Adapt) (call : Replacing) (after : Adapt) : Prop where
  reserved : ∀ bad ∈ call.pages, bad.InRange s.memmgr → Reserved after.memmgr bad.errAddr
  apart : ∀ bad ∈ call.pages, bad.InRange s.memmgr → ∀ mem ∈ after.memmgr.allocs,
    mem.tag.id ≠ memEccBadPage → ∀ x, bad.errAddr.toNat ≤ x →
      x < bad.errAddr.toNat + gpuPageSize.toNat → ¬mem.Covers x
  kept : ∀ mem ∈ s.memmgr.allocs, ∃ mem' ∈ after.memmgr.allocs,
    mem'.handle = mem.handle ∧ mem'.tag = mem.tag ∧ mem'.len = mem.len
  row : Row after.memmgr

/-- The handles that were given out name allocations, and no two the same one. -/
structure HandlesValid (s after : Adapt) : Prop where
  live : ∀ mem ∈ s.memmgr.allocs, ∃ mem' ∈ after.memmgr.allocs, mem'.handle = mem.handle
  single : (after.memmgr.allocs.map Mem.handle).Nodup

def ReplaceSound (s : Adapt) (call : Replacing) : Prop :=
  if (s.replaceBadPages call).2 then Replaced s call (s.replaceBadPages call).1
  else HandlesValid s (s.replaceBadPages call).1

def Numbers (s : Adapt) : Prop :=
  ∃ mems tag, memIdAdd s.mems memEccBadPage = (mems, some tag)

/-- What reserving a page needs. One that has an entry is in it; a bad-page block that overlaps
it has all of it; and without one the page is below 4 GiB, there is memory and an index, and no
allocation without length is inside. -/
structure PageMeets (s : Adapt) (bad : BadPage) : Prop where
  known : bad.mem ≠ none → Reserved s.memmgr bad.errAddr
  whole : bad.mem = none → ∀ mem ∈ s.memmgr.allocs, mem.tag.id = memEccBadPage →
    Overlaps mem bad.errAddr gpuPageSize → mem.HasPage bad.errAddr
  fresh : bad.mem = none → (∀ mem ∈ s.memmgr.allocs, mem.tag.id = memEccBadPage →
      ¬Overlaps mem bad.errAddr gpuPageSize) →
    bad.errAddr.toNat + 0xfff < 2 ^ 32 ∧ ¬bad.env.noMemory ∧ Numbers s ∧
      ∀ mem ∈ s.memmgr.allocs, mem.len = 0 →
        ¬(bad.errAddr < mem.allocOff ∧ mem.allocOff < bad.errAddr + gpuPageSize)

def TurnsMeet : List BadPage → Adapt → List Mem → Prop
  | [], _, _ => True
  | bad :: rest, s, moved =>
    (bad.InRange s.memmgr → PageMeets s bad) ∧
      TurnsMeet rest (reserveTurn s moved bad).1 (reserveTurn s moved bad).2.1

/-- What replacing an entry needs: the manager is past its deferred allocations, there are
memory and an index, no sum wraps, and there is a place. -/
structure EntryMeets (s : Adapt) (env : Env) (memOld : Mem) : Prop where
  now : ¬env.Defers
  memory : ¬env.noMemory
  numbers : Numbers s
  noWrap : NoWrap s.memmgr memOld.len memOld.align
  place : (s.memmgr.place memOld.len memOld.align (align64 · memOld.align)).isSome

def EntriesMeet (env : Nat → Env) : List Mem → Adapt → Prop
  | [], _ => True
  | alloc :: rest, s =>
    EntryMeets s (env alloc.handle) alloc ∧
      EntriesMeet env rest (s.replaceMoved (env alloc.handle) alloc).1

/-- What the call needs. Pages that it does not look at have their block already, or are
looked at in another place of the list. -/
structure ReplaceMeets (s : Adapt) (call : Replacing) : Prop where
  turns : TurnsMeet call.reserved s []
  others : ∀ bad ∈ call.pages, bad.InRange s.memmgr →
    (∃ same ∈ call.reserved, same.retiredPage = bad.retiredPage) ∨
      Reserved s.memmgr bad.errAddr
  entries : EntriesMeet call.env (reserveTurns call.reserved s []).2.1
    (reserveTurns call.reserved s []).1

/-- The manager of the frame buffer of the host, as `amdgv_memmgr_pf_init` leaves it. -/
def StartsPf (s : Adapt) : Prop :=
  ∃ mems nextMem offset size, s = init mems nextMem offset size 0 false

end MxGpu.Fb
