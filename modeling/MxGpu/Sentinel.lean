import MxGpu.Transition
import MxGpu.ByteStore
import MxGpu.FreeBits

/- The memory sentinel of the shim (`gim_memory_sentinel.c`): the tables of monitored blocks, the
allocators and the frees over them, and the check of all entries. Addresses are numbers; blocks do
not wrap around, and no size comes near 2^64, as no machine has that much memory. -/
namespace MxGpu.Sentinel

open Transition ByteStore FreeBits Function

def pageSize : Nat := 4096

/-- `GIM_MEMORY_SENTINEL_TABLE_COL`, and the same number of rows and of tables. -/
def tableCol : Nat := 64
def tableRow : Nat := 64
def tableMax : Nat := 64

def entryIndexMax : Nat := 262144

def defaultTableSize : Nat := 4

/-- `sizeof(struct gim_memory_sentinel_malloc_header)`. -/
def headerSize : Nat := 8

/-- The limit of the `kmalloc` family, `PAGE_SIZE << GIM_MEMORY_SENTINEL_ALLOC_MAX_ORDER`. -/
def kmallocMax : Nat := pageSize * 2048

inductive AllocType where
  | normal
  | pageAlign
  deriving DecidableEq

/-- `struct gim_memory_sentinel_entry`; a pointer is 0 for none. -/
structure Entry where
  pointer : Nat
  allocFuncSymbol : BitVec 64
  type : AllocType
  size : Nat
  deriving DecidableEq

/-- What the `memset` leaves. -/
def Entry.zero : Entry := ⟨0, 0, .normal, 0⟩

structure Table where
  rowBitmap : BitVec 64
  colBitmap : Nat → BitVec 64
  entries : Nat → Entry

structure Manager where
  tableBitmap : BitVec 64
  tables : Nat → Table
  tablesCount : Nat

/-- `gim_memory_sentinel_table_new`. -/
def newTable : Table := ⟨BitVec.allOnes 64, fun _ => BitVec.allOnes 64, fun _ => .zero⟩

/-- `gim_memroy_sentinel_extend_table`, with its allocation succeeding. -/
def Manager.extendTable (msm : Manager) : Manager :=
  if tableMax ≤ msm.tablesCount then msm
  else
    { tableBitmap := setBit msm.tablesCount msm.tableBitmap
      tables := update msm.tables msm.tablesCount newTable
      tablesCount := msm.tablesCount + 1 }

/-- The manager that `__gim_memory_sentinel_init` makes. -/
def initManager : Manager :=
  Manager.extendTable^[defaultTableSize] ⟨0, fun _ => newTable, 0⟩

/-- `__gim_memory_sentinel_insert_entry`: the new tables, and the index of the entry in them. -/
def Manager.insertEntry (msm : Manager) (pointer : Nat) (allocFuncSymbol : BitVec 64) (size : Nat)
    (type : AllocType) : Manager × Nat :=
  if msm.tableBitmap = 0 then (msm, entryIndexMax + 1)
  else
    let tableIndex := ffs msm.tableBitmap
    let table := msm.tables tableIndex
    let i := ffs table.rowBitmap
    let j := ffs (table.colBitmap i)
    let entryIndex := i * tableCol + j
    let entry : Entry := ⟨pointer, allocFuncSymbol, type, size % 2 ^ 32⟩
    let col := clearIf true j (table.colBitmap i)
    let row := clearIf (col = 0) i table.rowBitmap
    let table : Table :=
      { rowBitmap := row
        colBitmap := update table.colBitmap i col
        entries := update table.entries entryIndex entry }
    ({ msm with
        tables := update msm.tables tableIndex table
        tableBitmap := clearIf (row = 0) tableIndex msm.tableBitmap },
      entryIndex + tableIndex * (tableRow * tableCol))

def Manager.getEntryByIndex (msm : Manager) (index : Nat) : Option Entry :=
  if entryIndexMax ≤ index then none
  else
    let tableIndex := index / (tableRow * tableCol) % tableMax
    if msm.tablesCount ≤ tableIndex then none
    else some ((msm.tables tableIndex).entries (index % (tableRow * tableCol)))

/-- `__gim_memory_sentinel_remove_entry` with `internal_remove`. -/
def Manager.removeEntry (msm : Manager) (index : Nat) : Manager :=
  if entryIndexMax ≤ index then msm
  else
    let tableIndex := index / (tableRow * tableCol) % tableMax
    if msm.tablesCount ≤ tableIndex then msm
    else
      let table := msm.tables tableIndex
      let entryIndex := index % (tableRow * tableCol)
      let i := entryIndex / tableCol % tableRow
      let j := entryIndex % tableCol
      let table : Table :=
        { rowBitmap := setBit i table.rowBitmap
          colBitmap := update table.colBitmap i (setBit j (table.colBitmap i))
          entries := update table.entries entryIndex .zero }
      { msm with
        tables := update msm.tables tableIndex table
        tableBitmap := setBit tableIndex msm.tableBitmap }

/-- What the sentinel asks of the kernel around it. -/
structure Kernel where
  virtAddrValid : Nat → Bool
  isVmallocRange : Nat → Bool
  totalRam : Nat
  -- an address of the linear mapping is none of `vmalloc`, and the first page is neither
  apart : ∀ a, isVmallocRange a = true → virtAddrValid a = false
  nullPage : ∀ a < 4096, virtAddrValid a = false ∧ isVmallocRange a = false

/-- A block that the kernel has given out, `virtual` from `vmalloc`. -/
structure Block where
  ptr : Nat
  total : Nat
  virtual : Bool

def Block.Apart (b c : Block) : Prop := b.ptr + b.total ≤ c.ptr ∨ c.ptr + c.total ≤ b.ptr

/-- The kernel may give out the block while it has given out the others. -/
structure Kernel.Gives (kernel : Kernel) (blocks : List Block) (b : Block) : Prop where
  apart : ∀ c ∈ blocks, b.Apart c
  addresses : ∀ a, b.ptr ≤ a → a < b.ptr + b.total →
    if b.virtual then kernel.isVmallocRange a = true else kernel.virtAddrValid a = true

inductive Request where
  | kmalloc (size : Nat)
  | kzalloc (size : Nat)
  | kmallocArray (n size : Nat)
  | vmalloc (size : Nat)
  | vzalloc (size : Nat)

def Request.bytes (kernel : Kernel) : Request → Option Nat
  | .kmalloc size => if kmallocMax < size then none else some size
  | .kzalloc size => if kmallocMax < size then none else some size
  | .kmallocArray n size =>
    if 2 ^ 64 ≤ n * size then none
    else if kmallocMax < n * size then none
    else some (n * size)
  | .vmalloc size => if kernel.totalRam < size then none else some size
  | .vzalloc size => if kernel.totalRam < size then none else some size

def Request.zeroing : Request → Bool
  | .kzalloc _ => true
  | .vzalloc _ => true
  | _ => false

def Request.virtual : Request → Bool
  | .vmalloc _ => true
  | .vzalloc _ => true
  | _ => false

def allocType (size : Nat) : AllocType :=
  if size % pageSize ≠ 0 ∨ size = 0 then .normal else .pageAlign

def AllocType.totalSize : AllocType → Nat → Nat
  | .normal, size => headerSize + size + 8
  | .pageAlign, size => pageSize + size + pageSize

def AllocType.header : AllocType → Nat → Nat
  | .normal, ptr => ptr
  | .pageAlign, ptr => ptr + pageSize - headerSize

def AllocType.rear : AllocType → Nat → Nat → Nat
  | .normal, ptr, size => ptr + (headerSize + size + 8) - 8
  | .pageAlign, ptr, size => ptr + pageSize + size

def AllocType.retPtr : AllocType → Nat → Nat
  | .normal, ptr => ptr + headerSize
  | .pageAlign, ptr => ptr + pageSize

def AllocType.allocPtr : AllocType → Nat → Nat
  | .normal, p => p - headerSize
  | .pageAlign, p => p - pageSize

def AllocType.entryRear : AllocType → Nat → Nat → Nat
  | .normal, ptr, size => ptr + size - 8
  | .pageAlign, ptr, size => ptr + size - pageSize

/-- `gim_sentinel_malloc_helper`: the tables, the memory, and the pointer for the caller. -/
def mallocHelper (msm : Manager) (mem : Store) (ptr size : Nat) (allocFuncSymbol : BitVec 64)
    (type : AllocType) : Manager × Store × Nat :=
  let totalSize := type.totalSize size
  let mem := write mem (type.header ptr) (leBytes 4 totalSize)
  let mem := write mem (type.rear ptr size) (leBytes 8 allocFuncSymbol.toNat)
  let (msm, index) := msm.insertEntry ptr allocFuncSymbol totalSize type
  if entryIndexMax ≤ index then (msm, mem, ptr)
  else (msm, write mem (type.header ptr + 4) (leBytes 4 index), type.retPtr ptr)

/-- The frees that the shim replaces, and those of the kernel. -/
inductive FreeFn where
  | kfree
  | vfree
  | kfreeSensitive
  deriving DecidableEq

def FreeFn.virtual : FreeFn → Bool
  | .vfree => true
  | _ => false

/-- The warnings: a broken header, a write behind the buffer, a block that nobody has freed, a free
of no address, and a free of a block that the search in the tables has found. -/
inductive Report where
  | headerBroken (ptr : Nat)
  | writeOverflow (ptr : Nat)
  | memleak (ptr : Nat)
  | invalidAddress (ptr : Nat)
  | headerMayBroken (ptr : Nat)

/-- An allocation that its caller has not freed: what it was given, and the entry for it. -/
structure Live where
  block : Block
  user : Nat
  size : Nat
  allocFuncSymbol : BitVec 64
  index : Option Nat

/-- The tables and the memory, with the blocks of the kernel, the allocations of the callers, the
calls of the kernel's frees and the warnings so far. -/
structure State where
  msm : Manager
  mem : Store
  blocks : List Block
  live : List Live
  released : List (FreeFn × Nat)
  reports : List Report

def fill (b : Block) (zeroing : Bool) (fresh mem : Store) : Store := fun a =>
  if b.ptr ≤ a ∧ a < b.ptr + b.total then if zeroing then 0 else fresh a else mem a

/-- `gim_sentinel_kmalloc` and its siblings; the kernel's allocator gives `ptr`. -/
def State.alloc (kernel : Kernel) (s : State) (request : Request) (allocFuncSymbol : BitVec 64)
    (ptr : Option Nat) (fresh : Store) : State × Option Nat :=
  match request.bytes kernel, ptr with
  | some size, some ptr =>
    let type := allocType size
    let block : Block := ⟨ptr, type.totalSize size, request.virtual⟩
    let mem := fill block request.zeroing fresh s.mem
    let (msm, mem, user) := mallocHelper s.msm mem ptr size allocFuncSymbol type
    let index := (s.msm.insertEntry ptr allocFuncSymbol block.total type).2
    ({ s with
        msm
        mem
        blocks := block :: s.blocks
        live := ⟨block, user, size, allocFuncSymbol,
          if entryIndexMax ≤ index then none else some index⟩ :: s.live },
      some user)
  | _, _ => (s, none)

def State.release (s : State) (fn : FreeFn) (ptr : Nat) : State :=
  { s with
    blocks := s.blocks.filter fun b => b.ptr ≠ ptr
    released := s.released ++ [(fn, ptr)] }

def State.report (s : State) (report : Report) : State :=
  { s with reports := s.reports ++ [report] }

def Kernel.freeFn (kernel : Kernel) (p : Nat) : Option FreeFn :=
  if kernel.virtAddrValid p then some .kfree
  else if kernel.isVmallocRange p then some .vfree
  else none

/-- One entry in the loops of `gim_memory_sentinel_free_by_checktable`. -/
def checktableEntry (kernel : Kernel) (p tableIndex row col : Nat) (st : State × Bool) :
    State × Bool :=
  let (s, finished) := st
  let table := s.msm.tables tableIndex
  if table.colBitmap row &&& ((1#64) <<< col) = 1 then (s, finished)
  else
    let entryIndex := row * tableCol + col
    let entry := table.entries entryIndex
    if p = entry.type.retPtr entry.pointer then
      let (s, finished) :=
        match kernel.freeFn entry.pointer with
        | some fn => ((s.report (.headerMayBroken p)).release fn entry.pointer, true)
        | none => (s, finished)
      ({ s with msm := s.msm.removeEntry entryIndex }, finished)
    else (s, finished)

def checktableRow (kernel : Kernel) (p tableIndex : Nat) (st : State × Bool) (row : Nat) :
    State × Bool :=
  if (st.1.msm.tables tableIndex).colBitmap row = BitVec.allOnes 64 then st
  else (List.range tableCol).foldl (fun st col => checktableEntry kernel p tableIndex row col st) st

def checktableTable (kernel : Kernel) (p : Nat) (st : State × Bool) (tableIndex : Nat) :
    State × Bool :=
  if st.2 then st else (List.range tableRow).foldl (checktableRow kernel p tableIndex) st

def State.freeByChecktable (kernel : Kernel) (s : State) (p : Nat) : State :=
  let (s, finished) := (List.range s.msm.tablesCount).foldl (checktableTable kernel p) (s, false)
  if finished then s
  else
    match kernel.freeFn p with
    | some fn => s.release fn p
    | none => s.report (.invalidAddress p)

/-- `gim_sentinel_free_helper`, with what the probe of the header says. -/
def State.freeHelper (kernel : Kernel) (s : State) (p : Nat) (accessible : Bool) :
    State × Option Nat :=
  if p = 0 then (s, none)
  else if !kernel.virtAddrValid p && !kernel.isVmallocRange p then
    (s.report (.invalidAddress p), none)
  else
    let header := p - headerSize
    let size := ofLe (read s.mem header 4)
    let index := ofLe (read s.mem (header + 4) 4)
    if !accessible then (s.freeByChecktable kernel p, none)
    else
      match s.msm.getEntryByIndex index with
      | none => (s.freeByChecktable kernel p, none)
      | some entry =>
        if size ≠ entry.size then (s.freeByChecktable kernel p, none)
        else
          let allocPtr := entry.type.allocPtr p
          let rear := entry.type.entryRear allocPtr entry.size
          if allocPtr ≠ entry.pointer then (s.freeByChecktable kernel p, none)
          else
            let s :=
              if entry.allocFuncSymbol.toNat ≠ ofLe (read s.mem rear 8) then
                s.report (.writeOverflow p)
              else s
            ({ s with msm := s.msm.removeEntry index }, some allocPtr)

/-- `gim_sentinel_kfree`, `gim_sentinel_vfree` and `gim_sentinel_secure_kfree`. -/
def State.free (kernel : Kernel) (s : State) (fn : FreeFn) (p : Nat) (accessible : Bool) : State :=
  let (s, allocPtr) := s.freeHelper kernel p accessible
  let s := { s with live := s.live.filter fun a => a.user ≠ p }
  match allocPtr with
  | some allocPtr => s.release fn allocPtr
  | none => s

/-- `gim_memory_sentinel_table_entry_check_overflow`; the two layouts differ in where the header and
the mark behind the buffer are. -/
def checkOverflow (mem : Store) (entry : Entry) (index : Nat) : List Report :=
  if entry.pointer = 0 then []
  else
    let header := entry.type.header entry.pointer
    let rear := entry.type.entryRear entry.pointer entry.size
    (if ofLe (read mem header 4) ≠ entry.size ∨ ofLe (read mem (header + 4) 4) ≠ index then
      [.headerBroken entry.pointer] else []) ++
    (if entry.allocFuncSymbol.toNat ≠ ofLe (read mem rear 8) then
      [.writeOverflow entry.pointer] else [])

def checkMemleak (entry : Entry) : List Report :=
  if entry.pointer = 0 then [] else [.memleak entry.pointer]

/-- The loops over the rows and columns of a table, for the entries that they do not skip. -/
def Table.visit {α : Type} (table : Table) (found : Entry → Nat → α) : List α :=
  (List.range tableRow).flatMap fun row =>
    if table.colBitmap row = BitVec.allOnes 64 then []
    else
      (List.range tableCol).flatMap fun col =>
        if table.colBitmap row &&& ((1#64) <<< col) = 1 then []
        else [found (table.entries (row * tableCol + col)) (row * tableCol + col)]

/-- `__gim_sentinel_check_memory_overflow`: what it warns of at each entry. -/
def State.overflows (s : State) : List (List Report) :=
  (List.range s.msm.tablesCount).flatMap fun tableIndex =>
    (s.msm.tables tableIndex).visit (checkOverflow s.mem)

def State.overflowCnt (s : State) : Nat := s.overflows.countP fun found => !found.isEmpty

/-- What `gim_memory_sentinel_table_free` warns of for all tables at the end. -/
def State.finiReports (s : State) : List Report :=
  ((List.range s.msm.tablesCount).flatMap fun tableIndex =>
    (s.msm.tables tableIndex).visit fun entry index =>
      checkOverflow s.mem entry index ++ checkMemleak entry).flatten

/-- An allocation or a free, a byte that a caller writes, what the rest of the kernel does to the
memory, and the check. -/
inductive Label where
  | alloc (request : Request) (allocFuncSymbol : BitVec 64) (ptr : Option Nat) (fresh : Store)
  | free (fn : FreeFn) (p : Nat) (accessible : Bool)
  | write (addr : Nat) (byte : UInt8)
  | rest (mem : Store)
  | check

/-- The callers write into their own buffers and free each pointer once, with the free of its
family; the kernel gives blocks that nobody has, and the header of a block is accessible. -/
def Step (kernel : Kernel) (s : State) (label : Label) (t : State) : Prop :=
  match label with
  | .alloc request allocFuncSymbol ptr fresh =>
    (∀ size p, request.bytes kernel = some size → ptr = some p →
      kernel.Gives s.blocks ⟨p, (allocType size).totalSize size, request.virtual⟩) ∧
    t = (s.alloc kernel request allocFuncSymbol ptr fresh).1
  | .free fn p accessible =>
    (p = 0 ∨ ∃ a ∈ s.live, a.user = p ∧ a.block.virtual = fn.virtual) ∧
    ((∃ b ∈ s.blocks, b.ptr ≤ p - headerSize ∧ p ≤ b.ptr + b.total) → accessible = true) ∧
    t = s.free kernel fn p accessible
  | .write addr byte =>
    (∃ a ∈ s.live, a.user ≤ addr ∧ addr < a.user + a.size) ∧
    t = { s with mem := update s.mem addr byte }
  | .rest mem =>
    (∀ b ∈ s.blocks, ∀ a, b.ptr ≤ a → a < b.ptr + b.total → mem a = s.mem a) ∧
    t = { s with mem }
  | .check => t = { s with reports := s.reports ++ s.overflows.flatten }

def Initial (s : State) : Prop := ∃ mem, s = ⟨initManager, mem, [], [], [], []⟩

end MxGpu.Sentinel
