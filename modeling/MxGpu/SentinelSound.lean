import MxGpu.SentinelTables
import Mathlib.Data.List.Pairwise

/- What the sentinel promises the callers of its allocators, over all runs. -/
namespace MxGpu.Sentinel

open Transition ByteStore FreeBits AllocType

section Layout

variable {type : AllocType} {ptr size : Nat}

theorem AllocType.header_add : type.header ptr + 8 = type.retPtr ptr := by
  cases type
  · rfl
  · simp only [header, retPtr, pageSize, headerSize]
    omega

theorem AllocType.rear_eq : type.rear ptr size = type.retPtr ptr + size := by
  cases type
  · simp only [rear, retPtr, headerSize]
    omega
  · rfl

theorem AllocType.le_header : ptr ≤ type.header ptr := by
  cases type
  · exact Nat.le_refl ptr
  · simp only [header, pageSize, headerSize]
    omega

theorem AllocType.rear_le : type.retPtr ptr + size + 8 ≤ ptr + type.totalSize size := by
  cases type
  · simp only [retPtr, totalSize, headerSize]
    omega
  · simp only [retPtr, totalSize, pageSize]
    omega

theorem AllocType.allocPtr_retPtr : type.allocPtr (type.retPtr ptr) = ptr := by
  cases type
  · exact Nat.add_sub_cancel ptr headerSize
  · exact Nat.add_sub_cancel ptr pageSize

theorem AllocType.retPtr_allocPtr {p : Nat} (hp : 4096 ≤ p) :
    type.retPtr (type.allocPtr p) = p := by
  cases type
  · exact Nat.sub_add_cancel (Nat.le_trans (by decide) hp)
  · exact Nat.sub_add_cancel hp

theorem AllocType.entryRear_totalSize :
    type.entryRear ptr (type.totalSize size) = type.rear ptr size := by
  cases type
  · rfl
  · simp only [entryRear, totalSize, rear]
    omega

theorem AllocType.size_le : size + 16 ≤ type.totalSize size := by
  cases type
  · simp only [totalSize, headerSize]
    omega
  · simp only [totalSize, pageSize]
    omega

end Layout

def Live.type (a : Live) : AllocType := allocType a.size

/-- The entry of a monitored allocation, and the marks in its block. -/
structure Live.Monitored (s : State) (a : Live) (index : Nat) : Prop where
  user : a.user = a.type.retPtr a.block.ptr
  inside : index < s.msm.capacity
  entry : s.msm.entryAt index =
    ⟨a.block.ptr, a.allocFuncSymbol, a.type, a.block.total % 2 ^ 32⟩
  size : ofLe (read s.mem (a.type.header a.block.ptr) 4) = a.block.total % 2 ^ 32
  header : ofLe (read s.mem (a.type.header a.block.ptr + 4) 4) = index
  rear : ofLe (read s.mem (a.type.rear a.block.ptr a.size) 8) = a.allocFuncSymbol.toNat

structure Live.Fits (kernel : Kernel) (s : State) (a : Live) : Prop where
  total : a.block.total = a.type.totalSize a.size
  addresses : ∀ x, a.block.ptr ≤ x → x < a.block.ptr + a.block.total →
    if a.block.virtual then kernel.isVmallocRange x = true else kernel.virtAddrValid x = true
  raw : a.index = none → a.user = a.block.ptr
  monitored : ∀ index, a.index = some index → a.Monitored s index

/-- The allocations are those of the blocks and of the entries, and nothing has been reported. -/
structure Fits (kernel : Kernel) (s : State) : Prop where
  tables : s.msm.Fits
  live : ∀ a ∈ s.live, a.Fits kernel s
  entries : ∀ index < s.msm.capacity, (s.msm.entryAt index).pointer ≠ 0 →
    ∃ a ∈ s.live, a.index = some index
  blocks : s.blocks = s.live.map Live.block
  apart : s.live.Pairwise fun a b => a.block.Apart b.block
  reports : s.reports = []

section Allocations

variable {kernel : Kernel} {s t : State} {a b : Live}

theorem Live.Fits.inside (h : a.Fits kernel s) :
    a.block.ptr ≤ a.user ∧ a.user + a.size + 8 ≤ a.block.ptr + a.block.total := by
  have htotal := h.total
  cases hindex : a.index with
  | none =>
    have hraw := h.raw hindex
    have hsize := @size_le a.type a.size
    omega
  | some index =>
    have huser := (h.monitored index hindex).user
    have hheader := @le_header a.type a.block.ptr
    have hret := @header_add a.type a.block.ptr
    have hrear := @rear_le a.type a.block.ptr a.size
    omega

theorem Kernel.page_le {b : Block} (haddresses : ∀ x, b.ptr ≤ x → x < b.ptr + b.total →
      if b.virtual then kernel.isVmallocRange x = true else kernel.virtAddrValid x = true)
    (hpos : 0 < b.total) : 4096 ≤ b.ptr := by
  apply Nat.le_of_not_lt
  intro hlt
  have hnull := kernel.nullPage b.ptr hlt
  have haddr := haddresses b.ptr (Nat.le_refl _) (by omega)
  split at haddr
  case isTrue => exact Bool.false_ne_true (hnull.2.symm.trans haddr)
  case isFalse => exact Bool.false_ne_true (hnull.1.symm.trans haddr)

theorem Live.Fits.page_le (h : a.Fits kernel s) : 4096 ≤ a.block.ptr := by
  have hinside := h.inside
  exact kernel.page_le h.addresses (by omega)

theorem Live.Fits.freeFn (h : a.Fits kernel s) {x : Nat} (hlow : a.block.ptr ≤ x)
    (hhigh : x < a.block.ptr + a.block.total) :
    kernel.freeFn x = some (if a.block.virtual then .vfree else .kfree) := by
  have haddr := h.addresses x hlow hhigh
  rw [Kernel.freeFn]
  split at haddr
  case isTrue hvirtual =>
    simp [hvirtual, haddr, kernel.apart x haddr]
  case isFalse hvirtual =>
    simp [hvirtual, haddr]

theorem Live.Fits.valid (h : a.Fits kernel s) {x : Nat} (hlow : a.block.ptr ≤ x)
    (hhigh : x < a.block.ptr + a.block.total) :
    (!kernel.virtAddrValid x && !kernel.isVmallocRange x) = false := by
  have haddr := h.addresses x hlow hhigh
  split at haddr
  case isTrue => simp [haddr]
  case isFalse => simp [haddr]

theorem Live.Fits.frame (h : a.Fits kernel s) (hcapacity : t.msm.capacity = s.msm.capacity)
    (hentry : ∀ index, a.index = some index → t.msm.entryAt index = s.msm.entryAt index)
    (hmem : ∀ x, a.block.ptr ≤ x → x < a.block.ptr + a.block.total →
      (x < a.user ∨ a.user + a.size ≤ x) → t.mem x = s.mem x) : a.Fits kernel t := by
  refine ⟨h.total, h.addresses, h.raw, ?_⟩
  intro index hindex
  have hmonitored := h.monitored index hindex
  have hinside := h.inside
  have huser := hmonitored.user
  have hheader := @le_header a.type a.block.ptr
  have hret := @header_add a.type a.block.ptr
  have hrear := @rear_eq a.type a.block.ptr a.size
  constructor
  · exact huser
  · rw [hcapacity]
    exact hmonitored.inside
  · rw [hentry index hindex]
    exact hmonitored.entry
  · rw [← hmonitored.size]
    congr 1
    apply read_congr
    intro i hi
    apply hmem <;> omega
  · rw [← hmonitored.header]
    congr 1
    apply read_congr
    intro i hi
    apply hmem <;> omega
  · rw [← hmonitored.rear]
    congr 1
    apply read_congr
    intro i hi
    apply hmem <;> omega

theorem Fits.apart_of_ne (h : Fits kernel s) (ha : a ∈ s.live) (hb : b ∈ s.live) (hne : a ≠ b) :
    a.block.Apart b.block := by
  have hsymm : Std.Symm fun a b : Live => a.block.Apart b.block := ⟨fun _ _ hxy => hxy.symm⟩
  exact h.apart.forall ha hb hne

theorem Fits.eq_of_address (h : Fits kernel s) (ha : a ∈ s.live) (hb : b ∈ s.live) {x : Nat}
    (hax : a.block.ptr ≤ x ∧ x < a.block.ptr + a.block.total)
    (hbx : b.block.ptr ≤ x ∧ x < b.block.ptr + b.block.total) : a = b := by
  by_contra hne
  rcases h.apart_of_ne ha hb hne with hab | hba
  · omega
  · omega

theorem Fits.eq_of_user (h : Fits kernel s) (ha : a ∈ s.live) (hb : b ∈ s.live)
    (huser : a.user = b.user) : a = b := by
  have hain := (h.live a ha).inside
  have hbin := (h.live b hb).inside
  exact h.eq_of_address ha hb (x := a.user) (by omega) (by omega)

theorem Fits.entry_user (h : Fits kernel s) {index : Nat} (hindex : index < s.msm.capacity)
    (hpointer : (s.msm.entryAt index).pointer ≠ 0) : ∃ b ∈ s.live, b.index = some index ∧
      b.Monitored s index ∧
      (s.msm.entryAt index).type.retPtr (s.msm.entryAt index).pointer = b.user := by
  obtain ⟨b, hb, hsome⟩ := h.entries index hindex hpointer
  have hmonitored := (h.live b hb).monitored index hsome
  refine ⟨b, hb, hsome, hmonitored, ?_⟩
  rw [hmonitored.entry]
  exact hmonitored.user.symm

theorem Fits.not_entry (h : Fits kernel s) (ha : a ∈ s.live) (hraw : a.index = none)
    {index : Nat} (hindex : index < s.msm.capacity) :
    (s.msm.entryAt index).type.retPtr (s.msm.entryAt index).pointer ≠ a.user := by
  intro hsame
  by_cases hpointer : (s.msm.entryAt index).pointer = 0
  · have hlow := (h.live a ha).page_le
    have huser := (h.live a ha).raw hraw
    have hzero : s.msm.entryAt index = .zero := by
      have hlt := (h.tables.index_lt hindex).2.2
      exact (h.tables.tables _ hlt).free _ hpointer
    rw [hzero] at hsame
    have height : retPtr Entry.zero.type Entry.zero.pointer = 8 := rfl
    omega
  · obtain ⟨b, hb, hsome, -, huser⟩ := h.entry_user hindex hpointer
    have heq := h.eq_of_user hb ha (huser.symm.trans hsame)
    rw [heq, hraw] at hsome
    exact Option.some_ne_none index hsome.symm

end Allocations

section Alloc

variable {kernel : Kernel} {s : State} {msm : Manager} {mem : Store} {ptr size x : Nat}
  {allocFuncSymbol : BitVec 64} {type : AllocType}

theorem mallocHelper_full (hfull : msm.tableBitmap = 0) :
    mallocHelper msm mem ptr size allocFuncSymbol type =
      (msm, write (write mem (type.header ptr) (leBytes 4 (type.totalSize size)))
        (type.rear ptr size) (leBytes 8 allocFuncSymbol.toNat), ptr) := by
  rw [mallocHelper, Manager.insertEntry, if_pos hfull]
  rfl

theorem mallocHelper_entry {msm' : Manager} {index : Nat} (hindex : index < entryIndexMax)
    (hinsert : msm.insertEntry ptr allocFuncSymbol (type.totalSize size) type = (msm', index)) :
    mallocHelper msm mem ptr size allocFuncSymbol type =
      (msm', write (write (write mem (type.header ptr) (leBytes 4 (type.totalSize size)))
        (type.rear ptr size) (leBytes 8 allocFuncSymbol.toNat)) (type.header ptr + 4)
          (leBytes 4 index), type.retPtr ptr) := by
  rw [mallocHelper]
  simp only [hinsert]
  rw [if_neg (by omega)]

theorem mallocHelper_mem_outside (hx : x < ptr ∨ ptr + type.totalSize size ≤ x) :
    (mallocHelper msm mem ptr size allocFuncSymbol type).2.1 x = mem x := by
  have hheader := @le_header type ptr
  have hret := @header_add type ptr
  have hrear := @rear_eq type ptr size
  have hend := @rear_le type ptr size
  have hwrites : write (write mem (type.header ptr) (leBytes 4 (type.totalSize size)))
      (type.rear ptr size) (leBytes 8 allocFuncSymbol.toNat) x = mem x := by
    rw [write_outside (by rw [leBytes_length]; omega),
      write_outside (by rw [leBytes_length]; omega)]
  rw [mallocHelper]
  cases hinsert : msm.insertEntry ptr allocFuncSymbol (type.totalSize size) type with
  | mk msm' index =>
    dsimp only
    split
    case isTrue => exact hwrites
    case isFalse =>
      dsimp only
      rw [write_outside (by rw [leBytes_length]; omega)]
      exact hwrites

theorem mallocHelper_mem_buffer {msm' : Manager} {index : Nat} (hindex : index < entryIndexMax)
    (hinsert : msm.insertEntry ptr allocFuncSymbol (type.totalSize size) type = (msm', index))
    (hx : type.retPtr ptr ≤ x ∧ x < type.retPtr ptr + size) :
    (mallocHelper msm mem ptr size allocFuncSymbol type).2.1 x = mem x := by
  have hret := @header_add type ptr
  have hrear := @rear_eq type ptr size
  rw [mallocHelper_entry hindex hinsert]
  dsimp only
  rw [write_outside (by rw [leBytes_length]; omega), write_outside (by rw [leBytes_length]; omega),
    write_outside (by rw [leBytes_length]; omega)]

theorem leBytes_zero {n : Nat} (hn : n % 2 ^ 32 = 0) : ∀ byte ∈ leBytes 4 n, byte = 0 := by
  have hbyte {m : Nat} (hm : m % 256 = 0) : UInt8.ofNat m = 0 := by
    apply UInt8.toNat_inj.mp
    simp [hm]
  simp only [leBytes, List.mem_cons, List.not_mem_nil, or_false]
  rintro byte (rfl | rfl | rfl | rfl)
  · exact hbyte (by omega)
  · exact hbyte (by omega)
  · exact hbyte (by omega)
  · exact hbyte (by omega)

variable {request : Request} {p : Nat} {fresh : Store} {a : Live}

/-- A new allocation: its caller gets `user`. -/
def newLive (request : Request) (size p user : Nat) (allocFuncSymbol : BitVec 64)
    (index : Option Nat) : Live where
  block := ⟨p, (allocType size).totalSize size, request.virtual⟩
  user
  size
  allocFuncSymbol
  index

def State.allocated (s : State) (msm : Manager) (mem : Store) (a : Live) : State :=
  { s with msm, mem, blocks := a.block :: s.blocks, live := a :: s.live }

def allocMem (s : State) (request : Request) (size p : Nat) (allocFuncSymbol : BitVec 64)
    (fresh : Store) : Store :=
  (mallocHelper s.msm (fill ⟨p, (allocType size).totalSize size, request.virtual⟩ request.zeroing
    fresh s.mem) p size allocFuncSymbol (allocType size)).2.1

theorem allocMem_outside (hx : x < p ∨ p + (allocType size).totalSize size ≤ x) :
    allocMem s request size p allocFuncSymbol fresh x = s.mem x := by
  rw [allocMem, mallocHelper_mem_outside hx, fill, if_neg]
  dsimp only
  omega

theorem State.alloc_full (hbytes : request.bytes kernel = some size)
    (hfull : s.msm.tableBitmap = 0) :
    s.alloc kernel request allocFuncSymbol (some p) fresh =
      (s.allocated s.msm (allocMem s request size p allocFuncSymbol fresh)
        (newLive request size p p allocFuncSymbol none), some p) := by
  have hinsert : s.msm.insertEntry p allocFuncSymbol ((allocType size).totalSize size)
      (allocType size) = (s.msm, entryIndexMax + 1) := by
    rw [Manager.insertEntry, if_pos hfull]
  simp only [State.alloc, hbytes, hinsert, allocMem, mallocHelper_full hfull]
  rw [if_pos (by decide)]
  rfl

theorem State.alloc_entry {msm' : Manager} {index : Nat} (hbytes : request.bytes kernel = some size)
    (hindex : index < entryIndexMax) (hinsert : s.msm.insertEntry p allocFuncSymbol
      ((allocType size).totalSize size) (allocType size) = (msm', index)) :
    s.alloc kernel request allocFuncSymbol (some p) fresh =
      (s.allocated msm' (allocMem s request size p allocFuncSymbol fresh)
        (newLive request size p ((allocType size).retPtr p) allocFuncSymbol (some index)),
        some ((allocType size).retPtr p)) := by
  simp only [State.alloc, hbytes, hinsert, allocMem, mallocHelper_entry hindex hinsert]
  rw [if_neg (by omega)]
  rfl

theorem Fits.allocated (h : Fits kernel s) (hgives : kernel.Gives s.blocks a.block)
    (htables : msm.Fits) (hcount : msm.tablesCount = s.msm.tablesCount)
    (hentry : ∀ index, (s.msm.entryAt index).pointer ≠ 0 →
      msm.entryAt index = s.msm.entryAt index)
    (hnew : ∀ index, msm.entryAt index ≠ s.msm.entryAt index → a.index = some index)
    (hmem : ∀ x, x < a.block.ptr ∨ a.block.ptr + a.block.total ≤ x → mem x = s.mem x)
    (ha : a.Fits kernel (s.allocated msm mem a)) : Fits kernel (s.allocated msm mem a) := by
  have hcapacity : msm.capacity = s.msm.capacity := by
    rw [Manager.capacity, hcount, Manager.capacity]
  have hgiven {b : Live} (hb : b ∈ s.live) : b.block ∈ s.blocks := by
    rw [h.blocks]
    exact List.mem_map_of_mem hb
  constructor
  · exact htables
  · intro b hb
    rcases List.mem_cons.mp hb with rfl | hb
    case inl => exact ha
    case inr =>
      have hbfits := h.live b hb
      apply hbfits.frame
      · exact hcapacity
      · intro index hindex
        apply hentry
        rw [(hbfits.monitored index hindex).entry]
        have hlow := hbfits.page_le
        dsimp only
        omega
      · intro x hlow hhigh _
        apply hmem
        rcases hgives.apart b.block (hgiven hb) with hapart | hapart
        · omega
        · omega
  · intro index hindex hpointer
    by_cases hsame : msm.entryAt index = s.msm.entryAt index
    · have hold : (s.msm.entryAt index).pointer ≠ 0 := hsame ▸ hpointer
      have hlt : index < s.msm.capacity := hcapacity ▸ hindex
      obtain ⟨b, hb, hsome⟩ := h.entries index hlt hold
      exact ⟨b, List.mem_cons_of_mem a hb, hsome⟩
    · exact ⟨a, List.mem_cons_self, hnew index hsame⟩
  · exact congrArg (a.block :: ·) h.blocks
  · apply List.pairwise_cons.mpr
    refine ⟨?_, h.apart⟩
    intro b hb
    exact hgives.apart b.block (hgiven hb)
  · exact h.reports

theorem Fits.alloc_full (h : Fits kernel s)
    (hgives : kernel.Gives s.blocks ⟨p, (allocType size).totalSize size, request.virtual⟩) :
    Fits kernel (s.allocated s.msm (allocMem s request size p allocFuncSymbol fresh)
      (newLive request size p p allocFuncSymbol none)) := by
  apply h.allocated hgives h.tables rfl
  · intro index _
    rfl
  · intro index hne
    exact absurd rfl hne
  · intro x hx
    exact allocMem_outside hx
  · refine ⟨rfl, hgives.addresses, fun _ => rfl, ?_⟩
    intro index hindex
    exact absurd hindex.symm (Option.some_ne_none index)

theorem Fits.alloc_entry {msm' : Manager} {index : Nat} (h : Fits kernel s)
    (hgives : kernel.Gives s.blocks ⟨p, (allocType size).totalSize size, request.virtual⟩)
    (hinsert : s.msm.insertEntry p allocFuncSymbol ((allocType size).totalSize size)
      (allocType size) = (msm', index))
    (hinserted : Inserted s.msm msm' ⟨p, allocFuncSymbol, allocType size,
      (allocType size).totalSize size % 2 ^ 32⟩ index) :
    Fits kernel (s.allocated msm' (allocMem s request size p allocFuncSymbol fresh)
      (newLive request size p ((allocType size).retPtr p) allocFuncSymbol (some index))) := by
  have hlt := (h.tables.index_lt hinserted.inside).1
  apply h.allocated hgives hinserted.fits hinserted.count
  · intro k hpointer
    rw [hinserted.entries k, if_neg]
    intro hk
    exact hpointer (hk ▸ hinserted.free)
  · intro k hne
    by_cases hk : k = index
    · exact congrArg some hk.symm
    · exact absurd ((hinserted.entries k).trans (if_neg hk)) hne
  · intro x hx
    exact allocMem_outside hx
  · refine ⟨rfl, hgives.addresses, ?_, ?_⟩
    · intro hnone
      exact absurd hnone (Option.some_ne_none index)
    · intro k hk
      cases Option.some.inj hk
      have hret := @header_add (allocType size) p
      have hrear := @rear_eq (allocType size) p size
      have hmem : allocMem s request size p allocFuncSymbol fresh = _ :=
        congrArg (fun result => result.2.1) (mallocHelper_entry hlt hinsert)
      constructor
      · rfl
      · show index < msm'.tablesCount * _
        rw [hinserted.count]
        exact hinserted.inside
      · exact (hinserted.entries index).trans (if_pos rfl)
      · show ofLe (read (allocMem s request size p allocFuncSymbol fresh)
          ((allocType size).header p) 4) = _
        rw [hmem]
        dsimp only
        rw [read_write_outside (by omega), read_write_outside (by omega),
          read_write_self (leBytes_length _ _), ofLe_leBytes]
        rfl
      · show ofLe (read (allocMem s request size p allocFuncSymbol fresh)
          ((allocType size).header p + 4) 4) = index
        rw [hmem]
        dsimp only
        rw [read_write_self (leBytes_length _ _), ofLe_leBytes]
        apply Nat.mod_eq_of_lt
        simp only [entryIndexMax] at hlt
        omega
      · show ofLe (read (allocMem s request size p allocFuncSymbol fresh)
          ((allocType size).rear p size) 8) = allocFuncSymbol.toNat
        rw [hmem]
        dsimp only
        rw [read_write_outside (by rw [leBytes_length]; omega),
          read_write_self (leBytes_length _ _), ofLe_leBytes]
        exact Nat.mod_eq_of_lt allocFuncSymbol.isLt

theorem Fits.alloc_entry_zero {msm' : Manager} {index : Nat} (h : Fits kernel s)
    (hzeroing : request.zeroing = true)
    (hinsert : s.msm.insertEntry p allocFuncSymbol ((allocType size).totalSize size)
      (allocType size) = (msm', index))
    (hinside : index < s.msm.capacity)
    (hx : (allocType size).retPtr p ≤ x ∧ x < (allocType size).retPtr p + size) :
    allocMem s request size p allocFuncSymbol fresh x = 0 := by
  have hret := @header_add (allocType size) p
  have hheader := @le_header (allocType size) p
  have hrear := @rear_le (allocType size) p size
  rw [allocMem, mallocHelper_mem_buffer (h.tables.index_lt hinside).1 hinsert hx, fill, if_pos]
  · simp [hzeroing]
  · dsimp only
    omega

theorem alloc_full_zero (hzeroing : request.zeroing = true) (hfull : s.msm.tableBitmap = 0)
    (hsize : size = 0 ∨ (allocType size).totalSize size % 2 ^ 32 = 0)
    (hx : p ≤ x ∧ x < p + size) : allocMem s request size p allocFuncSymbol fresh x = 0 := by
  have hret := @header_add (allocType size) p
  have hheader := @le_header (allocType size) p
  have hrear := @rear_eq (allocType size) p size
  have hend := @rear_le (allocType size) p size
  have htotal := hsize.resolve_left (by omega)
  have hfill : fill ⟨p, (allocType size).totalSize size, request.virtual⟩ request.zeroing fresh
      s.mem x = 0 := by
    rw [fill, if_pos]
    · simp [hzeroing]
    · dsimp only
      omega
  rw [allocMem, mallocHelper_full hfull]
  dsimp only
  rw [write_outside (by omega)]
  by_cases hin : (allocType size).header p ≤ x ∧ x < (allocType size).header p + 4
  · obtain ⟨k, hk⟩ := Nat.exists_eq_add_of_le hin.1
    have hlt : k < (leBytes 4 ((allocType size).totalSize size)).length := by
      rw [leBytes_length]
      omega
    rw [hk, write_inside hlt]
    exact leBytes_zero htotal _ (List.getElem_mem hlt)
  · rw [write_outside (by rw [leBytes_length]; omega)]
    exact hfill

end Alloc

section Free

variable {kernel : Kernel} {s : State} {a : Live} {index : Nat}

theorem Fits.freed (h : Fits kernel s) (ha : a ∈ s.live) {msm : Manager} (htables : msm.Fits)
    (hcount : msm.tablesCount = s.msm.tablesCount)
    (hentries : ∀ k, msm.entryAt k = if a.index = some k then .zero else s.msm.entryAt k)
    (released : List (FreeFn × Nat)) : Fits kernel
      { s with
        msm
        blocks := s.blocks.filter fun b => b.ptr ≠ a.block.ptr
        live := s.live.filter fun b => b.user ≠ a.user
        released } := by
  have hcapacity : msm.capacity = s.msm.capacity := by
    rw [Manager.capacity, hcount, Manager.capacity]
  have hother {b : Live} (hb : b ∈ s.live.filter fun b => b.user ≠ a.user) :
      b ∈ s.live ∧ b ≠ a := by
    obtain ⟨hmem, hne⟩ := List.mem_filter.mp hb
    refine ⟨hmem, ?_⟩
    intro heq
    exact absurd (congrArg Live.user heq) (of_decide_eq_true hne)
  constructor
  · exact htables
  · intro b hb
    obtain ⟨hmem, hne⟩ := hother hb
    apply (h.live b hmem).frame
    · exact hcapacity
    · intro k hk
      show msm.entryAt k = s.msm.entryAt k
      rw [hentries k, if_neg]
      intro hak
      -- two allocations with one entry have one block
      have hbentry := ((h.live b hmem).monitored k hk).entry
      have haentry := ((h.live a ha).monitored k hak).entry
      have hptr : b.block.ptr = a.block.ptr :=
        congrArg Entry.pointer (hbentry.symm.trans haentry)
      have hbin := (h.live b hmem).inside
      have hain := (h.live a ha).inside
      exact hne (h.eq_of_address hmem ha (x := a.block.ptr) (by omega) (by omega))
    · intro x _ _ _
      rfl
  · intro k hk hpointer
    have hne : a.index ≠ some k := by
      intro hak
      apply hpointer
      show (msm.entryAt k).pointer = 0
      rw [hentries k, if_pos hak]
      rfl
    have hold : (s.msm.entryAt k).pointer ≠ 0 := by
      intro hzero
      apply hpointer
      show (msm.entryAt k).pointer = 0
      rw [hentries k, if_neg hne]
      exact hzero
    obtain ⟨b, hb, hsome⟩ := h.entries k (hcapacity ▸ hk) hold
    refine ⟨b, List.mem_filter.mpr ⟨hb, ?_⟩, hsome⟩
    apply decide_eq_true
    intro huser
    exact hne (h.eq_of_user hb ha huser ▸ hsome)
  · show s.blocks.filter _ = (s.live.filter _).map Live.block
    rw [h.blocks, List.filter_map]
    congr 1
    apply List.filter_congr
    intro b hb
    apply decide_eq_decide.mpr
    apply not_congr
    have hbin := (h.live b hb).inside
    have hain := (h.live a ha).inside
    constructor
    · intro hptr
      exact congrArg Live.user
        (h.eq_of_address hb ha (x := a.block.ptr) (by omega) (by omega))
    · intro huser
      exact congrArg (fun b => b.block.ptr) (h.eq_of_user hb ha huser)
  · exact h.apart.filter _
  · exact h.reports

theorem Fits.free_monitored (h : Fits kernel s) (ha : a ∈ s.live) (hindex : a.index = some index)
    (htotal : a.block.total < 2 ^ 32) : s.freeHelper kernel a.user true =
      ({ s with msm := s.msm.removeEntry index }, some a.block.ptr) := by
  have hfits := h.live a ha
  have hmonitored := hfits.monitored index hindex
  have hinside := hfits.inside
  have hlow := hfits.page_le
  have hvalid := hfits.valid (x := a.user) (by omega) (by omega)
  have hret := @header_add a.type a.block.ptr
  have hheader : a.user - headerSize = a.type.header a.block.ptr := by
    rw [hmonitored.user, ← hret]
    rfl
  have hptr : a.type.allocPtr a.user = a.block.ptr := by
    rw [hmonitored.user, allocPtr_retPtr]
  -- the size in the entry leads to the mark behind the buffer
  have hrear : a.type.entryRear a.block.ptr (a.block.total % 2 ^ 32) =
      a.type.rear a.block.ptr a.size := by
    rw [Nat.mod_eq_of_lt htotal, hfits.total, entryRear_totalSize]
  simp only [State.freeHelper, hvalid, hheader, hmonitored.size, hmonitored.header,
    h.tables.getEntryByIndex hmonitored.inside, hmonitored.entry, Bool.not_true, Bool.false_eq_true,
    if_false, ne_eq, not_true_eq_false, hptr, hrear, hmonitored.rear]
  rw [if_neg (by omega)]

section Checktable

variable {p : Nat}

theorem foldl_stay {α β : Type} {f : β → α → β} {st : β} {xs : List α}
    (hstay : ∀ x ∈ xs, f st x = st) : xs.foldl f st = st := by
  induction xs with
  | nil => rfl
  | cons x xs ih =>
    rw [List.foldl_cons, hstay x List.mem_cons_self]
    exact ih fun y hy => hstay y (List.mem_cons_of_mem x hy)

theorem Fits.freeByChecktable (h : Fits kernel s) (ha : a ∈ s.live) (hraw : a.index = none) :
    s.freeByChecktable kernel a.user =
      s.release (if a.block.virtual then .vfree else .kfree) a.block.ptr := by
  have hfits := h.live a ha
  have hinside := hfits.inside
  have huser := hfits.raw hraw
  have hfold : (List.range s.msm.tablesCount).foldl (checktableTable kernel a.user) (s, false) =
      (s, false) := by
    apply foldl_stay
    intro t ht
    rw [checktableTable, if_neg Bool.false_ne_true]
    apply foldl_stay
    intro row hrow
    rw [checktableRow]
    split
    case isTrue => rfl
    case isFalse =>
      apply foldl_stay
      intro col hcol
      have hne : a.user ≠ ((s.msm.tables t).entries (row * tableCol + col)).type.retPtr
          ((s.msm.tables t).entries (row * tableCol + col)).pointer := by
        have hplace : t * (tableRow * tableCol) + (row * tableCol + col) < s.msm.capacity := by
          simp only [List.mem_range, Manager.capacity, tableRow, tableCol] at *
          omega
        have hnot := h.not_entry ha hraw hplace
        have hdiv : (t * (tableRow * tableCol) + (row * tableCol + col)) /
            (tableRow * tableCol) = t := by
          simp only [List.mem_range, tableRow, tableCol] at *
          omega
        have hmod : (t * (tableRow * tableCol) + (row * tableCol + col)) %
            (tableRow * tableCol) = row * tableCol + col := by
          simp only [List.mem_range, tableRow, tableCol] at *
          omega
        rw [Manager.entryAt, hdiv, hmod] at hnot
        exact hnot.symm
      simp only [checktableEntry]
      rw [if_neg hne]
      split <;> rfl
  simp only [State.freeByChecktable, hfold, Bool.false_eq_true, if_false,
    hfits.freeFn (x := a.user) (by omega) (by omega)]
  rw [huser]

theorem Fits.free_raw (h : Fits kernel s) (ha : a ∈ s.live) (hraw : a.index = none)
    (accessible : Bool) : s.freeHelper kernel a.user accessible =
      (s.release (if a.block.virtual then .vfree else .kfree) a.block.ptr, none) := by
  have hfits := h.live a ha
  have hinside := hfits.inside
  have hlow := hfits.page_le
  have hvalid := hfits.valid (x := a.user) (by omega) (by omega)
  have hsearch := h.freeByChecktable ha hraw
  rw [State.freeHelper, if_neg (by omega), hvalid, if_neg Bool.false_ne_true]
  cases accessible with
  | false => exact congrArg (·, none) hsearch
  | true =>
    dsimp only
    rw [if_neg (by decide)]
    split
    case h_1 => exact congrArg (·, none) hsearch
    case h_2 entry hsome =>
      obtain ⟨k, hk, hentry⟩ := Manager.getEntryByIndex_some hsome
      have hnot := h.not_entry ha hraw hk
      rw [← hentry] at hnot
      split
      case isTrue => exact congrArg (·, none) hsearch
      case isFalse =>
        split
        case isTrue => exact congrArg (·, none) hsearch
        case isFalse hptr =>
          have hsame : entry.type.allocPtr a.user = entry.pointer := not_not.mp hptr
          refine absurd ?_ hnot
          rw [← hsame]
          apply retPtr_allocPtr
          omega

end Checktable

end Free

/-- The steps that keep the promise: a zeroing allocation finds a free entry (or writes no size into
the buffer), no monitored block of 2^32 bytes or more is freed, and the check runs while the
monitored blocks are below that size and in the first table. -/
def Meets (kernel : Kernel) (s : State) : Label → Prop
  | .alloc request _ ptr _ => request.zeroing = true → ptr ≠ none →
      ∀ size, request.bytes kernel = some size →
        s.msm.tableBitmap ≠ 0 ∨ size = 0 ∨ (allocType size).totalSize size % 2 ^ 32 = 0
  | .free _ p _ => ∀ a ∈ s.live, a.user = p → a.index ≠ none → a.block.total < 2 ^ 32
  | .write _ _ => True
  | .rest _ => True
  | .check => ∀ a ∈ s.live, ∀ index, a.index = some index →
      index < tableRow * tableCol ∧ a.block.total < 2 ^ 32

/-- A new allocation: a buffer of the size in a block of its own, zeroed if it should be; the other
buffers and entries stay. -/
structure Served (s t : State) (request : Request) (size p : Nat) (a : Live) : Prop where
  live : t.live = a :: s.live
  block : a.block = ⟨p, (allocType size).totalSize size, request.virtual⟩
  blocks : t.blocks = a.block :: s.blocks
  bytes : a.size = size
  zeroed : request.zeroing = true → ∀ i < size, t.mem (a.user + i) = 0
  mem : ∀ b ∈ s.live, ∀ i < b.size, t.mem (b.user + i) = s.mem (b.user + i)
  entries : ∀ k, t.msm.entryAt k ≠ s.msm.entryAt k → a.index = some k
  released : t.released = s.released

/-- The free of an allocation: its block is released, by a free of its family, and its entry
removed; no other block, allocation or entry is. -/
structure Freed (s t : State) (a : Live) : Prop where
  live : ∀ b, b ∈ t.live ↔ b ∈ s.live ∧ b ≠ a
  blocks : ∀ b, b ∈ t.blocks ↔ b ∈ s.blocks ∧ b ≠ a.block
  released : ∃ fn : FreeFn, fn.virtual = a.block.virtual ∧
    t.released = s.released ++ [(fn, a.block.ptr)]
  entries : ∀ k, t.msm.entryAt k = if a.index = some k then .zero else s.msm.entryAt k
  mem : t.mem = s.mem

def Serves (kernel : Kernel) (s : State) (label : Label) (t : State) : Prop :=
  match label with
  | .alloc request allocFuncSymbol ptr fresh =>
    ((request.bytes kernel = none ∨ ptr = none) ∧ t = s ∧
      (s.alloc kernel request allocFuncSymbol ptr fresh).2 = none) ∨
    ∃ size p a, request.bytes kernel = some size ∧ ptr = some p ∧
      (s.alloc kernel request allocFuncSymbol ptr fresh).2 = some a.user ∧
      Served s t request size p a
  | .free _ p _ => (p = 0 ∧ t = s) ∨ ∃ a ∈ s.live, a.user = p ∧ Freed s t a
  | .write _ _ => t = { s with mem := t.mem }
  | .rest _ => t = { s with mem := t.mem }
  | .check => t = s ∧ s.overflowCnt = 0

/-- What a state promises: buffers in blocks of their own, bitmaps that mark what is not live, and
no warnings, also not at the end when nothing monitored is live. -/
structure Sound (s : State) : Prop where
  inside : ∀ a ∈ s.live, a.block ∈ s.blocks ∧ a.block.ptr ≤ a.user ∧
    a.user + a.size ≤ a.block.ptr + a.block.total
  apart : ∀ a ∈ s.live, ∀ b ∈ s.live, a ≠ b →
    a.user + a.size ≤ b.user ∨ b.user + b.size ≤ a.user
  entries : ∀ a ∈ s.live, ∀ index, a.index = some index → index < s.msm.capacity ∧
    (s.msm.entryAt index).pointer = a.block.ptr
  col : ∀ t < s.msm.tablesCount, ∀ i < tableRow, ∀ j < tableCol,
    ((s.msm.tables t).colBitmap i).getLsbD j = true ↔
      ∀ a ∈ s.live, a.index ≠ some (t * (tableRow * tableCol) + i * tableCol + j)
  row : ∀ t < s.msm.tablesCount, ∀ i < tableRow, (s.msm.tables t).rowBitmap.getLsbD i = true ↔
    ∃ j < tableCol, ∀ a ∈ s.live, a.index ≠ some (t * (tableRow * tableCol) + i * tableCol + j)
  table : ∀ t < tableMax, s.msm.tableBitmap.getLsbD t = true ↔ t < s.msm.tablesCount ∧
    ∃ i < tableRow, ∃ j < tableCol,
      ∀ a ∈ s.live, a.index ≠ some (t * (tableRow * tableCol) + i * tableCol + j)
  reports : s.reports = []
  fini : (∀ a ∈ s.live, a.index = none) → s.finiReports = []

section Steps

variable {kernel : Kernel} {s t : State} {a : Live}

theorem Fits.free_iff (h : Fits kernel s) {index : Nat} (hindex : index < s.msm.capacity) :
    (s.msm.entryAt index).pointer = 0 ↔ ∀ a ∈ s.live, a.index ≠ some index := by
  constructor
  · intro hzero a ha hsome
    have hmonitored := (h.live a ha).monitored index hsome
    have hlow := (h.live a ha).page_le
    rw [hmonitored.entry] at hzero
    dsimp only at hzero
    omega
  · intro hnone
    by_contra hpointer
    obtain ⟨a, ha, hsome⟩ := h.entries index hindex hpointer
    exact hnone a ha hsome

theorem place_lt {msm : Manager} {t i j : Nat} (ht : t < msm.tablesCount) (hi : i < tableRow)
    (hj : j < tableCol) : t * (tableRow * tableCol) + i * tableCol + j < msm.capacity := by
  simp only [Manager.capacity, tableRow, tableCol] at *
  omega

theorem Table.mem_visit {α : Type} {table : Table} {found : Entry → Nat → α} {x : α}
    (hx : x ∈ table.visit found) :
    ∃ index < tableRow * tableCol, x = found (table.entries index) index := by
  rw [Table.visit, List.mem_flatMap] at hx
  obtain ⟨row, hrow, hx⟩ := hx
  split at hx
  case isTrue => exact absurd hx List.not_mem_nil
  case isFalse =>
    rw [List.mem_flatMap] at hx
    obtain ⟨col, hcol, hx⟩ := hx
    split at hx
    case isTrue => exact absurd hx List.not_mem_nil
    case isFalse =>
      refine ⟨row * tableCol + col, ?_, List.mem_singleton.mp hx⟩
      simp only [List.mem_range, tableRow, tableCol] at *
      omega

theorem Manager.entryAt_place (msm : Manager) {t index : Nat}
    (hindex : index < tableRow * tableCol) :
    msm.entryAt (t * (tableRow * tableCol) + index) = (msm.tables t).entries index := by
  have hdiv : (t * (tableRow * tableCol) + index) / (tableRow * tableCol) = t := by
    simp only [tableRow, tableCol] at *
    omega
  have hmod : (t * (tableRow * tableCol) + index) % (tableRow * tableCol) = index := by
    simp only [tableRow, tableCol] at *
    omega
  rw [Manager.entryAt, hdiv, hmod]

theorem Fits.finiReports (h : Fits kernel s) (hnone : ∀ a ∈ s.live, a.index = none) :
    s.finiReports = [] := by
  rw [State.finiReports, List.flatten_eq_nil_iff]
  intro found hfound
  rw [List.mem_flatMap] at hfound
  obtain ⟨t, ht, hfound⟩ := hfound
  obtain ⟨index, hindex, hentry⟩ := Table.mem_visit hfound
  have hplace : t * (tableRow * tableCol) + index < s.msm.capacity := by
    simp only [List.mem_range, Manager.capacity, tableRow, tableCol] at *
    omega
  have hzero : (s.msm.entryAt (t * (tableRow * tableCol) + index)).pointer = 0 := by
    apply (h.free_iff hplace).mpr
    intro a ha hsome
    exact Option.some_ne_none _ (hsome.symm.trans (hnone a ha))
  rw [s.msm.entryAt_place hindex] at hzero
  rw [hentry, checkOverflow, if_pos hzero, checkMemleak, if_pos hzero]
  rfl

theorem Fits.overflows (h : Fits kernel s) (hmeets : Meets kernel s .check) :
    ∀ found ∈ s.overflows, found = [] := by
  intro found hfound
  rw [State.overflows, List.mem_flatMap] at hfound
  obtain ⟨t, ht, hfound⟩ := hfound
  obtain ⟨index, hindex, hentry⟩ := Table.mem_visit hfound
  have hplace : t * (tableRow * tableCol) + index < s.msm.capacity := by
    simp only [List.mem_range, Manager.capacity, tableRow, tableCol] at *
    omega
  rw [hentry, ← s.msm.entryAt_place hindex]
  by_cases hpointer : (s.msm.entryAt (t * (tableRow * tableCol) + index)).pointer = 0
  · rw [checkOverflow, if_pos hpointer]
  · obtain ⟨a, ha, hsome, hmonitored, -⟩ := h.entry_user hplace hpointer
    obtain ⟨hfirst, htotal⟩ := hmeets a ha _ hsome
    have hheader := hmonitored.header
    have hlocal : t * (tableRow * tableCol) + index = index := by
      simp only [tableRow, tableCol] at *
      omega
    have hrear : a.type.entryRear a.block.ptr (a.block.total % 2 ^ 32) =
        a.type.rear a.block.ptr a.size := by
      rw [Nat.mod_eq_of_lt htotal, (h.live a ha).total, entryRear_totalSize]
    rw [checkOverflow, if_neg hpointer, hmonitored.entry]
    dsimp only
    rw [hmonitored.size, hmonitored.header, hrear, hmonitored.rear, hlocal]
    simp

theorem Fits.sound (h : Fits kernel s) : Sound s := by
  have hfree {t i j : Nat} (ht : t < s.msm.tablesCount) (hi : i < tableRow) (hj : j < tableCol) :=
    h.free_iff (place_lt ht hi hj)
  constructor
  · intro a ha
    have hinside := (h.live a ha).inside
    refine ⟨?_, hinside.1, by omega⟩
    rw [h.blocks]
    exact List.mem_map_of_mem ha
  · intro a ha b hb hne
    have hain := (h.live a ha).inside
    have hbin := (h.live b hb).inside
    rcases h.apart_of_ne ha hb hne with hab | hba
    · omega
    · omega
  · intro a ha index hsome
    have hmonitored := (h.live a ha).monitored index hsome
    exact ⟨hmonitored.inside, congrArg Entry.pointer hmonitored.entry⟩
  · intro t ht i hi j hj
    exact (h.tables.col_iff ht hi hj).trans (hfree ht hi hj)
  · intro t ht i hi
    apply (h.tables.row_iff ht hi).trans
    apply exists_congr
    intro j
    exact and_congr_right fun hj => hfree ht hi hj
  · intro t ht
    apply (h.tables.table_iff ht).trans
    apply and_congr_right
    intro hcount
    apply exists_congr
    intro i
    apply and_congr_right
    intro hi
    apply exists_congr
    intro j
    exact and_congr_right fun hj => hfree hcount hi hj
  · exact h.reports
  · exact h.finiReports

theorem Fits.withMem (h : Fits kernel s) {mem : Store}
    (hmem : ∀ a ∈ s.live, ∀ x, a.block.ptr ≤ x → x < a.block.ptr + a.block.total →
      (x < a.user ∨ a.user + a.size ≤ x) → mem x = s.mem x) :
    Fits kernel { s with mem } := by
  refine ⟨h.tables, ?_, h.entries, h.blocks, h.apart, h.reports⟩
  intro a ha
  apply (h.live a ha).frame
  · rfl
  · intro index _
    rfl
  · exact hmem a ha

theorem Fits.step_write (h : Fits kernel s) {addr : Nat} {byte : UInt8}
    (hstep : Step kernel s (.write addr byte) t) :
    Fits kernel t ∧ Serves kernel s (.write addr byte) t := by
  obtain ⟨⟨a, ha, hin⟩, rfl⟩ := hstep
  refine ⟨?_, rfl⟩
  apply h.withMem
  intro b hb x hlow hhigh hout
  apply Function.update_of_ne
  rintro rfl
  have hinside := (h.live a ha).inside
  have heq := h.eq_of_address ha hb (x := x) (by omega) (by omega)
  subst heq
  omega

theorem Fits.step_rest (h : Fits kernel s) {mem : Store}
    (hstep : Step kernel s (.rest mem) t) : Fits kernel t ∧ Serves kernel s (.rest mem) t := by
  obtain ⟨hsame, rfl⟩ := hstep
  refine ⟨?_, rfl⟩
  apply h.withMem
  intro a ha x hlow hhigh _
  apply hsame a.block
  · rw [h.blocks]
    exact List.mem_map_of_mem ha
  · exact hlow
  · exact hhigh

theorem Fits.step_check (h : Fits kernel s) (hmeets : Meets kernel s .check)
    (hstep : Step kernel s .check t) : Fits kernel t ∧ Serves kernel s .check t := by
  have hnothing := h.overflows hmeets
  have hflatten : s.overflows.flatten = [] := List.flatten_eq_nil_iff.mpr hnothing
  have hsame : t = s := by
    rw [Step, hflatten, List.append_nil] at hstep
    exact hstep
  refine ⟨hsame ▸ h, hsame, ?_⟩
  rw [State.overflowCnt, List.countP_eq_zero]
  intro found hfound
  rw [hnothing found hfound]
  decide

theorem Fits.serves_free (h : Fits kernel s) (ha : a ∈ s.live) {msm : Manager} (fn : FreeFn)
    (hfn : fn.virtual = a.block.virtual) (htables : msm.Fits)
    (hcount : msm.tablesCount = s.msm.tablesCount)
    (hentries : ∀ k, msm.entryAt k = if a.index = some k then .zero else s.msm.entryAt k)
    (ht : t = { s with
      msm
      blocks := s.blocks.filter fun b => b.ptr ≠ a.block.ptr
      live := s.live.filter fun b => b.user ≠ a.user
      released := s.released ++ [(fn, a.block.ptr)] }) : Fits kernel t ∧ Freed s t a := by
  have hain := (h.live a ha).inside
  subst ht
  refine ⟨h.freed ha htables hcount hentries _, ?_, ?_, ⟨fn, hfn, rfl⟩, hentries, rfl⟩
  · intro b
    rw [List.mem_filter]
    apply and_congr_right
    intro hb
    rw [decide_eq_true_iff]
    apply not_congr
    constructor
    · exact fun huser => h.eq_of_user hb ha huser
    · exact fun heq => congrArg Live.user heq
  · intro b
    rw [List.mem_filter]
    apply and_congr_right
    intro hb
    rw [decide_eq_true_iff]
    apply not_congr
    constructor
    · intro hptr
      rw [h.blocks] at hb
      obtain ⟨c, hc, rfl⟩ := List.mem_map.mp hb
      have hcin := (h.live c hc).inside
      exact congrArg Live.block
        (h.eq_of_address hc ha (x := a.block.ptr) (by omega) (by omega))
    · exact fun heq => congrArg Block.ptr heq

theorem Fits.step_free (h : Fits kernel s) {fn : FreeFn} {p : Nat} {accessible : Bool}
    (hmeets : Meets kernel s (.free fn p accessible))
    (hstep : Step kernel s (.free fn p accessible) t) :
    Fits kernel t ∧ Serves kernel s (.free fn p accessible) t := by
  obtain ⟨hcaller, haccessible, ht⟩ := hstep
  by_cases hp : p = 0
  · have hlive : s.live.filter (fun a => a.user ≠ p) = s.live := by
      apply List.filter_eq_self.mpr
      intro a ha
      have hlow := (h.live a ha).page_le
      have hinside := (h.live a ha).inside
      apply decide_eq_true
      omega
    have hsame : t = s := by
      rw [ht]
      simp only [State.free, State.freeHelper, if_pos hp, hlive]
    exact ⟨hsame ▸ h, .inl ⟨hp, hsame⟩⟩
  · obtain ⟨a, ha, rfl, hfn⟩ := hcaller.resolve_left hp
    have hfits := h.live a ha
    have hinside := hfits.inside
    cases hindex : a.index with
    | some index =>
      have hmonitored := hfits.monitored index hindex
      have htotal := hmeets a ha rfl (by rw [hindex]; exact Option.some_ne_none index)
      have hheader := @le_header a.type a.block.ptr
      have hret := @header_add a.type a.block.ptr
      have huser := hmonitored.user
      have hprobe : accessible = true := by
        apply haccessible
        refine ⟨a.block, ?_, ?_, by omega⟩
        · rw [h.blocks]
          exact List.mem_map_of_mem ha
        · simp only [headerSize]
          omega
      have hremoved := h.tables.removeEntry hmonitored.inside
      have hboth := h.serves_free ha fn hfn.symm hremoved.fits hremoved.count
        (t := t) (by
          intro k
          rw [hremoved.entries k, hindex]
          simp only [Option.some.injEq, eq_comm]) (by
          rw [ht, hprobe]
          simp only [State.free, h.free_monitored ha hindex htotal]
          rfl)
      exact ⟨hboth.1, .inr ⟨a, ha, rfl, hboth.2⟩⟩
    | none =>
      have hboth := h.serves_free ha (if a.block.virtual then .vfree else .kfree)
        (by cases a.block.virtual <;> rfl) h.tables rfl (t := t) (by
          intro k
          rw [hindex, if_neg]
          exact (Option.some_ne_none k).symm) (by
          rw [ht]
          simp only [State.free, h.free_raw ha hindex]
          rfl)
      exact ⟨hboth.1, .inr ⟨a, ha, rfl, hboth.2⟩⟩

theorem Fits.mem_buffer (h : Fits kernel s) {b : Live} (hb : b ∈ s.live) {block : Block}
    (hgives : kernel.Gives s.blocks block) {mem : Store}
    (hmem : ∀ x, x < block.ptr ∨ block.ptr + block.total ≤ x → mem x = s.mem x) {i : Nat}
    (hi : i < b.size) : mem (b.user + i) = s.mem (b.user + i) := by
  have hinside := (h.live b hb).inside
  have hgiven : b.block ∈ s.blocks := by
    rw [h.blocks]
    exact List.mem_map_of_mem hb
  apply hmem
  rcases hgives.apart b.block hgiven with hapart | hapart
  · omega
  · omega

theorem Fits.step_alloc (h : Fits kernel s) {request : Request} {allocFuncSymbol : BitVec 64}
    {ptr : Option Nat} {fresh : Store}
    (hmeets : Meets kernel s (.alloc request allocFuncSymbol ptr fresh))
    (hstep : Step kernel s (.alloc request allocFuncSymbol ptr fresh) t) :
    Fits kernel t ∧ Serves kernel s (.alloc request allocFuncSymbol ptr fresh) t := by
  obtain ⟨hgives, ht⟩ := hstep
  cases hbytes : request.bytes kernel with
  | none =>
    have hnone : s.alloc kernel request allocFuncSymbol ptr fresh = (s, none) := by
      simp only [State.alloc, hbytes]
    rw [hnone] at ht
    exact ⟨ht ▸ h, .inl ⟨.inl hbytes, ht, congrArg Prod.snd hnone⟩⟩
  | some size =>
    cases ptr with
    | none =>
      have hnone : s.alloc kernel request allocFuncSymbol none fresh = (s, none) := by
        simp only [State.alloc, hbytes]
      rw [hnone] at ht
      exact ⟨ht ▸ h, .inl ⟨.inr rfl, ht, congrArg Prod.snd hnone⟩⟩
    | some p =>
      have hgives := hgives size p hbytes rfl
      by_cases hfull : s.msm.tableBitmap = 0
      case pos =>
        rw [State.alloc_full hbytes hfull] at ht
        refine ⟨ht ▸ h.alloc_full hgives, .inr ⟨size, p,
          newLive request size p p allocFuncSymbol none, hbytes, rfl,
          congrArg Prod.snd (State.alloc_full hbytes hfull), ?_⟩⟩
        rw [ht]
        refine ⟨rfl, rfl, rfl, rfl, ?_, ?_, fun k hne => absurd rfl hne, rfl⟩
        · intro hzeroing i hi
          have hsize := (hmeets hzeroing (Option.some_ne_none p) size hbytes).resolve_left
            (not_not.mpr hfull)
          apply alloc_full_zero hzeroing hfull hsize
          exact ⟨Nat.le_add_right p i, Nat.add_lt_add_left hi p⟩
        · intro b hb i hi
          exact h.mem_buffer hb hgives (fun x hx => allocMem_outside hx) hi
      case neg =>
        have hsize := @size_le (allocType size) size
        have hpage := kernel.page_le hgives.addresses (by dsimp only; omega)
        have hinserted := h.tables.insertEntry hfull (show p ≠ 0 by dsimp only at hpage; omega)
          allocFuncSymbol ((allocType size).totalSize size) (allocType size)
        cases hinsert : s.msm.insertEntry p allocFuncSymbol ((allocType size).totalSize size)
            (allocType size) with
        | mk msm' index =>
          rw [hinsert] at hinserted
          have hlt := (h.tables.index_lt hinserted.inside).1
          rw [State.alloc_entry hbytes hlt hinsert] at ht
          refine ⟨ht ▸ h.alloc_entry hgives hinsert hinserted, .inr ⟨size, p,
            newLive request size p ((allocType size).retPtr p) allocFuncSymbol (some index), hbytes,
            rfl, congrArg Prod.snd (State.alloc_entry hbytes hlt hinsert), ?_⟩⟩
          rw [ht]
          refine ⟨rfl, rfl, rfl, rfl, ?_, ?_, ?_, rfl⟩
          · intro hzeroing i hi
            apply h.alloc_entry_zero hzeroing hinsert hinserted.inside
            exact ⟨Nat.le_add_right _ i, Nat.add_lt_add_left hi _⟩
          · intro b hb i hi
            exact h.mem_buffer hb hgives (fun x hx => allocMem_outside hx) hi
          · intro k hne
            by_cases hk : k = index
            · exact congrArg some hk.symm
            · exact absurd ((hinserted.entries k).trans (if_neg hk)) hne

theorem Fits.step (h : Fits kernel s) {label : Label} (hmeets : Meets kernel s label)
    (hstep : Step kernel s label t) : Fits kernel t ∧ Serves kernel s label t := by
  cases label with
  | alloc request allocFuncSymbol ptr fresh => exact h.step_alloc hmeets hstep
  | free fn p accessible => exact h.step_free hmeets hstep
  | write addr byte => exact h.step_write hstep
  | rest mem => exact h.step_rest hstep
  | check => exact h.step_check hmeets hstep

theorem fits_initial (kernel : Kernel) (hs : Initial s) : Fits kernel s := by
  obtain ⟨mem, rfl⟩ := hs
  refine ⟨initManager_fits, ?_, ?_, rfl, .nil, rfl⟩
  · intro a ha
    exact absurd ha List.not_mem_nil
  · intro index _ hpointer
    exact absurd (congrArg Entry.pointer (initManager_entryAt index)) hpointer

/-- The sentinel over all runs. -/
theorem sentinel_sound (run : Run Initial (Step kernel) (Meets kernel) s) :
    Sound s ∧ ∀ label t, Meets kernel s label → Step kernel s label t →
      Serves kernel s label t := by
  have hfits : Fits kernel s := run.invariant (Fits kernel) (fun _ hs => fits_initial kernel hs)
    (fun _ _ _ h hmeets hstep => (h.step hmeets hstep).1)
  exact ⟨hfits.sound, fun _ _ hmeets hstep => (hfits.step hmeets hstep).2⟩

end Steps

section Examples

theorem exampleKernel_apart (a : Nat) (h : decide (2 ^ 40 ≤ a) = true) :
    decide (4096 ≤ a ∧ a < 2 ^ 40) = false := by
  have hle := of_decide_eq_true h
  apply decide_eq_false
  omega

theorem exampleKernel_nullPage (a : Nat) (h : a < 4096) :
    decide (4096 ≤ a ∧ a < 2 ^ 40) = false ∧ decide (2 ^ 40 ≤ a) = false := by
  constructor
  · apply decide_eq_false
    omega
  · apply decide_eq_false
    omega

def exampleKernel : Kernel where
  virtAddrValid a := decide (4096 ≤ a ∧ a < 2 ^ 40)
  isVmallocRange a := decide (2 ^ 40 ≤ a)
  totalRam := 2 ^ 33
  apart := exampleKernel_apart
  nullPage := exampleKernel_nullPage

def exampleState : State := ⟨initManager, fun _ => 0, [], [], [], []⟩

theorem exampleKernel_gives {blocks : List Block} {b : Block} (hkind : b.virtual = false)
    (hlow : 4096 ≤ b.ptr) (hhigh : b.ptr + b.total ≤ 2 ^ 40) (hapart : ∀ c ∈ blocks, b.Apart c) :
    exampleKernel.Gives blocks b := by
  refine ⟨hapart, fun a hfrom hto => ?_⟩
  rw [hkind]
  apply decide_eq_true
  omega

/-- Two buffers; a byte of the second one is written, and the first one is freed. -/
theorem sentinel_sound_kzalloc : ∃ s, s.live.map Live.size = [32] ∧ s.released.length = 1 ∧
    Sound s := by
  have start : Run Initial (Step exampleKernel) (Meets exampleKernel) exampleState :=
    .start ⟨_, rfl⟩
  have first : Run Initial (Step exampleKernel) (Meets exampleKernel) _ :=
    .next (.alloc (.kzalloc 16) 1 (some 8192) fun _ => 7) start (fun _ _ _ _ => .inl (by decide))
      ⟨fun size p hbytes hp => by
        cases hbytes
        cases hp
        exact exampleKernel_gives rfl (by decide) (by decide) nofun, rfl⟩
  have second : Run Initial (Step exampleKernel) (Meets exampleKernel) _ :=
    .next (.alloc (.kzalloc 32) 1 (some 16384) fun _ => 7) first
      (fun _ _ _ _ => .inl (by decide +kernel))
      ⟨fun size p hbytes hp => by
        cases hbytes
        cases hp
        refine exampleKernel_gives rfl (by decide) (by decide) fun c hc => ?_
        cases List.mem_singleton.mp hc
        exact .inr (by decide), rfl⟩
  have written : Run Initial (Step exampleKernel) (Meets exampleKernel) _ :=
    .next (.write 16400 5) second trivial ⟨⟨_, List.mem_cons_self, by decide +kernel⟩, rfl⟩
  have freed : Run Initial (Step exampleKernel) (Meets exampleKernel) _ :=
    .next (.free .kfree 8200 true) written
      (fun a ha _ _ => (by decide +kernel : ∀ a ∈ _, a.block.total < 2 ^ 32) a ha)
      ⟨.inr ⟨_, List.mem_cons_of_mem _ List.mem_cons_self, by decide +kernel⟩, fun _ => rfl, rfl⟩
  exact ⟨_, by decide +kernel, by decide +kernel, (sentinel_sound freed).1⟩

/-- `vmalloc` of 4 GiB less 16 bytes: with the marks the block has 2^32 bytes. -/
def vmallocLabel : Label := .alloc (.vmalloc (2 ^ 32 - 16)) 1 (some (2 ^ 41)) fun _ => 0

theorem sentinel_vmalloc : ¬ ∀ (kernel : Kernel) (s : State),
    Run Initial (Step kernel) always s → Sound s ∧ ∀ label t, Step kernel s label t →
      Serves kernel s label t := by
  intro hall
  have hgives : exampleKernel.Gives [] ⟨2 ^ 41, 2 ^ 32, true⟩ := by
    constructor
    · intro c hc
      exact absurd hc List.not_mem_nil
    · intro a hlow _
      apply decide_eq_true
      dsimp only at hlow
      omega
  have fired : Step exampleKernel exampleState vmallocLabel
      (exampleState.alloc exampleKernel (.vmalloc (2 ^ 32 - 16)) 1 (some (2 ^ 41))
        fun _ => 0).1 := by
    refine ⟨?_, rfl⟩
    intro size p hbytes hp
    cases Option.some.inj hbytes
    cases Option.some.inj hp
    exact hgives
  have allocated : Run Initial (Step exampleKernel) always _ :=
    .next vmallocLabel (.start ⟨_, rfl⟩) trivial fired
  have checked := Run.next Label.check allocated trivial rfl
  have hreports := (hall exampleKernel _ checked).1.reports
  have hempty := congrArg List.isEmpty hreports
  exact absurd hempty (by decide +kernel)

end Examples

end MxGpu.Sentinel
