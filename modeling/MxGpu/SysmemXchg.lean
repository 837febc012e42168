import Mathlib.Algebra.Group.Nat.Defs
import Mathlib.Data.List.Basic
import Mathlib.Logic.Function.Basic
import MxGpu.CritRegion

/- The region in a guest's memory that a VF shares with the host (`gim_shim/gim_os_service.c`): its
addresses are translated once, and reads and writes go through the pieces that were found. -/
namespace MxGpu.SysmemXchg

open Function List

def pageSize : Nat := 4096

/-- `struct folio`, as its page frame number and its size. -/
structure Folio where
  pfn : Nat
  size : Nat

/-- The IOMMU's translations, zero where there is none, and the folio that a frame is in. -/
structure Kernel where
  iovaToPhys : Nat → Nat
  pfnValid : Nat → Bool
  pageFolio : Nat → Folio
  narrow : ∀ gpa, iovaToPhys gpa ≠ 0 → gpa < 2 ^ 63
  inside : ∀ pfn, pfnValid pfn = true → (pageFolio pfn).pfn ≤ pfn ∧
    (pfn + 1) * pageSize ≤ (pageFolio pfn).pfn * pageSize + (pageFolio pfn).size ∧
      (pageFolio pfn).pfn * pageSize + (pageFolio pfn).size < 2 ^ 63

structure GpaChunk where
  folio : Folio
  offset : Nat
  size : Nat

/-- Where a chunk begins; `gim_vf_sysmem_xchg_gpa_to_spa` hands it out with the size. -/
def GpaChunk.base (c : GpaChunk) : Nat := c.folio.pfn * pageSize + c.offset

/-- The rest of the folio from an address on. -/
def Kernel.chunk (k : Kernel) (gpa : Nat) : GpaChunk :=
  let phys := k.iovaToPhys gpa
  let folio := k.pageFolio (phys / pageSize)
  let offset := phys - folio.pfn * pageSize
  ⟨folio, offset, folio.size - offset⟩

/-- An address that is translated, to a frame that there is. -/
def Kernel.Usable (k : Kernel) (gpa : Nat) : Prop :=
  k.iovaToPhys gpa ≠ 0 ∧ k.pfnValid (k.iovaToPhys gpa / pageSize) = true

instance (k : Kernel) (gpa : Nat) : Decidable (k.Usable gpa) :=
  inferInstanceAs (Decidable (_ ∧ _))

/-- `gim_init_gpa_chunks`; `allocated` says for which chunks there is memory. -/
def initGpaChunks (k : Kernel) (allocated : Nat → Bool) (endGpa : Nat) :
    Nat → Nat → Nat → Option (List GpaChunk)
  | 0, _, currentGpa => if currentGpa < endGpa then none else some []
  | fuel + 1, idx, currentGpa =>
    if currentGpa < endGpa then
      if k.Usable currentGpa ∧ allocated idx then
        let chunk := k.chunk currentGpa
        let nextGpa := (currentGpa + chunk.size) % 2 ^ 64
        let size := if endGpa < nextGpa then endGpa - currentGpa else chunk.size
        (initGpaChunks k allocated endGpa fuel (idx + 1) nextGpa).map
          ({ chunk with size := size } :: ·)
      else none
    else some []

structure GpaAccessCtx where
  size : BitVec 32
  chunks : List GpaChunk

/-- `gim_init_vf_sysmem_xchg`, for a VF with a device in a domain. -/
def initVfSysmemXchg (k : Kernel) (allocated : Nat → Bool) (gpaBase : BitVec 64)
    (size : BitVec 32) : Option GpaAccessCtx :=
  (initGpaChunks k allocated (gpaBase + size.setWidth 64).toNat size.toNat 0 gpaBase.toNat).map
    fun chunks => ⟨size, chunks⟩

/-- One `memcpy`: a place in the buffer, an address, and a length. -/
structure Piece where
  copied : Nat
  mapped : Nat
  length : Nat

/-- The loop over the pages of a chunk. -/
def copyPages (chunk : GpaChunk) : Nat → Nat → Nat → Nat → List Piece
  | 0, _, _, _ => []
  | fuel + 1, copied, chunkOffset, copySize =>
    if copySize = 0 then []
    else
      let pageOffset := (chunk.offset + chunkOffset) % pageSize
      let pageCopy := min copySize (pageSize - pageOffset)
      ⟨copied, chunk.base + chunkOffset, pageCopy⟩ ::
        copyPages chunk fuel (copied + pageCopy) (chunkOffset + pageCopy) (copySize - pageCopy)

/-- The loop of `gim_access_vf_sysmem_xchg`: what it copies, and how many bytes that is. No sum
reaches `2 ^ 32`, as the chunks are no larger than the region. -/
def accessChunks (offset size : Nat) : List GpaChunk → Nat → Nat → List Piece × Nat
  | [], _, copied => ([], copied)
  | chunk :: rest, currentOffset, copied =>
    if currentOffset + chunk.size ≤ offset then
      accessChunks offset size rest (currentOffset + chunk.size) copied
    else
      let chunkOffset := if currentOffset < offset then offset - currentOffset else 0
      let copySize := min (size - copied) (chunk.size - chunkOffset)
      let pieces := copyPages chunk copySize copied chunkOffset copySize
      if size ≤ copied + copySize then (pieces, copied + copySize)
      else
        let further := accessChunks offset size rest (currentOffset + chunk.size)
          (copied + copySize)
        (pieces ++ further.1, further.2)

/-- The bytes of some copies: the place in the buffer and the address of each. -/
def bytes (pieces : List Piece) : List (Nat × Nat) :=
  pieces.flatMap fun p => (range p.length).map fun i => (p.copied + i, p.mapped + i)

/-- `gim_write_vf_sysmem_xchg`; the result is whether it returns 0. -/
def writeVfSysmemXchg (ctx : GpaAccessCtx) (memory buf : Nat → UInt8)
    (offset size : BitVec 32) : Bool × (Nat → UInt8) :=
  if ctx.size < offset + size then (false, memory)
  else
    let access := accessChunks offset.toNat size.toNat ctx.chunks 0 0
    (access.2 == size.toNat,
      (bytes access.1).foldl (fun m b => update m b.2 (buf b.1)) memory)

def readVfSysmemXchg (ctx : GpaAccessCtx) (memory buf : Nat → UInt8)
    (offset size : BitVec 32) : Bool × (Nat → UInt8) :=
  if ctx.size < offset + size then (false, buf)
  else
    let access := accessChunks offset.toNat size.toNat ctx.chunks 0 0
    (access.2 == size.toNat,
      (bytes access.1).foldl (fun b byte => update b byte.1 (memory byte.2)) buf)

/-- `amdgv_vfmgr_copy_to_vf_xchg_table` where guests share their memory; the region takes an
offset of 32 bits. -/
def copyToVfXchgTable (entry : Crit.Device) (gpaCtx : Option GpaAccessCtx) (memory : Nat → UInt8)
    (tableId : Crit.TableId) (offsetInTable : BitVec 64) (buf : Nat → UInt8) (size : BitVec 32) :
    Bool × (Nat → UInt8) :=
  match gpaCtx with
  | none => (false, memory)
  | some ctx =>
    writeVfSysmemXchg ctx memory buf ((entry.tableOffset tableId + offsetInTable).setWidth 32) size

/-- `amdgv_vfmgr_copy_from_vf_xchg_table`, likewise. -/
def copyFromVfXchgTable (entry : Crit.Device) (gpaCtx : Option GpaAccessCtx)
    (memory : Nat → UInt8) (tableId : Crit.TableId) (offsetInTable : BitVec 64)
    (buf : Nat → UInt8) (size : BitVec 32) : Bool × (Nat → UInt8) :=
  match gpaCtx with
  | none => (false, buf)
  | some ctx =>
    readVfSysmemXchg ctx memory buf ((entry.tableOffset tableId + offsetInTable).setWidth 32) size

/-- The address of a byte of the region. -/
def spaOf : List GpaChunk → Nat → Nat
  | [], _ => 0
  | chunk :: rest, x => if x < chunk.size then chunk.base + x else spaOf rest (x - chunk.size)

def total (chunks : List GpaChunk) : Nat := (chunks.map (·.size)).sum

section Access

variable {chunk : GpaChunk} {chunks : List GpaChunk} {offset size copied : Nat}

theorem total_nil : total [] = 0 := rfl

theorem total_cons (chunk : GpaChunk) (rest : List GpaChunk) :
    total (chunk :: rest) = chunk.size + total rest := sum_cons

theorem range_split {a b : Nat} (le : a ≤ b) :
    range b = range a ++ (range (b - a)).map (a + ·) := by
  rw [← range_add, Nat.add_sub_cancel' le]

theorem bytes_cons (p : Piece) (pieces : List Piece) : bytes (p :: pieces) =
    (range p.length).map (fun i => (p.copied + i, p.mapped + i)) ++ bytes pieces := rfl

theorem bytes_append (first second : List Piece) :
    bytes (first ++ second) = bytes first ++ bytes second := flatMap_append

theorem bytes_copyPages {fuel copySize : Nat} (enough : copySize ≤ fuel)
    (copied chunkOffset : Nat) :
    bytes (copyPages chunk fuel copied chunkOffset copySize) =
      (range copySize).map fun i => (copied + i, chunk.base + chunkOffset + i) := by
  induction fuel generalizing copied chunkOffset copySize with
  | zero =>
    have none : copySize = 0 := by omega
    subst none
    rfl
  | succ fuel ih =>
    unfold copyPages
    split
    case isTrue none =>
      subst none
      rfl
    case isFalse some =>
      have inPage : (chunk.offset + chunkOffset) % pageSize < pageSize :=
        Nat.mod_lt _ (by decide)
      dsimp only
      rw [bytes_cons, ih (by omega),
        range_split (Nat.min_le_left copySize (pageSize - (chunk.offset + chunkOffset) % pageSize)),
        map_append, map_map]
      simp only [comp_def, Nat.add_assoc]

theorem accessChunks_spec (currentOffset : Nat) (upTo : copied ≤ size)
    (place : currentOffset ≤ offset ∧ copied = 0 ∨ currentOffset = offset + copied) :
    let n := min size (currentOffset + total chunks - offset)
    (accessChunks offset size chunks currentOffset copied).2 = n ∧
      bytes (accessChunks offset size chunks currentOffset copied).1 =
        (range (n - copied)).map fun i =>
          (copied + i, spaOf chunks (offset + (copied + i) - currentOffset)) := by
  induction chunks generalizing currentOffset copied with
  | nil =>
    have none : min size (currentOffset + 0 - offset) = copied := by omega
    rw [total_nil]
    simp only [none, Nat.sub_self]
    exact ⟨rfl, rfl⟩
  | cons chunk rest ih =>
    rw [total_cons, ← Nat.add_assoc]
    unfold accessChunks
    dsimp only
    split
    case isTrue before =>
      have none : copied = 0 := by omega
      obtain ⟨count, moved⟩ := ih (currentOffset + chunk.size) upTo (.inl ⟨before, none⟩)
      refine ⟨count, moved.trans (map_congr_left fun i inside => ?_)⟩
      congr 1
      rw [spaOf, if_neg (by omega)]
      congr 1
      omega
    case isFalse within =>
      have start : (if currentOffset < offset then offset - currentOffset else 0) =
          offset + copied - currentOffset := by
        split <;> omega
      rw [start]
      obtain ⟨taken, least⟩ : ∃ taken, taken =
        min (size - copied) (chunk.size - (offset + copied - currentOffset)) := ⟨_, rfl⟩
      rw [← least]
      have here : bytes (copyPages chunk taken copied (offset + copied - currentOffset) taken) =
          (range taken).map fun i =>
            (copied + i, spaOf (chunk :: rest) (offset + (copied + i) - currentOffset)) := by
        rw [bytes_copyPages (Nat.le_refl taken)]
        apply map_congr_left
        intro i inside
        rw [mem_range] at inside
        rw [spaOf, if_pos (by omega)]
        exact Prod.ext rfl (by dsimp only; omega)
      split
      case isTrue last =>
        have all : min size (currentOffset + chunk.size + total rest - offset) =
            copied + taken := by
          omega
        rw [all, Nat.add_sub_cancel_left]
        exact ⟨rfl, here⟩
      case isFalse more =>
        obtain ⟨count, moved⟩ := @ih (copied + taken) (currentOffset + chunk.size) (by omega)
          (.inr (by omega))
        refine ⟨count, ?_⟩
        rw [bytes_append, here, moved, range_split (by omega : taken ≤ _ - copied), map_append,
          map_map, Nat.sub_add_eq]
        congr 1
        apply map_congr_left
        intro i _
        have next : offset + (copied + taken + i) - (currentOffset + chunk.size) =
            offset + (copied + (taken + i)) - currentOffset - chunk.size := by
          omega
        rw [comp_apply, spaOf, if_neg (by omega), next, Nat.add_assoc]

end Access

section Init

variable {k : Kernel} {allocated : Nat → Bool}

theorem Kernel.Usable.chunk_spec {gpa : Nat} (usable : k.Usable gpa) :
    (k.chunk gpa).base = k.iovaToPhys gpa ∧ 0 < (k.chunk gpa).size ∧
      k.iovaToPhys gpa + (k.chunk gpa).size < 2 ^ 63 ∧
      (gpa + (k.chunk gpa).size) % 2 ^ 64 = gpa + (k.chunk gpa).size := by
  have narrow := k.narrow gpa usable.1
  obtain ⟨first, last, small⟩ := k.inside _ usable.2
  have low : (k.pageFolio (k.iovaToPhys gpa / pageSize)).pfn * pageSize ≤ k.iovaToPhys gpa :=
    Nat.le_trans (Nat.mul_le_mul_right _ first) (Nat.div_mul_le_self ..)
  have page : k.iovaToPhys gpa < (k.iovaToPhys gpa / pageSize + 1) * pageSize := by
    unfold pageSize
    omega
  unfold GpaChunk.base Kernel.chunk
  dsimp only
  omega

theorem initGpaChunks_isSome {endGpa fuel idx currentGpa : Nat}
    (enough : endGpa ≤ currentGpa + fuel)
    (usable : ∀ gpa, currentGpa ≤ gpa → gpa < endGpa → k.Usable gpa)
    (memory : ∀ idx, allocated idx = true) :
    (initGpaChunks k allocated endGpa fuel idx currentGpa).isSome = true := by
  induction fuel generalizing idx currentGpa with
  | zero =>
    rw [initGpaChunks, if_neg (by omega)]
    rfl
  | succ fuel ih =>
    unfold initGpaChunks
    split
    case isFalse => rfl
    case isTrue inside =>
      have here := usable currentGpa (Nat.le_refl _) inside
      obtain ⟨_, further, _, next⟩ := here.chunk_spec
      rw [if_pos ⟨here, memory idx⟩, Option.isSome_map, next]
      exact ih (by omega) fun gpa low => usable gpa (by omega)

theorem initGpaChunks_spec {endGpa fuel idx currentGpa : Nat} {chunks : List GpaChunk}
    (done : initGpaChunks k allocated endGpa fuel idx currentGpa = some chunks)
    (together : ∀ gpa x, currentGpa ≤ gpa → gpa + x < endGpa → x < (k.chunk gpa).size →
      k.iovaToPhys (gpa + x) = k.iovaToPhys gpa + x) :
    total chunks = endGpa - currentGpa ∧
      (∀ x, currentGpa + x < endGpa → spaOf chunks x = k.iovaToPhys (currentGpa + x)) ∧
      ∀ chunk ∈ chunks, chunk.base + chunk.size < 2 ^ 63 := by
  induction fuel generalizing idx currentGpa chunks with
  | zero =>
    unfold initGpaChunks at done
    split at done
    · cases done
    · cases done
      exact ⟨by rw [total_nil]; omega, fun x _ => by omega, nofun⟩
  | succ fuel ih =>
    unfold initGpaChunks at done
    split at done
    case isFalse ended =>
      cases done
      exact ⟨by rw [total_nil]; omega, fun x _ => by omega, nofun⟩
    case isTrue inside =>
      split at done
      case isFalse => cases done
      case isTrue usable =>
        obtain ⟨rest, later, rfl⟩ := Option.map_eq_some_iff.mp done
        obtain ⟨base, _, small, next⟩ := usable.1.chunk_spec
        rw [next] at later ⊢
        obtain ⟨sum, image, below⟩ := ih later fun gpa x low => together gpa x (by omega)
        refine ⟨?_, fun x within => ?_, fun chunk listed => ?_⟩
        · rw [total_cons, sum]
          dsimp only
          split <;> omega
        · have here : ∀ y < (k.chunk currentGpa).size, currentGpa + y < endGpa →
              (k.chunk currentGpa).base + y = k.iovaToPhys (currentGpa + y) := by
            intro y short last
            rw [base, together currentGpa y (Nat.le_refl _) last short]
          unfold spaOf
          dsimp only
          by_cases cut : endGpa < currentGpa + (k.chunk currentGpa).size
          · rw [if_pos cut, if_pos (by omega)]
            exact here x (by omega) within
          · rw [if_neg cut]
            by_cases first : x < (k.chunk currentGpa).size
            · rw [if_pos first]
              exact here x first within
            · have at_ : currentGpa + (k.chunk currentGpa).size + (x - (k.chunk currentGpa).size) =
                  currentGpa + x := by
                omega
              rw [if_neg first, image _ (by omega), at_]
        · rcases mem_cons.mp listed with rfl | later
          · change (k.chunk currentGpa).base + _ < _
            dsimp only
            split <;> omega
          · exact below chunk later

end Init

section Exchange

variable {k : Kernel} {allocated : Nat → Bool} {gpaBase : BitVec 64} {size : BitVec 32}
  {ctx : GpaAccessCtx}

/-- A region in a guest's memory: as far as the folio of one of its addresses goes on, so do the
addresses, and each byte has its own. -/
structure Shared (k : Kernel) (gpaBase : BitVec 64) (size : BitVec 32) : Prop where
  fits : gpaBase.toNat + size.toNat < 2 ^ 64
  together : ∀ gpa x, gpaBase.toNat ≤ gpa → gpa + x < gpaBase.toNat + size.toNat →
    x < (k.chunk gpa).size → k.iovaToPhys (gpa + x) = k.iovaToPhys gpa + x
  apart : ∀ x < size.toNat, ∀ y < size.toNat,
    k.iovaToPhys (gpaBase.toNat + x) = k.iovaToPhys (gpaBase.toNat + y) → x = y

theorem Shared.upTo (shared : Shared k gpaBase size) :
    (gpaBase + size.setWidth 64).toNat = gpaBase.toNat + size.toNat := by
  have wide := size.isLt
  rw [BitVec.toNat_add, BitVec.toNat_setWidth, Nat.mod_eq_of_lt (by omega : size.toNat < 2 ^ 64),
    Nat.mod_eq_of_lt shared.fits]

theorem init_isSome (shared : Shared k gpaBase size)
    (usable : ∀ x < size.toNat, k.Usable (gpaBase.toNat + x))
    (memory : ∀ idx, allocated idx = true) :
    (initVfSysmemXchg k allocated gpaBase size).isSome = true := by
  rw [initVfSysmemXchg, Option.isSome_map, shared.upTo]
  apply initGpaChunks_isSome (Nat.le_refl _) _ memory
  intro gpa low high
  have usable := usable (gpa - gpaBase.toNat) (by omega)
  rwa [Nat.add_sub_cancel' low] at usable

theorem ctx_spec (shared : Shared k gpaBase size)
    (ready : initVfSysmemXchg k allocated gpaBase size = some ctx) :
    ctx.size = size ∧ total ctx.chunks = size.toNat ∧
      (∀ x < size.toNat, spaOf ctx.chunks x = k.iovaToPhys (gpaBase.toNat + x)) ∧
      ∀ chunk ∈ ctx.chunks, chunk.base + chunk.size < 2 ^ 63 := by
  obtain ⟨chunks, found, rfl⟩ := Option.map_eq_some_iff.mp ready
  rw [shared.upTo] at found
  obtain ⟨sum, image, below⟩ := initGpaChunks_spec found shared.together
  exact ⟨rfl, by rw [sum, Nat.add_sub_cancel_left], fun x inside => image x (by omega), below⟩

theorem access_spec (shared : Shared k gpaBase size)
    (ready : initVfSysmemXchg k allocated gpaBase size = some ctx) (offset length : BitVec 32) :
    let access := accessChunks offset.toNat length.toNat ctx.chunks 0 0
    let n := min length.toNat (size.toNat - offset.toNat)
    access.2 = n ∧ bytes access.1 =
      (range n).map fun i => (i, k.iovaToPhys (gpaBase.toNat + (offset.toNat + i))) := by
  obtain ⟨_, sum, image, _⟩ := ctx_spec shared ready
  obtain ⟨count, moved⟩ := @accessChunks_spec ctx.chunks offset.toNat length.toNat 0 0
    (Nat.zero_le length.toNat) (.inl ⟨Nat.zero_le _, rfl⟩)
  rw [Nat.zero_add, sum] at count moved
  refine ⟨count, moved.trans (map_congr_left fun i inside => ?_)⟩
  rw [mem_range] at inside
  rw [Nat.zero_add, Nat.sub_zero, image _ (by omega)]

theorem foldl_update_of_ne {β : Type} {l : List β} {key : β → Nat} {value : β → UInt8} {x : Nat}
    (memory : Nat → UInt8) (none : ∀ b ∈ l, key b ≠ x) :
    l.foldl (fun m b => update m (key b) (value b)) memory x = memory x := by
  induction l generalizing memory with
  | nil => rfl
  | cons b rest ih =>
    rw [foldl_cons, ih _ fun b later => none b (mem_cons_of_mem _ later)]
    exact update_of_ne (none b mem_cons_self).symm ..

theorem foldl_update_mem {β : Type} {l : List β} {key : β → Nat} {value : β → UInt8} {b : β}
    (memory : Nat → UInt8) (apart : l.Pairwise fun b b' => key b ≠ key b') (listed : b ∈ l) :
    l.foldl (fun m b => update m (key b) (value b)) memory (key b) = value b := by
  induction l generalizing memory with
  | nil => cases listed
  | cons first rest ih =>
    obtain ⟨away, others⟩ := pairwise_cons.mp apart
    rw [foldl_cons]
    rcases mem_cons.mp listed with rfl | later
    · rw [foldl_update_of_ne _ fun b' later => (away b' later).symm]
      exact update_self ..
    · exact ih _ others later

/-- A folio of two pages and one of a single page that are the other way round in the host's
memory; the region below goes over three pages. -/
def swappedFolios : Kernel where
  iovaToPhys gpa :=
    if 0x1000 ≤ gpa ∧ gpa < 0x3000 then gpa + 0x8000
    else if 0x3000 ≤ gpa ∧ gpa < 0x4000 then gpa + 0x4000 else 0
  pfnValid pfn := pfn < 16
  pageFolio pfn := if pfn = 9 ∨ pfn = 10 then ⟨9, 2 * pageSize⟩ else ⟨pfn, pageSize⟩
  narrow gpa mapped := by
    split at mapped
    · omega
    · split at mapped <;> omega
  inside pfn valid := by
    rw [decide_eq_true_eq] at valid
    dsimp only [pageSize]
    split <;> dsimp only <;> omega

theorem swappedFolios_shared : Shared swappedFolios 0x1ff0 0x1020 := by
  refine ⟨by decide, ?_, ?_⟩
  · intro gpa x low high short
    simp only [swappedFolios, Kernel.chunk, pageSize, BitVec.reduceToNat] at low high short ⊢
    grind
  · intro x first y second same
    simp only [swappedFolios, BitVec.reduceToNat] at first second same
    grind

theorem swappedFolios_usable (x : Nat) (inside : x < (0x1020 : BitVec 32).toNat) :
    swappedFolios.Usable ((0x1ff0 : BitVec 64).toNat + x) := by
  simp only [Kernel.Usable, swappedFolios, pageSize, BitVec.reduceToNat, decide_eq_true_eq]
    at inside ⊢
  grind

theorem swappedFolios_ready :
    ∃ ctx, initVfSysmemXchg swappedFolios (fun _ => true) 0x1ff0 0x1020 = some ctx :=
  Option.isSome_iff_exists.mp (init_isSome swappedFolios_shared swappedFolios_usable fun _ => rfl)

theorem within_of_inside (shared : Shared k gpaBase size)
    (ready : initVfSysmemXchg k allocated gpaBase size = some ctx) {offset length : BitVec 32}
    (inside : offset.toNat + length.toNat ≤ size.toNat) : ¬ ctx.size < offset + length := by
  have bound := size.isLt
  rw [(ctx_spec shared ready).1, BitVec.lt_def, BitVec.toNat_add, Nat.mod_eq_of_lt (by omega)]
  omega

theorem write_inside (shared : Shared k gpaBase size)
    (ready : initVfSysmemXchg k allocated gpaBase size = some ctx) (memory buf : Nat → UInt8)
    {offset length : BitVec 32} (inside : offset.toNat + length.toNat ≤ size.toNat) {i : Nat}
    (short : i < length.toNat) : (writeVfSysmemXchg ctx memory buf offset length).2
      (k.iovaToPhys (gpaBase.toNat + (offset.toNat + i))) = buf i := by
  have moved := (access_spec shared ready offset length).2
  rw [Nat.min_eq_left (by omega)] at moved
  rw [writeVfSysmemXchg, if_neg (within_of_inside shared ready inside)]
  dsimp only
  rw [moved]
  refine foldl_update_mem memory ?_ (mem_map_of_mem (mem_range.mpr short))
  rw [pairwise_map]
  apply pairwise_lt_range.imp_of_mem
  intro x y low high lt same
  rw [mem_range] at low high
  have := shared.apart _ (by omega) _ (by omega) same
  omega

theorem read_inside (shared : Shared k gpaBase size)
    (ready : initVfSysmemXchg k allocated gpaBase size = some ctx) (memory buf : Nat → UInt8)
    {offset length : BitVec 32} (inside : offset.toNat + length.toNat ≤ size.toNat) {i : Nat}
    (short : i < length.toNat) : (readVfSysmemXchg ctx memory buf offset length).2 i =
      memory (k.iovaToPhys (gpaBase.toNat + (offset.toNat + i))) := by
  have moved := (access_spec shared ready offset length).2
  rw [Nat.min_eq_left (by omega)] at moved
  have listed := mem_map_of_mem
    (f := fun i => (i, k.iovaToPhys (gpaBase.toNat + (offset.toNat + i))))
    (mem_range.mpr short)
  rw [readVfSysmemXchg, if_neg (within_of_inside shared ready inside)]
  dsimp only
  rw [moved]
  refine foldl_update_mem buf ?_ listed
  rw [pairwise_map]
  exact pairwise_lt_range.imp Nat.ne_of_lt

theorem write_outside (shared : Shared k gpaBase size)
    (ready : initVfSysmemXchg k allocated gpaBase size = some ctx) (memory buf : Nat → UInt8)
    (offset length : BitVec 32) {spa : Nat} (other : ∀ x < size.toNat, offset.toNat ≤ x →
      x < offset.toNat + length.toNat → k.iovaToPhys (gpaBase.toNat + x) ≠ spa) :
    (writeVfSysmemXchg ctx memory buf offset length).2 spa = memory spa := by
  have moved := (access_spec shared ready offset length).2
  unfold writeVfSysmemXchg
  split
  · rfl
  · dsimp only
    rw [moved]
    apply foldl_update_of_ne
    intro b listed
    obtain ⟨i, inside, rfl⟩ := mem_map.mp listed
    rw [mem_range] at inside
    exact other _ (by omega) (by omega) (by omega)

/-- Whatever a call asks for, it succeeds if and only if that is inside the region; only the bytes
of the region that it asks for change, and no byte of the buffer behind as many. -/
theorem xchg_contained (shared : Shared k gpaBase size)
    (ready : initVfSysmemXchg k allocated gpaBase size = some ctx) (memory buf : Nat → UInt8)
    (offset length : BitVec 32) :
    let written := writeVfSysmemXchg ctx memory buf offset length
    let found := readVfSysmemXchg ctx memory buf offset length
    (written.1 = true ↔ offset.toNat + length.toNat ≤ size.toNat) ∧ found.1 = written.1 ∧
      (∀ spa, (∀ x < size.toNat, offset.toNat ≤ x → x < offset.toNat + length.toNat →
        k.iovaToPhys (gpaBase.toNat + x) ≠ spa) → written.2 spa = memory spa) ∧
      ∀ i, length.toNat ≤ i → found.2 i = buf i := by
  dsimp only
  obtain ⟨count, moved⟩ := access_spec shared ready offset length
  have bound := size.isLt
  refine ⟨?_, ?_, fun spa => write_outside shared ready memory buf offset length,
    fun i behind => ?_⟩
  · constructor
    · intro done
      unfold writeVfSysmemXchg at done
      split at done
      · cases done
      case isFalse within =>
        rw [(ctx_spec shared ready).1, BitVec.lt_def, BitVec.toNat_add] at within
        have all : _ = length.toNat := beq_iff_eq.mp done
        omega
    · intro inside
      rw [writeVfSysmemXchg, if_neg (within_of_inside shared ready inside), beq_iff_eq, count]
      omega
  · unfold writeVfSysmemXchg readVfSysmemXchg
    split <;> rfl
  · unfold readVfSysmemXchg
    split
    · rfl
    · dsimp only
      rw [moved]
      apply foldl_update_of_ne
      intro b listed
      obtain ⟨j, inside, rfl⟩ := mem_map.mp listed
      rw [mem_range] at inside
      dsimp only
      omega

theorem xchg_contained_swapped :
    ∃ ctx, initVfSysmemXchg swappedFolios (fun _ => true) 0x1ff0 0x1020 = some ctx ∧
      (∀ memory buf, (writeVfSysmemXchg ctx memory buf 8 0x1010).1 = true ∧
        (writeVfSysmemXchg ctx memory buf 8 0x1010).2 0x7008 = memory 0x7008) ∧
      ∀ memory buf, (writeVfSysmemXchg ctx memory buf 0x1f 0x1002).1 = false := by
  obtain ⟨ctx, ready⟩ := swappedFolios_ready
  refine ⟨ctx, ready, fun memory buf => ?_, fun memory buf => ?_⟩
  · have contained := xchg_contained swappedFolios_shared ready memory buf 8 0x1010
    refine ⟨contained.1.mpr (by decide), contained.2.2.1 _ fun x inside low high => ?_⟩
    simp only [swappedFolios, BitVec.reduceToNat] at inside low high ⊢
    grind
  · have contained := xchg_contained swappedFolios_shared ready memory buf 0x1f 0x1002
    exact Bool.eq_false_iff.mpr fun done => absurd (contained.1.mp done) (by decide)

/-- A region that the IOMMU maps is set up, and then every byte that is read or written inside it
comes from or goes to the address that the IOMMU has for it. -/
theorem xchg_exact (shared : Shared k gpaBase size)
    (usable : ∀ x < size.toNat, k.Usable (gpaBase.toNat + x))
    (memory : ∀ idx, allocated idx = true) :
    ∃ ctx, initVfSysmemXchg k allocated gpaBase size = some ctx ∧
      ∀ memory buf (offset length : BitVec 32), offset.toNat + length.toNat ≤ size.toNat →
        ∀ i < length.toNat,
          (writeVfSysmemXchg ctx memory buf offset length).2
              (k.iovaToPhys (gpaBase.toNat + (offset.toNat + i))) = buf i ∧
            (readVfSysmemXchg ctx memory buf offset length).2 i =
              memory (k.iovaToPhys (gpaBase.toNat + (offset.toNat + i))) := by
  obtain ⟨ctx, ready⟩ := Option.isSome_iff_exists.mp (init_isSome shared usable memory)
  exact ⟨ctx, ready, fun memory buf offset length inside i short =>
    ⟨write_inside shared ready memory buf inside short,
      read_inside shared ready memory buf inside short⟩⟩

theorem xchg_exact_swapped :
    ∃ ctx, initVfSysmemXchg swappedFolios (fun _ => true) 0x1ff0 0x1020 = some ctx ∧
      ∀ memory buf, (writeVfSysmemXchg ctx memory buf 8 0x1010).2 0xa018 = buf 0x20 ∧
        (readVfSysmemXchg ctx memory buf 8 0x1010).2 0x100f = memory 0x7007 := by
  obtain ⟨ctx, ready, moves⟩ :=
    @xchg_exact _ (fun _ => true) _ _ swappedFolios_shared swappedFolios_usable fun _ => rfl
  refine ⟨ctx, ready, fun memory buf => ?_⟩
  have moved := moves memory buf 8 0x1010 (by decide)
  have last : swappedFolios.iovaToPhys (0x1ff0 + (8 + 0x100f)) = 0x7007 := by decide
  exact ⟨(moved 0x20 (by decide)).1, last ▸ (moved 0x100f (by decide)).2⟩

/-- A write to a table and a read of any table are those of one memory: what was written where
the ranges meet, and what was there before everywhere else. -/
theorem tables_store (shared : Shared k gpaBase size)
    (ready : initVfSysmemXchg k allocated gpaBase size = some ctx) (entry : Crit.Device)
    (memory buf out : Nat → UInt8) {id other : Crit.TableId} {put got : BitVec 64}
    {length count : BitVec 32}
    (fits : (entry.tableOffset id).toNat + put.toNat + length.toNat ≤ size.toNat)
    (within : (entry.tableOffset other).toNat + got.toNat + count.toNat ≤ size.toNat) :
    let start := (entry.tableOffset id).toNat + put.toNat
    let place := (entry.tableOffset other).toNat + got.toNat
    ∀ i < count.toNat, (copyFromVfXchgTable entry (some ctx)
        (copyToVfXchgTable entry (some ctx) memory id put buf length).2 other got out count).2 i =
      if start ≤ place + i ∧ place + i < start + length.toNat then buf (place + i - start)
      else memory (k.iovaToPhys (gpaBase.toNat + (place + i))) := by
  intro start place i short
  have bound := size.isLt
  have at_ : ((entry.tableOffset id + put).setWidth 32).toNat = start := by
    rw [BitVec.toNat_setWidth, BitVec.toNat_add]
    omega
  have from' : ((entry.tableOffset other + got).setWidth 32).toNat = place := by
    rw [BitVec.toNat_setWidth, BitVec.toNat_add]
    omega
  unfold copyFromVfXchgTable copyToVfXchgTable
  dsimp only
  rw [read_inside shared ready _ out (from'.symm ▸ within) short, from']
  split
  case isTrue met =>
    have inside : ((entry.tableOffset id + put).setWidth 32).toNat + length.toNat ≤ size.toNat := by
      rw [at_]
      exact fits
    have written := write_inside shared ready memory buf inside
      (by omega : place + i - start < length.toNat)
    rwa [at_, Nat.add_sub_cancel' met.1] at written
  case isFalse apart =>
    apply write_outside shared ready
    rw [at_]
    intro x inside low high same
    have := shared.apart x inside _ (by omega) same
    omega

theorem tables_store_swapped :
    ∃ ctx, initVfSysmemXchg swappedFolios (fun _ => true) 0x1ff0 0x1020 = some ctx ∧
      ∀ memory buf out,
        let written := (copyToVfXchgTable (Crit.twoVfs.arrayVf 1) (some ctx) memory .ipd 0x100c
          buf 8).2
        let found := (copyFromVfXchgTable (Crit.twoVfs.arrayVf 1) (some ctx) written
          .badPageInfo 0x1008 out 16).2
        found 9 = buf 5 ∧ found 13 = memory 0x7005 := by
  obtain ⟨ctx, ready⟩ := swappedFolios_ready
  refine ⟨ctx, ready, fun memory buf out => ?_⟩
  have store := @tables_store _ _ _ _ _ swappedFolios_shared ready (Crit.twoVfs.arrayVf 1) memory
    buf out .ipd .badPageInfo 0x100c 0x1008 8 16 (by decide) (by decide)
  exact ⟨store 9 (by decide), store 13 (by decide)⟩

/-- What `gim_vf_sysmem_xchg_gpa_to_spa` answers for a chunk. -/
def GpaChunk.range (chunk : GpaChunk) : Crit.SpaRange :=
  ⟨BitVec.ofNat 64 chunk.base, BitVec.ofNat 64 chunk.size⟩

theorem checkChunks_iff (entry : Crit.Device) (errAddr cumulative : BitVec 64)
    {chunks : List GpaChunk} (below : ∀ chunk ∈ chunks, chunk.base + chunk.size < 2 ^ 63)
    (apart : ∀ x < total chunks, ∀ y < total chunks, spaOf chunks x = spaOf chunks y → x = y) :
    Crit.checkChunks entry errAddr (chunks.map GpaChunk.range) cumulative = true ↔
      ∃ x < total chunks, spaOf chunks x = errAddr.toNat ∧ ∃ id ∈ Crit.TableId.all,
        Crit.bpInRange (cumulative + BitVec.ofNat 64 x) (entry.tableOffset id)
          (entry.tableSize id) := by
  induction chunks generalizing cumulative with
  | nil => exact ⟨nofun, fun ⟨x, inside, _⟩ => (Nat.not_lt_zero x inside).elim⟩
  | cons chunk rest ih =>
    rw [total_cons] at apart ⊢
    have small := below chunk mem_cons_self
    have later (x : Nat) : spaOf (chunk :: rest) (chunk.size + x) = spaOf rest x := by
      rw [spaOf, if_neg (by omega), Nat.add_sub_cancel_left]
    have isIn : (errAddr ≥ chunk.range.base ∧ errAddr < chunk.range.base + chunk.range.size) ↔
        chunk.base ≤ errAddr.toNat ∧ errAddr.toNat < chunk.base + chunk.size := by
      simp only [ge_iff_le, BitVec.le_def, BitVec.lt_def, GpaChunk.range, BitVec.toNat_add,
        BitVec.toNat_ofNat]
      omega
    rw [map_cons, Crit.checkChunks]
    by_cases here : chunk.base ≤ errAddr.toNat ∧ errAddr.toNat < chunk.base + chunk.size
    · have place : errAddr - chunk.range.base = BitVec.ofNat 64 (errAddr.toNat - chunk.base) := by
        apply BitVec.eq_of_toNat_eq
        simp only [GpaChunk.range, BitVec.toNat_sub, BitVec.toNat_ofNat]
        omega
      have image : spaOf (chunk :: rest) (errAddr.toNat - chunk.base) = errAddr.toNat := by
        rw [spaOf, if_pos (by omega)]
        omega
      rw [if_pos (isIn.mpr here), place, any_eq_true]
      simp only [decide_eq_true_eq]
      constructor
      · intro met
        exact ⟨_, by omega, image, met⟩
      · rintro ⟨x, inside, same, met⟩
        rwa [apart x inside (errAddr.toNat - chunk.base) (by omega) (same.trans image.symm)] at met
    · rw [if_neg fun found => here (isIn.mp found),
        ih (cumulative + chunk.range.size) (fun c listed => below c (mem_cons_of_mem _ listed))
          fun x first y second same => by
            have := apart (chunk.size + x) (by omega) (chunk.size + y) (by omega)
              (by rw [later, later, same])
            omega]
      constructor
      · rintro ⟨x, inside, same, id, listed, met⟩
        refine ⟨chunk.size + x, by omega, by rw [later, same], id, listed, ?_⟩
        rwa [BitVec.ofNat_add, ← BitVec.add_assoc]
      · rintro ⟨x, inside, same, id, listed, met⟩
        have beyond : chunk.size ≤ x := by
          apply Nat.le_of_not_lt
          intro short
          rw [spaOf, if_pos short] at same
          exact here (by omega)
        obtain ⟨y, rfl⟩ := Nat.exists_eq_add_of_le beyond
        refine ⟨y, by omega, by rw [← later, same], id, listed, ?_⟩
        rwa [BitVec.ofNat_add, ← BitVec.add_assoc] at met

/-- With the ranges of the region, the host takes an address for one of a critical table if and
only if it is the address of a byte of the region, and the page from there on meets the table. -/
theorem checkChunks_region_iff (shared : Shared k gpaBase size)
    (ready : initVfSysmemXchg k allocated gpaBase size = some ctx) (entry : Crit.Device)
    (errAddr : BitVec 64) :
    Crit.checkChunks entry errAddr (ctx.chunks.map GpaChunk.range) 0 = true ↔
      ∃ x < size.toNat, k.iovaToPhys (gpaBase.toNat + x) = errAddr.toNat ∧
        ∃ id ∈ Crit.TableId.all,
          Crit.bpInRange (BitVec.ofNat 64 x) (entry.tableOffset id) (entry.tableSize id) := by
  obtain ⟨_, sum, image, below⟩ := ctx_spec shared ready
  rw [checkChunks_iff _ errAddr 0 below, sum]
  · simp only [BitVec.ofNat_eq_ofNat, BitVec.zero_add]
    constructor
    · rintro ⟨x, inside, same, met⟩
      exact ⟨x, inside, by rw [← image x inside, same], met⟩
    · rintro ⟨x, inside, same, met⟩
      exact ⟨x, inside, by rw [image x inside, same], met⟩
  · intro x first y second same
    rw [sum] at first second
    rw [image x first, image y second] at same
    exact shared.apart x first y second same

theorem checkChunks_region_swapped :
    ∃ ctx, initVfSysmemXchg swappedFolios (fun _ => true) 0x1ff0 0x1020 = some ctx ∧
      Crit.checkChunks (Crit.twoVfs.arrayVf 1) 0xafff (ctx.chunks.map GpaChunk.range) 0 = false ∧
      Crit.checkChunks (Crit.twoVfs.arrayVf 1) 0xa007 (ctx.chunks.map GpaChunk.range) 0 = true := by
  obtain ⟨ctx, ready⟩ := swappedFolios_ready
  refine ⟨ctx, ready, Bool.eq_false_iff.mpr fun found => ?_,
    (checkChunks_region_iff swappedFolios_shared ready _ _).mpr
      ⟨0x17, by decide, rfl, .ipd, mem_cons_self, by decide⟩⟩
  obtain ⟨x, inside, same, id, _, met⟩ :=
    (checkChunks_region_iff swappedFolios_shared ready _ _).mp found
  have place : x = 0x100f := by
    simp only [swappedFolios, BitVec.reduceToNat] at inside same
    grind
  subst place
  revert met
  cases id <;> decide

end Exchange

end MxGpu.SysmemXchg
